import Marquee.Extrusion
import Marquee.Proofs.Number.Numeral

/-!
# Fingerprints

A fingerprint is a record without commas in its fields, so it can be taken apart again at the
commas, and each field tells one parameter. A finite number is told from every other one. The
numbers that are not finite, both infinities and the one that is none, are all printed as
`null`; so parameters that differ in nothing but those share a fingerprint.

## Main statements

* `Json.Value.fields_of_compact` — records printed alike have fields printed alike;
* `Json.Value.compact_single_inj` — which numbers are printed alike;
* `Extrusion.fingerprint_eq_iff` — which parameters share a fingerprint;
* `Extrusion.fingerprint_injective` — finite parameters are told apart.
-/

namespace Marquee

open Number

namespace Json.Value

/-- A field as it is printed. -/
def field (f : String × Value) : String := quote f.1 ++ ":" ++ f.2.compact

/-- Fields are printed one by one. -/
theorem compactFields_eq_map (fields : List (String × Value)) :
    compactFields fields = fields.map field := by
  induction fields with
  | nil => rw [compactFields, List.map_nil]
  | cons f fields ih => rw [compactFields, List.map_cons, ih, field]

/-- A record is printed as its fields with commas between them. -/
theorem compact_record (fields : List (String × Value)) :
    (record fields).compact = "\x7b" ++ ",".intercalate (fields.map field) ++ "\x7d" := by
  rw [compact, compactFields_eq_map]

/-- Texts without commas are known from their list with commas between them. -/
theorem eq_of_intercalate {ss ts : List String} (hss : ∀ s ∈ ss, ',' ∉ s.toList)
    (hts : ∀ t ∈ ts, ',' ∉ t.toList) (hs : ss ≠ []) (ht : ts ≠ [])
    (h : ",".intercalate ss = ",".intercalate ts) : ss = ts := by
  have hsplit : ∀ us : List String, (∀ u ∈ us, ',' ∉ u.toList) → us ≠ [] →
      List.splitOn ',' (",".intercalate us).toList = us.map String.toList := by
    intro us hus hne
    rw [String.toList_intercalate]
    exact List.splitOn_intercalate ',' (List.forall_mem_map.2 hus) (by simpa using hne)
  have hlists : ss.map String.toList = ts.map String.toList := by
    rw [← hsplit ss hss hs, ← hsplit ts hts ht, h]
  exact List.map_injective_iff.2 (fun _ _ => String.toList_inj.1) hlists

/-- **Records printed alike** have fields printed alike, if there are no commas in them. -/
theorem fields_of_compact {fs gs : List (String × Value)} (hfs : ∀ f ∈ fs, ',' ∉ (field f).toList)
    (hgs : ∀ g ∈ gs, ',' ∉ (field g).toList) (hf : fs ≠ []) (hg : gs ≠ [])
    (h : (record fs).compact = (record gs).compact) : fs.map field = gs.map field := by
  rw [compact_record, compact_record, String.append_left_inj, String.append_right_inj] at h
  exact eq_of_intercalate (List.forall_mem_map.2 hfs) (List.forall_mem_map.2 hgs)
    (by simpa using hf) (by simpa using hg) h

/-! ### Values without commas -/

/-- No comma is printed in a value. -/
def IsPlain (v : Value) : Prop := ',' ∉ v.compact.toList

/-- A finite number is printed in digits. -/
theorem compact_single {x : Float32} (finite : x.isFinite) :
    (single x).compact = Layout.json.write x := by
  rw [single, if_pos finite, compact]

/-- A number that is not finite is printed as nothing, whichever it is. -/
theorem compact_single_of_not_isFinite {x : Float32} (infinite : ¬ x.isFinite) :
    (single x).compact = "null" := by
  rw [single, if_neg infinite, compact]

/-- A numeral has digits, points, exponents and signs only. -/
theorem not_mem_write {x : Float32} (finite : x.isFinite) {c : Char} (hdigit : c.isDigit = false)
    (hmark : c ∉ ['.', 'e', '+', '-']) : c ∉ (Layout.json.write x).toList := by
  intro hc
  rcases Layout.json.inNumeral_write finite c hc with digit | mark
  · exact absurd (hdigit.symm.trans digit) Bool.false_ne_true
  · exact hmark mark

/-- No comma is printed in a number. -/
theorem isPlain_single (x : Float32) : (single x).IsPlain := by
  rw [IsPlain]
  by_cases finite : x.isFinite
  · rw [compact_single finite]
    exact not_mem_write finite rfl (by decide)
  · rw [compact_single_of_not_isFinite finite]
    decide

/-- No comma is printed in a count. -/
theorem isPlain_whole (n : Nat) : (whole n).IsPlain := by
  rw [IsPlain, whole, compact, Nat.toString_eq_ofList_toDigits, String.toList_ofList]
  intro hcomma
  cases Literal.isDigit_toDigits n _ hcomma

/-- No comma is printed in a truth value. -/
theorem isPlain_boolean (b : Bool) : (boolean b).IsPlain := by
  cases b with
  | true => rw [IsPlain, compact]; decide
  | false => rw [IsPlain, compact]; decide

/-- No finite number is printed like one that is not: the first letter of `null` stands in no
numeral. -/
theorem compact_single_ne {x y : Float32} (finite : x.isFinite) (infinite : ¬ y.isFinite) :
    (single x).compact ≠ (single y).compact := by
  rw [compact_single finite, compact_single_of_not_isFinite infinite]
  intro hnull
  have hn : 'n' ∉ (Layout.json.write x).toList := not_mem_write finite rfl (by decide)
  rw [hnull] at hn
  exact hn (by decide)

/-- **Numbers printed alike** are equal, or none of them is finite. -/
theorem compact_single_inj {x y : Float32} :
    (single x).compact = (single y).compact ↔ x = y ∨ ¬ x.isFinite ∧ ¬ y.isFinite := by
  constructor
  · intro h
    by_cases hx : x.isFinite
    · by_cases hy : y.isFinite
      · rw [compact_single hx, compact_single hy] at h
        exact .inl (Layout.json.write_injective hx hy h)
      · exact absurd h (compact_single_ne hx hy)
    · by_cases hy : y.isFinite
      · exact absurd h.symm (compact_single_ne hy hx)
      · exact .inr ⟨hx, hy⟩
  · rintro (rfl | ⟨hx, hy⟩)
    · rfl
    · rw [compact_single_of_not_isFinite hx, compact_single_of_not_isFinite hy]

/-- Counts printed alike are equal. -/
theorem whole_inj {m n : Nat} : (whole m).compact = (whole n).compact ↔ m = n := by
  refine ⟨fun h => ?_, fun h => h ▸ rfl⟩
  rw [whole, whole, compact, compact, Nat.toString_eq_ofList_toDigits,
    Nat.toString_eq_ofList_toDigits, String.ofList_inj] at h
  rw [← Nat.ofDigitChars_ten_toDigits (n := m), h, Nat.ofDigitChars_ten_toDigits]

/-- Truth values printed alike are equal. -/
theorem boolean_inj {b c : Bool} : (boolean b).compact = (boolean c).compact ↔ b = c := by
  cases b <;> cases c <;> simp [compact]

end Json.Value

namespace Extrusion

open Json Json.Value

/-- The numbers among some parameters. -/
def measures : List (Extrusion → Float32) :=
  [size, depth, bevelThickness, bevelSize, bevelOffset]

/-- Every number of some parameters is finite. -/
structure IsFinite (p : Extrusion) : Prop where
  size : p.size.isFinite
  depth : p.depth.isFinite
  bevelThickness : p.bevelThickness.isFinite
  bevelSize : p.bevelSize.isFinite
  bevelOffset : p.bevelOffset.isFinite

/-- Every measure of finite parameters is finite. -/
theorem IsFinite.measure {p : Extrusion} (finite : p.IsFinite) :
    ∀ m ∈ measures, (m p).isFinite := by
  simp only [measures, List.forall_mem_cons]
  exact ⟨finite.size, finite.depth, finite.bevelThickness, finite.bevelSize, finite.bevelOffset,
    List.forall_mem_nil _⟩

/-- Parameters that agree, but for numbers that are not finite in either. -/
structure Alike (p q : Extrusion) : Prop where
  measure : ∀ m ∈ measures, m p = m q ∨ ¬ (m p).isFinite ∧ ¬ (m q).isFinite
  curveSegments : p.curveSegments = q.curveSegments
  beveled : p.beveled = q.beveled
  bevelSegments : p.bevelSegments = q.bevelSegments

/-- Parameters with no two numbers in one place that are not finite and differ. -/
def Sharp (p q : Extrusion) : Prop :=
  ∀ m ∈ measures, (m p).isFinite ∨ (m q).isFinite ∨ m p = m q

/-- Finite parameters are sharp against all others. -/
theorem IsFinite.sharp {p : Extrusion} (finite : p.IsFinite) (q : Extrusion) : p.Sharp q :=
  fun m hm => .inl (finite.measure m hm)

/-- Parameters are their measures, their counts of segments and whether there is a bevel. -/
theorem eq_of_measures {p q : Extrusion} (measure : ∀ m ∈ measures, m p = m q)
    (curveSegments : p.curveSegments = q.curveSegments) (beveled : p.beveled = q.beveled)
    (bevelSegments : p.bevelSegments = q.bevelSegments) : p = q := by
  simp only [measures, List.forall_mem_cons] at measure
  obtain ⟨hsize, hdepth, hthickness, hbevel, hoffset, -⟩ := measure
  obtain ⟨⟩ := p
  obtain ⟨⟩ := q
  congr

/-- Parameters that agree are the same, where no two numbers that are not finite differ. -/
theorem Alike.eq {p q : Extrusion} (alike : p.Alike q) (sharp : p.Sharp q) : p = q := by
  refine eq_of_measures (fun m hm => ?_) alike.curveSegments alike.beveled alike.bevelSegments
  rcases alike.measure m hm with heq | ⟨hp, hq⟩
  · exact heq
  · rcases sharp m hm with finite | finite | heq
    · exact absurd finite hp
    · exact absurd finite hq
    · exact heq

/-- The fields of the record of some parameters. -/
def fields (p : Extrusion) : List (String × Value) :=
  [("size", .single p.size), ("depth", .single p.depth),
    ("curve_segments", .whole p.curveSegments.toNat), ("bevel_enabled", .boolean p.beveled),
    ("bevel_thickness", .single p.bevelThickness), ("bevel_size", .single p.bevelSize),
    ("bevel_offset", .single p.bevelOffset), ("bevel_segments", .whole p.bevelSegments.toNat)]

/-- No comma is printed in a field of a fingerprint. -/
theorem comma_not_mem_fields (p : Extrusion) : ∀ f ∈ p.fields, ',' ∉ (field f).toList := by
  have hkeys : ∀ f ∈ p.fields, ',' ∉ (quote f.1).toList := by
    simp only [fields, List.forall_mem_cons]
    decide
  have hvalues : ∀ f ∈ p.fields, f.2.IsPlain := by
    simp only [fields, List.forall_mem_cons]
    exact ⟨isPlain_single _, isPlain_single _, isPlain_whole _, isPlain_boolean _,
      isPlain_single _, isPlain_single _, isPlain_single _, isPlain_whole _, List.forall_mem_nil _⟩
  intro f hf
  rw [field, String.toList_append, String.toList_append, List.mem_append, List.mem_append, not_or,
    not_or]
  exact ⟨⟨hkeys f hf, by decide⟩, hvalues f hf⟩

/-- A fingerprint is shared if and only if each field is printed alike. -/
theorem fingerprint_eq_iff_fields {p q : Extrusion} :
    p.fingerprint = q.fingerprint ↔ p.fields.map field = q.fields.map field := by
  constructor
  · exact fields_of_compact p.comma_not_mem_fields q.comma_not_mem_fields
      (List.cons_ne_nil _ _) (List.cons_ne_nil _ _)
  · intro h
    have hrecord : (record p.fields).compact = (record q.fields).compact := by
      rw [compact_record, compact_record, h]
    exact hrecord

/-- **Parameters share a fingerprint** if and only if they agree, but for numbers that are not
finite in either. -/
theorem fingerprint_eq_iff {p q : Extrusion} : p.fingerprint = q.fingerprint ↔ p.Alike q := by
  rw [fingerprint_eq_iff_fields]
  simp only [fields, List.map_cons, List.map_nil, List.cons.injEq, field,
    String.append_right_inj, compact_single_inj, whole_inj, boolean_inj, UInt32.toNat_inj]
  constructor
  · rintro ⟨size, depth, curveSegments, beveled, bevelThickness, bevelSize, bevelOffset,
      bevelSegments, -⟩
    refine ⟨?_, curveSegments, beveled, bevelSegments⟩
    simp only [measures, List.forall_mem_cons]
    exact ⟨size, depth, bevelThickness, bevelSize, bevelOffset, List.forall_mem_nil _⟩
  · rintro ⟨measure, curveSegments, beveled, bevelSegments⟩
    simp only [measures, List.forall_mem_cons] at measure
    obtain ⟨size, depth, bevelThickness, bevelSize, bevelOffset, -⟩ := measure
    exact ⟨size, depth, curveSegments, beveled, bevelThickness, bevelSize, bevelOffset,
      bevelSegments, trivial⟩

/-- **Finite parameters are told apart** from all others by their fingerprints. -/
theorem fingerprint_injective {p q : Extrusion} (finite : p.IsFinite)
    (h : p.fingerprint = q.fingerprint) : p = q :=
  (fingerprint_eq_iff.1 h).eq (finite.sharp q)

end Extrusion

end Marquee
