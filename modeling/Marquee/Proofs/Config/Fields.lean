import Marquee.Config.Toml
import Marquee.Proofs.Toml.Value

/-!
# Fields Are Decoded by Name

A reader of records asks for one field after the other, and fields that have names can be asked for
in any order. So what a reader gives is known from what the fields say under each name (`Says`), one
name at a time (`Gives`).

## Main statements

* `Gives.bind`, `Gives.defaulted`, `Gives.optional`, `Gives.required` — readers are put together;
* `says_option` — an option says its value, or nothing, under its own name;
* `decode_toFields` — each part of a configuration is decoded from the fields it is written as.
-/

namespace Marquee

namespace RecordReader

/-- What fields say under a name: one value or nothing. -/
def Says (fields : List (String × Document)) (name : String) (v : Option Document) : Prop :=
  fields.filter (·.1 == name) = (v.map (name, ·)).toList

/-- The value that a reader gives on fields with names. -/
def Gives {α : Type} (r : RecordReader α) (fields : List (String × Document)) (a : α) : Prop :=
  r (.named fields) = some (a, .named fields)

section Gives

variable {α β : Type} {fields : List (String × Document)} {name : String} {f : Decoder α} {a : α}

/-- Asking for a name gives what the fields say under it, and keeps the fields. -/
theorem Says.take {v : Option Document} (h : Says fields name v) :
    (Slots.named fields).take name = some (v, .named fields) := by
  rw [Slots.take, h]
  cases v <;> rfl

/-- A reader that asks for nothing gives its value. -/
theorem Gives.pure (a : α) : Gives (pure a) fields a := rfl

/-- **Readers one after the other** give what the last one gives. -/
theorem Gives.bind {r : RecordReader α} {next : α → RecordReader β} {b : β}
    (h : Gives r fields a) (hnext : Gives (next a) fields b) : Gives (r >>= next) fields b := by
  change (r (.named fields)).bind (fun s => next s.1 s.2) = _
  rw [h]
  exact hnext

/-- A required field gives what its value is decoded to. -/
theorem Gives.required {v : Document} (h : Says fields name (some v)) (hv : f v = some a) :
    Gives (required name f) fields a := by
  rw [Gives, RecordReader.required, h.take]
  change (f v).bind (fun a => some (a, Slots.named fields)) = _
  rw [hv]
  rfl

/-- A field with a default gives what its value is decoded to, if it has one. -/
theorem Gives.defaulted {v : Document} (h : Says fields name (some v)) (hv : f v = some a)
    (otherwise : α) : Gives (defaulted name f otherwise) fields a := by
  rw [Gives, RecordReader.defaulted, h.take]
  change (f v).bind (fun a => some (a, Slots.named fields)) = _
  rw [hv]
  rfl

/-- An option is absent if its name is, and present if its value is. -/
theorem Gives.optional {o : Option α} {value : α → Toml.Plain}
    (h : Says fields name (o.map fun a => (value a).value))
    (hvalue : ∀ a ∈ o, f (value a).value = some a) :
    Gives (RecordReader.defaulted name (Decoder.optional f) none) fields o := by
  cases o with
  | none =>
    rw [Gives, RecordReader.defaulted, h.take]
    rfl
  | some a =>
    refine .defaulted h ?_ none
    have hoptional : Decoder.optional f (value a).value = (f (value a).value).map some := by
      cases value a <;> rfl
    rw [hoptional, hvalue a rfl]
    rfl

/-- What a reader gives on fields is what the record of them is decoded to. -/
theorem Gives.decoder {r : RecordReader α} (h : Gives r fields a) :
    decoder r (.record fields) = some a := by
  rw [RecordReader.decoder, h]
  rfl

end Gives

end RecordReader

/-! ### Plain values -/

namespace Decoder

/-- A word is decoded from the number that it is written as. -/
theorem word_value (n : UInt32) : word (Toml.Plain.word n).value = some n := by
  have hbounds : (0 : ℤ) ≤ (n.toNat : ℤ) ∧ (n.toNat : ℤ) < UInt32.size :=
    ⟨Int.natCast_nonneg _, Int.ofNat_lt.2 n.toNat_lt_size⟩
  rw [word, Toml.Plain.value, below, if_pos hbounds, Int.toNat_natCast, Option.map_some,
    UInt32.ofNat_toNat]

/-- A text is decoded from itself. -/
theorem text_value (s : String) : text (Toml.Plain.text s).value = some s := rfl

/-- A number that its digits are read back to is decoded from them. -/
theorem single_value {x : Float32} (rereads : Toml.Scalar.Rereads x) :
    single (Toml.Plain.single x).value = some x :=
  congrArg some (Toml.Scalar.ofToken?_single rereads).2

end Decoder

/-! ### The parts of a configuration -/

open RecordReader Toml

/-- Values are kept back by the names that their fields have. -/
theorem filter_contents (name : String) (fields : List (String × Plain)) :
    (contents fields).filter (·.1 == name) = contents (fields.filter (·.1 == name)) :=
  List.filter_map

/-- An option says its value, or nothing, under its own name only. -/
theorem filter_present {α : Type} (key name : String) (f : α → Plain) (o : Option α) :
    (Config.present key f o).filter (·.1 == name) =
      if key = name then Config.present key f o else [] := by
  cases o with
  | none => exact (ite_self []).symm
  | some a =>
    by_cases h : key = name
    · rw [if_pos h]
      exact List.filter_cons_of_pos (beq_iff_eq.2 h)
    · rw [if_neg h]
      exact List.filter_cons_of_neg fun hbeq => h (beq_iff_eq.1 hbeq)

/-- A field whose name stands once says its value. -/
theorem says_some {fields : List (String × Plain)} {name : String} {p : Plain}
    (h : fields.filter (·.1 == name) = [(name, p)]) : Says (contents fields) name p.value := by
  rw [Says, filter_contents, h]
  rfl

/-- An option that is the only one with its name says its value or nothing. -/
theorem says_option {α : Type} {fields : List (String × Plain)} {name : String} {f : α → Plain}
    {o : Option α} (h : fields.filter (·.1 == name) = Config.present name f o) :
    Says (contents fields) name (o.map fun a => (f a).value) := by
  rw [Says, filter_contents, h]
  cases o <;> rfl

namespace Extrusion

/-- **The parameters** are decoded from the fields that they are written as. -/
theorem decode_toFields {g : Extrusion} (rereads : ∀ f ∈ g.toFields, f.2.Rereads) :
    decode (.record (contents g.toFields)) = some g := by
  simp only [toFields, List.forall_mem_cons] at rereads
  obtain ⟨hsize, hdepth, -, -, hthickness, hbevel, hoffset, -⟩ := rereads
  refine Gives.decoder ?_
  refine .bind (.defaulted (by rfl) (Decoder.single_value hsize) _) ?_
  refine .bind (.defaulted (by rfl) (Decoder.single_value hdepth) _) ?_
  refine .bind (.defaulted (by rfl) (Decoder.word_value g.curveSegments) _) ?_
  refine .bind (.defaulted (by rfl) (by rfl) _) ?_
  refine .bind (.defaulted (by rfl) (Decoder.single_value hthickness) _) ?_
  refine .bind (.defaulted (by rfl) (Decoder.single_value hbevel) _) ?_
  refine .bind (.defaulted (by rfl) (Decoder.single_value hoffset) _) ?_
  refine .bind (.defaulted (by rfl) (Decoder.word_value g.bevelSegments) _) ?_
  exact .pure g

end Extrusion

namespace EmoteSettings

/-- **The settings** are decoded from the fields that they are written as, with or without a size.
-/
theorem decode_toFields {e : EmoteSettings} (rereads : ∀ f ∈ e.toFields, f.2.Rereads) :
    decode (.record (contents e.toFields)) = some e := by
  have hsize : ∀ x ∈ e.size, Scalar.Rereads x := by
    intro x hx
    refine rereads ("size", .single x) (List.mem_append_left _ ?_)
    rw [hx]
    exact List.mem_singleton_self _
  refine Gives.decoder ?_
  refine .bind (.optional (o := e.size) (says_option (f := .single) ?_) ?_) ?_
  · simp [toFields, filter_present]
  · exact fun x hx => Decoder.single_value (hsize x hx)
  refine .bind (.defaulted (says_some ?_) (Decoder.word_value e.depthSegments) _) ?_
  · simp [toFields, filter_present]
  refine .bind (.defaulted (says_some ?_) (Decoder.text_value e.urlTemplate) _) ?_
  · simp [toFields, filter_present]
  exact .pure e

end EmoteSettings

namespace Spacing

/-- **The spacing** is decoded from the fields that it is written as. -/
theorem decode_toFields {p : Spacing} (rereads : ∀ f ∈ p.toFields, f.2.Rereads) :
    decode (.record (contents p.toFields)) = some p := by
  simp only [toFields, List.forall_mem_cons] at rereads
  obtain ⟨hratio, hgap, -⟩ := rereads
  refine Gives.decoder ?_
  refine .bind (.defaulted (by rfl) (Decoder.single_value hratio) _) ?_
  refine .bind (.defaulted (by rfl) (Decoder.single_value hgap) _) ?_
  exact .pure p

end Spacing

namespace FontPaths

/-- **The paths** are decoded from the fields that they are written as; those that are absent are
not written. -/
theorem decode_toFields (p : FontPaths) : decode (.record (contents p.toFields)) = some p := by
  have htext : ∀ (o : Option String), ∀ t ∈ o, Decoder.text (Plain.text t).value = some t :=
    fun _ t _ => Decoder.text_value t
  refine Gives.decoder ?_
  refine .bind (.optional (says_option ?_) (htext p.regular)) ?_
  · simp [toFields, filter_present]
  refine .bind (.optional (says_option ?_) (htext p.italic)) ?_
  · simp [toFields, filter_present]
  refine .bind (.optional (says_option ?_) (htext p.bold)) ?_
  · simp [toFields, filter_present]
  refine .bind (.optional (says_option ?_) (htext p.boldItalic)) ?_
  · simp [toFields, filter_present]
  exact .pure p

end FontPaths

namespace Space.Vec3

/-- **A point** is decoded from the fields that it is written as. -/
theorem decode_toFields {p : Vec3} (rereads : ∀ f ∈ p.toFields, f.2.Rereads) :
    decode (.record (contents p.toFields)) = some p := by
  simp only [toFields, List.forall_mem_cons] at rereads
  obtain ⟨hx, hy, hz, -⟩ := rereads
  refine Gives.decoder ?_
  refine .bind (.required (by rfl) (Decoder.single_value hx)) ?_
  refine .bind (.required (by rfl) (Decoder.single_value hy)) ?_
  refine .bind (.required (by rfl) (Decoder.single_value hz)) ?_
  exact .pure p

end Space.Vec3

end Marquee
