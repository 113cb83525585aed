import Marquee.Proofs.Toml.Table
import Marquee.Proofs.Toml.Value

/-!
# Written Documents Are Read Back

The reader goes from line to line with the tables that the lines before have made, and a written
document has three kinds of lines: headers, fields and empty ones. Each kind has a lemma that says
what it does to the tables, over whatever follows. The tables of a document are then built up from
its sections, and those from their fields.

How many steps the reader is allowed is settled once, in `Yields`: one for each character that is
still to be read, and some to spare.

## Main statements

* `parts_names` — the path of a header, or the key of a field, is read back;
* `yields_header`, `yields_field`, `yields_empty` — the three kinds of lines;
* `read_write` — a document of sound sections with different names is read back.
-/

namespace Marquee.Toml

namespace Reader

/-! ### Keys -/

/-- A key that needs no quotes. -/
def IsBareKey (k : String) : Prop :=
  k.toList ≠ [] ∧ ∀ c ∈ k.toList, isBare c

instance : DecidablePred IsBareKey := fun k =>
  decidable_of_iff (k.toList ≠ [] ∧ k.toList.all isBare) (and_congr_right' List.all_eq_true)

/-- A character of a bare key is none that cannot stand in one. -/
theorem isBare_ne {c d : Char} (hc : isBare c) (hd : ¬ isBare d) : c ≠ d := by
  rintro rfl
  exact hd hc

/-- A key begins with a character of its own kind. -/
theorem IsBareKey.exists_cons {k : String} (hk : IsBareKey k) :
    ∃ c s, k.toList = c :: s ∧ isBare c := by
  obtain ⟨c, s, hks⟩ := List.exists_cons_of_ne_nil hk.1
  exact ⟨c, s, hks, hk.2 c (hks ▸ List.mem_cons_self)⟩

/-- A key is read up to the first character that cannot belong to it. -/
theorem key_bare {k : String} (hk : IsBareKey k) {c : Char} (hc : ¬ isBare c) (rest : List Char) :
    key (k.toList ++ c :: rest) = some (k, c :: rest) := by
  have htake : (k.toList ++ c :: rest).takeWhile isBare = k.toList := by
    rw [List.takeWhile_append_of_pos hk.2, List.takeWhile_cons_of_neg hc, List.append_nil]
  have hdrop : (k.toList ++ c :: rest).dropWhile isBare = c :: rest := by
    rw [List.dropWhile_append_of_pos hk.2, List.dropWhile_cons_of_neg hc]
  obtain ⟨a, s, hks, ha⟩ := hk.exists_cons
  rw [key]
  · rw [htake, hdrop]
    split
    next hnil => exact absurd hnil hk.1
    next => rw [String.ofList_toList]
  all_goals
    rintro s' hs'
    rw [hks, List.cons_append, List.cons.injEq] at hs'
    exact isBare_ne ha (by decide) hs'.1

/-- A path is written as its first name, a point, and the others. -/
theorem toList_names (k k' : String) (names : List String) :
    (".".intercalate (k :: k' :: names)).toList =
      k.toList ++ '.' :: (".".intercalate (k' :: names)).toList := by
  rw [String.intercalate_cons_cons, String.toList_append, String.toList_append, List.append_assoc]
  rfl

/-- A path begins like its first key. -/
theorem exists_cons_names {names : List String} (hne : names ≠ [])
    (hnames : ∀ k ∈ names, IsBareKey k) :
    ∃ c s, (".".intercalate names).toList = c :: s ∧ isBare c := by
  rcases names with _ | ⟨k, names⟩
  · exact absurd rfl hne
  obtain ⟨c, s, hks, hc⟩ := (hnames k List.mem_cons_self).exists_cons
  rcases names with _ | ⟨k', names⟩
  · exact ⟨c, s, by rw [String.intercalate_singleton, hks], hc⟩
  · exact ⟨c, _, by rw [toList_names, hks, List.cons_append], hc⟩

/-- No name of a path is empty. -/
theorem length_names_le {names : List String} (hnames : ∀ k ∈ names, IsBareKey k) :
    names.length ≤ (".".intercalate names).toList.length := by
  induction names with
  | nil => exact Nat.zero_le _
  | cons k names ih =>
    obtain ⟨hk, hnames⟩ := List.forall_mem_cons.1 hnames
    have hlength := List.length_pos_iff.2 hk.1
    rcases names with _ | ⟨k', names⟩
    · rw [String.intercalate_singleton]
      exact hlength
    · have hrest := ih hnames
      rw [toList_names]
      simp only [List.length_append, List.length_cons] at hrest ⊢
      omega

/-- No blank stands before a bare key. -/
theorem skip_bare {c : Char} (hc : isBare c) (s : List Char) : skip (c :: s) = c :: s := by
  refine List.dropWhile_cons_of_neg fun hblank => ?_
  rw [isBlank, Bool.or_eq_true, beq_iff_eq, beq_iff_eq] at hblank
  exact hblank.elim (isBare_ne hc (by decide)) (isBare_ne hc (by decide))

/-- The last name of a path ends before a character that cannot go on with it. -/
theorem parts_last {k : String} (hk : IsBareKey k) {c : Char} (hc : ¬ isBare c) (rest : List Char)
    (hdot : ∀ s, skip (c :: rest) ≠ '.' :: s) (steps : ℕ) :
    parts (steps + 1) (k.toList ++ c :: rest) = some ([], k, skip (c :: rest)) := by
  rw [parts, key_bare hk hc, Option.bind_eq_bind, Option.bind_some]
  dsimp only
  split
  next s hs => exact absurd hs (hdot s)
  next => rfl

/-- Behind a dot a path goes on. -/
theorem parts_dot {k : String} (hk : IsBareKey k) (steps : ℕ) (s : List Char) :
    parts (steps + 1) (k.toList ++ '.' :: s) =
      (parts steps (skip s)).map fun r => (k :: r.1, r.2) := by
  rw [parts, key_bare hk (by decide), Option.bind_eq_bind, Option.bind_some]
  change (parts steps (skip s)).bind (fun r => some (k :: r.1, r.2)) = _
  cases parts steps (skip s) <;> rfl

/-- **The names of a path** are read up to the first character that cannot go on with it. -/
theorem parts_names {names : List String} (hne : names ≠ []) (hnames : ∀ k ∈ names, IsBareKey k)
    {c : Char} (hc : ¬ isBare c) (rest : List Char) (hdot : ∀ s, skip (c :: rest) ≠ '.' :: s)
    {steps : ℕ} (hsteps : names.length ≤ steps) :
    parts steps ((".".intercalate names).toList ++ c :: rest) =
      some (names.dropLast, names.getLast hne, skip (c :: rest)) := by
  induction names generalizing steps with
  | nil => exact absurd rfl hne
  | cons k names ih =>
    obtain ⟨hk, hnames⟩ := List.forall_mem_cons.1 hnames
    rcases steps with _ | steps
    · cases hsteps
    rcases names with _ | ⟨k', names⟩
    · rw [String.intercalate_singleton]
      exact parts_last hk hc rest hdot steps
    · have hne' : k' :: names ≠ [] := List.cons_ne_nil k' names
      have hrest := ih hne' hnames (Nat.le_of_succ_le_succ hsteps)
      obtain ⟨a, s, has, ha⟩ := exists_cons_names hne' hnames
      rw [has, List.cons_append] at hrest
      rw [toList_names, List.append_assoc, List.cons_append, parts_dot hk, has, List.cons_append,
        skip_bare ha, hrest]
      rfl

/-- A path that is written is read back, up to what cannot continue it. -/
theorem path_names {names : List String} (hne : names ≠ []) (hnames : ∀ k ∈ names, IsBareKey k)
    (hlimit : names.length ≤ limit) {c : Char} (hc : ¬ isBare c) (rest : List Char)
    (hdot : ∀ s, skip (c :: rest) ≠ '.' :: s) {steps : ℕ} (hsteps : names.length ≤ steps) :
    path steps ((".".intercalate names).toList ++ c :: rest) =
      some (names.dropLast, names.getLast hne, skip (c :: rest)) := by
  have hlength : names.dropLast.length < limit := by
    rw [List.length_dropLast]
    exact lt_of_lt_of_le (Nat.sub_lt (List.length_pos_iff.2 hne) Nat.one_pos) hlimit
  rw [path, parts_names hne hnames hc rest hdot hsteps]
  exact if_pos hlength

/-! ### Lines -/

/-- That one step for each character, and some to spare, are enough to read the rest of a
document. -/
def Yields (root : Fields) (here : List String) (s : List Char) (result : Fields) : Prop :=
  ∀ steps, s.length + 1 < steps → lines steps root here s = some result

section Lines

variable {root root' result : Fields} {here : List String} {rest : List Char}

/-- At the end of a document nothing more is read. -/
theorem yields_end (root : Fields) (here : List String) : Yields root here [] root := by
  intro steps hsteps
  obtain ⟨steps, rfl⟩ := Nat.exists_eq_succ_of_ne_zero (Nat.ne_zero_of_lt hsteps)
  rw [lines]
  rfl

/-- **An empty line** changes nothing. -/
theorem yields_empty (h : Yields root here rest result) :
    Yields root here ('\n' :: rest) result := by
  intro steps hsteps
  obtain ⟨steps, rfl⟩ := Nat.exists_eq_succ_of_ne_zero (Nat.ne_zero_of_lt hsteps)
  exact h (steps + 1) (lt_trans (Nat.lt_succ_self _) hsteps)

/-- **A header** makes the tables of its path, and is in force from there on. -/
theorem yields_header (here : List String) {names : List String} (hne : names ≠ [])
    (hnames : ∀ k ∈ names, IsBareKey k) (hlimit : names.length ≤ limit)
    (fresh : ∀ k ∈ names.head?, root.Fresh k)
    (h : Yields (root ++ Fields.nest [] names) names rest result) :
    Yields root here ('[' :: ((".".intercalate names).toList ++ ']' :: '\n' :: rest)) result := by
  intro steps hsteps
  obtain ⟨steps, rfl⟩ := Nat.exists_eq_succ_of_ne_zero (Nat.ne_zero_of_lt hsteps)
  rw [List.length_cons, List.length_append, List.length_cons, List.length_cons] at hsteps
  have hlength := length_names_le hnames
  have hpath := path_names hne hnames hlimit (c := ']') (by decide) ('\n' :: rest)
    (by rintro s ⟨⟩) (show names.length ≤ steps by omega)
  have hsplit := List.dropLast_append_getLast hne
  have hopen : root.within (Fields.openTable (names.getLast hne)) names.dropLast =
      some (root ++ Fields.nest [] names) := by
    rw [Fields.within_openTable root (by rwa [hsplit]), hsplit]
  have hrest := h steps (by omega)
  obtain ⟨a, s, has, ha⟩ := exists_cons_names hne hnames
  rw [has, List.cons_append] at hpath ⊢
  have hgap : gap false ('[' :: a :: (s ++ ']' :: '\n' :: rest)) =
      some ('[' :: a :: (s ++ ']' :: '\n' :: rest)) := rfl
  rw [lines, hgap, Option.bind_eq_bind, Option.bind_some]
  split
  next hnil => cases hnil
  next s' hs' =>
    cases hs'
    cases ha
  next s' _ hs' =>
    obtain rfl := (List.cons.inj hs').2
    rw [skip_bare ha, hpath, Option.bind_eq_bind, Option.bind_some]
    change (do
      let root ← root.within (Fields.openTable (names.getLast hne)) names.dropLast
      lines steps root (names.dropLast ++ [names.getLast hne]) rest) = some result
    rw [hopen, hsplit]
    exact hrest
  next hne' => exact absurd rfl (hne' _)

/-- No line stands before a bare key. -/
theorem gap_bare {c : Char} (hc : isBare c) (s : List Char) :
    gap false (c :: s) = some (c :: s) := by
  have hblank : ¬ isBlank c := fun h => by
    rw [isBlank, Bool.or_eq_true, beq_iff_eq, beq_iff_eq] at h
    exact h.elim (isBare_ne hc (by decide)) (isBare_ne hc (by decide))
  rw [gap]
  · rw [if_neg Bool.false_ne_true, if_neg (isBare_ne hc (by decide)), if_neg hblank]
  · exact isBare_ne hc (by decide)
  · exact fun _ h _ => isBare_ne hc (by decide) h

/-- A key and its value on a line. -/
theorem pair_field {k : String} {p : Plain} (hk : IsBareKey k) (rereads : p.Rereads)
    (put : List String → String → Document → Option Fields) (room steps : ℕ) (rest : List Char) :
    pair room (steps + 2) put (k.toList ++ ' ' :: '=' :: ' ' :: (p.write.toList ++ '\n' :: rest)) =
      (put [] k p.value).map fun fs => (fs, '\n' :: rest) := by
  have hpath := path_names (List.cons_ne_nil k []) (List.forall_mem_singleton.2 hk)
    (show 1 ≤ limit by decide) (c := ' ') (by decide)
    ('=' :: ' ' :: (p.write.toList ++ '\n' :: rest)) (by rintro s ⟨⟩) (Nat.le_add_left 1 steps)
  rw [String.intercalate_singleton] at hpath
  have hvalue := value_write rereads room steps rest
  rw [← skip_write rereads rest] at hvalue
  rw [pair, hpath, Option.bind_eq_bind, Option.bind_some]
  change (value room (steps + 1) (skip (p.write.toList ++ '\n' :: rest))).bind
    (fun r => (put [] k r.1).bind fun fs => some (fs, r.2)) = _
  rw [hvalue]
  change ((put [] k p.value).bind fun fs => some (fs, '\n' :: rest)) = _
  cases put [] k p.value <;> rfl

/-- **A line with a field** puts its value where the header in force says. -/
theorem yields_field {k : String} {p : Plain} (hk : IsBareKey k) (rereads : p.Rereads)
    (hput : root.within (Fields.put k p.value []) here = some root')
    (h : Yields root' here rest result) :
    Yields root here (k.toList ++ ' ' :: '=' :: ' ' :: (p.write.toList ++ '\n' :: rest))
      result := by
  intro steps hsteps
  simp only [List.length_cons, List.length_append] at hsteps
  obtain ⟨steps, rfl⟩ := Nat.exists_eq_add_of_le' (show 3 ≤ steps by omega)
  have hpair := pair_field hk rereads (fun ks last v => root.within (Fields.put last v ks) here)
    limit steps rest
  have hrest := h (steps + 2) (by omega)
  obtain ⟨a, s, hks, ha⟩ := hk.exists_cons
  rw [hks, List.cons_append] at hpair ⊢
  rw [lines, gap_bare ha, Option.bind_eq_bind, Option.bind_some]
  split
  next hnil => cases hnil
  next hs => exact absurd (List.cons.inj hs).1 (isBare_ne ha (by decide))
  next hs => exact absurd (List.cons.inj hs).1 (isBare_ne ha (by decide))
  next =>
    rw [hpair, hput]
    exact hrest

end Lines

end Reader

/-! ### Sections -/

/-- The open entries that fields make. -/
def entries (fields : List (String × Plain)) : Fields :=
  fields.map fun f => (f.1, Entry.value f.2.value)

namespace Section

open Reader

/-- Sections that can be read back: the names of the path and the keys need no quotes, no key
stands twice, and there are not too many levels. -/
structure Sound (s : Section) : Prop where
  path_ne_nil : s.path ≠ []
  path_bare : ∀ k ∈ s.path, IsBareKey k
  path_limit : s.path.length ≤ limit
  keys_bare : ∀ f ∈ s.fields, IsBareKey f.1
  keys_nodup : (s.fields.map Prod.fst).Nodup
  rereads : ∀ f ∈ s.fields, f.2.Rereads

/-- What a section is in a document. -/
def document (s : Section) : List (String × Document) :=
  Document.nest (contents s.fields) s.path

/-- What a section makes of the open tables. -/
def tables (s : Section) : Fields := Fields.nest (entries s.fields) s.path

/-- The tables of a section are the document that it stands for. -/
theorem closeFields_tables (s : Section) : closeFields s.tables = s.document := by
  have hvalues := closeFields_values (contents s.fields)
  rw [contents, List.map_map] at hvalues
  rw [tables, closeFields_nest, document, contents, ← hvalues]
  rfl

/-- The first name of a section is the only one that it has at the root. -/
theorem fresh_tables {s : Section} (hne : s.path ≠ []) {k : String} (hk : s.path.head? ≠ some k) :
    s.tables.Fresh k := by
  obtain ⟨name, path, hpath⟩ := List.exists_cons_of_ne_nil hne
  rw [hpath] at hk
  rw [tables, hpath]
  exact List.forall_mem_singleton.2 fun h => hk (congrArg some h)

end Section

/-! ### Lines of a section -/

/-- The line of a field. -/
def fieldLine (f : String × Plain) : String := f.1 ++ " = " ++ f.2.write ++ "\n"

/-- A section is written as its header and the lines of its fields. -/
theorem Section.toList_write (s : Section) :
    s.write.toList = '[' :: ((".".intercalate s.path).toList ++
      ']' :: '\n' :: (String.join (s.fields.map fieldLine)).toList) := by
  rw [write, String.toList_append, String.toList_append, String.toList_append, List.append_assoc,
    List.append_assoc]
  rfl

/-- Sections are written with an empty line between two of them. -/
theorem write_cons (s : Section) (ss : List Section) :
    (write (s :: ss)).toList =
      s.write.toList ++ if ss = [] then [] else '\n' :: (write ss).toList := by
  rcases ss with _ | ⟨t, ss⟩
  · rw [if_pos rfl, List.append_nil, write, List.map_singleton, String.intercalate_singleton]
  · rw [if_neg (List.cons_ne_nil t ss), write, List.map_cons, List.map_cons,
      String.intercalate_cons_cons, ← List.map_cons, String.toList_append, String.toList_append,
      List.append_assoc]
    rfl

namespace Reader

variable {root result : Fields} {here : List String} {rest : List Char}

/-- The lines of some fields put their values one behind the other. -/
theorem yields_fields {path : List String} (hpath : path ≠ [])
    (fresh : ∀ k ∈ path.head?, root.Fresh k) (done : Fields) {fields : List (String × Plain)}
    (bare : ∀ f ∈ fields, IsBareKey f.1) (rereads : ∀ f ∈ fields, f.2.Rereads)
    (nodup : (fields.map Prod.fst).Nodup) (apart : ∀ f ∈ fields, done.Fresh f.1)
    (h : Yields (root ++ Fields.nest (done ++ entries fields) path) path rest result) :
    Yields (root ++ Fields.nest done path) path
      ((String.join (fields.map fieldLine)).toList ++ rest) result := by
  induction fields generalizing done with
  | nil =>
    rw [entries, List.map_nil, List.append_nil] at h
    exact h
  | cons f fields ih =>
    obtain ⟨hk, bare⟩ := List.forall_mem_cons.1 bare
    obtain ⟨hv, rereads⟩ := List.forall_mem_cons.1 rereads
    obtain ⟨hdone, apart⟩ := List.forall_mem_cons.1 apart
    rw [List.map_cons, List.nodup_cons] at nodup
    have hput := Fields.within_put hpath fresh hdone f.2.value
    have happart : ∀ g ∈ fields, Fields.Fresh g.1 (done ++ [(f.1, .value f.2.value)]) := by
      intro g hg
      refine List.forall_mem_append.2 ⟨apart g hg, List.forall_mem_singleton.2 fun heq => ?_⟩
      exact nodup.1 (List.mem_map.2 ⟨g, hg, heq.symm⟩)
    rw [entries, List.map_cons, List.append_cons] at h
    have hrest := yields_field hk hv hput (ih _ bare rereads nodup.2 happart h)
    have hline : (String.join ((f :: fields).map fieldLine)).toList ++ rest =
        f.1.toList ++ ' ' :: '=' :: ' ' ::
          (f.2.write.toList ++ '\n' :: ((String.join (fields.map fieldLine)).toList ++ rest)) := by
      rw [List.map_cons, String.join_cons, fieldLine]
      simp only [String.toList_append, List.append_assoc]
      rfl
    rw [hline]
    exact hrest

/-- **A section** makes its tables behind what is there. -/
theorem yields_section (here : List String) {s : Section} (sound : s.Sound)
    (fresh : ∀ k ∈ s.path.head?, root.Fresh k)
    (h : Yields (root ++ s.tables) s.path rest result) :
    Yields root here (s.write.toList ++ rest) result := by
  have hfields := yields_fields sound.path_ne_nil fresh [] sound.keys_bare sound.rereads
    sound.keys_nodup (fun _ _ => List.forall_mem_nil _) h
  have hheader := yields_header here sound.path_ne_nil sound.path_bare sound.path_limit
    fresh hfields
  rw [s.toList_write, List.cons_append, List.append_assoc]
  exact hheader

/-- **Sections** make their tables one behind the other. -/
theorem yields_sections (root : Fields) (here : List String) {ss : List Section}
    (sound : ∀ s ∈ ss, s.Sound) (nodup : (ss.map fun s => s.path.head?).Nodup)
    (fresh : ∀ s ∈ ss, ∀ k ∈ s.path.head?, root.Fresh k) :
    Yields root here (write ss).toList (root ++ ss.flatMap Section.tables) := by
  induction ss generalizing root here with
  | nil =>
    rw [List.flatMap_nil, List.append_nil]
    exact yields_end root here
  | cons s ss ih =>
    obtain ⟨hs, sound⟩ := List.forall_mem_cons.1 sound
    obtain ⟨hfresh, fresh⟩ := List.forall_mem_cons.1 fresh
    rw [List.map_cons, List.nodup_cons] at nodup
    have hfresh' : ∀ t ∈ ss, ∀ k ∈ t.path.head?, Fields.Fresh k (root ++ s.tables) := by
      intro t ht k hk
      refine List.forall_mem_append.2 ⟨fresh t ht k hk, Section.fresh_tables hs.path_ne_nil ?_⟩
      exact fun heq => nodup.1 (List.mem_map.2 ⟨t, ht, hk.trans heq.symm⟩)
    have hrest := ih (root ++ s.tables) s.path sound nodup.2 hfresh'
    rw [List.append_assoc, ← List.flatMap_cons] at hrest
    rcases ss with _ | ⟨t, ss⟩
    · have hsection : Yields root here (s.write.toList ++ []) _ :=
        yields_section here hs hfresh hrest
      rw [write_cons, if_pos rfl]
      exact hsection
    · have hsection := yields_section here hs hfresh (yields_empty hrest)
      rw [write_cons, if_neg (List.cons_ne_nil t ss)]
      exact hsection

end Reader

/-- The tables of all sections are the documents that they stand for. -/
theorem closeFields_flatMap (ss : List Section) :
    closeFields (ss.flatMap Section.tables) = ss.flatMap Section.document := by
  induction ss with
  | nil => rfl
  | cons s ss ih =>
    rw [List.flatMap_cons, closeFields_append, s.closeFields_tables, ih, List.flatMap_cons]

/-- No document of sections begins with a byte order mark. -/
theorem unmarked_write (ss : List Section) :
    Reader.unmarked (write ss).toList = (write ss).toList := by
  rcases ss with _ | ⟨s, ss⟩
  · rfl
  · rw [write_cons, s.toList_write]
    rfl

/-- **A document of sections** is read back as the records under their paths. -/
theorem read_write {ss : List Section} (sound : ∀ s ∈ ss, s.Sound)
    (nodup : (ss.map fun s => s.path.head?).Nodup) :
    read (write ss) = some (.record (ss.flatMap Section.document)) := by
  have hlines := Reader.yields_sections [] [] sound nodup
    (fun _ _ _ _ => List.forall_mem_nil _) _ (Nat.lt_succ_self _)
  rw [read, unmarked_write, hlines, List.nil_append, Option.bind_eq_bind, Option.bind_some,
    closeFields_flatMap]
  rfl

end Marquee.Toml
