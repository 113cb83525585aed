import Marquee.Config.File
import Marquee.Files.Folder
import Marquee.Proofs.Config.Fields
import Marquee.Proofs.Toml.Document

/-!
# Saved Configurations Are Loaded Again

A configuration is written in sections, and every section says all of its part. So what is loaded
is the configuration that was saved: an option that was absent is absent, and a text is the same
whatever it is made of.

The one thing assumed is about rounding. Numbers are written in decimal digits, and each of those
of the configuration has to be the number that its own digits are read as, by way of a double.

## Main statements

* `Config.ofToml?_toToml` — the text of a configuration holds that configuration;
* `Folder.find_put` — what is written at a path is found there;
* `Config.load_save` — a configuration that was saved in a file is loaded from it.
-/

namespace Marquee

open Toml

/-! ### Sections -/

/-- An option has its own key or none. -/
theorem keys_present_sublist {α : Type} (key : String) (f : α → Plain) (o : Option α) :
    ((Config.present key f o).map Prod.fst).Sublist [key] := by
  cases o with
  | none => exact List.nil_sublist [key]
  | some _ => exact List.Sublist.refl [key]

/-- What holds of the field of an option holds of its value, if it has one. -/
theorem forall_mem_present {α : Type} {key : String} {f : α → Plain} {o : Option α}
    {P : String × Plain → Prop} : (∀ p ∈ Config.present key f o, P p) ↔ ∀ a ∈ o, P (key, f a) := by
  cases o <;> simp [Config.present]

/-- A section whose keys are among some sound ones, in their order. -/
theorem Toml.Section.Sound.of_sublist (names : List String) {path : List String}
    {fields : List (String × Plain)}
    (hpath : path ≠ [] ∧ (∀ k ∈ path, Reader.IsBareKey k) ∧ path.length ≤ Reader.limit)
    (hnames : (∀ k ∈ names, Reader.IsBareKey k) ∧ names.Nodup)
    (keys : (fields.map Prod.fst).Sublist names) (rereads : ∀ f ∈ fields, f.2.Rereads) :
    Section.Sound ⟨path, fields⟩ where
  path_ne_nil := hpath.1
  path_bare := hpath.2.1
  path_limit := hpath.2.2
  keys_bare f hf := hnames.1 f.1 (keys.subset (List.mem_map_of_mem hf))
  keys_nodup := hnames.2.sublist keys
  rereads := rereads

namespace Config

/-- The numbers of a configuration that are written with a point. -/
def fractions (c : Config) : List Float32 :=
  let g := c.geometry
  let p := c.camera.position
  [g.size, g.depth, g.bevelThickness, g.bevelSize, g.bevelOffset] ++ c.emotes.size.toList ++
    [c.layout.ratio, c.layout.minGapRatio] ++ [p.x, p.y, p.z]

variable {c : Config}

/-- Every value but a number of single precision is read back in any case. -/
theorem rereads_sections (rereads : ∀ x ∈ c.fractions, Scalar.Rereads x) :
    ∀ s ∈ c.sections, ∀ f ∈ s.fields, f.2.Rereads := by
  simp only [fractions, List.forall_mem_append, List.forall_mem_cons, Option.mem_toList] at rereads
  obtain ⟨⟨⟨⟨hsize, hdepth, hthickness, hbevel, hoffset, -⟩, hemotes⟩, hratio, hgap, -⟩, hx, hy,
    hz, -⟩ := rereads
  simp only [sections, List.forall_mem_cons, Extrusion.toFields, EmoteSettings.toFields,
    Spacing.toFields, FontPaths.toFields, Space.Vec3.toFields, List.forall_mem_append,
    forall_mem_present, Plain.Rereads]
  simpa [hsize, hdepth, hthickness, hbevel, hoffset, hratio, hgap, hx, hy, hz] using hemotes

/-- Every section of a configuration can be read back: its keys are bare and stand once each. -/
theorem sound_sections (rereads : ∀ x ∈ c.fractions, Scalar.Rereads x) :
    ∀ s ∈ c.sections, s.Sound := by
  have hrereads := rereads_sections rereads
  rw [sections] at hrereads ⊢
  simp only [List.forall_mem_cons] at hrereads ⊢
  obtain ⟨hgeometry, hemotes, hlayout, hfonts, hcamera, -⟩ := hrereads
  refine ⟨?_, ?_, ?_, ?_, ?_, List.forall_mem_nil _⟩
  · exact .of_sublist ["size", "depth", "curve_segments", "bevel_enabled", "bevel_thickness",
      "bevel_size", "bevel_offset", "bevel_segments"] (by decide) (by decide)
      (List.Sublist.refl _) hgeometry
  · refine .of_sublist ["size", "depth_segments", "url_template"] (by decide) (by decide) ?_ hemotes
    rw [EmoteSettings.toFields, List.map_append]
    exact (keys_present_sublist _ _ _).append (List.Sublist.refl _)
  · exact .of_sublist ["spacing_ratio", "min_gap_ratio"] (by decide) (by decide)
      (List.Sublist.refl _) hlayout
  · refine .of_sublist ["regular", "italic", "bold", "bold_italic"] (by decide) (by decide) ?_
      hfonts
    rw [FontPaths.toFields, List.map_append, List.map_append, List.map_append]
    exact (((keys_present_sublist _ _ _).append (keys_present_sublist _ _ _)).append
      (keys_present_sublist _ _ _)).append (keys_present_sublist _ _ _)
  · exact .of_sublist ["x", "y", "z"] (by decide) (by decide) (List.Sublist.refl _) hcamera

/-- **The text of a configuration** holds that configuration. -/
theorem ofToml?_toToml (rereads : ∀ x ∈ c.fractions, Scalar.Rereads x) :
    ofToml? c.toToml = some c := by
  have hnames : (["geometry", "emotes", "layout", "fonts", "camera"].map some).Nodup := by decide
  have hread := Toml.read_write (sound_sections rereads) hnames
  have hrereads := rereads_sections rereads
  rw [sections] at hrereads
  simp only [List.forall_mem_cons] at hrereads
  obtain ⟨hgeometry, hemotes, hlayout, -, hcamera, -⟩ := hrereads
  have hposition : camera? (.record [("position", .record (contents c.camera.position.toFields))]) =
      some c.camera := by
    refine RecordReader.Gives.decoder ?_
    refine .bind (.defaulted (by rfl) (Space.Vec3.decode_toFields hcamera) _) ?_
    exact .pure c.camera
  rw [ofToml?, toToml, hread, Option.bind_eq_bind, Option.bind_some, decode]
  refine RecordReader.Gives.decoder ?_
  refine .bind (.defaulted (by rfl) (Extrusion.decode_toFields hgeometry) _) ?_
  refine .bind (.defaulted (by rfl) (EmoteSettings.decode_toFields hemotes) _) ?_
  refine .bind (.defaulted (by rfl) (Spacing.decode_toFields hlayout) _) ?_
  refine .bind (.defaulted (by rfl) (FontPaths.decode_toFields c.fonts) _) ?_
  refine .bind (.defaulted (by rfl) hposition _) ?_
  exact .pure c

end Config

/-! ### Folders -/

namespace Files.Folder

/-- That a path leads to the file of some name, or to where it could be made. -/
def LeadsTo (name : String) : Except Fault Place → Prop
  | .ok (.file n _) | .ok (.free n) => n = name
  | _ => False

/-- Whether a file can be written at a path. -/
def Writable (d : Folder) (path : String) : Prop := ∃ name, LeadsTo name (d.find path)

variable {d : Folder} {name : String}

/-- What is written under the name that some names lead to is found there. At the last step nothing
but the name itself can be left, whether there is a file or not. -/
theorem walk_put {inside : Bool} {names : List String} (h : LeadsTo name (d.walk inside names))
    (text : String) : (d.put name text).walk inside names = .ok (.file name (.text text)) := by
  induction names generalizing inside with
  | nil => exact h.elim
  | cons n names ih =>
    rw [walk] at h ⊢
    by_cases hstay : n = "" ∨ n = "."
    · rw [if_pos hstay] at h ⊢
      exact ih h
    rw [if_neg hstay] at h ⊢
    by_cases hup : n = ".."
    · rw [if_pos hup] at h ⊢
      exact ih h
    rw [if_neg hup] at h ⊢
    by_cases hlong : nameLimit < n.utf8ByteSize
    · rw [if_pos hlong] at h
      exact h.elim
    rw [if_neg hlong] at h ⊢
    by_cases hout : !inside
    · rw [if_pos hout] at h
      exact h.elim
    rw [if_neg hout] at h ⊢
    have hlast : names.isEmpty ∧ n = name := by
      split at h <;> split at h
      next hempty => exact ⟨hempty, h⟩
      next => exact h.elim
      next hempty => exact ⟨hempty, h⟩
      next => split at h <;> exact h.elim
    rw [hlast.2, put, List.lookup_cons_self]
    exact if_pos hlast.1

/-- **What is written** at a path where a file can be written is found there. -/
theorem find_put {path : String} (h : LeadsTo name (d.find path)) (text : String) :
    (d.put name text).find path = .ok (.file name (.text text)) := by
  rw [find] at h ⊢
  split at h
  next => exact h.elim
  next hempty =>
    rw [if_neg hempty]
    split at h
    next => exact h.elim
    next hcut =>
      rw [if_neg hcut]
      split at h
      next => exact h.elim
      next hlong =>
        rw [if_neg hlong]
        exact walk_put h text

/-- A text is written where its path leads. -/
theorem write_leadsTo {path : String} (h : LeadsTo name (d.find path)) (text : String) :
    d.write path text = .ok (d.put name text) := by
  rw [write]
  split
  next hfind =>
    rw [hfind] at h
    cases h
    rfl
  next hfind =>
    rw [hfind] at h
    cases h
    rfl
  next hfind => exact (hfind ▸ h).elim
  next hfind => exact (hfind ▸ h).elim
  next hfind => exact (hfind ▸ h).elim

/-- Writing to the disk changes the folder. -/
theorem disk_write {path text : String} {d' : Folder} (h : d.write path text = .ok d') :
    (disk.write path text).run d = (.ok (), d') := by
  simp only [disk, StateT.run_bind, StateT.run_get, pure_bind, h]
  rfl

/-- Reading from the disk gives the text of the file and leaves the folder as it is. -/
theorem disk_readText {path text : String} (h : d.find path = .ok (.file name (.text text))) :
    (disk.readText path).run d = (.ok text, d) := by
  simp only [Disk.readText, disk, StateT.run_bind, StateT.run_get, pure_bind, StateT.run_pure, read,
    h]
  rfl

end Files.Folder

/-! ### Saving and loading -/

namespace Config

open Files

/-- A file with the text of a configuration is loaded as that configuration. -/
theorem load_ofToml? {c : Config} {d : Folder} {path source : String}
    (hread : (Folder.disk.readText path).run d = pure (.ok source, d))
    (hsource : ofToml? source = some c) :
    (load Folder.disk path).run d = (.ok c, d) := by
  rw [load, StateT.run_bind, hread, pure_bind]
  simp only [hsource]
  rfl

/-- **A configuration that is saved** where a file can be written is saved without fault, and is
what is loaded from there. -/
theorem load_save {c : Config} (rereads : ∀ x ∈ c.fractions, Scalar.Rereads x) {d : Folder}
    {path : String} (writable : d.Writable path) :
    ∃ d', (c.save Folder.disk path).run d = (.ok (), d') ∧
      (load Folder.disk path).run d' = (.ok c, d') := by
  obtain ⟨name, hname⟩ := writable
  refine ⟨d.put name c.toToml, ?_, ?_⟩
  · have hwrite := Folder.disk_write (Folder.write_leadsTo hname c.toToml)
    rw [save, StateT.run_bind, hwrite]
    rfl
  · exact load_ofToml? (Folder.disk_readText (Folder.find_put hname c.toToml))
      (ofToml?_toToml rereads)

/-- A configuration of what is hardest to write: numbers that are none or not finite, a negative
zero, and texts of quotes, backslashes and newlines. -/
def hardToWrite : Config where
  geometry :=
    { size := 1 / 0, depth := 0 / 0, bevelThickness := 0.1, bevelSize := -1 / 0, bevelOffset := -0 }
  emotes := { size := some 1e-45, urlTemplate := "\"'''\\\t\r\n\x7bid\x7d\n" }
  fonts := { regular := some "it's \"plain\".ttf", boldItalic := some "C:\\fonts\\bold\x01.ttf" }

/-- In an empty folder a file of one letter can be made. -/
theorem writable_letter : Folder.Writable ⟨[]⟩ "c" := by
  have hnames : "c".splitOn "/" = ["c"] := by
    rw [String.splitOn, if_neg (by decide), String.splitOnAux, if_neg (by decide +kernel),
      if_neg (by decide +kernel), String.splitOnAux, if_pos (by decide +kernel)]
    decide +kernel
  refine ⟨"c", ?_⟩
  rw [Folder.find, if_neg (by decide +kernel), if_neg (by simp), if_neg (by decide +kernel), hnames]
  rfl

/-- Such a configuration is saved in an empty folder and loaded again. -/
theorem load_save_hardToWrite :
    (∀ x ∈ hardToWrite.fractions, Scalar.Rereads x) ∧ Folder.Writable ⟨[]⟩ "c" ∧
      ∃ d', (hardToWrite.save Folder.disk "c").run ⟨[]⟩ = (.ok (), d') ∧
        (load Folder.disk "c").run d' = (.ok hardToWrite, d') := by
  have hrereads : ∀ x ∈ hardToWrite.fractions, Scalar.Rereads x := by decide +kernel
  exact ⟨hrereads, writable_letter, load_save hrereads writable_letter⟩

end Config

end Marquee
