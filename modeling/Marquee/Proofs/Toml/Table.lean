import Marquee.Toml.Table

/-!
# Tables That Are Written Once

A written document opens each of its tables once, by a header, and puts its values in before the
next header. So all that happens to the open tables is that one more comes behind the others, and
that the last one grows at its end.

## Main statements

* `within_openTable` — a header makes the tables of its path behind what is there;
* `within_put` — a line puts its value behind the others of the table in force;
* `closeFields_nest` — the tables of a path come to records within records.
-/

namespace Marquee.Toml

namespace Fields

/-- Whether no entry has a key. -/
def Fresh (key : String) (fs : Fields) : Prop := ∀ f ∈ fs, f.1 ≠ key

variable {key : String} {fs fs' : Fields}

/-- Nothing is found under a fresh key. -/
theorem Fresh.lookup (h : fs.Fresh key) : fs.lookup key = none :=
  List.lookup_eq_none_iff.2 fun f hf => bne_iff_ne.2 (h f hf).symm

/-- The entry behind fresh ones is found. -/
theorem Fresh.lookup_append (h : fs.Fresh key) (e : Entry) :
    (fs ++ [(key, e)]).lookup key = some e := by
  rw [List.lookup_append, h.lookup, Option.none_or, List.lookup_cons_self]

/-- The entry behind fresh ones is the one that is replaced. -/
theorem Fresh.replace_append (h : fs.Fresh key) (e e' : Entry) :
    replace key e' (fs ++ [(key, e)]) = fs ++ [(key, e')] := by
  have hkept : fs.map (fun f => if f.1 = key then (key, e') else f) = fs := by
    refine (List.map_congr_left fun f hf => ?_).trans (List.map_id fs)
    exact if_neg (h f hf)
  rw [replace, List.map_append, hkept, List.map_cons, if_pos rfl, List.map_nil]

/-- A value under a fresh key comes last. -/
theorem put_fresh (h : fs.Fresh key) (v : Document) :
    put key v [] fs = some (fs ++ [(key, .value v)]) := by
  rw [put, h.lookup]
  rfl

/-! ### Under the path of a header -/

/-- A table under its path. -/
def nest (fs : Fields) : List String → Fields
  | [] => fs
  | key :: path => [(key, .table (if path = [] then .header else .passage) (nest fs path))]

/-- **A header** makes the tables of its path behind what is there. -/
theorem within_openTable (root : Fields) {path : List String} {last : String}
    (fresh : ∀ key ∈ (path ++ [last]).head?, root.Fresh key) :
    root.within (openTable last) path = some (root ++ nest [] (path ++ [last])) := by
  induction path generalizing root with
  | nil =>
    have hfresh : root.Fresh last := fresh last rfl
    rw [within, openTable, hfresh.lookup]
    rfl
  | cons key path ih =>
    have hfresh : root.Fresh key := fresh key rfl
    have hinner := ih [] fun _ _ => List.forall_mem_nil _
    rw [within, enter, hfresh.lookup, hinner, List.cons_append, nest,
      if_neg (List.append_ne_nil_of_right_ne_nil path (List.cons_ne_nil last []))]
    rfl

/-- What is changed under a path is changed in the table there. -/
theorem within_nest {change : Fields → Option Fields} (hchange : change fs = some fs')
    (root : Fields) {path : List String} (hpath : path ≠ [])
    (fresh : ∀ key ∈ path.head?, root.Fresh key) :
    (root ++ nest fs path).within change path = some (root ++ nest fs' path) := by
  induction path generalizing root with
  | nil => exact absurd rfl hpath
  | cons key path ih =>
    have hfresh : root.Fresh key := fresh key rfl
    have hinner : (nest fs path).within change path = some (nest fs' path) := by
      rcases path with _ | ⟨key', path⟩
      · exact hchange
      · exact ih [] (List.cons_ne_nil key' path) fun _ _ => List.forall_mem_nil _
    rw [within, enter, nest, hfresh.lookup_append, nest]
    dsimp only
    rw [if_neg fun h => Origin.noConfusion h.1, hinner]
    exact congrArg some (hfresh.replace_append _ _)

/-- **A line** puts its value behind the others of the table in force. -/
theorem within_put {root : Fields} {path : List String} (hpath : path ≠ [])
    (freshPath : ∀ key ∈ path.head?, root.Fresh key) (freshKey : fs.Fresh key) (v : Document) :
    (root ++ nest fs path).within (put key v []) path =
      some (root ++ nest (fs ++ [(key, .value v)]) path) :=
  within_nest (put_fresh freshKey v) root hpath freshPath

end Fields

/-! ### What the tables come to -/

namespace Document

/-- A record under a path. -/
def nest (fs : List (String × Document)) : List String → List (String × Document)
  | [] => fs
  | key :: path => [(key, .record (nest fs path))]

end Document

/-- Fields in a row are closed in a row. -/
theorem closeFields_append (fs gs : Fields) :
    closeFields (fs ++ gs) = closeFields fs ++ closeFields gs := by
  induction fs with
  | nil => rfl
  | cons f fs ih =>
    obtain ⟨key, e⟩ := f
    rw [List.cons_append, closeFields, ih, closeFields, List.cons_append]

/-- Values are closed already. -/
theorem closeFields_values (fs : List (String × Document)) :
    closeFields (fs.map fun f => (f.1, .value f.2)) = fs := by
  induction fs with
  | nil => rfl
  | cons f fs ih =>
    rw [List.map_cons, closeFields, ih, Entry.close]

/-- Nested fields are closed as nested documents. -/
theorem closeFields_nest (fs : Fields) (path : List String) :
    closeFields (Fields.nest fs path) = Document.nest (closeFields fs) path := by
  induction path with
  | nil => rfl
  | cons key path ih =>
    rw [Fields.nest, closeFields, Entry.close, ih, closeFields, Document.nest]

end Marquee.Toml
