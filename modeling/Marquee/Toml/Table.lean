import Marquee.Document.Basic

/-!
# Tables under Construction

While a TOML document is read, tables are open: a later line may add to them. What a line
may still do to a table depends on how the table came about (`Origin`).

* A header `[a.b]` makes the table at its path, and the ones above it where they are
  missing. It may take up a table that was only made on the way to another, once.
* A header `[[a.b]]` adds an element to the list of tables at its path; what follows
  belongs to that element.
* A dotted key makes and extends tables that dotted keys made. It passes through those
  made on the way to a header, but cannot put a value into one.
* Values, inline tables among them, are closed.
-/

namespace Marquee.Toml

/-- How a table came about. -/
inductive Origin where
  /-- By a header of its own. -/
  | header
  /-- On the way to a header below it. -/
  | passage
  /-- By a dotted key. -/
  | dotted
deriving DecidableEq

/-- What stands under a key. -/
inductive Entry where
  | value (v : Document)
  | table (origin : Origin) (fields : List (String × Entry))
  /-- A list of tables, the last of which is still open. -/
  | tables (closed : List (List (String × Entry))) (last : List (String × Entry))

/-- The keys of a table, in order, each once. -/
abbrev Fields := List (String × Entry)

namespace Fields

/-- The fields with another entry under a key that they have. -/
def replace (key : String) (e : Entry) (fs : Fields) : Fields :=
  fs.map fun f => if f.1 = key then (key, e) else f

/-- Changes the open table under a key. One that is missing is made; one with a header of
its own is closed to dotted keys. -/
def enter (made : Origin) (change : Origin → Fields → Option Fields) (key : String)
    (fs : Fields) : Option Fields :=
  match fs.lookup key with
  | none => do pure (fs ++ [(key, .table made (← change made []))])
  | some (.table origin inner) =>
    if made = .dotted ∧ origin = .header then none
    else do pure (fs.replace key (.table origin (← change origin inner)))
  | some (.tables closed last) => do
    pure (fs.replace key (.tables closed (← change .header last)))
  | some (.value _) => none

/-- Changes the table that a path of headers leads to. -/
def within (change : Fields → Option Fields) : List String → Fields → Option Fields
  | [], fs => change fs
  | key :: path, fs => enter .passage (fun _ inner => within change path inner) key fs

/-- Puts a value under a dotted key, given by its parts before the last and the last. -/
def put (last : String) (v : Document) : List String → Fields → Option Fields
  | [], fs => if (fs.lookup last).isSome then none else some (fs ++ [(last, .value v)])
  | key :: path, fs =>
    enter .dotted
      (fun origin inner =>
        if path = [] ∧ origin ≠ .dotted then none else put last v path inner) key fs

/-- Opens the table of a header. -/
def openTable (key : String) (fs : Fields) : Option Fields :=
  match fs.lookup key with
  | none => some (fs ++ [(key, .table .header [])])
  | some (.table .passage inner) => some (fs.replace key (.table .header inner))
  | _ => none

/-- Opens another element of a list of tables. -/
def openElement (key : String) (fs : Fields) : Option Fields :=
  match fs.lookup key with
  | none => some (fs ++ [(key, .tables [] [])])
  | some (.tables closed last) => some (fs.replace key (.tables (closed ++ [last]) []))
  | _ => none

end Fields

/-! ### The finished document -/

mutual

/-- What an entry comes to when nothing is added any more. -/
def Entry.close : Entry → Document
  | .value v => v
  | .table _ fs => .record (closeFields fs)
  | .tables closed last => .list false (closeAll closed ++ [.record (closeFields last)])

/-- The fields of a table when nothing is added any more. -/
def closeFields : List (String × Entry) → List (String × Document)
  | [] => []
  | (key, e) :: fs => (key, e.close) :: closeFields fs

/-- The elements of a list of tables when nothing is added any more. -/
def closeAll : List (List (String × Entry)) → List Document
  | [] => []
  | fs :: more => .record (closeFields fs) :: closeAll more

end

end Marquee.Toml
