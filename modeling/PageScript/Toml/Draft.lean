import PageScript.Toml

/-!
Tables while a document is read. The document is a sequence of parts, each under a header, and what
may still be added to a table depends on how it came about: a table that no header names may be
named by one later; a table that dotted keys made takes more of them only in the same part; a value
that was written out takes nothing. Every operation gives `none` if it is not allowed.
-/
namespace PageScript.Toml

/-- How a table came about. -/
inductive Origin where
  /-- On the way to another table, under a header. -/
  | implied
  /-- By dotted keys in a part of the document. -/
  | dotted (part : Nat)
  /-- By its own header. -/
  | declared
deriving DecidableEq

/-- Whether dotted keys in a part may go through a table. -/
def Origin.admits (part : Nat) : Origin → Bool
  | .implied => true
  | .dotted other => other = part
  | .declared => false

/-- What stands under a name. -/
inductive Slot where
  | value (value : Toml)
  | table (origin : Origin) (entries : List (String × Slot))
  /-- An array of tables, of which the last one may grow. -/
  | tables (earlier : List (List (String × Slot))) (last : List (String × Slot))

abbrev Draft := Fields Slot

/-- A dotted key: the names of the tables that it goes through, and the last name. -/
abbrev Key := List String × String

namespace Draft

/-- Changes the table at a path from the outermost table. Tables that are missing on the way are
made, and an array of tables stands for its last one. -/
def within (change : Draft → Option Draft) : (path : List String) → Draft → Option Draft
  | [], draft => change draft
  | name :: path, draft =>
    match draft.get? name with
    | none => (within change path []).map fun inner => draft.put name (.table .implied inner)
    | some (.table origin inner) =>
      (within change path inner).map fun inner => draft.put name (.table origin inner)
    | some (.tables earlier last) =>
      (within change path last).map fun last => draft.put name (.tables earlier last)
    | some (.value _) => none

/-- Opens a table by its own header. -/
def declare (path : List String) (name : String) : Draft → Option Draft :=
  within (fun draft =>
    match draft.get? name with
    | none => some (draft.put name (.table .declared []))
    | some (.table .implied inner) => some (draft.put name (.table .declared inner))
    | some _ => none) path

/-- Opens a further table of an array of tables. -/
def append (path : List String) (name : String) : Draft → Option Draft :=
  within (fun draft =>
    match draft.get? name with
    | none => some (draft.put name (.tables [] []))
    | some (.tables earlier last) => some (draft.put name (.tables (earlier ++ [last]) []))
    | some _ => none) path

/-- Gives a value to a dotted key of the table that is open: the path and then the last name. -/
def assign (part : Nat) (value : Toml) : (path : List String) → (name : String) → Draft →
    Option Draft
  | [], name, draft => if draft.contains name then none else some (draft.put name (.value value))
  | step :: path, name, draft =>
    match draft.get? step with
    | none =>
      (assign part value path name []).map fun inner => draft.put step (.table (.dotted part) inner)
    | some (.table origin inner) =>
      if Origin.admits part origin then
        (assign part value path name inner).map fun inner =>
          draft.put step (.table (.dotted part) inner)
      else none
    | some _ => none

end Draft

/-! ### The finished document -/

mutual

def Slot.finish : Slot → Toml
  | .value v => v
  | .table _ entries => .table (finishEntries entries)
  | .tables earlier last => .array (finishTables earlier ++ [.table (finishEntries last)])

def finishEntries : List (String × Slot) → List (String × Toml)
  | [] => []
  | (name, slot) :: rest => (name, slot.finish) :: finishEntries rest

def finishTables : List (List (String × Slot)) → List Toml
  | [] => []
  | entries :: rest => .table (finishEntries entries) :: finishTables rest

end

end PageScript.Toml
