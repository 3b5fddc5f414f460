import ApiTypes.Json.Draft

namespace ApiTypes.Toml

inductive Origin where
  /-- By a header of its own, or as an item of a list of tables. -/
  | declared
  /-- As the parent of a declared table; it can still be declared. -/
  | implied
  /-- As the parent in the key of a value. -/
  | dotted
  deriving DecidableEq, Repr

inductive Node where
  | value (d : Json.Draft)
  | table (origin : Origin) (entries : List (String × Node))
  | tables (items : List (List (String × Node)))

abbrev Entries := List (String × Node)

/-- Adds a value below a key with the parents `path`.  A table that is extended this way must be one
of dotted keys; on the way to it there may be others, but none that was declared. -/
def addValue? (key : String) (d : Json.Draft) : List String → Entries → Option Entries
  | [], entries => if Table.contains key entries then none else some (entries ++ [(key, .value d)])
  | first :: path, entries =>
    match Table.get? first entries with
    | none => (addValue? key d path []).map fun inner => entries ++ [(first, .table .dotted inner)]
    | some (.table origin inner) =>
      if origin = .declared ∨ (path.isEmpty ∧ origin ≠ .dotted) then none
      else
        (addValue? key d path inner).map fun inner =>
          Table.insert first (.table origin inner) entries
    | some (.tables items) =>
      if path.isEmpty then none
      else
        (addValue? key d path (items.getLast?.getD [])).map fun inner =>
          Table.insert first (.tables (items.dropLast ++ [inner])) entries
    | some (.value _) => none

/-- Changes the table at a path, of which missing parts are made.  Of a list of tables the last one
is meant. -/
def changeAt? (change : Entries → Option Entries) : List String → Entries → Option Entries
  | [], entries => change entries
  | first :: path, entries =>
    match Table.get? first entries with
    | none =>
      (changeAt? change path []).map fun inner => entries ++ [(first, .table .implied inner)]
    | some (.table origin inner) =>
      (changeAt? change path inner).map fun inner =>
        Table.insert first (.table origin inner) entries
    | some (.tables items) =>
      (changeAt? change path (items.getLast?.getD [])).map fun inner =>
        Table.insert first (.tables (items.dropLast ++ [inner])) entries
    | some (.value _) => none

/-- Declares a table.  An implied one keeps what it holds and moves to the end. -/
def declare? (key : String) (entries : Entries) : Option Entries :=
  match Table.get? key entries with
  | none => some (entries ++ [(key, .table .declared [])])
  | some (.table .implied inner) =>
    some (entries.filter (·.1 ≠ key) ++ [(key, .table .declared inner)])
  | some _ => none

def declareItem? (key : String) (entries : Entries) : Option Entries :=
  match Table.get? key entries with
  | none => some (entries ++ [(key, .tables [[]])])
  | some (.tables items) => some (Table.insert key (.tables (items ++ [[]])) entries)
  | some _ => none

mutual

def Node.toDraft : Node → Json.Draft
  | .value d => d
  | .table _ entries => .object (memberDrafts entries)
  | .tables items => .array (itemDrafts items)

def memberDrafts : List (String × Node) → List (Option String × Json.Draft)
  | [] => []
  | (key, n) :: entries => (some key, n.toDraft) :: memberDrafts entries

def itemDrafts : List (List (String × Node)) → List Json.Draft
  | [] => []
  | entries :: items => .object (memberDrafts entries) :: itemDrafts items

end

end ApiTypes.Toml
