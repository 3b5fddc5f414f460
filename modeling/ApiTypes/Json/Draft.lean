import ApiTypes.Json.Basic
import ApiTypes.Word

namespace ApiTypes.Json

inductive Draft where
  | null
  | bool (b : Bool)
  | number (n : Number)
  | string (s : String)
  | array (items : List Draft)
  | object (members : List (Option String × Draft))
  | invalid
  deriving Inhabited

mutual

def Draft.ofJson : Json → Draft
  | .null => .null
  | .bool b => .bool b
  | .number n => .number n
  | .string s => .string s
  | .array items => .array (Draft.ofItems items)
  | .object members => .object (Draft.ofMembers members)

def Draft.ofItems : List Json → List Draft
  | [] => []
  | j :: items => Draft.ofJson j :: Draft.ofItems items

def Draft.ofMembers : List (String × Json) → List (Option String × Draft)
  | [] => []
  | (key, j) :: members => (some key, Draft.ofJson j) :: Draft.ofMembers members

end

mutual

/-- The document, if nothing in it is marked; of two members with one key the later one counts. -/
def Draft.toJson? : Draft → Option Json
  | .null => some .null
  | .bool b => some (.bool b)
  | .number n => some (.number n)
  | .string s => some (.string s)
  | .array items => (Draft.items? items).map .array
  | .object members => (Draft.members? members).map fun ms => .object (Table.ofList ms)
  | .invalid => none

def Draft.items? : List Draft → Option (List Json)
  | [] => some []
  | d :: items => do return (← Draft.toJson? d) :: (← Draft.items? items)

def Draft.members? : List (Option String × Draft) → Option (List (String × Json))
  | [] => some []
  | (key, d) :: members => do return (← key, ← Draft.toJson? d) :: (← Draft.members? members)

end

/-- How many fields a record may be given by position. -/
inductive Surplus where
  /-- More values than fields are an error. -/
  | refused
  /-- Values after the last field are not looked at. -/
  | ignored
  deriving DecidableEq, Repr

/-- The value of each field of a record.  A record is an object, in which each field stands at most
once and other keys are ignored, or a list of values in the order of the fields, of which the last
ones may be missing. -/
def Draft.fields? (surplus : Surplus) (names : List String) : Draft → Option (List (Option Draft))
  | .object members =>
    if members.all fun (key, _) => key.isSome then
      names.mapM fun name =>
        match members.filter fun (key, _) => key = some name with
        | [] => some none
        | [(_, d)] => some (some d)
        | _ => none
    else none
  | .array items =>
    if surplus = .refused ∧ items.length > names.length then none
    else some (names.mapIdx fun i _ => items[i]?)
  | _ => none

def Draft.bool? : Draft → Option Bool
  | .bool b => some b
  | _ => none

def Draft.size? : Draft → Option Nat
  | .number (.integer n) => if 0 ≤ n ∧ n < Word.unsigned64 then some n.toNat else none
  | _ => none

def Draft.string? : Draft → Option String
  | .string s => some s
  | _ => none

def Draft.field? {α : Type} (default : α) (read : Draft → Option α) : Option Draft → Option α
  | none => some default
  | some d => read d

def Draft.nullable? {α : Type} (read : Draft → Option α) : Draft → Option (Option α)
  | .null => some none
  | d => (read d).map some

def Draft.list? {α : Type} (read : Draft → Option α) : Draft → Option (List α)
  | .array items => items.mapM read
  | _ => none

end ApiTypes.Json
