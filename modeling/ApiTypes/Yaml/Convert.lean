import ApiTypes.Json.Basic
import ApiTypes.Yaml.Value

namespace ApiTypes.Yaml

inductive Unsupported where
  | number (x : Float)
  | key (v : Value)

def Unsupported.message : Unsupported → String
  | number x => "Unsupported number: " ++ (Number.real x).text
  | key v => "Unsupported mapping key: " ++ v.shown

def keyText (key : Value) : Except Unsupported String :=
  match key with
  | .string s => .ok s
  | .number n => .ok n.text
  | .bool b => .ok (if b then "true" else "false")
  | key => .error (.key key)

def Number.toJson : Number → Except Unsupported Json
  | integer n => .ok (.number (.integer n))
  | real x => if x.isFinite then .ok (.number (.real x)) else .error (.number x)

mutual

/-- The document of a value.  Of two entries whose keys have the same text the later one counts. -/
def Value.toJson : Value → Except Unsupported Json
  | .null => .ok .null
  | .bool b => .ok (.bool b)
  | .number n => n.toJson
  | .string s => .ok (.string s)
  | .sequence items => (Value.itemsToJson items).map .array
  | .mapping entries => (Value.entriesToJson entries).map fun ms => .object (Table.ofList ms)
  | .tagged _ v => v.toJson

def Value.itemsToJson : List Value → Except Unsupported (List Json)
  | [] => .ok []
  | v :: items => do return (← v.toJson) :: (← Value.itemsToJson items)

def Value.entriesToJson : List (Value × Value) → Except Unsupported (List (String × Json))
  | [] => .ok []
  | (key, v) :: entries => do
    return (← keyText key, ← v.toJson) :: (← Value.entriesToJson entries)

end

end ApiTypes.Yaml
