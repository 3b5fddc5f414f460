import ApiTypes.Decimal.Layout
import ApiTypes.Text.Search
import ApiTypes.Text.Visible
import ApiTypes.Yaml.Node
import ApiTypes.Yaml.Plain

namespace ApiTypes.Yaml

inductive Value where
  | null
  | bool (b : Bool)
  | number (n : Number)
  | string (s : String)
  | sequence (items : List Value)
  | mapping (entries : List (Value × Value))
  | tagged (tag : String) (v : Value)
  deriving Inhabited

/-- Whether two numbers are the same; NaN is the same as itself, and the zeros are the same. -/
def Number.same : Number → Number → Bool
  | integer m, integer n => m == n
  | real x, real y => x == y || (x.isNaN && y.isNaN)
  | _, _ => false

mutual

/-- Whether two values are the same; the order of a mapping does not count. -/
def Value.same : Value → Value → Bool
  | .null, .null => true
  | .bool a, .bool b => a == b
  | .number m, .number n => m.same n
  | .string s, .string t => s == t
  | .sequence as, .sequence bs => Value.sameItems as bs
  | .mapping as, .mapping bs => as.length == bs.length && Value.sameEntries as bs
  | .tagged s a, .tagged t b => s == t && a.same b
  | _, _ => false

def Value.sameItems : List Value → List Value → Bool
  | [], [] => true
  | a :: as, b :: bs => a.same b && Value.sameItems as bs
  | _, _ => false

def Value.sameEntries : List (Value × Value) → List (Value × Value) → Bool
  | [], _ => true
  | (key, v) :: as, bs =>
    (bs.any fun (k, w) => key.same k && v.same w) && Value.sameEntries as bs

end

def Number.text : Number → String
  | integer n => toString n
  | real x => Decimal.marked ".nan" ".inf" "-.inf" x

mutual

def Value.shown : Value → String
  | .null => "Null"
  | .bool b => "Bool(" ++ (if b then "true" else "false") ++ ")"
  | .number n => "Number(" ++ n.text ++ ")"
  | .string s => "String(" ++ Text.quoted s ++ ")"
  | .sequence items => "Sequence [" ++ ", ".intercalate (Value.shownItems items) ++ "]"
  | .mapping entries => "Mapping \x7b" ++ ", ".intercalate (Value.shownEntries entries) ++ "\x7d"
  | .tagged tag v => "TaggedValue \x7b tag: !" ++ tag ++ ", value: " ++ v.shown ++ " \x7d"

def Value.shownItems : List Value → List String
  | [] => []
  | v :: items => v.shown :: Value.shownItems items

/-- Keys that are flags, numbers or texts are shown without their kind. -/
def Value.shownEntries : List (Value × Value) → List String
  | [] => []
  | (key, v) :: entries =>
    let name :=
      match key with
      | .bool b => if b then "true" else "false"
      | .number n => n.text
      | .string s => Text.quoted s
      | key => key.shown
    (name ++ ": " ++ v.shown) :: Value.shownEntries entries

end

def boolTag : String := "tag:yaml.org,2002:bool"

def intTag : String := "tag:yaml.org,2002:int"

def floatTag : String := "tag:yaml.org,2002:float"

def nullTag : String := "tag:yaml.org,2002:null"

def Plain.value? (text : String) : Plain → Option Value
  | null => some .null
  | bool b => some (.bool b)
  | number n => some (.number n)
  | string => some (.string text)
  | tooWide => none

def coreScalar? (tag : Option String) (text : String) (style : ScalarStyle) : Option Value :=
  match tag with
  | none => if style = .plain then (Plain.ofString text).value? text else some (.string text)
  | some tag =>
    if tag = boolTag then (bool? text).map .bool
    else if tag = intTag then ((integer? text).bind Plain.ofInteger?).bind (Plain.value? text)
    else if tag = floatTag then (real? text).map fun x => .number (.real x)
    else if tag = nullTag then (if isNull text then some .null else none)
    else some (.string text)

def applicationTag? (tag : Option String) : Option String :=
  tag.bind fun t => (Text.after? ['!'] t.toList).map String.ofList

/-- A value, where the state counts the aliases followed. -/
abbrev Reading := StateT Nat Option

def Document.follow (d : Document) (n : Node Nat) : Reading (Node Nat) :=
  match n with
  | .alias target => do
    modify (· + 1)
    if (← get) > d.aliasLimit then failure
    StateT.lift (d.anchor? target)
  | n => return n

def Value.withTag? (tag : Option String) (v : Value) : Option Value :=
  match tag with
  | none => some v
  | some "" => none
  | some t => some (.tagged t v)

def newKey? (entries : List (Value × Value)) (key : Value) : Option Unit :=
  if entries.any fun (k, _) => key.same k then none else some ()

/-- The value of a node with at most `depth` sequences and mappings around each other. -/
def Document.value (d : Document) : Nat → Node Nat → Reading Value
  | depth, n => do
    match ← d.follow n with
    | .alias _ => failure
    | .scalar _ tag text style =>
      let name := applicationTag? tag
      let v := coreScalar? (if name.isSome then none else tag) text style
      StateT.lift (v.bind (Value.withTag? name))
    | .sequence _ tag items =>
      match depth with
      | 0 => failure
      | depth + 1 =>
        let items ← items.mapM (d.value depth)
        StateT.lift (Value.withTag? (applicationTag? tag) (.sequence items))
    | .mapping _ tag entries =>
      match depth with
      | 0 => failure
      | depth + 1 =>
        let entries ← entries.foldlM (fun done (key, v) => do
          let key ← d.value depth key
          StateT.lift (newKey? done key)
          return done ++ [(key, ← d.value depth v)]) []
        StateT.lift (Value.withTag? (applicationTag? tag) (.mapping entries))

def nestingLimit : Nat := 128

/-- The value of a text; a text without a document has none. -/
def value? (s : String) : Option Value := do
  match ← document? s with
  | none => return .null
  | some d => return (← (d.value nestingLimit d.root).run 0).1

end ApiTypes.Yaml
