import ApiTypes.Yaml.Token

namespace ApiTypes.Yaml

inductive Node (A : Type) where
  | alias (target : A)
  | scalar (anchor : Option String) (tag : Option String) (text : String) (style : ScalarStyle)
  | sequence (anchor : Option String) (tag : Option String) (items : List (Node A))
  | mapping (anchor : Option String) (tag : Option String) (entries : List (Node A × Node A))
  deriving Inhabited

def Node.missing {A : Type} : Node A :=
  .scalar none none "" .plain

structure Properties where
  anchor : Option String
  tag : Option String

abbrev Handles := List (String × String)

/-- The full form of a tag; without a handle it is the suffix. -/
def fullTag? (handles : Handles) (handle suffix : String) : Option String :=
  if handle = "" then some suffix else (handles.lookup handle).map (· ++ suffix)

def properties? (handles : Handles) : List Token → Option (Properties × List Token)
  | .anchor a :: .tag h s :: ts => do return (⟨some a, ← fullTag? handles h s⟩, ts)
  | .tag h s :: .anchor a :: ts => do return (⟨some a, ← fullTag? handles h s⟩, ts)
  | .anchor a :: ts => some (⟨some a, none⟩, ts)
  | .tag h s :: ts => do return (⟨none, ← fullTag? handles h s⟩, ts)
  | ts => some (⟨none, none⟩, ts)

/-- The tag `!` says nothing about a scalar. -/
def scalarTag (tag : Option String) : Option String :=
  tag.filter (· ≠ "!")

def endsBlockItem : List Token → Bool
  | .blockEntry :: _ | .blockEnd :: _ => true
  | _ => false

def endsBlockNode : List Token → Bool
  | .key :: _ | .value :: _ | .blockEnd :: _ => true
  | _ => false

def endsFlowItem : List Token → Bool
  | .flowEntry :: _ | .flowSequenceEnd :: _ => true
  | _ => false

def endsFlowNode : List Token → Bool
  | .flowEntry :: _ | .flowMappingEnd :: _ => true
  | _ => false

section

variable (handles : Handles)

mutual

/-- A node.  Blocks may stand only inside blocks, and entries without a block of their own only as
keys and values of a block. -/
def node? (fuel : Nat) (inBlock indentless : Bool) (ts : List Token) :
    Option (Node String × List Token) :=
  match fuel, ts with
  | 0, _ => none
  | _ + 1, .alias name :: ts => some (.alias name, ts)
  | fuel + 1, ts => do
    let (p, ts) ← properties? handles ts
    match ts, inBlock, indentless with
    | .blockEntry :: _, _, true =>
      let (items, ts) ← entries? fuel ts
      return (.sequence p.anchor p.tag items, ts)
    | .scalar text style :: ts, _, _ => return (.scalar p.anchor (scalarTag p.tag) text style, ts)
    | .flowSequenceStart :: ts, _, _ =>
      let (items, ts) ← flowItems? fuel true ts
      return (.sequence p.anchor p.tag items, ts)
    | .flowMappingStart :: ts, _, _ =>
      let (pairs, ts) ← flowPairs? fuel true ts
      return (.mapping p.anchor p.tag pairs, ts)
    | .blockSequenceStart :: ts, true, _ =>
      let (items, ts) ← blockItems? fuel ts
      return (.sequence p.anchor p.tag items, ts)
    | .blockMappingStart :: ts, true, _ =>
      let (pairs, ts) ← blockPairs? fuel ts
      return (.mapping p.anchor p.tag pairs, ts)
    | ts, _, _ =>
      if p.anchor.isSome ∨ p.tag.isSome then return (.scalar p.anchor p.tag "" .plain, ts)
      none

def entries? (fuel : Nat) (ts : List Token) : Option (List (Node String) × List Token) :=
  match fuel, ts with
  | 0, _ => none
  | fuel + 1, .blockEntry :: ts => do
    let (item, ts) ←
      if endsBlockItem ts || endsBlockNode ts then some (Node.missing, ts)
      else node? fuel true false ts
    let (items, ts) ← entries? fuel ts
    return (item :: items, ts)
  | _ + 1, ts => some ([], ts)

def blockItems? (fuel : Nat) (ts : List Token) : Option (List (Node String) × List Token) :=
  match fuel, ts with
  | 0, _ => none
  | fuel + 1, .blockEntry :: ts => do
    let (item, ts) ←
      if endsBlockItem ts then some (Node.missing, ts) else node? fuel true false ts
    let (items, ts) ← blockItems? fuel ts
    return (item :: items, ts)
  | _ + 1, .blockEnd :: ts => some ([], ts)
  | _ + 1, _ => none

def blockPairs? (fuel : Nat) (ts : List Token) :
    Option (List (Node String × Node String) × List Token) :=
  match fuel, ts with
  | 0, _ => none
  | fuel + 1, .key :: ts => do
    let (key, ts) ←
      if endsBlockNode ts then some (Node.missing, ts) else node? fuel true true ts
    let (value, ts) ←
      match ts with
      | .value :: ts =>
        if endsBlockNode ts then some (Node.missing, ts) else node? fuel true true ts
      | ts => some (Node.missing, ts)
    let (pairs, ts) ← blockPairs? fuel ts
    return ((key, value) :: pairs, ts)
  | _ + 1, .blockEnd :: ts => some ([], ts)
  | _ + 1, _ => none

/-- The items of a sequence in brackets.  A key among them is a mapping with one entry. -/
def flowItems? (fuel : Nat) (first : Bool) (ts : List Token) :
    Option (List (Node String) × List Token) :=
  match fuel, ts with
  | 0, _ => none
  | _ + 1, .flowSequenceEnd :: ts => some ([], ts)
  | fuel + 1, ts => do
    let ts ←
      match first, ts with
      | true, ts => some ts
      | false, .flowEntry :: ts => some ts
      | false, _ => none
    match ts with
    | .flowSequenceEnd :: ts => return ([], ts)
    | .key :: ts =>
      let (pair, ts) ← flowPair? fuel ts
      let (items, ts) ← flowItems? fuel false ts
      return (.mapping none none [pair] :: items, ts)
    | ts =>
      let (item, ts) ← node? fuel false false ts
      let (items, ts) ← flowItems? fuel false ts
      return (item :: items, ts)

/-- The key and the value of a mapping with one entry.  If the key is left out, the token that shows
it is passed over. -/
def flowPair? (fuel : Nat) (ts : List Token) :
    Option ((Node String × Node String) × List Token) :=
  match fuel with
  | 0 => none
  | fuel + 1 => do
    let (key, ts) ←
      match ts with
      | .value :: ts | .flowEntry :: ts | .flowSequenceEnd :: ts => some (Node.missing, ts)
      | ts => node? fuel false false ts
    let (value, ts) ←
      match ts with
      | .value :: ts =>
        if endsFlowItem ts then some (Node.missing, ts) else node? fuel false false ts
      | ts => some (Node.missing, ts)
    return ((key, value), ts)

/-- The entries of a mapping in braces.  A node without a colon has no value. -/
def flowPairs? (fuel : Nat) (first : Bool) (ts : List Token) :
    Option (List (Node String × Node String) × List Token) :=
  match fuel, ts with
  | 0, _ => none
  | _ + 1, .flowMappingEnd :: ts => some ([], ts)
  | fuel + 1, ts => do
    let ts ←
      match first, ts with
      | true, ts => some ts
      | false, .flowEntry :: ts => some ts
      | false, _ => none
    match ts with
    | .flowMappingEnd :: ts => return ([], ts)
    | .key :: ts =>
      let (key, ts) ←
        match ts with
        | .value :: _ => some (Node.missing, ts)
        | ts => if endsFlowNode ts then some (Node.missing, ts) else node? fuel false false ts
      let (value, ts) ←
        match ts with
        | .value :: ts =>
          if endsFlowNode ts then some (Node.missing, ts) else node? fuel false false ts
        | ts => some (Node.missing, ts)
      let (pairs, ts) ← flowPairs? fuel false ts
      return ((key, value) :: pairs, ts)
    | ts =>
      let (key, ts) ← node? fuel false false ts
      let (pairs, ts) ← flowPairs? fuel false ts
      return ((key, Node.missing) :: pairs, ts)

end

end

def standardHandles : Handles :=
  [("!", "!"), ("!!", "tag:yaml.org,2002:")]

/-- The directives at the start of a document.  The version may be given once, and each handle. -/
def directives? (version : Bool) (handles : Handles) :
    List Token → Option (Handles × List Token)
  | .version major minor :: ts =>
    if version ∨ major ≠ 1 ∨ (minor ≠ 1 ∧ minor ≠ 2) then none else directives? true handles ts
  | .handle name meaning :: ts =>
    if (handles.lookup name).isSome then none
    else directives? version (handles ++ [(name, meaning)]) ts
  | ts => some (handles ++ standardHandles, ts)

def endsDocument : List Token → Bool
  | [] | .version _ _ :: _ | .handle _ _ :: _ | .documentStart :: _ | .documentEnd :: _ => true
  | _ => false

def startsDocument : List Token → Bool
  | .version _ _ :: _ | .handle _ _ :: _ | .documentStart :: _ => true
  | _ => false

def root? (ts : List Token) : Option (Option (Node String)) := do
  if ts.isEmpty then return none
  let fuel := 4 * (ts.length + 1)
  let (root, rest) ←
    if startsDocument ts then do
      match ← directives? false [] ts with
      | (handles, .documentStart :: ts) =>
        if endsDocument ts then some (Node.missing, ts) else node? handles fuel true false ts
      | _ => none
    else node? standardHandles fuel true false ts
  if rest.all (· == .documentEnd) then return some root else none

/-- Which anchors are known, and which node each number stands for.  The numbers of anchors count
the names before them, so a name that is used again can share its number with the next one; then the
later node counts. -/
structure Anchors where
  names : List (String × Nat)
  nodes : List (Nat × Node Nat)

def Anchors.add (anchor : Option String) (known : List (String × Nat)) :
    Option Nat × List (String × Nat) :=
  match anchor with
  | none => (none, known)
  | some name =>
    let names := known.filter (·.1 ≠ name)
    (some known.length, names ++ [(name, known.length)])

mutual

/-- Replaces the names of aliases by numbers; the anchors met stand in the order of their nodes. -/
def number? (names : List (String × Nat)) :
    Node String → Option (Node Nat × List (String × Nat) × List (Nat × Node Nat))
  | .alias name => (names.lookup name).map fun n => (.alias n, names, [])
  | .scalar anchor tag text style =>
    let (n, names) := Anchors.add anchor names
    let result := Node.scalar anchor tag text style
    some (result, names, (n.map (·, result)).toList)
  | .sequence anchor tag items => do
    let (n, names) := Anchors.add anchor names
    let (items, names, inner) ← numberItems? names items
    let result := Node.sequence anchor tag items
    return (result, names, (n.map (·, result)).toList ++ inner)
  | .mapping anchor tag entries => do
    let (n, names) := Anchors.add anchor names
    let (entries, names, inner) ← numberEntries? names entries
    let result := Node.mapping anchor tag entries
    return (result, names, (n.map (·, result)).toList ++ inner)

def numberItems? (names : List (String × Nat)) : List (Node String) →
    Option (List (Node Nat) × List (String × Nat) × List (Nat × Node Nat))
  | [] => some ([], names, [])
  | item :: items => do
    let (item, names, first) ← number? names item
    let (items, names, others) ← numberItems? names items
    return (item :: items, names, first ++ others)

def numberEntries? (names : List (String × Nat)) : List (Node String × Node String) →
    Option (List (Node Nat × Node Nat) × List (String × Nat) × List (Nat × Node Nat))
  | [] => some ([], names, [])
  | (key, value) :: entries => do
    let (key, names, first) ← number? names key
    let (value, names, second) ← number? names value
    let (entries, names, others) ← numberEntries? names entries
    return ((key, value) :: entries, names, first ++ second ++ others)

end

mutual

/-- The number of nodes, where sequences and mappings count twice. -/
def Node.size {A : Type} : Node A → Nat
  | .alias _ => 1
  | .scalar _ _ _ _ => 1
  | .sequence _ _ items => Node.itemsSize items + 2
  | .mapping _ _ entries => Node.entriesSize entries + 2

def Node.itemsSize {A : Type} : List (Node A) → Nat
  | [] => 0
  | item :: items => item.size + Node.itemsSize items

def Node.entriesSize {A : Type} : List (Node A × Node A) → Nat
  | [] => 0
  | (key, value) :: entries => key.size + value.size + Node.entriesSize entries

end

structure Document where
  root : Node Nat
  anchors : List (Nat × Node Nat)

def Document.aliasLimit (d : Document) : Nat :=
  100 * d.root.size

def Document.anchor? (d : Document) (n : Nat) : Option (Node Nat) :=
  (d.anchors.reverse.find? (·.1 == n)).map Prod.snd

/-- The document that a text holds; `none` inside if the text holds none. -/
def document? (s : String) : Option (Option Document) := do
  match ← root? (← tokens? s.toList) with
  | none => return none
  | some root =>
    let (root, _, anchors) ← number? [] root
    return some ⟨root, anchors⟩

end ApiTypes.Yaml
