import ApiTypes.Proofs.TypeScript.Tokens

namespace ApiTypes.TypeScript

namespace Keyword

def all : List Keyword :=
  [.string, .number, .boolean, .null, .undefined, .unknown, .never]

def ofText? (w : String) : Option Keyword :=
  all.find? (·.text == w)

theorem ofText?_text (k : Keyword) : ofText? k.text = some k := by
  cases k <;> decide

end Keyword

namespace Grammar

abbrev Reader (α : Type) :=
  List Token → Option (α × List Token)

def after? (c : Char) : List Token → Option (List Token)
  | .symbol d :: ts => if d = c then some ts else none
  | _ => none

def followedBy {α : Type} (c : Char) (item : Reader α) : Reader α := fun ts => do
  let (x, ts) ← item ts
  let ts ← after? c ts
  return (x, ts)

/-- At most `n` items, each behind the symbol `c`. -/
def more {α : Type} (c : Char) (item : Reader α) : Nat → Reader (List α)
  | 0, ts => some ([], ts)
  | n + 1, ts =>
    match after? c ts with
    | none => some ([], ts)
    | some ts => do
      let (x, ts) ← item ts
      let (xs, ts) ← more c item n ts
      return (x :: xs, ts)

def separated {α : Type} (c : Char) (item : Reader α) (n : Nat) : Reader (List α) := fun ts => do
  let (x, ts) ← item ts
  let (xs, ts) ← more c item n ts
  return (x :: xs, ts)

/-- The type that a word stands for: a keyword, a truth value or a declaration. -/
def wordType (w : String) : TypeExpr :=
  match Keyword.ofText? w with
  | some k => .keyword k
  | none =>
    if w = "true" then .literal (.bool true)
    else if w = "false" then .literal (.bool false)
    else .named w

def key? : Token → Option String
  | .word w => some w
  | .text s => some s
  | _ => none

section members

variable (type : Reader TypeExpr)

def member : Reader (Member TypeExpr)
  | key :: .symbol '?' :: .symbol ':' :: ts => do
    let name ← key? key
    let (t, ts) ← followedBy ';' type ts
    return (⟨name, t, true, none⟩, ts)
  | key :: .symbol ':' :: ts => do
    let name ← key? key
    let (t, ts) ← followedBy ';' type ts
    return (⟨name, t, false, none⟩, ts)
  | _ => none

/-- The signature of all other members, read from behind its opening bracket. -/
def index : Reader TypeExpr
  | .word k :: .symbol ':' :: .word w :: .symbol ']' :: .symbol ':' :: ts =>
    if k = "k" ∧ w = "string" then followedBy ';' type ts else none
  | _ => none

/-- The inside of an object type and its closing brace; there is at most one signature. -/
def objectBody : Nat → Reader (List (Member TypeExpr) × Option TypeExpr)
  | 0, _ => none
  | _ + 1, .symbol '}' :: ts => some (([], none), ts)
  | n + 1, .symbol '[' :: ts => do
    let (t, ts) ← index type ts
    match ← objectBody n ts with
    | ((ms, none), ts) => some ((ms, some t), ts)
    | _ => none
  | n + 1, ts => do
    let (m, ts) ← member type ts
    let ((ms, t), ts) ← objectBody n ts
    return ((m :: ms, t), ts)

/-- A type that needs no parentheses anywhere. -/
def primary (n : Nat) : Reader TypeExpr
  | .symbol '(' :: ts => followedBy ')' type ts
  | .symbol '[' :: ts =>
    match after? ']' ts with
    | some ts => some (.tuple [], ts)
    | none => (followedBy ']' (separated ',' type n) ts).map (Prod.map .tuple id)
  | .symbol '{' :: ts =>
    (objectBody type n ts).map (Prod.map (fun (ms, t) => .object ms t) id)
  | .symbol '-' :: .number k :: ts => some (.literal (.integer (-k)), ts)
  | .number k :: ts => some (.literal (.integer k), ts)
  | .text s :: ts => some (.literal (.string s), ts)
  | .word w :: ts => some (wordType w, ts)
  | _ => none

def arrays (t : TypeExpr) : List Token → TypeExpr × List Token
  | .symbol '[' :: .symbol ']' :: ts => arrays (.array t) ts
  | ts => (t, ts)

def arrayType (n : Nat) : Reader TypeExpr := fun ts => do
  let (t, ts) ← primary type n ts
  return arrays t ts

def joined (make : List TypeExpr → TypeExpr) : List TypeExpr → TypeExpr
  | [t] => t
  | ts => make ts

def intersectionType (n : Nat) : Reader TypeExpr := fun ts =>
  (separated '&' (arrayType type n) n ts).map (Prod.map (joined .intersection) id)

def unionType (n : Nat) : Reader TypeExpr := fun ts =>
  (separated '|' (intersectionType type n) n ts).map (Prod.map (joined .union) id)

end members

/-- Types are nested less than `n` deep. -/
def typeAt : Nat → Reader TypeExpr
  | 0, _ => none
  | n + 1, ts => unionType (typeAt n) n ts

def type? (s : List Char) : Option TypeExpr := do
  let ts ← tokens? s
  match ← typeAt (ts.length + 1) ts with
  | (t, []) => some t
  | _ => none

end Grammar

namespace TypeExpr

/-- The members of an intersection; any other type is an intersection of itself. -/
def factors : TypeExpr → List TypeExpr
  | .intersection members => members
  | t => [t]

mutual

/-- What the text of a type says of it: there are no intersections in intersections and no
descriptions, and the literal `null` is the keyword. -/
def bare : TypeExpr → TypeExpr
  | .keyword k => .keyword k
  | .array element => .array element.bare
  | .tuple items => .tuple (bareList items)
  | .union members => .union (bareList members)
  | .intersection members => .intersection ((bareList members).flatMap factors)
  | .object members index => .object (bareMembers members) (bareIndex index)
  | .literal .null => .keyword .null
  | .literal l => .literal l
  | .named name => .named name

def bareList : List TypeExpr → List TypeExpr
  | [] => []
  | t :: types => t.bare :: bareList types

def bareMembers : List (Member TypeExpr) → List (Member TypeExpr)
  | [] => []
  | ⟨name, type, optional, _⟩ :: members => ⟨name, type.bare, optional, none⟩ :: bareMembers members

def bareIndex : Option TypeExpr → Option TypeExpr
  | none => none
  | some type => some type.bare

end

/-- The types that compiled schemas are made of, without real numbers. -/
structure Normal (t : TypeExpr) : Prop where
  real : ∀ x, ¬ Occurs (.literal (.real x)) t
  union : ∀ ms, Occurs (.union ms) t → 2 ≤ ms.length ∧ ∀ m ∈ ms, m.isUnion = false
  intersection : ∀ ms, Occurs (.intersection ms) t → 2 ≤ ms.length
  names : ∀ n, t.Mentions n → ∃ hint, n = safeName hint

end TypeExpr

end ApiTypes.TypeScript
