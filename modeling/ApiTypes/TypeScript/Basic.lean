namespace ApiTypes.TypeScript

inductive Keyword where
  | string
  | number
  | boolean
  | null
  | undefined
  | unknown
  | never
  deriving DecidableEq, Repr

inductive Literal where
  | string (s : String)
  | real (x : Float)
  | integer (n : Int)
  | bool (b : Bool)
  | null
  deriving BEq, Repr

structure Member (T : Type) where
  name : String
  type : T
  optional : Bool
  description : Option String
  deriving BEq, Repr

inductive TypeExpr where
  | keyword (k : Keyword)
  | array (element : TypeExpr)
  | tuple (items : List TypeExpr)
  | union (members : List TypeExpr)
  | intersection (members : List TypeExpr)
  /-- The members and the type of all other members, if there may be any. -/
  | object (members : List (Member TypeExpr)) (index : Option TypeExpr)
  | literal (l : Literal)
  | named (name : String)
  deriving Inhabited

namespace TypeExpr

/-- The members of a union; any other type is a union of itself. -/
def alternatives : TypeExpr → List TypeExpr
  | .union members => members
  | t => [t]

/-- A union without unions as members; a single member is no union, and nothing is in the union of
no types. -/
def unionOf (types : List TypeExpr) : TypeExpr :=
  match types.flatMap alternatives with
  | [] => .keyword .never
  | [t] => t
  | members => .union members

/-- A single member is no intersection, and the intersection of no types is not constrained. -/
def intersectionOf : List TypeExpr → TypeExpr
  | [] => .keyword .unknown
  | [t] => t
  | members => .intersection members

def isUnion : TypeExpr → Bool
  | .union _ => true
  | _ => false

/-- Unions and intersections, which need parentheses before `[]`. -/
def isCompound : TypeExpr → Bool
  | .union _ | .intersection _ => true
  | _ => false

end TypeExpr

structure Declaration where
  name : String
  description : Option String
  type : TypeExpr

/-- Object types are declared as interfaces, all others as aliases. -/
def Declaration.isInterface (d : Declaration) : Bool :=
  match d.type with
  | .object _ _ => true
  | _ => false

end ApiTypes.TypeScript
