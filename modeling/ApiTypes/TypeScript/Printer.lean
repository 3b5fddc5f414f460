import ApiTypes.Decimal.Layout
import ApiTypes.TypeScript.Basic
import ApiTypes.TypeScript.DocComment
import ApiTypes.TypeScript.Quoted

namespace ApiTypes.TypeScript

def Keyword.text : Keyword → String
  | .string => "string"
  | .number => "number"
  | .boolean => "boolean"
  | .null => "null"
  | .undefined => "undefined"
  | .unknown => "unknown"
  | .never => "never"

def Literal.text : Literal → List Char
  | .string s => quoted s.toList
  | .real x => (Decimal.plain x).toList
  | .integer n => (toString n).toList
  | .bool b => if b then "true".toList else "false".toList
  | .null => "null".toList

def indentation (level : Nat) : List Char :=
  List.replicate (2 * level) ' '

def parenthesized (grouped : Bool) (text : List Char) : List Char :=
  if grouped then '(' :: text ++ [')'] else text

def memberText (name : String) (optional : Bool) (type : List Char) : List Char :=
  keyText name.toList ++ (if optional then ['?'] else []) ++ [':', ' '] ++ type

mutual

/-- The text of a type whose lines after the first stand at `level` or deeper. -/
def TypeExpr.textAt (level : Nat) : TypeExpr → List Char
  | .keyword k => k.text.toList
  | .array element => parenthesized element.isCompound (element.textAt level) ++ ['[', ']']
  | .tuple items => '[' :: [',', ' '].intercalate (TypeExpr.textsAt level items) ++ [']']
  | .union members => [' ', '|', ' '].intercalate (TypeExpr.textsAt level members)
  | .intersection members => [' ', '&', ' '].intercalate (TypeExpr.groupsAt level members)
  | .object [] none => ['{', '}']
  | .object members index =>
    '{' :: '\n' :: TypeExpr.membersAt (level + 1) members ++ TypeExpr.indexAt (level + 1) index ++
      indentation level ++ ['}']
  | .literal l => l.text
  | .named name => name.toList

def TypeExpr.textsAt (level : Nat) : List TypeExpr → List (List Char)
  | [] => []
  | t :: types => t.textAt level :: TypeExpr.textsAt level types

def TypeExpr.groupsAt (level : Nat) : List TypeExpr → List (List Char)
  | [] => []
  | t :: types => parenthesized t.isUnion (t.textAt level) :: TypeExpr.groupsAt level types

def TypeExpr.membersAt (level : Nat) : List (Member TypeExpr) → List Char
  | [] => []
  | ⟨name, type, optional, description⟩ :: members =>
    (match description with
      | some d => docComment d.toList (indentation level)
      | none => []) ++
      indentation level ++ memberText name optional (type.textAt level) ++ [';', '\n'] ++
      TypeExpr.membersAt level members

def TypeExpr.indexAt (level : Nat) : Option TypeExpr → List Char
  | none => []
  | some type =>
    indentation level ++ "[k: string]: ".toList ++ type.textAt level ++ [';', '\n']

end

def Member.textAt (level : Nat) (m : Member TypeExpr) : List Char :=
  memberText m.name m.optional (m.type.textAt level)

def Declaration.text (d : Declaration) : List Char :=
  (match d.description with
    | some text => docComment text.toList []
    | none => []) ++
    match d.isInterface with
    | true => "export interface ".toList ++ d.name.toList ++ ' ' :: d.type.textAt 0 ++ ['\n']
    | false => "export type ".toList ++ d.name.toList ++ [' ', '=', ' '] ++ d.type.textAt 0 ++
        [';', '\n']

/-- Aliases come before interfaces; otherwise the order is kept. -/
def declarationsText (ds : List Declaration) : List Char :=
  (ds.filter (!·.isInterface)).flatMap Declaration.text ++
    (ds.filter (·.isInterface)).flatMap Declaration.text

end ApiTypes.TypeScript
