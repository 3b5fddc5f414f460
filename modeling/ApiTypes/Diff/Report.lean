import ApiTypes.Diff.Line
import ApiTypes.Diff.Script
import ApiTypes.Diff.Slide

namespace ApiTypes.Diff

inductive Block where
  | keep (lines : List String)
  | change (deleted inserted : List String)
  deriving DecidableEq, Repr

/-- Adds an edit in front of blocks; neighbours of one kind become one block. -/
def addEdit (e : Edit) (bs : List Block) : List Block :=
  match e, bs with
  | .keep ks, .keep ls :: bs => .keep (ks ++ ls) :: bs
  | .keep ks, bs => .keep ks :: bs
  | .delete ds, .change deleted inserted :: bs => .change (ds ++ deleted) inserted :: bs
  | .delete ds, bs => .change ds [] :: bs
  | .insert is, .change deleted inserted :: bs => .change deleted (is ++ inserted) :: bs
  | .insert is, bs => .change [] is :: bs

def blocks (es : List Edit) : List Block :=
  es.foldr addEdit []

def contextSize : Nat := 3

def lastLines (ls : List String) : List String :=
  ls.drop (ls.length - contextSize)

/-- Groups of blocks.  Where many lines are kept a group ends, and another one starts if changes
follow; `current` is the group so far. -/
def groupsFrom (current : List Block) : List Block → List (List Block)
  | [] => [current]
  | [.keep ks] => [current ++ [.keep (ks.take contextSize)]]
  | .keep ks :: bs =>
    if ks.length > 2 * contextSize then
      (current ++ [.keep (ks.take contextSize)]) :: groupsFrom [.keep (lastLines ks)] bs
    else groupsFrom (current ++ [.keep ks]) bs
  | b :: bs => groupsFrom (current ++ [b]) bs

def groups : List Block → List (List Block)
  | [] | [.keep _] => []
  | .keep ks :: bs => groupsFrom [.keep (lastLines ks)] bs
  | bs => groupsFrom [] bs

def bold : String := "\x1b[1m"

def red : String := "\x1b[31m"

def green : String := "\x1b[32m"

def plain : String := "\x1b[0m"

def signed (sign : String) (line : String) : String :=
  sign ++ line ++ if endsLine line then "" else "\n"

def Block.text : Block → String
  | keep ks => String.join (ks.map (signed " "))
  | change deleted inserted =>
    String.join (deleted.map fun l => red ++ signed "-" l ++ plain) ++
      String.join (inserted.map fun l => green ++ signed "+" l ++ plain)

def header (label : String) : String :=
  bold ++ "--- " ++ label ++ " (current)" ++ plain ++ "\n" ++
    bold ++ "+++ " ++ label ++ " (generated)" ++ plain ++ "\n"

def report? (label current new : String) : Option String :=
  if current = new then none
  else
    let bs := blocks (slide (edits (lines current) (lines new)))
    let texts := (groups bs).map fun g => String.join (g.map Block.text)
    some (header label ++ "...\n".intercalate texts)

end ApiTypes.Diff
