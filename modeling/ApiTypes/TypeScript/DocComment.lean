import ApiTypes.Text.Blank
import ApiTypes.Text.Lines
import ApiTypes.Text.Search

namespace ApiTypes.TypeScript

def commentLine (line : List Char) : List Char :=
  match Text.trimEnd line with
  | [] => [' ', '*']
  | c :: s => ' ' :: '*' :: ' ' :: c :: s

/-- The comment for `text` with `indent` before every line, each line followed by a line break. -/
def docComment (text indent : List Char) : List Char :=
  let inner := Text.lines (Text.replaceAll ['*', '/'] ['*', '\\', '/'] text)
  let all := ['/', '*', '*'] :: inner.map commentLine ++ [[' ', '*', '/']]
  Text.unlines (all.map (indent ++ ·))

end ApiTypes.TypeScript
