namespace ApiTypes

inductive Error where
  | unresolved (url : String)
  | noResolver (url : String)
  /-- A pointer leads nowhere in its document; `#` is the document being compiled. -/
  | invalidPointer (pointer document : String)
  | access (path reason : String)
  | rejected (reason : String)
  | layout
  /-- References are nested more deeply than the documents allow. -/
  | nesting
  deriving DecidableEq, Repr

def Error.message : Error → String
  | unresolved url => "cannot resolve schema for " ++ url
  | noResolver url => "no resolver accepts reference " ++ url
  | invalidPointer pointer document =>
    "JSON pointer '" ++ pointer ++ "' does not exist in " ++ document
  | access path reason => "failed to access " ++ path ++ ": " ++ reason
  | rejected reason => "schema hook failed: " ++ reason
  | layout => "text cannot be formatted"
  | nesting => "references are nested too deeply"

end ApiTypes
