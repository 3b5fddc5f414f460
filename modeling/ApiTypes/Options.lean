import ApiTypes.Reference.Resolver
import ApiTypes.Style.Basic

namespace ApiTypes

structure Options where
  bannerComment : Option String
  format : Option Bool
  style : Option Style
  /-- The directory that addresses of definitions start with. -/
  cwd : Option String
  unreachableDefinitions : Bool
  /-- Whether an object may have members that its schema does not name, if the schema says nothing
  about it. -/
  additionalProperties : Option Bool
  strictIndexSignatures : Bool
  declareExternallyReferenced : Option Bool
  resolvers : Resolvers

namespace Options

def default : Options where
  bannerComment := none
  format := none
  style := none
  cwd := none
  unreachableDefinitions := false
  additionalProperties := none
  strictIndexSignatures := false
  declareExternallyReferenced := none
  resolvers := []

def allowsAdditional (o : Options) : Bool :=
  o.additionalProperties.getD true

def declaresExternal (o : Options) : Bool :=
  o.declareExternallyReferenced.getD true

def formats (o : Options) : Bool :=
  o.format.getD true

def directory (o : Options) (workDir : String) : String :=
  o.cwd.getD workDir

def fieldNames : List String :=
  ["bannerComment", "format", "style", "cwd", "unreachableDefinitions", "additionalProperties",
    "strictIndexSignatures", "declareExternallyReferenced"]

def ofDraft? (surplus : Json.Surplus) (d : Json.Draft) : Option Options := do
  let nullable {α : Type} (read : Json.Draft → Option α) : Option Json.Draft → Option (Option α) :=
    Json.Draft.field? none (Json.Draft.nullable? read)
  let flag := Json.Draft.field? false Json.Draft.bool?
  match ← d.fields? surplus fieldNames with
  | [bannerComment, format, style, cwd, unreachable, additional, strict, external] =>
    return {
      bannerComment := ← nullable Json.Draft.string? bannerComment
      format := ← nullable Json.Draft.bool? format
      style := ← nullable (Style.ofDraft? surplus) style
      cwd := ← nullable Json.Draft.string? cwd
      unreachableDefinitions := ← flag unreachable
      additionalProperties := ← nullable Json.Draft.bool? additional
      strictIndexSignatures := ← flag strict
      declareExternallyReferenced := ← nullable Json.Draft.bool? external
      resolvers := [] }
  | _ => none

def definitionsResolver : String := "file"

/-- The options under which routes with shared definitions are compiled: without a banner and
unformatted, and with a resolver for the definitions unless there is another one of its name. -/
def forDefinitions (o : Options) (workDir : String) (ds : List (String × Json)) : Options :=
  let cwd := o.directory workDir
  let own := [(definitionsResolver, Resolver.ofDefinitions cwd ds)]
  { o with
    bannerComment := some ""
    format := some false
    cwd := some cwd
    resolvers := o.resolvers.foldl (fun rs (name, r) => Table.insert name r rs) own }

end Options

end ApiTypes
