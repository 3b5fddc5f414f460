import ApiTypes.Json.Draft
import ApiTypes.Options

namespace ApiTypes.Output

/-- Files for servers also declare handlers. -/
inductive Target where
  | serverTypes
  | clientTypes
  deriving DecidableEq, Repr

namespace Target

def all : List Target := [serverTypes, clientTypes]

def name : Target → String
  | serverTypes => "serverTypes"
  | clientTypes => "clientTypes"

def ofName? (s : String) : Option Target :=
  all.find? fun t => t.name = s

/-- A target is given by its name, or by an object with its name as the only key. -/
def ofDraft? (accepts : Json.Draft → Bool) : Json.Draft → Option Target
  | .string s => ofName? s
  | .object [(some key, d)] => if accepts d then ofName? key else none
  | _ => none

end Target

def standardBanner : String :=
  "\n".intercalate [
    "/* tslint:disable */",
    "/**",
    " * This file was automatically generated by routetypes.",
    " * DO NOT MODIFY IT BY HAND. Instead, modify the route schemas",
    " * and re-run the generator to regenerate this file.",
    " */",
    ""]

def serverImports : String :=
  "\n".intercalate [
    "",
    "import \x7b",
    "  ContextConfigDefault,",
    "  RawReplyDefaultExpression,",
    "  RawRequestDefaultExpression,",
    "  RawServerDefault,",
    "  RouteHandlerMethod",
    "\x7d from 'fastify';",
    "import \x7bRouteGenericInterface\x7d from 'fastify/types/route';",
    "",
    "export type Handler<",
    "  RouteGeneric extends RouteGenericInterface = RouteGenericInterface,",
    "  ContextConfig = ContextConfigDefault",
    "> = RouteHandlerMethod<",
    "  RawServerDefault,",
    "  RawRequestDefaultExpression,",
    "  RawReplyDefaultExpression,",
    "  RouteGeneric,",
    "  ContextConfig",
    ">;",
    ""]

def banner (options : Options) (target : Target) : String :=
  let own := options.bannerComment.getD ""
  let base := if own = "" then standardBanner else own
  match target with
  | .serverTypes => base ++ serverImports
  | .clientTypes => base

end ApiTypes.Output
