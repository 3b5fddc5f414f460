namespace ApiTypes.Route

inductive Method where
  | delete
  | get
  | head
  | options
  | patch
  | post
  | put
  deriving DecidableEq, Repr

/-- A part of a route's schema: one of four for the request, or the replies by status. -/
inductive Slot where
  | body
  | querystring
  | params
  | headers
  | response
  deriving DecidableEq, Repr

namespace Slot

def key : Slot → String
  | body => "body"
  | querystring => "querystring"
  | params => "params"
  | headers => "headers"
  | response => "response"

def title : Slot → String
  | body => "Body"
  | querystring => "Querystring"
  | params => "Params"
  | headers => "Headers"
  | response => "Reply"

def all : List Slot := [body, querystring, params, headers, response]

end Slot

namespace Method

def all : List Method := [delete, get, head, options, patch, post, put]

def upper : Method → String
  | delete => "DELETE"
  | get => "GET"
  | head => "HEAD"
  | options => "OPTIONS"
  | patch => "PATCH"
  | post => "POST"
  | put => "PUT"

/-- The form in which a method stands in the titles of types. -/
def title : Method → String
  | delete => "Delete"
  | get => "Get"
  | head => "Head"
  | options => "Options"
  | patch => "Patch"
  | post => "Post"
  | put => "Put"

def hasBody : Method → Bool
  | post | put | patch => true
  | _ => false

def slots (m : Method) : List Slot :=
  if m.hasBody then Slot.all else [.querystring, .params, .headers, .response]

/-- The method of a name, whatever the case of its ASCII letters. -/
def ofName? (name : String) : Option Method :=
  all.find? fun m => m.upper.toList = name.toList.map Char.toUpper

end Method

end ApiTypes.Route
