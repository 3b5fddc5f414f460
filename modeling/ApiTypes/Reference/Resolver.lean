import ApiTypes.Error
import ApiTypes.Json.Basic
import ApiTypes.Text.Search

namespace ApiTypes

/-- A resolver knows finitely many documents; whatever it reads is one of them. -/
structure Resolver where
  accepts : String → Bool
  read : String → Except Error Json
  documents : List Json
  mem_documents : ∀ {url j}, read url = .ok j → j ∈ documents

namespace Resolver

def constant (accepts : String → Bool) (document : Json) : Resolver where
  accepts := accepts
  read _ := .ok document
  documents := [document]
  mem_documents h := by cases h; exact List.mem_singleton_self _

def failing (accepts : String → Bool) (error : String → Error) : Resolver where
  accepts := accepts
  read url := .error (error url)
  documents := []
  mem_documents h := by cases h

def isWebAddress (url : String) : Bool :=
  Text.startsWith "http://".toList url.toList || Text.startsWith "https://".toList url.toList

/-- The id behind an address: what is left when the first `cwd` in it is taken out. -/
def idOf (cwd url : String) : String :=
  String.ofList (Text.replaceFirst cwd.toList [] url.toList)

/-- The definition of an id, or else of the id without its first slash. -/
def lookup? (ds : List (String × Json)) (id : String) : Option Json :=
  match Table.get? id ds with
  | some j => some j
  | none => (Text.after? ['/'] id.toList).bind fun rest => Table.get? (String.ofList rest) ds

theorem mem_of_get? {ds : List (String × Json)} {id : String} {j : Json}
    (h : Table.get? id ds = some j) : j ∈ ds.map Prod.snd := by
  induction ds with
  | nil => simp at h
  | cons d ds ih =>
    obtain ⟨k, v⟩ := d
    rw [Table.get?_cons] at h
    split at h
    · simp_all
    · simp [ih h]

theorem mem_of_lookup? {ds : List (String × Json)} {id : String} {j : Json}
    (h : lookup? ds id = some j) : j ∈ ds.map Prod.snd := by
  unfold lookup? at h
  split at h
  · next j' hj =>
    cases h
    exact mem_of_get? hj
  · obtain ⟨rest, _, hr⟩ := Option.bind_eq_some_iff.1 h
    exact mem_of_get? hr

/-- Finds definitions by their ids, for every address that is not one of the web. -/
def ofDefinitions (cwd : String) (ds : List (String × Json)) : Resolver where
  accepts url := !isWebAddress url
  read url :=
    match lookup? ds (idOf cwd url) with
    | some j => .ok j
    | none => .error (.unresolved url)
  documents := ds.map Prod.snd
  mem_documents h := by
    split at h
    · next j' hj =>
      cases h
      exact mem_of_lookup? hj
    · cases h

end Resolver

/-- Resolvers by name, in the order in which they are asked. -/
abbrev Resolvers := List (String × Resolver)

namespace Resolvers

def resolve (rs : Resolvers) (url : String) : Except Error Json :=
  match rs.find? fun (_, r) => r.accepts url with
  | some (_, r) => r.read url
  | none => .error (.noResolver url)

def documents (rs : Resolvers) : List Json :=
  rs.flatMap fun (_, r) => r.documents

theorem mem_documents {rs : Resolvers} {url : String} {j : Json} (h : rs.resolve url = .ok j) :
    j ∈ rs.documents := by
  unfold resolve at h
  split at h
  · next name r hr =>
    exact List.mem_flatMap.2 ⟨(name, r), List.mem_of_find?_eq_some hr, r.mem_documents h⟩
  · cases h

end Resolvers

end ApiTypes
