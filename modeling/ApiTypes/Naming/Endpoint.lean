import ApiTypes.Naming.Words
import ApiTypes.Table
import ApiTypes.Text.Search

namespace ApiTypes.Naming

structure Registry where
  counts : List (String × Nat)

def Registry.empty : Registry := ⟨[]⟩

def Registry.count (r : Registry) (name : String) : Nat :=
  (Table.get? name r.counts).getD 0

def Registry.record (r : Registry) (name : String) : Registry :=
  ⟨Table.insert name (r.count name + 1) r.counts⟩

/-- The words of a path, in which the first wildcard segment reads `all`. -/
def baseName (path : String) : String :=
  normalizeTitle (String.ofList (Text.replaceFirst ['/', '*'] ['/', 'a', 'l', 'l'] path.toList))

/-- The name of the endpoint at `path`.  The empty path and paths without a word have names of their
own, which are not counted. -/
def Registry.endpointName (r : Registry) (path : String) : String × Registry :=
  if path = "" then ("Empty", r)
  else
    let base := baseName path
    if base = "" then ("Root", r)
    else
      let earlier := r.count base
      (if earlier = 0 then base else base ++ toString earlier, r.record base)

theorem Registry.count_record (r : Registry) (name other : String) :
    (r.record name).count other = if other = name then r.count name + 1 else r.count other := by
  simp only [Registry.count, Registry.record, Table.get?_insert]
  by_cases h : other = name <;> simp [h]

end ApiTypes.Naming
