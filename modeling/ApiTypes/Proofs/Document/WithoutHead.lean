import ApiTypes.Compile.Text
import ApiTypes.Proofs.Document.Faithful

namespace ApiTypes

namespace Route

def isHeadName (name : String) : Bool :=
  upperName name == "HEAD"

/-- The names other than HEAD; HEAD alone leaves no name. -/
def MethodSpec.withoutHead : MethodSpec → MethodSpec
  | one name => if isHeadName name then many [] else one name
  | many names => many (names.filter fun name => !isHeadName name)

def Record.withoutHead (r : Record) : Record :=
  { r with method := r.method.withoutHead }

/-- All records stay, perhaps without a method. -/
def Routes.withoutHead (rs : Routes) : Routes :=
  rs.map fun (path, route) => (path, route.map Record.withoutHead)

theorem Routes.withoutHead_cons (path : String) (route : List Record) (rs : Routes) :
    Routes.withoutHead ((path, route) :: rs) =
      (path, route.map Record.withoutHead) :: rs.withoutHead := rfl

theorem MethodSpec.names_withoutHead (spec : MethodSpec) :
    spec.withoutHead.names = spec.names.filter fun name => !isHeadName name := by
  cases spec with
  | one name => cases h : isHeadName name <;> simp [withoutHead, names, h]
  | many names => rfl

end Route

namespace Document

open Route

theorem isHeadName_of_ofName? {name : String} {m : Method} (h : Method.ofName? name = some m) :
    isHeadName name = (m == .head) := by
  rw [isHeadName, ofName?_eq_some_iff.1 h]
  cases m <;> rfl

theorem methodsOf_withoutHead (r : Record) :
    methodsOf false r.withoutHead = methodsOf true r := by
  have hnames : r.withoutHead.method.names = r.method.names.filter fun name => !isHeadName name :=
    r.method.names_withoutHead
  unfold methodsOf
  rw [hnames, List.filterMap_filter]
  refine List.filterMap_congr fun name _ => ?_
  cases h : Method.ofName? name with
  | none => simp
  | some m => cases hm : m == .head <;> simp [isHeadName_of_ofName? h, hm, Option.filter]

theorem methods_withoutHead (title : String) (route : List Record) :
    methods title (route.map Record.withoutHead) false = methods title route true := by
  unfold methods
  rw [List.flatMap_map]
  congr 1
  exact List.flatMap_congr fun r _ => by rw [methodsOf_withoutHead]; rfl

theorem routeNodes_withoutHead (registry : Naming.Registry) (rs : Routes) :
    routeNodes false registry rs.withoutHead = routeNodes true registry rs := by
  induction rs generalizing registry with
  | nil => rfl
  | cons e rs ih =>
    obtain ⟨path, route⟩ := e
    rw [Routes.withoutHead_cons, routeNodes, routeNodes]
    simp only [ih, methods_withoutHead]

/-- The document without HEAD is the one of the routes that do not declare it, and the registry
counts the same names. -/
theorem build_ignoring_head (rs : Routes) (ds : List (String × Json)) (registry : Naming.Registry) :
    build rs ds true registry = build rs.withoutHead ds false registry := by
  unfold build paths
  rw [routeNodes_withoutHead]

/-- So are the declarations that are made of it. -/
theorem routes_ignoring_head (workDir : String) (rs : Routes) (ds : List (String × Json))
    (options : Options) (registry : Naming.Registry) :
    Compile.routes workDir rs ds true options registry =
      Compile.routes workDir rs.withoutHead ds false options registry := by
  unfold Compile.routes build paths
  rw [routeNodes_withoutHead]

end Document

end ApiTypes
