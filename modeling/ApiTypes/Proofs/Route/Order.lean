import ApiTypes.Compile.Text
import ApiTypes.Proofs.Document.Faithful
import ApiTypes.Proofs.Json.Within
import ApiTypes.Proofs.Tables
import Mathlib.Data.List.Sort

namespace ApiTypes.Route

/-- The same records, with those of each path in the same order. -/
structure Reordered (records records' : List Record) : Prop where
  perm : records.Perm records'
  kept : ∀ url, records.filter (·.url = url) = records'.filter (·.url = url)

variable {routes : Routes} {records records' : List Record}

/-- A record goes behind those of its path. -/
theorem get?_addRecord (r : Record) (hroutes : routes.Pairwise fun a b => a.1 < b.1)
    (path : String) :
    Table.get? path (addRecord r routes) =
      if path = r.url then some ((Table.get? path routes).getD [] ++ [r])
      else Table.get? path routes := by
  induction routes with
  | nil => simp [addRecord, Table.get?_cons]
  | cons e routes ih =>
    obtain ⟨path', route⟩ := e
    obtain ⟨hlt, hrest⟩ := List.pairwise_cons.1 hroutes
    unfold addRecord
    split
    · next hurl =>
      subst hurl
      simp only [Table.get?_cons]
      split <;> simp
    split
    · next hnew hless =>
      -- the path is not among the others, which are behind it
      have habsent : Table.get? r.url ((path', route) :: routes) = none := by
        have hne : path' ≠ r.url := hnew
        rw [Table.get?_cons, if_neg hne.symm]
        cases hget : Table.get? r.url routes with
        | none => rfl
        | some route' =>
          have hbehind : path' < r.url := hlt _ (Table.mem_of_get? hget)
          exact absurd hbehind (not_lt.2 hless.le)
      rw [Table.get?_cons]
      split
      · next hpath =>
        subst hpath
        rw [habsent]
        rfl
      · rfl
    · next hother _ =>
      simp only [Table.get?_cons, ih hrest]
      split
      · next hpath =>
        subst hpath
        rw [if_neg hother]
      · rfl

/-- The route of a path is made of the records registered under it. -/
theorem get?_group (records : List Record) (path : String) :
    Table.get? path (group records) =
      if (records.filter (·.url = path)).isEmpty then none
      else some (records.filter (·.url = path)) := by
  induction records using List.reverseRecOn with
  | nil => rfl
  | append_singleton records r ih =>
    have hgroup : group (records ++ [r]) = addRecord r (group records) := by
      simp [group, List.foldl_append]
    rw [hgroup, get?_addRecord r (Document.sorted_group records), ih, List.filter_append]
    by_cases hpath : path = r.url
    · subst hpath
      cases hfilter : records.filter (·.url = r.url) <;> simp
    · have hne : ¬ r.url = path := fun h => hpath h.symm
      simp [hpath, hne]

theorem getD_get?_group (records : List Record) (path : String) :
    (Table.get? path (group records)).getD [] = records.filter (·.url = path) := by
  rw [get?_group]
  cases records.filter (·.url = path) <;> rfl

theorem mem_group {path : String} {route : List Record} :
    (path, route) ∈ group records ↔ route ≠ [] ∧ records.filter (·.url = path) = route := by
  have hget : (path, route) ∈ group records ↔ Table.get? path (group records) = some route :=
    ⟨Table.get?_of_mem (Document.nodup_of_sorted (Document.sorted_group records)),
      Table.mem_of_get?⟩
  rw [hget, get?_group]
  cases records.filter (·.url = path) with
  | nil => simp
  | cons r rest => simpa using fun h => h ▸ List.cons_ne_nil r rest

/-- Lists of records have the same routes exactly if each path has the same records in the same
order. -/
theorem group_eq_iff :
    group records = group records' ↔
      ∀ url, records.filter (·.url = url) = records'.filter (·.url = url) := by
  constructor
  · intro h url
    rw [← getD_get?_group, h, getD_get?_group]
  · intro h
    refine (Document.sorted_group records).eq_of_mem_iff (Document.sorted_group records') ?_
    rintro ⟨path, route⟩
    rw [mem_group, mem_group, h path]

/-- The order of records of different paths makes no difference to the document and its text. -/
theorem routes_reordered (h : Reordered records records') (workDir : String)
    (ds : List (String × Json)) (ignoreHead : Bool) (options : Options)
    (registry : Naming.Registry) :
    Compile.routes workDir (group records) ds ignoreHead options registry =
      Compile.routes workDir (group records') ds ignoreHead options registry := by
  rw [group_eq_iff.2 h.kept]

def dashed : Record := ⟨"/user-id", .one "GET", none⟩

def slashed : Record := ⟨"/user/id", .one "GET", none⟩

def slashedAgain : Record :=
  ⟨"/user/id", .one "GET", some { Schema.empty with body := some (.bool true) }⟩

theorem routes_reordered_parted :
    Compile.routes "/" (group [dashed, slashed, slashedAgain]) [] true .default .empty =
      Compile.routes "/" (group [slashed, dashed, slashedAgain]) [] true .default .empty := by
  refine routes_reordered ⟨List.Perm.swap _ _ _, fun url => ?_⟩ "/" [] true .default .empty
  by_cases hfirst : dashed.url = url
  · subst hfirst
    rfl
  · simp [List.filter_cons, hfirst]

end ApiTypes.Route
