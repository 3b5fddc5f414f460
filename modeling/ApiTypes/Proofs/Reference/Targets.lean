import Mathlib.Data.List.Pairwise
import ApiTypes.Proofs.Compile.Declared
import ApiTypes.Proofs.Reference.Linked

namespace ApiTypes

namespace Json.Pointer

theorem escaped_of_not_mem {s : List Char} (h : '~' ∉ s) : Escaped s := by
  rintro l r rfl
  exact absurd (List.mem_append_right l List.mem_cons_self) h

theorem canonical_empty : Canonical "" :=
  ⟨.inl rfl, escaped_of_not_mem List.not_mem_nil⟩

end Json.Pointer

namespace Compile

open TypeScript Json

section

variable {c : Context} (hc : c.Marked)

include hc

theorem Context.IsUrl.hash_not_mem {base : String} (h : c.IsUrl base) : '#' ∉ base.toList := by
  obtain ⟨document, hdocument, rfl⟩ := h
  exact hash_not_mem_url hc.cwd hdocument

theorem hash_not_mem_base {base : String} (h : base = "" ∨ c.IsUrl base) : '#' ∉ base.toList := by
  rcases h with rfl | h
  · exact List.not_mem_nil
  · exact h.hash_not_mem hc

variable {name : String} (hcanonical : ∀ ref, .met ref ∈ (c.watch name).2.log →
  Json.Pointer.Canonical (splitReference ref).2)

include hcanonical

theorem plain_of_naming {n : Naming} (hn : n ∈ namings (c.watch name).2.log) : Plain n.address := by
  obtain ⟨-, hbase, hpointer⟩ := (orderly_watch c name).backed _ (mem_namings.1 hn)
  refine ⟨hash_not_mem_base hc hbase, ?_⟩
  rcases hpointer with hempty | ⟨ref, hmet, hpointer⟩
  · exact hempty ▸ Json.Pointer.canonical_empty
  · exact hpointer ▸ hcanonical ref hmet

/-- An answer is the name of the target that the reference is about. -/
theorem exists_naming_of_followed {ref : String} {before after : State} {t : TypeExpr}
    (h : .followed ref before (.ok t) after ∈ (c.watch name).2.log) :
    ∃ n ∈ namings (c.watch name).2.log, t = .named n.name ∧
      c.SameTarget n.address (c.address before.bases ref) := by
  obtain ⟨hmet, hbefore, n, hn, hname, hmeets⟩ := (orderly_watch c name).backed _ h
  have hplain : Plain (c.address before.bases ref) :=
    ⟨hash_not_mem_base hc (base_address hbefore ref), hcanonical ref hmet⟩
  exact ⟨n, hn, hname, (exists_key_iff hc (plain_of_naming hc hcanonical hn) hplain).1 hmeets⟩

theorem pairwise_namings : (namings (c.watch name).2.log).Pairwise fun n n' =>
    n.name ≠ n'.name ∧ ¬ c.SameTarget n.address n'.address := by
  refine (orderly_watch c name).apart.imp_of_mem fun hn hn' happart => ?_
  have hplain := plain_of_naming hc hcanonical hn
  have hplain' := plain_of_naming hc hcanonical hn'
  exact ⟨happart.1, fun hsame => happart.2 ((exists_key_iff hc hplain hplain').2 hsame)⟩

/-- Names of targets are the same if and only if the targets are. -/
theorem name_eq_iff {n n' : Naming} (hn : n ∈ namings (c.watch name).2.log)
    (hn' : n' ∈ namings (c.watch name).2.log) :
    n.name = n'.name ↔ c.SameTarget n.address n'.address := by
  by_cases heq : n = n'
  · subst heq
    exact ⟨fun _ => .inl rfl, fun _ => rfl⟩
  · have hsymm : Std.Symm fun m m' : Naming =>
        m.name ≠ m'.name ∧ ¬ c.SameTarget m.address m'.address :=
      ⟨fun m m' h => ⟨h.1.symm, fun hsame => h.2 hsame.symm⟩⟩
    have happart := (pairwise_namings hc hcanonical).forall hn hn' heq
    exact ⟨fun h => absurd h happart.1, fun h => absurd h happart.2⟩

end

/-- References answer with the same name if they have the same address, or the two addresses of a
definition, and with different names otherwise; and each target gets a name once and a declaration
at most once, also if it is met again while it is still being compiled. -/
theorem one_declaration_per_target (c : Context) (name : String) (hc : c.Marked)
    (hcanonical : ∀ ref, .met ref ∈ (c.watch name).2.log →
      Json.Pointer.Canonical (splitReference ref).2) :
    ((c.watch name).1, (c.watch name).2.state) = (program c name).run State.empty ∧
    (∀ ref before t after, .followed ref before (.ok t) after ∈ (c.watch name).2.log →
      ∃ n ∈ namings (c.watch name).2.log, t = .named n.name ∧
        c.SameTarget n.address (c.address before.bases ref)) ∧
    (∀ ref before t after ref' before' t' after',
      .followed ref before (.ok t) after ∈ (c.watch name).2.log →
      .followed ref' before' (.ok t') after' ∈ (c.watch name).2.log →
        (t = t' ↔ c.SameTarget (c.address before.bases ref) (c.address before'.bases ref'))) ∧
    ((namings (c.watch name).2.log).Pairwise fun n n' =>
      n.name ≠ n'.name ∧ ¬ c.SameTarget n.address n'.address) ∧
    (openings (c.watch name).2.log).Nodup ∧
    ∀ ds, declarations c name = .ok ds →
      ds.map Declaration.name = openings (c.watch name).2.log := by
  refine ⟨watch_eq c name,
    fun ref before t after h => exists_naming_of_followed hc hcanonical h, ?_,
    pairwise_namings hc hcanonical, (orderly_watch c name).once,
    fun ds h => (watch_of_declarations h).2.1⟩
  intro ref before t after ref' before' t' after' h h'
  obtain ⟨n, hn, rfl, hsame⟩ := exists_naming_of_followed hc hcanonical h
  obtain ⟨n', hn', rfl, hsame'⟩ := exists_naming_of_followed hc hcanonical h'
  rw [TypeExpr.named.injEq, name_eq_iff hc hcanonical hn hn']
  constructor
  · exact fun heq => (hsame.symm.trans hc heq).trans hc hsame'
  · exact fun heq => (hsame.trans hc heq).trans hc hsame'.symm

/-- A definition that refers to itself, and a document that refers to it under both addresses. -/
def looping : Context :=
  let node : Json := .object [("items", .object [("$ref", .string "#")])]
  .of "/app" (Options.default.forDefinitions "/app" [("node", node)])
    (.object [("properties", .object [("a", .object [("$ref", .string "node#")]),
      ("b", .object [("$ref", .string "#/definitions/node")])]),
      ("definitions", .object [("node", node)])])

theorem marked_looping : looping.Marked := by
  have hkeys : Table.keys (looping.definitions?.getD []) = ["node"] := by decide +kernel
  refine ⟨by decide +kernel, fun id hid => ?_, fun id hid id' hid' _ => ?_⟩
  · rw [hkeys] at hid
    rw [List.mem_singleton.1 hid]
    decide
  · rw [hkeys] at hid hid'
    rw [List.mem_singleton.1 hid, List.mem_singleton.1 hid']

def pointers (log : List Event) : List String :=
  log.filterMap fun
    | .met ref => some (splitReference ref).2
    | _ => none

theorem canonical_looping : ∀ ref, .met ref ∈ (looping.watch "Root").2.log →
    Json.Pointer.Canonical (splitReference ref).2 := by
  have hpointers : pointers (looping.watch "Root").2.log = ["", "", "/definitions/node"] := by
    decide +kernel
  intro ref hmet
  have hmem : (splitReference ref).2 ∈ pointers (looping.watch "Root").2.log :=
    List.mem_filterMap.2 ⟨_, hmet, rfl⟩
  rw [hpointers] at hmem
  generalize (splitReference ref).2 = pointer at hmem
  have hcases : pointer = "" ∨ pointer = "/definitions/node" := by simpa using hmem
  rcases hcases with rfl | rfl
  · exact Json.Pointer.canonical_empty
  · exact ⟨.inr (by decide), Json.Pointer.escaped_of_not_mem (by decide)⟩

theorem one_declaration_per_target_looping :
    ∃ before after before' after',
      .followed "node#" before (.ok (.named "Node")) after ∈ (looping.watch "Root").2.log ∧
      .followed "#/definitions/node" before' (.ok (.named "Node")) after' ∈
        (looping.watch "Root").2.log ∧
      looping.SameTarget (looping.address before.bases "node#")
        (looping.address before'.bases "#/definitions/node") := by
  have hanswers : answers (looping.watch "Root").2.log =
      [("node#", "Node"), ("#/definitions/node", "Node")] := by
    decide +kernel
  obtain ⟨before, after, -, h⟩ := exists_of_mem_answers (hanswers ▸ List.mem_cons_self)
  obtain ⟨before', after', -, h'⟩ :=
    exists_of_mem_answers (hanswers ▸ List.mem_cons_of_mem _ List.mem_cons_self)
  have hsame := ((one_declaration_per_target looping "Root" marked_looping canonical_looping).2.2.1
    _ _ _ _ _ _ _ _ h h').1 rfl
  exact ⟨before, after, before', after', h, h', hsame⟩

end Compile

end ApiTypes
