import ApiTypes.Proofs.Compile.Watched

namespace ApiTypes.Compile

open TypeScript Json

/-- What an event makes of the documents that are open, innermost first. -/
def Event.opens : Event → List String → List String
  | .entered base, chain => base :: chain
  | .left _, chain => chain.tail
  | _, chain => chain

/-- The documents that were entered and not left again, innermost first. -/
def openDocuments (log : List Event) (chain : List String) : List String :=
  log.foldl (fun chain e => e.opens chain) chain

/-- The schema is a part of the innermost document of the chain, or of the root. -/
def Context.Holds (c : Context) (chain : List String) (schema : Json) : Prop :=
  ∃ doc, c.behind (chain.headD "") = .ok doc ∧ Within schema doc

/-- The reference stands in the innermost document of the chain, or it is made for a definition of
the root. -/
def Context.StandsIn (c : Context) (chain : List String) (ref : String) : Prop :=
  (∃ schema, c.Holds chain schema ∧ schema.text? "$ref" = some ref) ∨
    chain = [] ∧ ∃ id ∈ Table.keys (c.definitions?.getD []), ref = "#" ++ definitionPointer id

def Event.Fits (c : Context) (chain : List String) : Event → Prop
  | .moment s => s.bases = chain
  | .visited schema => c.Holds chain schema
  | .met ref => c.StandsIn chain ref
  | .lookedUp ref found => found = c.part (c.address chain ref).1 (c.address chain ref).2
  | .followed ref before result after => before.bases = chain ∧ after.bases = chain ∧
    ∀ name, before.known? c (c.address chain ref).1 (c.address chain ref).2 = some name →
      result = .ok (.named name) ∧ after = before
  | .named _ _ _ _ | .opened _ | .entered _ | .left _ => True

def Fitting (c : Context) : List String → List Event → Prop
  | _, [] => True
  | chain, e :: log => e.Fits c chain ∧ Fitting c (e.opens chain) log

/-- Events that fit, after which the same documents are open as before. -/
def Balanced (c : Context) (chain : List String) (log : List Event) : Prop :=
  Fitting c chain log ∧ openDocuments log chain = chain

section log

variable {c : Context} {chain : List String}

theorem openDocuments_append (l r : List Event) (chain : List String) :
    openDocuments (l ++ r) chain = openDocuments r (openDocuments l chain) :=
  List.foldl_append

theorem fitting_append (l r : List Event) (chain : List String) :
    Fitting c chain (l ++ r) ↔ Fitting c chain l ∧ Fitting c (openDocuments l chain) r := by
  induction l generalizing chain with
  | nil => exact (true_and _).to_iff.symm
  | cons e l ih =>
    show _ ∧ Fitting c (e.opens chain) (l ++ r) ↔ _
    rw [ih]
    exact and_assoc.symm

theorem balanced_nil : Balanced c chain [] :=
  ⟨trivial, rfl⟩

theorem balanced_singleton {e : Event} (h : e.Fits c chain) (hopens : e.opens chain = chain) :
    Balanced c chain [e] :=
  ⟨⟨h, trivial⟩, hopens⟩

theorem Balanced.append {l r : List Event} (hl : Balanced c chain l) (hr : Balanced c chain r) :
    Balanced c chain (l ++ r) := by
  constructor
  · rw [fitting_append, hl.2]
    exact ⟨hl.1, hr.1⟩
  · rw [openDocuments_append, hl.2, hr.2]

theorem Balanced.inside {base : String} {log : List Event} (h : Balanced c (base :: chain) log) :
    Balanced c chain (.entered base :: (log ++ [.left base])) := by
  constructor
  · refine ⟨trivial, ?_⟩
    rw [fitting_append]
    exact ⟨h.1, trivial, trivial⟩
  · show openDocuments (log ++ [.left base]) (base :: chain) = chain
    rw [openDocuments_append, h.2]
    rfl

end log

structure State.Inside (c : Context) (chain : List String) (s : State) : Prop where
  bases : s.bases = chain
  reads : s.Reads c

/-- The watched action does what the action does; it ends inside the same documents, and what is
seen of it fits. -/
def Mirrors {α : Type} (c : Context) (chain : List String) (a : Watched α) (a' : Action α) : Prop :=
  ∀ w, w.state.Inside c chain →
    ((a.run w).1, (a.run w).2.state) = a'.run w.state ∧ (a.run w).2.state.Inside c chain ∧
      ∃ seen, (a.run w).2.log = w.log ++ seen ∧ Balanced c chain seen

section rules

variable {α β : Type} {c : Context} {chain : List String}

theorem mirrors_pure (x : α) : Mirrors c chain (pure x) (pure x) :=
  fun w hw => ⟨rfl, hw, [], (List.append_nil w.log).symm, balanced_nil⟩

/-- What comes next may count on what the first action answered. -/
theorem Mirrors.bind_of_run {a : Watched β} {a' : Action β} {f : β → Watched α}
    {f' : β → Action α} (h : Mirrors c chain a a')
    (hf : ∀ s x t, s.Inside c chain → a'.run s = (.ok x, t) → Mirrors c chain (f x) (f' x)) :
    Mirrors c chain (a >>= f) (a' >>= f') := by
  intro w hw
  obtain ⟨hrun, hinside, seen, hseen, hbalanced⟩ := h w hw
  rcases ha : a.run w with ⟨e | x, w₁⟩ <;> rw [ha] at hrun hinside hseen
  · rw [Watched.run_bind_error ha, run_bind_error hrun.symm]
    exact ⟨rfl, hinside, seen, hseen, hbalanced⟩
  · obtain ⟨hrun₂, hinside₂, seen₂, hseen₂, hbalanced₂⟩ :=
      hf w.state x w₁.state hw hrun.symm w₁ hinside
    rw [Watched.run_bind_ok ha, run_bind_ok hrun.symm]
    refine ⟨hrun₂, hinside₂, seen ++ seen₂, ?_, hbalanced.append hbalanced₂⟩
    rw [hseen₂, hseen, List.append_assoc]

theorem Mirrors.bind {a : Watched β} {a' : Action β} {f : β → Watched α} {f' : β → Action α}
    (h : Mirrors c chain a a') (hf : ∀ x, Mirrors c chain (f x) (f' x)) :
    Mirrors c chain (a >>= f) (a' >>= f') :=
  h.bind_of_run fun _ x _ _ _ => hf x

theorem Mirrors.congr {a : Watched α} {a' a'' : Action α} (h : Mirrors c chain a a')
    (heq : ∀ s, s.Inside c chain → a'.run s = a''.run s) : Mirrors c chain a a'' := by
  intro w hw
  rw [← heq w.state hw]
  exact h w hw

def mirroring (c : Context) (chain : List String) : Simulation Watched Action where
  Rel := Mirrors c chain
  rel_pure := mirrors_pure
  rel_bind := Mirrors.bind

/-- Notes are only seen. -/
theorem Mirrors.note {e : Event} {a : Watched α} {a' : Action α} (h : Mirrors c chain a a')
    (he : e.Fits c chain) (hopens : e.opens chain = chain) :
    Mirrors c chain (do Watched.note e; a) a' := by
  intro w hw
  obtain ⟨hrun, hinside, seen, hseen, hbalanced⟩ := h { w with log := w.log ++ [e] } hw
  refine ⟨hrun, hinside, e :: seen, ?_, (balanced_singleton he hopens).append hbalanced⟩
  rw [← List.append_cons] at hseen
  exact hseen

theorem mirrors_step {a : Action α} (h : ∀ s, s.Inside c chain → (a.run s).2.Inside c chain) :
    Mirrors c chain (.step a) a := by
  intro w hw
  refine ⟨rfl, h w.state hw, _, rfl, ?_⟩
  have hbefore : Balanced c chain [.moment w.state] := balanced_singleton hw.bases rfl
  exact hbefore.append (balanced_singleton (h w.state hw).bases rfl)

theorem mirrors_get : Mirrors c chain (.step get) get :=
  mirrors_step fun _ hs => hs

/-- A change that leaves what was read and what was entered. -/
theorem Mirrors.modify {f : State → State} {a : Watched α} {a' : Action α}
    (h : Mirrors c chain a a') (hbases : ∀ s, (f s).bases = s.bases)
    (hdocuments : ∀ s, (f s).documents = s.documents) :
    Mirrors c chain (do Watched.step (modify f); a) (do modify f; a') := by
  refine Mirrors.bind (mirrors_step fun s hs => ?_) fun _ => h
  exact ⟨(hbases s).trans hs.bases, fun url j hj => hs.reads url j (hdocuments s ▸ hj)⟩

theorem Mirrors.noting {event : State → Except Error α → State → Event} {a : Watched α}
    {a' : Action α} (h : Mirrors c chain a a') (hevent : ∀ s, s.Inside c chain →
      (a'.run s).2.Inside c chain → (event s (a'.run s).1 (a'.run s).2).Fits c chain)
    (hopens : ∀ s r t, (event s r t).opens chain = chain) :
    Mirrors c chain (.noting event a) a' := by
  intro w hw
  obtain ⟨hrun, hinside, seen, hseen, hbalanced⟩ := h w hw
  have hfits := hevent w.state hw
  rw [← hrun] at hfits
  refine ⟨hrun, hinside, _, ?_,
    hbalanced.append (balanced_singleton (hfits hinside) (hopens _ _ _))⟩
  show (a.run w).2.log ++ _ = _
  rw [hseen, List.append_assoc]
  rfl

theorem Mirrors.within {base : String} {a : Watched α} {a' : Action α}
    (h : Mirrors c (entered base chain) a a') :
    Mirrors c chain (.within base a) (within base a') := by
  by_cases hbase : base = ""
  · subst hbase
    exact h
  -- entering is noted first and leaving last, also where the action fails
  unfold Watched.within Compile.within
  rw [if_neg hbase, if_neg hbase]
  unfold entered at h
  rw [if_neg hbase] at h
  intro w hw
  have hentered : State.Inside c (base :: chain) { w.state with bases := base :: w.state.bases } :=
    ⟨congrArg (base :: ·) hw.bases, hw.reads⟩
  obtain ⟨hrun, hinside, seen, hseen, hbalanced⟩ :=
    h ⟨{ w.state with bases := base :: w.state.bases }, w.log ++ [.entered base]⟩ hentered
  refine ⟨?_, ⟨congrArg List.tail hinside.bases, hinside.reads⟩, _, ?_, hbalanced.inside⟩
  · exact congrArg (fun r => (r.1, { r.2 with bases := r.2.bases.tail })) hrun
  · show (a.run ⟨_, _⟩).2.log ++ [Event.left base] = _
    rw [hseen]
    simp

theorem Mirrors.declare {a : Watched TypeExpr} {a' : Action TypeExpr} (h : Mirrors c chain a a')
    (name : String) (description : Option String) :
    Mirrors c chain (.declare name description a) (declare name description a') := by
  refine Mirrors.note ?_ trivial rfl
  refine mirrors_get.bind fun s => Mirrors.modify ?_ (fun _ => rfl) fun _ => rfl
  refine h.bind fun t => Mirrors.modify ?_ (fun _ => rfl) fun _ => rfl
  exact mirrors_pure _

end rules

section layers

variable {c : Context} {inner : Json → Watched TypeExpr}
variable {inner' : Json → Action TypeExpr} {chain : List String}

theorem mirrors_uniqueName (hint : String) :
    Mirrors c chain (.step (uniqueName hint)) (uniqueName hint) :=
  mirrors_step fun _ hs => ⟨hs.bases, hs.reads⟩

/-- What is looked up is the part of a document that the reference is about. -/
theorem mirrors_target (ref : String) :
    Mirrors c chain (.noting (fun _ found _ => .lookedUp ref found)
      (.step (target c (c.address chain ref).1 (c.address chain ref).2)))
      (target c (c.address chain ref).1 (c.address chain ref).2) := by
  have hrun : ∀ s, s.Inside c chain → ∃ documents, State.Reads c { s with documents } ∧
      (target c (c.address chain ref).1 (c.address chain ref).2).run s =
        (c.part (c.address chain ref).1 (c.address chain ref).2, { s with documents }) :=
    fun s hs => run_target hs.reads _ _
  refine (mirrors_step fun s hs => ?_).noting (fun s hs _ => ?_) fun _ _ _ => rfl
  · obtain ⟨documents, hreads, ht⟩ := hrun s hs
    rw [ht]
    exact ⟨hs.bases, hreads⟩
  · obtain ⟨documents, -, ht⟩ := hrun s hs
    rw [ht]
    rfl

/-- The part of a document that a reference is about is inside the document that is entered for
it. -/
theorem holds_of_part {ref : String} {schema : Json}
    (h : c.part (c.address chain ref).1 (c.address chain ref).2 = .ok schema) :
    c.Holds (entered (c.address chain ref).1 chain) schema := by
  have hentered : (entered (c.address chain ref).1 chain).headD "" = (c.address chain ref).1 :=
    headD_entered headD_of_base
  unfold Context.Holds
  rw [hentered]
  exact exists_within_of_part h

variable (hinner : ∀ chain schema, c.Holds chain schema →
  Mirrors c chain (inner schema) (inner' schema))

include hinner

theorem mirrors_watchedTarget (ref : String) :
    Mirrors c chain (watchedTarget c inner ref (c.address chain ref).1 (c.address chain ref).2)
      (firstTarget c inner' (c.address chain ref).1 (c.address chain ref).2) := by
  unfold watchedTarget firstTarget declaredTarget
  refine (mirrors_target ref).bind_of_run fun s schema t hs hrun => ?_
  have hholds : c.Holds (entered (c.address chain ref).1 chain) schema := by
    obtain ⟨documents, -, htarget⟩ :=
      run_target hs.reads (c.address chain ref).1 (c.address chain ref).2
    rw [htarget] at hrun
    exact holds_of_part (congrArg Prod.fst hrun)
  refine (mirrors_uniqueName _).bind fun name => ?_
  refine Mirrors.note ?_ trivial rfl
  refine Mirrors.modify ?_ (fun _ => rfl) fun _ => rfl
  split
  · exact ((hinner _ schema hholds).declare name (description? schema)).within
  · exact mirrors_pure _

theorem mirrors_watchedReference {ref : String} (hstands : c.StandsIn chain ref) :
    Mirrors c chain (watchedReference c inner ref) (reference c inner' ref) := by
  have hrun : ∀ s : State, s.Inside c chain → (reference c inner' ref).run s =
      (namedTarget c inner' (c.address chain ref).1 (c.address chain ref).2).run s :=
    fun s hs => hs.bases ▸ run_reference_eq c inner' ref s
  unfold watchedReference
  refine Mirrors.note (Mirrors.noting ?_ ?_ fun _ _ _ => rfl) hstands rfl
  · -- inside these documents the reference has one address, whatever the state
    apply Mirrors.congr _ fun s hs => (hrun s hs).symm
    refine mirrors_get.bind_of_run fun s s' t hs hget => ?_
    obtain rfl : s = s' := Except.ok.inj (congrArg Prod.fst hget)
    have htarget : Mirrors c chain _ _ := mirrors_watchedTarget hinner ref
    rw [hs.bases]
    generalize c.address chain ref = address at htarget ⊢
    obtain ⟨base, pointer⟩ := address
    dsimp only at htarget ⊢
    cases s.known? c base pointer with
    | some name => exact mirrors_pure _
    | none => exact htarget
  · refine fun s hs hafter => ⟨hs.bases, hafter.bases, fun name hname => ?_⟩
    rw [hrun s hs, run_namedTarget, hname]
    exact ⟨rfl, rfl⟩

/-- A watched layer inside a document does what the layer does. -/
theorem simulates_watched :
    Simulates (mirroring c chain) (c.Holds chain) (.watched c inner) (.of c inner') where
  inherited := by
    rintro j k ⟨doc, hdoc, hwithin⟩ hpart
    exact ⟨doc, hdoc, (Within.self.part hpart).trans hwithin⟩
  reference j ref hj href := mirrors_watchedReference hinner (.inl ⟨j, hj, href⟩)
  titled title j hj :=
    (mirrors_uniqueName title).bind fun name => (hinner chain j hj).declare name (description? j)
  inner j hj := hinner chain j hj

end layers

theorem mirrors_watchedType (c : Context) (bound : Nat) (chain : List String) (schema : Json)
    (h : c.Holds chain schema) :
    Mirrors c chain (watchedType c bound schema) (bodyType c bound schema) := by
  -- on the bound, because what a schema leads to is compiled with one less
  induction bound generalizing chain schema with
  | zero => exact fun w hw => ⟨rfl, hw, [], (List.append_nil w.log).symm, balanced_nil⟩
  | succ bound ih =>
    unfold watchedType bodyType
    rw [← Walk.schemaType_of]
    exact ((simulates_watched ih).schemaType h).note h rfl

section program

variable (c : Context)

theorem holds_root : c.Holds [] c.root :=
  ⟨c.root, if_pos rfl, .self⟩

theorem mirrors_watchedRoot (name : String) :
    Mirrors c [] (watchedRoot c name) (root c name) := by
  refine (mirrors_uniqueName name).bind fun name => Mirrors.note ?_ trivial rfl
  refine Mirrors.modify ?_ (fun _ => rfl) fun _ => rfl
  exact (mirrors_watchedType c c.bound [] c.root (holds_root c)).declare name _

theorem mirrors_watchedDefinitions : Mirrors c [] (watchedDefinitions c) (allDefinitions c) := by
  refine (mirroring c []).rel_forM fun id hid => ?_
  have hstands : c.StandsIn [] ("#" ++ definitionPointer id) := .inr ⟨rfl, id, hid, rfl⟩
  have hreference := mirrors_watchedReference (mirrors_watchedType c c.bound) hstands
  exact hreference.bind fun _ => mirrors_pure _

theorem mirrors_watchedProgram (name : String) :
    Mirrors c [] (watchedProgram c name) (program c name) := by
  unfold watchedProgram program
  refine (mirrors_watchedRoot c name).bind fun _ => ?_
  split
  · exact mirrors_watchedDefinitions c
  · exact mirrors_pure _

/-- A watched compilation does what the compilation does. -/
theorem watch_eq (name : String) :
    ((c.watch name).1, (c.watch name).2.state) = (program c name).run State.empty :=
  (mirrors_watchedProgram c name ⟨.empty, []⟩ ⟨rfl, reads_empty c⟩).1

/-- An event fits the documents that are open when it is seen. -/
theorem fits_of_watch {name : String} {log rest : List Event} {e : Event}
    (h : (c.watch name).2.log = log ++ e :: rest) : e.Fits c (openDocuments log []) := by
  obtain ⟨-, -, seen, hseen, hbalanced⟩ :=
    mirrors_watchedProgram c name ⟨.empty, []⟩ ⟨rfl, reads_empty c⟩
  have hlog : log ++ e :: rest = seen := h.symm.trans hseen
  have hfitting := hbalanced.1
  rw [← hlog, fitting_append] at hfitting
  exact hfitting.2.1

theorem address_local (chain : List String) (pointer : String) :
    c.address chain ("#" ++ pointer) = (chain.headD "", pointer) := by
  unfold Context.address
  rw [splitReference_pointer]
  rfl

/-- At every moment the state has the documents that were entered and not left again.  What is
compiled and each reference that is met stands in the innermost of them, or else in the root; there
a local reference is looked up, or was known already; and however following a reference ends, the
same documents are open as before. -/
theorem local_reference_stays (name : String) :
    ((c.watch name).1, (c.watch name).2.state) = (program c name).run State.empty ∧
    ∀ log e rest, (c.watch name).2.log = log ++ e :: rest →
      (∀ s, e = .moment s → s.bases = openDocuments log []) ∧
      (∀ schema, e = .visited schema →
        ∃ doc, c.behind ((openDocuments log []).headD "") = .ok doc ∧ Within schema doc) ∧
      (∀ ref, e = .met ref →
        (∃ schema doc, c.behind ((openDocuments log []).headD "") = .ok doc ∧ Within schema doc ∧
          schema.text? "$ref" = some ref) ∨
        openDocuments log [] = [] ∧ ∃ id ∈ Table.keys (c.definitions?.getD []),
          ref = "#" ++ definitionPointer id) ∧
      (∀ pointer found, e = .lookedUp ("#" ++ pointer) found →
        found = c.part ((openDocuments log []).headD "") pointer) ∧
      (∀ pointer before result after name, e = .followed ("#" ++ pointer) before result after →
        before.known? c ((openDocuments log []).headD "") pointer = some name →
          result = .ok (.named name) ∧ after = before) ∧
      ∀ ref before result after, e = .followed ref before result after →
        before.bases = openDocuments log [] ∧ after.bases = before.bases := by
  refine ⟨watch_eq c name, fun log e rest hlog => ?_⟩
  have hfits := fits_of_watch c hlog
  refine ⟨?_, ?_, ?_, ?_, ?_, ?_⟩
  · rintro s rfl
    exact hfits
  · rintro schema rfl
    exact hfits
  · rintro ref rfl
    refine hfits.imp_left ?_
    rintro ⟨schema, ⟨doc, hdoc, hwithin⟩, href⟩
    exact ⟨schema, doc, hdoc, hwithin, href⟩
  · rintro pointer found rfl
    have hfound : found = c.part (c.address (openDocuments log []) ("#" ++ pointer)).1
      (c.address (openDocuments log []) ("#" ++ pointer)).2 := hfits
    rw [address_local] at hfound
    exact hfound
  · rintro pointer before result after found rfl hknown
    obtain ⟨-, -, hfound⟩ := hfits
    rw [address_local] at hfound
    exact hfound found hknown
  · rintro ref before result after rfl
    obtain ⟨hbefore, hafter, -⟩ := hfits
    exact ⟨hbefore, hafter.trans hbefore.symm⟩

def facing : List (String × Json) :=
  [("a", .object [("x", .bool true), ("properties", .object [
      ("own", .object [("$ref", .string "#/x")]), ("other", .object [("$ref", .string "b#")]),
      ("again", .object [("$ref", .string "#/x")])])]),
    ("b", .object [("x", .bool true), ("properties", .object [
      ("back", .object [("$ref", .string "a#")]), ("own", .object [("$ref", .string "#/x")])])])]

example : ((Context.of "/app" (Options.default.forDefinitions "/app" facing)
    (.object [("items", .object [("$ref", .string "a#")])])).watch "Root").2.log.filterMap (fun
      | .met ref => some ref
      | .entered base => some ("into " ++ base)
      | .left base => some ("out of " ++ base)
      | _ => none) =
    ["a#", "into /app/a", "#/x", "into /app/a", "out of /app/a", "b#", "into /app/b", "a#",
      "#/x", "into /app/b", "out of /app/b", "out of /app/b", "#/x", "out of /app/a"] := by
  decide +kernel

end program

end ApiTypes.Compile
