import ApiTypes.Proofs.Compile.Names
import ApiTypes.Proofs.Compile.Watched

namespace ApiTypes.Compile

open TypeScript Json

structure Naming where
  address : String × String
  name : String
  declared : Bool

def Event.naming? : Event → Option Naming
  | .named base pointer name declared => some ⟨(base, pointer), name, declared⟩
  | _ => none

def Event.opening? : Event → Option String
  | .opened name => some name
  | _ => none

def namings (log : List Event) : List Naming :=
  log.filterMap Event.naming?

def openings (log : List Event) : List String :=
  log.filterMap Event.opening?

/-- Addresses that have a key in common. -/
def Context.Meets (c : Context) (a a' : String × String) : Prop :=
  ∃ key, c.IsKey a.1 a.2 key ∧ c.IsKey a'.1 a'.2 key

def Context.IsUrl (c : Context) (base : String) : Prop :=
  ∃ document, '#' ∉ document.toList ∧ base = c.url document

/-- What is behind an event: targets are those of references that were met, but for the root itself,
and answers are the names of targets. -/
def Event.Backed (c : Context) (log : List Event) : Event → Prop
  | .named base pointer _ declared =>
    declared = (base == "" || c.options.declaresExternal) ∧ (base = "" ∨ c.IsUrl base) ∧
      (pointer = "" ∨ ∃ ref, .met ref ∈ log ∧ pointer = (splitReference ref).2)
  | .followed ref before (.ok t) _ =>
    .met ref ∈ log ∧ (∀ base ∈ before.bases, c.IsUrl base) ∧
      ∃ n ∈ namings log, t = .named n.name ∧ c.Meets n.address (c.address before.bases ref)
  | _ => True

structure Watch.Orderly (c : Context) (w : Watch) : Prop where
  bases : ∀ base ∈ w.state.bases, c.IsUrl base
  known : ∀ key name, Table.get? key w.state.refs = some name ↔
    ∃ t ∈ namings w.log, t.name = name ∧ c.IsKey t.address.1 t.address.2 key
  given : ∀ t ∈ namings w.log, t.name ∈ w.state.names
  /-- No two targets have the same name, or a key in common. -/
  apart : (namings w.log).Pairwise fun t t' => t.name ≠ t'.name ∧ ¬ c.Meets t.address t'.address
  opened : ∀ name ∈ openings w.log, name ∈ w.state.names
  once : (openings w.log).Nodup
  undeclared : ∀ t ∈ namings w.log, t.declared = false → t.name ∉ openings w.log
  backed : ∀ e ∈ w.log, e.Backed c w.log

/-- Events that are neither about names nor about answers. -/
def Event.Quiet : Event → Prop
  | .named _ _ _ _ | .opened _ | .followed _ _ _ _ => False
  | _ => True

section log

variable {log : List Event} {e : Event}

theorem namings_append (l r : List Event) : namings (l ++ r) = namings l ++ namings r :=
  List.filterMap_append

theorem openings_append (l r : List Event) : openings (l ++ r) = openings l ++ openings r :=
  List.filterMap_append

theorem namings_of_quiet (h : ∀ e ∈ log, e.Quiet) : namings log = [] := by
  refine List.filterMap_eq_nil_iff.2 fun e he => ?_
  cases e with
  | named => exact (h _ he).elim
  | _ => rfl

theorem openings_of_quiet (h : ∀ e ∈ log, e.Quiet) : openings log = [] := by
  refine List.filterMap_eq_nil_iff.2 fun e he => ?_
  cases e with
  | opened => exact (h _ he).elim
  | _ => rfl

theorem mem_namings {t : Naming} :
    t ∈ namings log ↔ .named t.address.1 t.address.2 t.name t.declared ∈ log := by
  unfold namings
  rw [List.mem_filterMap]
  constructor
  · rintro ⟨e, he, ht⟩
    cases e with
    | named =>
      obtain rfl := Option.some.inj ht
      exact he
    | _ => cases ht
  · exact fun h => ⟨_, h, rfl⟩

theorem Event.Backed.mono {c : Context} {log' : List Event} (h : e.Backed c log)
    (hsub : log ⊆ log') : e.Backed c log' := by
  cases e with
  | named =>
    obtain ⟨hdeclared, hbase, hpointer⟩ := h
    refine ⟨hdeclared, hbase, hpointer.imp_right ?_⟩
    rintro ⟨ref, hmet, hp⟩
    exact ⟨ref, hsub hmet, hp⟩
  | followed ref before result after =>
    cases result with
    | error e => trivial
    | ok t =>
      obtain ⟨hmet, hbefore, n, hn, hanswer⟩ := h
      exact ⟨hsub hmet, hbefore, n, mem_namings.2 (hsub (mem_namings.1 hn)), hanswer⟩
  | _ => trivial

theorem Event.Quiet.backed {c : Context} (h : e.Quiet) : e.Backed c log := by
  cases e with
  | named => exact h.elim
  | followed => exact h.elim
  | _ => trivial

theorem backed_append {c : Context} {seen : List Event} (h : ∀ e ∈ log, e.Backed c log)
    (hseen : ∀ e ∈ seen, e.Backed c (log ++ seen)) :
    ∀ e ∈ log ++ seen, e.Backed c (log ++ seen) := by
  intro e he
  obtain he | he := List.mem_append.1 he
  · exact (h e he).mono (List.subset_append_left log seen)
  · exact hseen e he

end log

/-- A name that was given out and has no place yet. -/
structure Watch.Awaits (w : Watch) (name : String) : Prop where
  given : name ∈ w.state.names
  new : name ∉ openings w.log
  declared : ∀ t ∈ namings w.log, t.name = name → t.declared = true

structure Watch.Fresh (w : Watch) (name : String) : Prop where
  given : name ∈ w.state.names
  new : name ∉ openings w.log
  unnamed : ∀ t ∈ namings w.log, t.name ≠ name

theorem Watch.Fresh.awaits {w : Watch} {name : String} (h : w.Fresh name) : w.Awaits name :=
  ⟨h.given, h.new, fun t ht he => absurd he (h.unnamed t ht)⟩

namespace Watch.Orderly

variable {c : Context} {w : Watch}

theorem empty (c : Context) : Watch.Orderly c ⟨.empty, []⟩ where
  bases := by simp [State.empty]
  known key name := by simp [State.empty, namings]
  given := by simp [namings]
  apart := by simp [namings]
  opened := by simp [openings]
  once := by simp [openings]
  undeclared := by simp [namings]
  backed := by simp

/-- Steps that give no names and open no places. -/
theorem extend (h : w.Orderly c) {s : State} {seen : List Event} (hnone : namings seen = [])
    (hnone' : openings seen = []) (hbacked : ∀ e ∈ seen, e.Backed c (w.log ++ seen))
    (hbases : ∀ base ∈ s.bases, c.IsUrl base) (hrefs : s.refs = w.state.refs)
    (hnames : w.state.names ⊆ s.names) : Watch.Orderly c ⟨s, w.log ++ seen⟩ := by
  have hnamings : namings (w.log ++ seen) = namings w.log := by
    rw [namings_append, hnone, List.append_nil]
  have hopenings : openings (w.log ++ seen) = openings w.log := by
    rw [openings_append, hnone', List.append_nil]
  constructor
  · exact hbases
  · rw [hnamings, hrefs]
    exact h.known
  · exact fun t ht => hnames (h.given t (hnamings ▸ ht))
  · rw [hnamings]
    exact h.apart
  · exact fun name hname => hnames (h.opened name (hopenings ▸ hname))
  · rw [hopenings]
    exact h.once
  · rw [hnamings, hopenings]
    exact h.undeclared
  · exact backed_append h.backed hbacked

theorem quiet (h : w.Orderly c) {s : State} {seen : List Event} (hquiet : ∀ e ∈ seen, e.Quiet)
    (hbases : ∀ base ∈ s.bases, c.IsUrl base) (hrefs : s.refs = w.state.refs)
    (hnames : w.state.names ⊆ s.names) : Watch.Orderly c ⟨s, w.log ++ seen⟩ :=
  h.extend (namings_of_quiet hquiet) (openings_of_quiet hquiet) (fun e he => (hquiet e he).backed)
    hbases hrefs hnames

theorem following (h : w.Orderly c) {ref : String} {before after : State}
    {result : Except Error TypeExpr}
    (hbacked : (Event.followed ref before result after).Backed c w.log) :
    Watch.Orderly c { w with log := w.log ++ [.followed ref before result after] } := by
  refine h.extend rfl rfl (fun e he => ?_) h.bases rfl (List.Subset.refl _)
  obtain rfl := List.mem_singleton.1 he
  exact hbacked.mono (List.subset_append_left _ _)

/-- A place is opened under a name that has none yet. -/
theorem opening (h : w.Orderly c) {name : String} (hname : w.Awaits name) :
    Watch.Orderly c { w with log := w.log ++ [.opened name] } := by
  -- no target is named by it, so only what is said of openings and of events is new
  have hnamings : namings (w.log ++ [.opened name]) = namings w.log := by
    rw [namings_append]
    exact List.append_nil _
  have hopenings : openings (w.log ++ [.opened name]) = openings w.log ++ [name] :=
    openings_append w.log _
  constructor
  · exact h.bases
  · rw [hnamings]
    exact h.known
  · rw [hnamings]
    exact h.given
  · rw [hnamings]
    exact h.apart
  · intro n hn
    rw [hopenings] at hn
    obtain hn | hn := List.mem_append.1 hn
    · exact h.opened n hn
    · exact List.mem_singleton.1 hn ▸ hname.given
  · rw [hopenings]
    exact List.nodup_append.2 ⟨h.once, List.nodup_singleton name, fun a ha b hb he =>
      hname.new (List.mem_singleton.1 hb ▸ he ▸ ha)⟩
  · intro t ht hfalse
    rw [hnamings] at ht
    rw [hopenings]
    intro hmem
    obtain hmem | hmem := List.mem_append.1 hmem
    · exact h.undeclared t ht hfalse hmem
    · -- a name with a place belongs to a target that is to be declared
      rw [hname.declared t ht (List.mem_singleton.1 hmem)] at hfalse
      cases hfalse
  · refine backed_append h.backed fun e he => ?_
    obtain rfl := List.mem_singleton.1 he
    trivial

theorem name_of_known (h : w.Orderly c) {base pointer name : String}
    (hknown : w.state.known? c base pointer = some name) :
    ∃ t ∈ namings w.log, t.name = name ∧ c.Meets t.address (base, pointer) := by
  have hkey : ∃ key, c.IsKey base pointer key ∧ Table.get? key w.state.refs = some name := by
    unfold State.known? at hknown
    rcases Option.or_eq_some_iff.1 hknown with hfirst | ⟨-, hsecond⟩
    · exact ⟨_, .inl rfl, hfirst⟩
    · obtain ⟨key, hkey, hget⟩ := Option.bind_eq_some_iff.1 hsecond
      exact ⟨key, .inr hkey, hget⟩
  obtain ⟨key, hkey, hget⟩ := hkey
  obtain ⟨t, ht, hname, htkey⟩ := (h.known key name).1 hget
  exact ⟨t, ht, hname, key, htkey, hkey⟩

theorem not_meets_of_unknown (h : w.Orderly c) {base pointer : String}
    (hknown : w.state.known? c base pointer = none) {t : Naming} (ht : t ∈ namings w.log) :
    ¬ c.Meets t.address (base, pointer) := by
  rintro ⟨key, htkey, hkey⟩
  have hget : Table.get? key w.state.refs = some t.name :=
    (h.known key t.name).2 ⟨t, ht, rfl, htkey⟩
  rw [get?_of_known?_none hknown hkey] at hget
  cases hget

/-- A name that was not given out before is fresh. -/
theorem fresh (h : w.Orderly c) {name : String} (hname : name ∉ w.state.names) {s : State}
    {seen : List Event} (hquiet : ∀ e ∈ seen, e.Quiet) (hgiven : name ∈ s.names) :
    Watch.Fresh ⟨s, w.log ++ seen⟩ name := by
  refine ⟨hgiven, ?_, ?_⟩
  · rw [openings_append, openings_of_quiet hquiet, List.append_nil]
    exact fun hmem => hname (h.opened name hmem)
  · rw [namings_append, namings_of_quiet hquiet, List.append_nil]
    exact fun t ht he => hname (he ▸ h.given t ht)

section naming

variable {w' : Watch} {base pointer name : String} {declared : Bool} {seen : List Event}

theorem namings_naming (hquiet : ∀ e ∈ seen, e.Quiet)
    (hlog : w'.log = w.log ++ .named base pointer name declared :: seen) :
    namings w'.log = namings w.log ++ [⟨(base, pointer), name, declared⟩] := by
  have hnamed : namings (.named base pointer name declared :: seen) =
      ⟨(base, pointer), name, declared⟩ :: namings seen := rfl
  rw [hlog, namings_append, hnamed, namings_of_quiet hquiet]

theorem openings_naming (hquiet : ∀ e ∈ seen, e.Quiet)
    (hlog : w'.log = w.log ++ .named base pointer name declared :: seen) :
    openings w'.log = openings w.log := by
  have hnamed : openings (.named base pointer name declared :: seen) = openings seen := rfl
  rw [hlog, openings_append, hnamed, openings_of_quiet hquiet, List.append_nil]

theorem mem_namings_naming (hquiet : ∀ e ∈ seen, e.Quiet)
    (hlog : w'.log = w.log ++ .named base pointer name declared :: seen) {t : Naming} :
    t ∈ namings w'.log ↔ t ∈ namings w.log ∨ t = ⟨(base, pointer), name, declared⟩ := by
  rw [namings_naming hquiet hlog, List.mem_append, List.mem_singleton]

/-- The keys of a target that gets a name lead to it, and all others to what they led to. -/
theorem known_naming (h : w.Orderly c) (hquiet : ∀ e ∈ seen, e.Quiet)
    (hlog : w'.log = w.log ++ .named base pointer name declared :: seen)
    (hknown : w.state.known? c base pointer = none)
    (hrefs : w'.state.refs = (targetKey base pointer, name) ::
      ((c.aliasKey? base pointer).map (·, name)).toList ++ w.state.refs) (key n : String) :
    Table.get? key w'.state.refs = some n ↔
      ∃ t ∈ namings w'.log, t.name = n ∧ c.IsKey t.address.1 t.address.2 key := by
  have hmem := fun t => mem_namings_naming (t := t) hquiet hlog
  -- a key in the table is one of the new target, or it was there before; no target is known under a
  -- key of the new one
  rw [hrefs, get?_refer]
  split
  · next hkey =>
    constructor
    · intro hn
      obtain rfl := Option.some.inj hn
      exact ⟨_, (hmem _).2 (.inr rfl), rfl, hkey⟩
    · rintro ⟨t, ht, rfl, htkey⟩
      obtain ht | rfl := (hmem t).1 ht
      · exact absurd ⟨key, htkey, hkey⟩ (h.not_meets_of_unknown hknown ht)
      · rfl
  · next hkey =>
    rw [h.known]
    constructor
    · rintro ⟨t, ht, hn, htkey⟩
      exact ⟨t, (hmem t).2 (.inl ht), hn, htkey⟩
    · rintro ⟨t, ht, hn, htkey⟩
      obtain ht | rfl := (hmem t).1 ht
      · exact ⟨t, ht, hn, htkey⟩
      · exact absurd htkey hkey

/-- A target that was not met before gets a fresh name. -/
theorem naming (h : w.Orderly c) (hquiet : ∀ e ∈ seen, e.Quiet)
    (hlog : w'.log = w.log ++ .named base pointer name declared :: seen)
    (hbacked : (Event.named base pointer name declared).Backed c w.log)
    (hknown : w.state.known? c base pointer = none) (hname : w.Fresh name)
    (hbases : w'.state.bases = w.state.bases)
    (hrefs : w'.state.refs = (targetKey base pointer, name) ::
      ((c.aliasKey? base pointer).map (·, name)).toList ++ w.state.refs)
    (hnames : w'.state.names = w.state.names) : w'.Orderly c := by
  have hmem := fun t => mem_namings_naming (t := t) hquiet hlog
  have hopenings := openings_naming hquiet hlog
  constructor
  · rw [hbases]
    exact h.bases
  · exact h.known_naming hquiet hlog hknown hrefs
  · intro t ht
    rw [hnames]
    obtain ht | rfl := (hmem t).1 ht
    · exact h.given t ht
    · exact hname.given
  · rw [namings_naming hquiet hlog]
    -- the new target meets none that has a name
    refine List.pairwise_append.2 ⟨h.apart, List.pairwise_singleton _ _, fun t ht t' ht' => ?_⟩
    obtain rfl := List.mem_singleton.1 ht'
    exact ⟨hname.unnamed t ht, h.not_meets_of_unknown hknown ht⟩
  · rw [hopenings, hnames]
    exact h.opened
  · rw [hopenings]
    exact h.once
  · intro t ht hfalse
    rw [hopenings]
    obtain ht | rfl := (hmem t).1 ht
    · exact h.undeclared t ht hfalse
    · exact hname.new
  · rw [hlog]
    refine backed_append h.backed fun e he => ?_
    obtain rfl | he := List.mem_cons.1 he
    · exact hbacked.mono (List.subset_append_left _ _)
    · exact (hquiet e he).backed

/-- If the target is declared, a place is to be opened under its name. -/
theorem awaits_naming (hquiet : ∀ e ∈ seen, e.Quiet)
    (hlog : w'.log = w.log ++ .named base pointer name declared :: seen) (hname : w.Fresh name)
    (hnames : w'.state.names = w.state.names) (hdeclared : declared = true) : w'.Awaits name := by
  refine ⟨hnames ▸ hname.given, ?_, fun t ht he => ?_⟩
  · rw [openings_naming hquiet hlog]
    exact hname.new
  · obtain ht | rfl := (mem_namings_naming hquiet hlog).1 ht
    · exact absurd he (hname.unnamed t ht)
    · exact hdeclared

end naming

end Watch.Orderly

/-- Looking up a target changes nothing but what was read, also where it fails. -/
theorem exists_run_target (c : Context) (base pointer : String) (s : State) :
    ∃ found documents, (target c base pointer).run s = (found, { s with documents }) := by
  have hdocument : ∃ found documents, (document c base).run s = (found, { s with documents }) := by
    unfold document
    split
    · exact ⟨.ok c.root, s.documents, rfl⟩
    · have hget : (get : Action State).run s = (.ok s, s) := rfl
      rw [run_bind_ok hget]
      split
      · next j _ => exact ⟨.ok j, s.documents, rfl⟩
      · cases c.options.resolvers.resolve base with
        | error e => exact ⟨.error e, s.documents, rfl⟩
        | ok j => exact ⟨.ok j, _, rfl⟩
  obtain ⟨found, documents, hrun⟩ := hdocument
  unfold target
  cases found with
  | error e => exact ⟨.error e, documents, run_bind_error hrun⟩
  | ok doc =>
    rw [run_bind_ok hrun]
    cases Json.Pointer.resolve? pointer doc with
    | none => exact ⟨_, documents, rfl⟩
    | some j => exact ⟨.ok j, documents, rfl⟩

theorem hash_not_mem_document (ref : String) : '#' ∉ (splitReference ref).1.toList := by
  unfold splitReference
  split
  · next document pointer h =>
    rw [String.toList_ofList]
    exact (Text.eq_append_of_splitFirst? h).2
  · next h =>
    intro hmem
    obtain ⟨l, r, hl, hlist⟩ := List.eq_append_cons_of_mem hmem
    have hsplit := Text.splitFirst?_append hlist r
    rw [← hl, h] at hsplit
    cases hsplit

/-- A reference is about the root or about a document that references name. -/
theorem base_address {c : Context} {bases : List String} (hbases : ∀ base ∈ bases, c.IsUrl base)
    (ref : String) : (c.address bases ref).1 = "" ∨ c.IsUrl (c.address bases ref).1 := by
  unfold Context.address Context.base
  dsimp only
  split
  · cases bases with
    | nil => exact .inl rfl
    | cons base bases => exact .inr (hbases base List.mem_cons_self)
  · exact .inr ⟨_, hash_not_mem_document ref, rfl⟩

/-- From `w` the watched action comes to an orderly state that has seen more, and its answers meet
`Q` there. -/
structure Comes {α : Type} (c : Context) (w : Watch) (a : Watched α) (Q : α → Watch → Prop) :
    Prop where
  orderly : (a.run w).2.Orderly c
  log : w.log <+: (a.run w).2.log
  answer : ∀ x, (a.run w).1 = .ok x → Q x (a.run w).2

section rules

variable {α β : Type} {c : Context} {w : Watch} {Q : α → Watch → Prop}

theorem comes_pure (h : w.Orderly c) {x : α} (hx : Q x w) : Comes c w (pure x) Q where
  orderly := h
  log := List.prefix_refl w.log
  answer _ hy := Except.ok.inj hy ▸ hx

theorem Comes.mono {a : Watched α} {Q' : α → Watch → Prop} (h : Comes c w a Q)
    (hQ : ∀ x w', Q x w' → Q' x w') : Comes c w a Q' :=
  ⟨h.orderly, h.log, fun x hx => hQ x _ (h.answer x hx)⟩

/-- After a step that answers, whatever was seen in it. -/
theorem Comes.bind_of_run {a : Watched β} {f : β → Watched α} {x : β} {w' : Watch}
    (h : a.run w = (.ok x, w')) (hlog : w.log <+: w'.log) (hf : Comes c w' (f x) Q) :
    Comes c w (a >>= f) Q := by
  have hrun := Watched.run_bind_ok (f := f) h
  exact ⟨hrun ▸ hf.orderly, hrun ▸ hlog.trans hf.log, hrun ▸ hf.answer⟩

/-- After a step that fails. -/
theorem Comes.of_error {a : Watched β} {f : β → Watched α} {e : Error} {w' : Watch}
    (h : a.run w = (.error e, w')) (hlog : w.log <+: w'.log) (horderly : w'.Orderly c) :
    Comes c w (a >>= f) Q := by
  have hrun := Watched.run_bind_error (f := f) h
  refine ⟨hrun ▸ horderly, hrun ▸ hlog, fun x hx => ?_⟩
  rw [hrun] at hx
  cases hx

theorem Comes.bind {R : β → Watch → Prop} {a : Watched β} {f : β → Watched α}
    (h : Comes c w a R) (hf : ∀ x w', w'.Orderly c → w.log <+: w'.log → R x w' →
      Comes c w' (f x) Q) : Comes c w (a >>= f) Q := by
  obtain ⟨horderly, hlog, hanswer⟩ := h
  rcases ha : a.run w with ⟨e | x, w'⟩ <;> rw [ha] at horderly hlog hanswer
  · exact .of_error ha hlog horderly
  · exact .bind_of_run ha hlog (hf x w' horderly hlog (hanswer x rfl))

/-- A step that gives no names away and enters no document. -/
theorem comes_step (h : w.Orderly c) {a : Action α}
    (hbases : (a.run w.state).2.bases = w.state.bases)
    (hrefs : (a.run w.state).2.refs = w.state.refs)
    (hnames : w.state.names ⊆ (a.run w.state).2.names) :
    Comes c w (.step a) fun _ _ => True where
  orderly := h.quiet (by simp [Event.Quiet]) (hbases ▸ h.bases) hrefs hnames
  log := List.prefix_append _ _
  answer _ _ := trivial

theorem comes_declare (h : w.Orderly c) {name : String} (hname : w.Awaits name)
    (description : Option String) {a : Watched TypeExpr}
    (ha : ∀ w' : Watch, w'.Orderly c → Comes c w' a fun _ _ => True) :
    Comes c w (.declare name description a) fun t _ => t = .named name := by
  have hopened := h.opening hname
  refine .bind_of_run rfl (List.prefix_append _ _) ?_
  refine (comes_step hopened rfl rfl (List.Subset.refl _)).bind fun s w₁ h₁ _ _ => ?_
  refine (comes_step h₁ rfl rfl (List.Subset.refl _)).bind fun _ w₂ h₂ _ _ => ?_
  refine (ha w₂ h₂).bind fun t w₃ h₃ _ _ => ?_
  refine (comes_step h₃ rfl rfl (List.Subset.refl _)).bind fun _ w₄ h₄ _ _ => ?_
  exact comes_pure h₄ rfl

/-- A declaration inside a document, or in the root. -/
theorem comes_within (h : w.Orderly c) {name : String} (hname : w.Awaits name) {base : String}
    (hurl : base = "" ∨ c.IsUrl base) (description : Option String) {a : Watched TypeExpr}
    (ha : ∀ w' : Watch, w'.Orderly c → Comes c w' a fun _ _ => True) :
    Comes c w (.within base (.declare name description a)) fun t _ => t = .named name := by
  unfold Watched.within
  split
  · exact comes_declare h hname description ha
  · next hbase =>
    have hbases : ∀ b ∈ base :: w.state.bases, c.IsUrl b :=
      List.forall_mem_cons.2 ⟨hurl.resolve_left hbase, h.bases⟩
    -- only the chain of documents differs inside, and it is as before when the document is left
    have hentered : Watch.Orderly c
        ⟨{ w.state with bases := base :: w.state.bases }, w.log ++ [.entered base]⟩ :=
      h.quiet (by simp [Event.Quiet]) hbases rfl (List.Subset.refl _)
    have hawaits : Watch.Awaits
        ⟨{ w.state with bases := base :: w.state.bases }, w.log ++ [.entered base]⟩ name := by
      refine ⟨hname.given, ?_, ?_⟩
      · rw [openings_append]
        exact (List.append_nil (openings w.log)).symm ▸ hname.new
      · rw [namings_append]
        exact (List.append_nil (namings w.log)).symm ▸ hname.declared
    obtain ⟨horderly, hlog, hanswer⟩ := comes_declare hentered hawaits description ha
    constructor
    · exact horderly.quiet (by simp [Event.Quiet])
        (fun b hb => horderly.bases b (List.mem_of_mem_tail hb)) rfl (List.Subset.refl _)
    · exact (List.prefix_append _ _).trans (hlog.trans (List.prefix_append _ _))
    · exact hanswer

/-- An answer to a reference is noted together with the state that it was met in. -/
theorem comes_following (h : w.Orderly c) {ref : String} (hmet : .met ref ∈ w.log)
    {a : Watched TypeExpr} (ha : Comes c w a fun t w' => ∃ n ∈ namings w'.log,
      t = .named n.name ∧ c.Meets n.address (c.address w.state.bases ref)) :
    Comes c w (.noting (.followed ref) a) fun _ _ => True := by
  rcases hrun : a.run w with ⟨result, w'⟩
  obtain ⟨horderly, hlog, hanswer⟩ := ha
  rw [hrun] at horderly hlog hanswer
  have hnoted : (Watched.noting (.followed ref) a).run w =
      (result, { w' with log := w'.log ++ [.followed ref w.state result w'.state] }) :=
    Watched.run_noting hrun
  have hbacked : (Event.followed ref w.state result w'.state).Backed c w'.log := by
    cases result with
    | error e => trivial
    | ok t => exact ⟨hlog.subset hmet, h.bases, hanswer t rfl⟩
  constructor
  · rw [hnoted]
    exact horderly.following hbacked
  · rw [hnoted]
    exact hlog.trans (List.prefix_append _ _)
  · intro _ _
    trivial

theorem comes_uniqueName (h : w.Orderly c) (hint : String) :
    Comes c w (.step (uniqueName hint)) fun name w' =>
      w'.Fresh name ∧ w'.state.refs = w.state.refs where
  orderly := h.quiet (by simp [Event.Quiet]) h.bases rfl (List.subset_cons_self _ _)
  log := List.prefix_append _ _
  answer name hname := by
    obtain rfl : freshName w.state.names (safeName hint) = name := Except.ok.inj hname
    have hfresh := freshName_not_mem w.state.names (safeName hint)
    exact ⟨h.fresh hfresh (by simp [Event.Quiet]) List.mem_cons_self, rfl⟩

theorem comes_target (h : w.Orderly c) (ref base pointer : String) :
    Comes c w (.noting (fun _ found _ => .lookedUp ref found) (.step (target c base pointer)))
      fun _ w' => w'.state.refs = w.state.refs := by
  obtain ⟨found, documents, hrun⟩ := exists_run_target c base pointer w.state
  have hnoted : (Watched.noting (fun _ found _ => .lookedUp ref found)
      (.step (target c base pointer))).run w = (found, ⟨{ w.state with documents },
        w.log ++ [.moment w.state, .moment { w.state with documents }] ++ [.lookedUp ref found]⟩) :=
    Watched.run_noting (Watched.run_step hrun)
  constructor
  · rw [hnoted, List.append_assoc]
    exact h.quiet (by simp [Event.Quiet]) h.bases rfl (List.Subset.refl _)
  · rw [hnoted, List.append_assoc]
    exact List.prefix_append _ _
  · intro _ _
    rw [hnoted]

end rules

def orderly (c : Context) : Simulation Watched Watched where
  Rel a _ := ∀ w : Watch, w.Orderly c → Comes c w a fun _ _ => True
  rel_pure _ _ h := comes_pure h trivial
  rel_bind ha hf w h := (ha w h).bind fun x w' h' _ _ => (hf x w' h').mono fun _ _ _ => trivial

section layers

variable {c : Context} {inner : Json → Watched TypeExpr} {w : Watch}
variable (hinner : ∀ schema, ∀ w : Watch, w.Orderly c → Comes c w (inner schema) fun _ _ => True)

include hinner

theorem comes_titled (h : w.Orderly c) (title : String) (schema : Json) :
    Comes c w ((Walk.watched c inner).titled title schema) fun _ _ => True := by
  refine (comes_uniqueName h title).bind fun name w' h' _ hname => ?_
  exact (comes_declare h' hname.1.awaits _ (hinner schema)).mono fun _ _ _ => trivial

/-- The target of a name is declared, unless it stands in another document and is not to be. -/
theorem comes_given (h : w.Orderly c) {n : Naming} (hn : n ∈ namings w.log)
    (hurl : n.address.1 = "" ∨ c.IsUrl n.address.1) (hname : n.declared = true → w.Awaits n.name)
    (description : Option String) (schema : Json) :
    Comes c w (if n.declared then
        .within n.address.1 (.declare n.name description (inner schema))
      else return .named n.name)
      fun t w' => ∃ n' ∈ namings w'.log, t = .named n'.name ∧ c.Meets n'.address n.address := by
  have hself : c.Meets n.address n.address := ⟨_, .inl rfl, .inl rfl⟩
  split
  · next hdeclared =>
    obtain ⟨horderly, hlog, hanswer⟩ :=
      comes_within h (hname hdeclared) hurl description (hinner schema)
    refine ⟨horderly, hlog, fun t ht => ⟨n, ?_, hanswer t ht, hself⟩⟩
    exact mem_namings.2 (hlog.subset (mem_namings.1 hn))
  · exact comes_pure h ⟨n, hn, rfl, hself⟩

/-- A target that was not met before is given a name, under which it is known from then on. -/
theorem comes_watchedTarget (h : w.Orderly c) {ref base pointer : String}
    (hmet : .met ref ∈ w.log) (hpointer : pointer = (splitReference ref).2)
    (hurl : base = "" ∨ c.IsUrl base) (hknown : w.state.known? c base pointer = none) :
    Comes c w (watchedTarget c inner ref base pointer) fun t w' =>
      ∃ n ∈ namings w'.log, t = .named n.name ∧ c.Meets n.address (base, pointer) := by
  refine (comes_target h ref base pointer).bind fun schema w₁ h₁ hlog₁ hrefs₁ => ?_
  refine (comes_uniqueName h₁ _).bind fun name w₂ h₂ hlog₂ hname => ?_
  obtain ⟨hfresh, hrefs₂⟩ := hname
  -- looking the target up and choosing a name refer to nothing
  have hunknown : w₂.state.known? c base pointer = none := by
    unfold State.known?
    rw [hrefs₂, hrefs₁]
    exact hknown
  have hbacked : (Event.named base pointer name (base == "" || c.options.declaresExternal)).Backed c
      w₂.log :=
    ⟨rfl, hurl, .inr ⟨ref, hlog₂.subset (hlog₁.subset hmet), hpointer⟩⟩
  refine .bind_of_run rfl (List.prefix_append _ _) ?_
  refine .bind_of_run rfl (List.prefix_append _ _) ?_
  have hquiet : ∀ s : State, ∀ e ∈ [Event.moment w₂.state, .moment s], e.Quiet := by
    simp [Event.Quiet]
  let n : Naming := ⟨(base, pointer), name, base == "" || c.options.declaresExternal⟩
  have hlast : ∀ seen : List Event,
      n ∈ namings (w₂.log ++ [.named base pointer name n.declared] ++ seen) :=
    fun seen => mem_namings.2 (by simp [n])
  refine comes_given (n := n) hinner ?_ (hlast _) hurl (fun hdeclared => ?_) _ _
  · exact h₂.naming (hquiet _) (List.append_assoc _ _ _) hbacked hunknown hfresh rfl rfl rfl
  · exact Watch.Orderly.awaits_naming (hquiet _) (List.append_assoc _ _ _) hfresh rfl hdeclared

/-- A reference answers with the name of its target. -/
theorem comes_watchedReference (h : w.Orderly c) (ref : String) :
    Comes c w (watchedReference c inner ref) fun _ _ => True := by
  have hmet : Watch.Orderly c { w with log := w.log ++ [.met ref] } :=
    h.quiet (by simp [Event.Quiet]) h.bases rfl (List.Subset.refl _)
  refine .bind_of_run rfl (List.prefix_append _ _) ?_
  refine comes_following hmet (by simp) ?_
  refine .bind_of_run (Watched.run_step rfl) (List.prefix_append _ _) ?_
  have hget : Watch.Orderly c
      ⟨w.state, w.log ++ [.met ref] ++ [.moment w.state, .moment w.state]⟩ :=
    hmet.quiet (by simp [Event.Quiet]) h.bases rfl (List.Subset.refl _)
  have hbase := base_address h.bases ref
  have hpointer : (c.address w.state.bases ref).2 = (splitReference ref).2 := rfl
  dsimp only
  generalize c.address w.state.bases ref = address at hbase hpointer ⊢
  obtain ⟨base, pointer⟩ := address
  dsimp only at hbase hpointer ⊢
  -- a known name is that of a target met before; otherwise this is the first meeting
  cases hknown : w.state.known? c base pointer with
  | some name =>
    obtain ⟨n, hn, rfl, hmeets⟩ := hget.name_of_known hknown
    exact comes_pure hget ⟨n, hn, rfl, hmeets⟩
  | none => exact comes_watchedTarget hinner hget (by simp) hpointer hbase hknown

theorem simulates_orderly :
    Simulates (orderly c) (fun _ => True) (.watched c inner) (.watched c inner) where
  inherited _ _ _ _ := trivial
  reference _ ref _ _ _ h := comes_watchedReference hinner h ref
  titled title schema _ _ h := comes_titled hinner h title schema
  inner schema _ := hinner schema

end layers

theorem comes_watchedType (c : Context) (bound : Nat) (schema : Json) (w : Watch)
    (h : w.Orderly c) : Comes c w (watchedType c bound schema) fun _ _ => True := by
  -- on the bound, because what a schema leads to is compiled with one less
  induction bound generalizing schema w with
  | zero => exact ⟨h, List.prefix_refl _, fun _ hx => by cases hx⟩
  | succ bound ih =>
    have hvisited : Watch.Orderly c { w with log := w.log ++ [.visited schema] } :=
      h.quiet (by simp [Event.Quiet]) h.bases rfl (List.Subset.refl _)
    refine .bind_of_run rfl (List.prefix_append _ _) ?_
    exact (simulates_orderly ih).schemaType trivial _ hvisited

section program

variable (c : Context)

theorem aliasKey?_whole : c.aliasKey? "" "" = none := by
  unfold Context.aliasKey? Context.definitionId?
  rw [if_pos rfl]
  cases c.definitions? with
  | none => rfl
  | some ds => rfl

theorem comes_watchedRoot (name : String) :
    Comes c ⟨.empty, []⟩ (watchedRoot c name) fun _ _ => True := by
  refine (comes_uniqueName (.empty c) name).bind fun name w h _ hname => ?_
  obtain ⟨hfresh, hrefs⟩ := hname
  have hunknown : w.state.known? c "" "" = none := by
    unfold State.known?
    rw [hrefs, aliasKey?_whole]
    rfl
  have hbacked : (Event.named "" "" name true).Backed c w.log := ⟨rfl, .inl rfl, .inl rfl⟩
  refine .bind_of_run rfl (List.prefix_append _ _) ?_
  refine .bind_of_run rfl (List.prefix_append _ _) ?_
  have hquiet : ∀ s : State, ∀ e ∈ [Event.moment w.state, .moment s], e.Quiet := by
    simp [Event.Quiet]
  have hinner := comes_watchedType c c.bound c.root
  refine (comes_declare ?_ ?_ _ hinner).mono fun _ _ _ => trivial
  · refine h.naming (hquiet _) (List.append_assoc _ _ _) hbacked hunknown hfresh rfl ?_ rfl
    rw [aliasKey?_whole]
    rfl
  · exact Watch.Orderly.awaits_naming (hquiet _) (List.append_assoc _ _ _) hfresh rfl rfl

theorem comes_watchedDefinitions {w : Watch} (h : w.Orderly c) :
    Comes c w (watchedDefinitions c) fun _ _ => True := by
  have hdefinitions : (orderly c).Rel (watchedDefinitions c) (watchedDefinitions c) := by
    refine (orderly c).rel_forM fun id _ w' h' => ?_
    have hinner := comes_watchedType c c.bound
    refine (comes_watchedReference hinner h' _).bind fun _ w'' h'' _ _ => ?_
    exact comes_pure h'' trivial
  exact hdefinitions w h

theorem comes_watchedProgram (name : String) :
    Comes c ⟨.empty, []⟩ (watchedProgram c name) fun _ _ => True := by
  unfold watchedProgram
  refine (comes_watchedRoot c name).bind fun _ w h _ _ => ?_
  split
  · exact comes_watchedDefinitions c h
  · exact comes_pure h trivial

/-- All that is seen of a compilation is in order. -/
theorem orderly_watch (name : String) : (c.watch name).2.Orderly c :=
  (comes_watchedProgram c name).orderly

end program

end ApiTypes.Compile
