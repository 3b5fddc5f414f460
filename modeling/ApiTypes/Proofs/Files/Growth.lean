import ApiTypes.Files.Disk
import Mathlib.Data.List.Infix

namespace ApiTypes.Files.Disk

section put

variable {place q : List String} {e : Entry}

theorem lookup_replaced_of_ne (l : List (List String × Entry)) (hq : q ≠ place) :
    (l.map fun (p, old) => (p, if p == place then e else old)).lookup q = l.lookup q := by
  induction l with
  | nil => rfl
  | cons entry l ih =>
    obtain ⟨p, old⟩ := entry
    rw [List.map_cons, List.lookup_cons, List.lookup_cons, ih]
    by_cases hp : q = p
    · subst hp
      rw [if_neg (mt beq_iff_eq.1 hq)]
    · rw [beq_eq_false_iff_ne.2 hp]

theorem lookup_replaced_self (l : List (List String × Entry)) (h : l.any (·.1 == place)) :
    (l.map fun (p, old) => (p, if p == place then e else old)).lookup place = some e := by
  induction l with
  | nil => cases h
  | cons entry l ih =>
    obtain ⟨p, old⟩ := entry
    rw [List.map_cons, List.lookup_cons]
    by_cases hp : p = place
    · subst hp
      rw [beq_self_eq_true, if_pos rfl]
    · have hrest : l.any (·.1 == place) := by
        simpa [hp] using h
      rw [beq_eq_false_iff_ne.2 (Ne.symm hp)]
      exact ih hrest

theorem get?_nil (d : Disk) : d.get? [] = some .directory := rfl

theorem get?_of_ne_nil (d : Disk) (hq : q ≠ []) : d.get? q = d.entries.lookup q := by
  unfold get?
  rw [if_neg (by simpa using hq)]

theorem get?_put (d : Disk) (hplace : place ≠ []) (q : List String) :
    (d.put place e).get? q = if q = place then some e else d.get? q := by
  by_cases hq : q = []
  · subst hq
    rw [if_neg (Ne.symm hplace), get?_nil, get?_nil]
  rw [get?_of_ne_nil _ hq, get?_of_ne_nil _ hq]
  unfold put
  -- an entry that is there is replaced in its position, and a new one comes behind all others
  by_cases hany : d.entries.any (·.1 == place) = true
  · rw [if_pos hany]
    by_cases hself : q = place
    · subst hself
      rw [if_pos rfl]
      exact lookup_replaced_self d.entries hany
    · rw [if_neg hself]
      exact lookup_replaced_of_ne d.entries hself
  · rw [if_neg hany]
    have hnone : d.entries.lookup place = none := by
      rw [List.lookup_eq_none_iff]
      intro p hp
      have hne : p.1 ≠ place := by
        intro he
        exact hany (List.any_eq_true.2 ⟨p, hp, beq_iff_eq.2 he⟩)
      simpa using Ne.symm hne
    show (d.entries ++ [(place, e)]).lookup q = _
    rw [List.lookup_append]
    by_cases hself : q = place
    · subst hself
      rw [if_pos rfl, hnone]
      simp
    · rw [if_neg hself]
      simp [List.lookup_cons, beq_eq_false_iff_ne.2 hself]

end put

/-- From `d` to `d'` directories were made, and files were written at the places `written`. -/
structure Grows (written : List (List String)) (d d' : Disk) : Prop where
  workDir : d'.workDir = d.workDir
  directory : ∀ {q}, d.get? q = some .directory → d'.get? q = some .directory
  file : ∀ {q text}, q ∉ written → (d.get? q = some (.file text) ↔ d'.get? q = some (.file text))

section grows

variable {d d' d'' : Disk} {written written' : List (List String)}

theorem Grows.refl (written : List (List String)) (d : Disk) : Grows written d d :=
  ⟨rfl, id, fun _ => Iff.rfl⟩

theorem Grows.trans (h : Grows written d d') (h' : Grows written d' d'') : Grows written d d'' where
  workDir := h'.workDir.trans h.workDir
  directory hq := h'.directory (h.directory hq)
  file hq := (h.file hq).trans (h'.file hq)

theorem Grows.mono (h : Grows written d d') (hsub : written ⊆ written') : Grows written' d d' where
  workDir := h.workDir
  directory := h.directory
  file hq := h.file fun hmem => hq (hsub hmem)

theorem grows_put_directory {p : List String} (hp : d.get? p = none) :
    Grows [] d (d.put p .directory) := by
  have hne : p ≠ [] := by
    rintro rfl
    cases hp
  constructor
  · unfold put
    split <;> rfl
  · intro q hq
    rw [get?_put d hne]
    split
    · rfl
    · exact hq
  · intro q text _
    rw [get?_put d hne]
    -- there was no file at this place
    by_cases hself : q = p
    · subst hself
      rw [if_pos rfl, hp]
      simp
    · rw [if_neg hself]

theorem grows_put_file {p : List String} (hp : d.get? p ≠ some .directory) (text : String) :
    Grows [p] d (d.put p (.file text)) := by
  have hne : p ≠ [] := by
    rintro rfl
    exact hp rfl
  constructor
  · unfold put
    split <;> rfl
  · intro q hq
    rw [get?_put d hne]
    -- a directory stays, because the file does not take its place
    have hself : q ≠ p := by
      rintro rfl
      exact hp hq
    rw [if_neg hself]
    exact hq
  · intro q old hq
    rw [get?_put d hne, if_neg (by simpa using hq)]

theorem grows_of_makeOne {path : String} (h : d.makeOne path = .ok d') : Grows [] d d' := by
  unfold makeOne at h
  cases hplace : d.place path with
  | error e =>
    rw [hplace] at h
    cases h
  | ok p =>
    rw [hplace] at h
    change (if (d.get? p).isSome then _ else _) = _ at h
    by_cases hp : (d.get? p).isSome
    · rw [if_pos hp] at h
      cases h
    · rw [if_neg hp] at h
      obtain rfl := Except.ok.inj h
      exact grows_put_directory (Option.not_isSome_iff_eq_none.1 hp)

/-- Whatever could be made of a directory and those above it, files stay as they are. -/
theorem grows_makeFrom (d : Disk) (paths : List String) : Grows [] d (d.makeFrom paths).2 := by
  -- the paths go upwards: a directory that cannot be made is tried again once those above it are
  -- there
  induction paths generalizing d with
  | nil => exact .refl [] d
  | cons path above ih =>
    unfold makeFrom
    split
    · next d₁ hmade => exact grows_of_makeOne hmade
    · have habove := ih d
      split
      · next d₁ hfailed =>
        rw [hfailed] at habove
        exact habove
      · next d₁ hmade =>
        rw [hmade] at habove
        split
        · next d₂ hagain => exact habove.trans (grows_of_makeOne hagain)
        · exact habove
    · exact .refl [] d

theorem exists_place_of_write {path text : String} (h : d.write path text = .ok d') :
    ∃ p, d.place path = .ok p ∧ namesDirectory path = false ∧ d.get? p ≠ some .directory ∧
      d' = d.put p (.file text) := by
  unfold write at h
  cases hplace : d.place path with
  | error e =>
    rw [hplace] at h
    cases h
  | ok p =>
    rw [hplace] at h
    change (if namesDirectory path ∨ d.get? p = some .directory then _ else _) = _ at h
    by_cases hp : namesDirectory path = true ∨ d.get? p = some .directory
    · rw [if_pos hp] at h
      cases h
    · rw [if_neg hp] at h
      obtain ⟨hname, hdirectory⟩ := not_or.1 hp
      exact ⟨p, rfl, by simpa using hname, hdirectory, (Except.ok.inj h).symm⟩

end grows

section walk

variable {d d' : Disk} {written : List (List String)}

/-- Where a name leads that is looked up in a directory, whatever stands on the disk. -/
def enter (place : List String) (name : String) : Except Fault (List String) :=
  if name = "." then .ok place
  else if name = ".." then .ok place.dropLast
  else if name.utf8ByteSize > 255 then .error .nameTooLong
  else .ok (place ++ [name])

theorem walk_cons {place : List String} (hplace : d.get? place = some .directory) (name : String)
    (names : List String) :
    d.walk place (name :: names) = (enter place name).bind fun next => d.walk next names := by
  rw [walk, hplace]
  unfold enter
  by_cases hdot : name = "."
  · rw [if_pos hdot, if_pos hdot]
    rfl
  · rw [if_neg hdot, if_neg hdot]
    by_cases hup : name = ".."
    · rw [if_pos hup, if_pos hup]
      rfl
    · rw [if_neg hup, if_neg hup]
      by_cases hlong : name.utf8ByteSize > 255
      · rw [if_pos hlong, if_pos hlong]
        rfl
      · rw [if_neg hlong, if_neg hlong]
        rfl

theorem walk_cons_eq_ok_iff {place q : List String} {name : String} {names : List String} :
    d.walk place (name :: names) = .ok q ↔
      d.get? place = some .directory ∧
        ∃ next, enter place name = .ok next ∧ d.walk next names = .ok q := by
  cases hplace : d.get? place with
  | none => simp [walk, hplace]
  | some e =>
    cases e with
    | file text => simp [walk, hplace]
    | directory =>
      rw [walk_cons hplace]
      cases enter place name <;> simp [Except.bind]

theorem prefix_of_enter {place next : List String} {name : String} (hname : name ≠ "..")
    (h : enter place name = .ok next) : place <+: next := by
  unfold enter at h
  rw [if_neg hname] at h
  split at h
  · obtain rfl := Except.ok.inj h
    exact List.prefix_rfl
  · split at h
    · cases h
    · obtain rfl := Except.ok.inj h
      exact List.prefix_append place [name]

/-- Names that lead somewhere still do when there is more on the disk. -/
theorem walk_of_grows (hg : Grows written d d') {place q : List String} {names : List String}
    (h : d.walk place names = .ok q) : d'.walk place names = .ok q := by
  induction names generalizing place with
  | nil => exact h
  | cons name names ih =>
    obtain ⟨hplace, next, hnext, hrest⟩ := walk_cons_eq_ok_iff.1 h
    exact walk_cons_eq_ok_iff.2 ⟨hg.directory hplace, next, hnext, ih hrest⟩

/-- Names that never lead up stay below the place they start from. -/
theorem prefix_of_walk {place q : List String} {names : List String} (hup : ".." ∉ names)
    (h : d.walk place names = .ok q) : place <+: q := by
  induction names generalizing place with
  | nil =>
    obtain rfl := Except.ok.inj h
    exact List.prefix_rfl
  | cons name names ih =>
    obtain ⟨hname, hnames⟩ := not_or.1 (mt List.mem_cons.2 hup)
    obtain ⟨-, next, hnext, hrest⟩ := walk_cons_eq_ok_iff.1 h
    exact (prefix_of_enter (Ne.symm hname) hnext).trans (ih hnames hrest)

/-- On every way to an entry there are only directories. -/
def WellFormed (d : Disk) : Prop :=
  ∀ p q e, d.get? q = some e → p <+: q → p ≠ q → d.get? p = some .directory

theorem wellFormed_of_entries
    (h : ∀ entry ∈ d.entries, ∀ p ∈ entry.1.inits, p ≠ entry.1 → d.get? p = some .directory) :
    d.WellFormed := by
  intro p q e hq hprefix hne
  have hnil : q ≠ [] := by
    rintro rfl
    exact hne (List.prefix_nil.1 hprefix)
  rw [get?_of_ne_nil d hnil] at hq
  obtain ⟨l₁, l₂, hentries, -⟩ := List.lookup_eq_some_iff.1 hq
  have hmem : (q, e) ∈ d.entries := by simp [hentries]
  exact h (q, e) hmem p ((List.mem_inits p q).2 hprefix) hne

/-- A file that was there is found by the same names as before. -/
theorem walk_back (hd : d.WellFormed) {place q : List String} {names : List String} {text : String}
    (hup : ".." ∉ names) (h : d'.walk place names = .ok q)
    (hq : d.get? q = some (.file text)) (hq' : d'.get? q = some (.file text)) :
    d.walk place names = .ok q := by
  induction names generalizing place with
  | nil => exact h
  | cons name names ih =>
    obtain ⟨hplace, next, hnext, hrest⟩ := walk_cons_eq_ok_iff.1 h
    have hne : place ≠ q := by
      rintro rfl
      cases hplace.symm.trans hq'
    -- the way to the file was there, so each place on it was a directory already
    have hdirectory := hd place q _ hq (prefix_of_walk hup h) hne
    have hnames : ".." ∉ names := fun hmem => hup (List.mem_cons_of_mem name hmem)
    exact walk_cons_eq_ok_iff.2 ⟨hdirectory, next, hnext, ih hnames hrest⟩

end walk

/-- Whether a path can lead anywhere, whatever is on the disk. -/
def fault? (path : String) : Option Fault :=
  if path.toList.contains '\x00' then some .nulByte
  else if path = "" then some .notFound
  else if path.utf8ByteSize ≥ 4096 then some .nameTooLong
  else none

theorem place_eq (d : Disk) (path : String) :
    d.place path = match fault? path with
      | some e => .error e
      | none => d.walk (if Path.isAbsolute path then [] else d.workDir)
          ((Path.segments path).filter (· ≠ "")) := by
  unfold place fault?
  split
  · rfl
  · split
    · rfl
    · split <;> rfl

section paths

variable {d d' : Disk} {written : List (List String)} {path : String}

theorem place_of_grows (hg : Grows written d d') {q : List String} (h : d.place path = .ok q) :
    d'.place path = .ok q := by
  rw [place_eq] at h ⊢
  rw [hg.workDir]
  cases hf : fault? path with
  | some e =>
    rw [hf] at h
    cases h
  | none =>
    rw [hf] at h
    exact walk_of_grows hg h

theorem read_eq_ok_iff {text : String} :
    d.read path = .ok text ↔
      ∃ q, d.place path = .ok q ∧ d.get? q = some (.file text) ∧ namesDirectory path = false := by
  unfold read
  cases hplace : d.place path with
  | error e => simp [bind, Except.bind]
  | ok q =>
    simp only [bind, Except.bind]
    cases hq : d.get? q with
    | none => simp [hq]
    | some e =>
      cases e with
      | directory => simp [hq]
      | file old =>
        cases hname : namesDirectory path with
        | true => simp
        | false => simp [hq]

def Same (d : Disk) (path other : String) : Prop :=
  ∃ q, d.place path = .ok q ∧ d.place other = .ok q

instance (d : Disk) (path other : String) : Decidable (d.Same path other) :=
  match hpath : d.place path, hother : d.place other with
  | .ok q, .ok r =>
    decidable_of_iff (q = r)
      ⟨fun h => ⟨q, hpath, h ▸ hother⟩, fun ⟨_, hp, hp'⟩ =>
        (Except.ok.inj (hpath.symm.trans hp)).trans (Except.ok.inj (hother.symm.trans hp')).symm⟩
  | .error _, _ => .isFalse fun ⟨_, hp, _⟩ => nomatch hpath.symm.trans hp
  | .ok _, .error _ => .isFalse fun ⟨_, _, hp'⟩ => nomatch hother.symm.trans hp'

theorem Same.symm {other : String} (h : d.Same path other) : d.Same other path := by
  obtain ⟨q, hpath, hother⟩ := h
  exact ⟨q, hother, hpath⟩

theorem same_of_grows {other : String} (hg : Grows written d d') (h : d.Same path other) :
    d'.Same path other := by
  obtain ⟨q, hpath, hother⟩ := h
  exact ⟨q, place_of_grows hg hpath, place_of_grows hg hother⟩

/-- A path that leads somewhere already, or never back up: no directory that is made can change
where it leads. -/
def Settled (d : Disk) (path : String) : Prop :=
  (∃ q, d.place path = .ok q) ∨ ".." ∉ Path.segments path

instance (d : Disk) (path : String) : Decidable (∃ q, d.place path = .ok q) :=
  match d.place path with
  | .ok q => .isTrue ⟨q, rfl⟩
  | .error _ => .isFalse fun ⟨_, hq⟩ => nomatch hq

instance (d : Disk) (path : String) : Decidable (d.Settled path) :=
  inferInstanceAs (Decidable (_ ∨ _))

theorem read_ok_of_grows (hg : Grows written d d') {text : String} (h : d.read path = .ok text)
    (hout : ∀ q, d'.place path = .ok q → q ∉ written) : d'.read path = .ok text := by
  obtain ⟨q, hplace, hq, hname⟩ := read_eq_ok_iff.1 h
  have hplace' := place_of_grows hg hplace
  exact read_eq_ok_iff.2 ⟨q, hplace', (hg.file (hout q hplace')).1 hq, hname⟩

theorem read_ok_back (hd : d.WellFormed) (hg : Grows written d d') (hs : d.Settled path)
    {text : String} (h : d'.read path = .ok text)
    (hout : ∀ q, d'.place path = .ok q → q ∉ written) : d.read path = .ok text := by
  obtain ⟨q, hplace', hq', hname⟩ := read_eq_ok_iff.1 h
  have hq := (hg.file (hout q hplace')).2 hq'
  have hplace : d.place path = .ok q := by
    -- either the path led somewhere before, or it can be followed back
    rcases hs with ⟨p, hp⟩ | hup
    · have hsame := (place_of_grows hg hp).symm.trans hplace'
      rw [hp, hsame]
    · rw [place_eq] at hplace' ⊢
      rw [hg.workDir] at hplace'
      cases hf : fault? path with
      | some e =>
        rw [hf] at hplace'
        cases hplace'
      | none =>
        rw [hf] at hplace'
        have hnames : ".." ∉ (Path.segments path).filter (· ≠ "") :=
          fun hmem => hup (List.mem_of_mem_filter hmem)
        exact walk_back hd hnames hplace' hq hq'
  exact read_eq_ok_iff.2 ⟨q, hplace, hq, hname⟩

/-- Reading a settled path tells the same unless it leads to a file that was written. -/
theorem read_eq_of_grows (hd : d.WellFormed) (hg : Grows written d d') (hs : d.Settled path)
    (hout : ∀ q, d'.place path = .ok q → q ∉ written) :
    (d'.read path).toOption = (d.read path).toOption := by
  cases h : d.read path with
  | ok text => rw [read_ok_of_grows hg h hout]
  | error e =>
    cases h' : d'.read path with
    | error e' => rfl
    | ok text =>
      have hback := read_ok_back hd hg hs h' hout
      cases h.symm.trans hback

theorem read_of_write {text : String} (h : d.write path text = .ok d') :
    d'.read path = .ok text ∧ ∃ q, d'.place path = .ok q ∧ Grows [q] d d' := by
  obtain ⟨q, hplace, hname, hq, rfl⟩ := exists_place_of_write h
  have hg := grows_put_file hq text
  have hplace' := place_of_grows hg hplace
  have hne : q ≠ [] := by
    rintro rfl
    exact hq rfl
  have hfile : (d.put q (.file text)).get? q = some (.file text) := by
    rw [get?_put d hne, if_pos rfl]
  exact ⟨read_eq_ok_iff.2 ⟨q, hplace', hfile, hname⟩, q, hplace', hg⟩

end paths

end ApiTypes.Files.Disk
