import ApiTypes.Proofs.Files.Growth
import ApiTypes.Proofs.Text.NonEmptyLines

namespace ApiTypes

namespace Path

def parts (path : String) : List String :=
  (segments path).filter (· ≠ "")

theorem isAbsolute_iff {path : String} : isAbsolute path = true ↔ path.toList.head? = some '/' := by
  unfold isAbsolute Text.startsWith
  cases path.toList with
  | nil => simp [Text.after?]
  | cons c s =>
    rw [List.head?_cons, Option.some_inj, eq_comm (a := c)]
    simp [Text.after?]

theorem isAbsolute_eq_false {path : String} (h : '/' ∉ path.toList) : isAbsolute path = false := by
  rw [Bool.eq_false_iff]
  intro habs
  exact h (List.mem_of_head? (isAbsolute_iff.1 habs))

/-- The parts of a text, as `parts` finds them. -/
theorem parts_of_toList_append {path dir rest : String} (h : path.toList = dir.toList ++ '/' ::
    rest.toList) : parts path = parts dir ++ parts rest := by
  unfold parts segments
  rw [h, List.splitOn_append_cons_self, List.map_append, List.filter_append]

theorem parts_join {dir rest : String} (h : isAbsolute rest = false) :
    parts (join dir rest) = parts dir ++ parts rest := by
  unfold join
  rw [if_neg (by simp [h])]
  by_cases hdir : dir = ""
  · rw [if_pos (.inl hdir), hdir, String.empty_append]
    rfl
  -- whether there is a slash already or one is put in, it parts the two
  by_cases hslash : dir.toList.getLast? = some '/'
  · obtain ⟨u, hu⟩ := List.getLast?_eq_some_iff.1 hslash
    have hchars : dir.toList = (String.ofList u).toList ++ '/' :: "".toList := by
      simp [hu]
    have hfirst : parts dir = parts (String.ofList u) := by
      rw [parts_of_toList_append hchars]
      exact List.append_nil _
    rw [if_pos (.inr hslash), hfirst]
    exact parts_of_toList_append (by simp [hu])
  · rw [if_neg (by simp [hdir, hslash])]
    exact parts_of_toList_append (by simp)

theorem isAbsolute_join {dir rest : String} (h : isAbsolute rest = false) :
    isAbsolute (join dir rest) = isAbsolute dir := by
  unfold join
  rw [if_neg (by simp [h])]
  by_cases hdir : dir = ""
  · rw [if_pos (.inl hdir), hdir, String.empty_append, h]
    rfl
  have happend : ∀ s : String, isAbsolute (dir ++ s) = isAbsolute dir := by
    intro s
    have hne : dir.toList ≠ [] := fun hnil => hdir (String.toList_eq_nil_iff.1 hnil)
    rw [Bool.eq_iff_iff, isAbsolute_iff, isAbsolute_iff, String.toList_append,
      List.head?_append_of_ne_nil _ hne]
  split
  · exact happend rest
  · rw [String.append_assoc]
    exact happend _

structure IsName (name : String) : Prop where
  ne_empty : name ≠ ""
  slash : '/' ∉ name.toList

theorem IsName.parts {name : String} (h : IsName name) : parts name = [name] := by
  unfold Path.parts segments
  rw [List.splitOn_eq_singleton h.slash]
  simp [h.ne_empty]

theorem slash_not_mem_of_mem_splitOn {s l : List Char} (h : l ∈ s.splitOn '/') : '/' ∉ l := by
  induction s using Text.separator_induction '/' with
  | last s hs =>
    rw [List.splitOn_eq_singleton hs] at h
    rwa [List.mem_singleton.1 h]
  | part u w hu ih =>
    rw [List.splitOn_append_cons_self, List.splitOn_eq_singleton hu] at h
    rcases List.mem_append.1 h with h | h
    · rwa [List.mem_singleton.1 h]
    · exact ih h

/-- The last part between slashes is empty only behind a slash. -/
theorem getLast?_splitOn {s : List Char} (hs : s ≠ []) (hlast : s.getLast? ≠ some '/') :
    (s.splitOn '/').getLast? ≠ some [] := by
  induction s using Text.separator_induction '/' with
  | last s hslash =>
    rw [List.splitOn_eq_singleton hslash]
    simpa using hs
  | part u w _ ih =>
    have hw : w ≠ [] := by
      rintro rfl
      simp at hlast
    have hlast' : w.getLast? ≠ some '/' := by
      intro h
      apply hlast
      rw [List.getLast?_append, List.getLast?_cons, h]
      rfl
    rw [List.splitOn_append_cons_self,
      List.getLast?_append_of_ne_nil _ (List.splitOn_ne_nil '/' w)]
    exact ih hw hlast'

theorem isName_of_mem_parts {path name : String} (h : name ∈ parts path) : IsName name := by
  obtain ⟨hmem, hne⟩ := List.mem_filter.1 h
  obtain ⟨l, hl, rfl⟩ := List.mem_map.1 hmem
  exact ⟨by simpa using hne, by simpa using slash_not_mem_of_mem_splitOn hl⟩

theorem names_eq (path : String) : names path = (parts path).filter (· ≠ ".") := by
  unfold names parts
  rw [List.filter_filter]
  congr 1
  funext s
  unfold Component.ofSegment?
  by_cases hempty : s = ""
  · simp [hempty]
  · by_cases hdot : s = "."
    · simp [hdot]
    · rw [if_neg (by simp [hempty, hdot])]
      split <;> simp [hempty, hdot]

theorem isName_of_mem_names {path name : String} (h : name ∈ names path) : IsName name := by
  rw [names_eq] at h
  exact isName_of_mem_parts (List.mem_of_mem_filter h)

/-- Names put below a path. -/
theorem foldl_join {ns : List String} (h : ∀ n ∈ ns, IsName n) (base : String) :
    parts (ns.foldl join base) = parts base ++ ns ∧
      isAbsolute (ns.foldl join base) = isAbsolute base := by
  induction ns generalizing base with
  | nil => exact ⟨(List.append_nil _).symm, rfl⟩
  | cons n ns ih =>
    have hn := h n List.mem_cons_self
    have habs := isAbsolute_eq_false hn.slash
    obtain ⟨hparts, hbase⟩ := ih (fun m hm => h m (List.mem_cons_of_mem n hm)) (join base n)
    refine ⟨?_, hbase.trans (isAbsolute_join habs)⟩
    rw [List.foldl_cons, hparts, parts_join habs, hn.parts, List.append_assoc]
    rfl

theorem foldl_join_names (path base : String) :
    parts ((names path).foldl join base) = parts base ++ names path ∧
      isAbsolute ((names path).foldl join base) = isAbsolute base :=
  foldl_join (fun _ hn => isName_of_mem_names hn) base

/-- The last character of a path below another one is that of its last name. -/
theorem getLast?_join {dir rest : String} (h : IsName rest) :
    (join dir rest).toList.getLast? = rest.toList.getLast? := by
  have hne : rest.toList ≠ [] := fun hnil => h.ne_empty (String.toList_eq_nil_iff.1 hnil)
  unfold join
  rw [if_neg (by simp [isAbsolute_eq_false h.slash])]
  split
  · rw [String.toList_append, List.getLast?_append_of_ne_nil _ hne]
  · rw [String.toList_append, List.getLast?_append_of_ne_nil _ hne]

/-- An absolute form: the names of a path below the working directory or the root. -/
theorem exists_base_of_absolute? {workDir path a : String} (h : absolute? workDir path = some a) :
    ∃ base, path ≠ "" ∧
      (isAbsolute path = false ∧ base = workDir ∨
        isAbsolute path = true ∧ isAbsolute base = true ∧ parts base = []) ∧
      a = if path.toList.getLast? = some '/' then join ((names path).foldl join base) ""
        else (names path).foldl join base := by
  unfold absolute? at h
  dsimp only at h
  split at h
  · cases h
  · next hne =>
    refine ⟨_, fun hempty => hne (by simp [hempty]), ?_, (Option.some.inj h).symm⟩
    -- the root of an absolute path is written with one slash or with two, and has no parts
    by_cases habs : isAbsolute path = true
    · rw [if_neg (not_not_intro habs)]
      refine .inr ⟨habs, ?_⟩
      split
      · exact ⟨by decide, by decide⟩
      · exact ⟨by decide, by decide⟩
    · rw [if_pos habs]
      exact .inl ⟨by simpa using habs, rfl⟩

theorem filterMap_ofSegment? (path : String) :
    (names path).filterMap Component.ofSegment? = (parts path).filterMap Component.ofSegment? := by
  rw [names_eq, List.filterMap_filter]
  congr 1
  funext s
  by_cases hdot : s = "."
  · simp [hdot, Component.ofSegment?]
  · simp [hdot]

theorem components_of_isAbsolute {path : String} (h : isAbsolute path = true) :
    components path = .root :: (parts path).filterMap Component.ofSegment? := by
  unfold components parts
  dsimp only
  rw [if_pos h, List.filterMap_filter]
  congr 2
  funext s
  by_cases hempty : s = ""
  · simp [hempty, Component.ofSegment?]
  · simp [hempty]

/-- A path from the root is the same path as its absolute form. -/
theorem exists_absolute? (workDir : String) {path : String} (h : isAbsolute path = true) :
    ∃ a, absolute? workDir path = some a ∧ components a = components path := by
  have hne : path.toList ≠ [] := by
    intro hnil
    rw [isAbsolute_iff, hnil] at h
    cases h
  obtain ⟨a, ha⟩ : ∃ a, absolute? workDir path = some a := by
    unfold absolute?
    dsimp only
    rw [if_neg (by simpa using hne)]
    exact ⟨_, rfl⟩
  refine ⟨a, ha, ?_⟩
  obtain ⟨base, -, hbase, haeq⟩ := exists_base_of_absolute? ha
  obtain ⟨hroot, hnone⟩ : isAbsolute base = true ∧ parts base = [] := by
    rcases hbase with ⟨hrelative, -⟩ | ⟨-, hbase⟩
    · rw [h] at hrelative
      cases hrelative
    · exact hbase
  obtain ⟨hparts, habs⟩ := foldl_join_names path base
  rw [hnone, List.nil_append] at hparts
  rw [hroot] at habs
  -- a slash at the end adds nothing
  have hform : isAbsolute a = true ∧ parts a = names path := by
    rw [haeq]
    split
    · rw [isAbsolute_join (by decide), parts_join (by decide), hparts]
      exact ⟨habs, List.append_nil _⟩
    · exact ⟨habs, hparts⟩
  rw [components_of_isAbsolute hform.1, components_of_isAbsolute h, hform.2, filterMap_ofSegment?]

/-- A path that does not end in a slash or a dot ends in a name. -/
theorem getLast?_parts {path : String} (hne : path ≠ "") (hslash : path.toList.getLast? ≠ some '/')
    (hdot : (segments path).getLast? ≠ some ".") :
    ∃ init name, parts path = init ++ [name] ∧ name ≠ "." := by
  have hchars : path.toList ≠ [] := fun hnil => hne (String.toList_eq_nil_iff.1 hnil)
  obtain ⟨front, l, hsplit⟩ : ∃ front l, path.toList.splitOn '/' = front ++ [l] :=
    ⟨_, _, (List.dropLast_append_getLast (List.splitOn_ne_nil '/' path.toList)).symm⟩
  have hl : l ≠ [] := by
    rintro rfl
    apply getLast?_splitOn hchars hslash
    rw [hsplit, List.getLast?_concat]
  -- what stands behind the last slash is not empty, so it is the last part as well as the last
  -- segment
  have hlast : (segments path).getLast? = some (String.ofList l) := by
    unfold segments
    rw [hsplit, List.map_append, List.map_singleton, List.getLast?_concat]
  refine ⟨(front.map String.ofList).filter (· ≠ ""), String.ofList l, ?_, ?_⟩
  · unfold parts segments
    rw [hsplit, List.map_append, List.filter_append]
    simp [hl]
  · rintro he
    exact hdot (by rw [hlast, he])

theorem getLast?_join_empty {dir : String} (h : dir ≠ "") :
    (join dir "").toList.getLast? = some '/' := by
  unfold join
  rw [if_neg (by decide)]
  split
  · next hslash =>
    rw [String.append_empty]
    exact hslash.resolve_left h
  · simp

end Path

namespace Files.Disk

open ApiTypes.Path

variable {d : Disk}

theorem walk_append {place q : List String} {names more : List String}
    (h : d.walk place names = .ok q) : d.walk place (names ++ more) = d.walk q more := by
  induction names generalizing place with
  | nil =>
    obtain rfl := Except.ok.inj h
    rfl
  | cons name names ih =>
    obtain ⟨hplace, next, hnext, hrest⟩ := walk_cons_eq_ok_iff.1 h
    rw [List.cons_append, walk_cons hplace, hnext]
    exact ih hrest

/-- A dot before a name says nothing: the name after it is looked up in a directory anyway. -/
theorem walk_dot (d : Disk) (place : List String) {names : List String} (h : names ≠ []) :
    d.walk place ("." :: names) = d.walk place names := by
  cases hplace : d.get? place with
  | none =>
    cases names with
    | nil => exact absurd rfl h
    | cons name names => rw [walk, walk, hplace]
  | some e =>
    cases e with
    | directory => rw [walk_cons hplace]; rfl
    | file text =>
      cases names with
      | nil => exact absurd rfl h
      | cons name names => rw [walk, walk, hplace]

theorem walk_filter_dots {place names : List String} (h : names.getLast? ≠ some ".") :
    d.walk place (names.filter (· ≠ ".")) = d.walk place names := by
  induction names generalizing place with
  | nil => rfl
  | cons name names ih =>
    -- a dot that is not the last name leads to the place it stands in
    by_cases hdot : name = "."
    · subst hdot
      have hne : names ≠ [] := by
        rintro rfl
        exact h rfl
      rw [List.filter_cons_of_neg (by simp), walk_dot d place hne]
      exact ih (by rwa [List.getLast?_cons_of_ne_nil hne] at h)
    · have hrest : ∀ place, d.walk place (names.filter (· ≠ ".")) = d.walk place names := by
        intro place
        cases names with
        | nil => rfl
        | cons next rest => exact ih (by simpa using h)
      rw [List.filter_cons_of_pos (by simpa using hdot)]
      unfold walk
      simp only [hrest]

/-- The same is read at a path as at its absolute form. -/
def Coherent (d : Disk) (workDir path : String) : Prop :=
  ∀ a ∈ absolute? workDir path, (d.read path).toOption = (d.read a).toOption

theorem read_of_namesDirectory {path : String} (h : namesDirectory path = true) :
    (d.read path).toOption = none := by
  cases hread : d.read path with
  | error e => rfl
  | ok text =>
    obtain ⟨q, -, -, hname⟩ := read_eq_ok_iff.1 hread
    rw [h] at hname
    cases hname

theorem read_congr {a path : String} (hplace : d.place a = d.place path)
    (hdirectory : namesDirectory a = namesDirectory path) : d.read a = d.read path := by
  unfold read
  rw [hplace, hdirectory]

theorem fault?_of_place {path : String} {q : List String} (h : d.place path = .ok q) :
    fault? path = none := by
  rw [place_eq] at h
  cases hf : fault? path with
  | none => rfl
  | some e =>
    rw [hf] at h
    cases h

theorem place_of_parts {path : String} (h : fault? path = none) :
    d.place path = d.walk (if isAbsolute path then [] else d.workDir) (parts path) := by
  rw [place_eq, h]
  rfl

/-- A path that ends in a name leads where the names lead in the directory it starts from. -/
theorem place_eq_of_name {path name : String} {front : List String} (hpath : fault? path = none)
    (hparts : parts path = front ++ [name]) (hname : name ≠ ".") :
    d.place path = d.walk (if isAbsolute path then [] else d.workDir) (names path) := by
  have hlast : (parts path).getLast? ≠ some "." := by
    rw [hparts, List.getLast?_concat]
    exact fun he => hname (Option.some.inj he)
  rw [place_of_parts hpath, names_eq, walk_filter_dots hlast]

/-- The absolute form of a path that ends in a name ends in that name, and leads where the path
leads. -/
theorem place_of_absolute? {workDir path a name : String} {front : List String}
    (hdir : d.place workDir = .ok d.workDir) (habs : isAbsolute workDir = true)
    (ha : absolute? workDir path = some a) (hpath : fault? path = none) (hfault : fault? a = none)
    (hslash : path.toList.getLast? ≠ some '/') (hparts : parts path = front ++ [name])
    (hname : name ≠ ".") :
    d.place a = d.place path ∧ a.toList.getLast? = name.toList.getLast? := by
  obtain ⟨base, -, hbase, haeq⟩ := exists_base_of_absolute? ha
  rw [if_neg hslash] at haeq
  obtain ⟨hfull, hroot⟩ := foldl_join_names path base
  have hnames : names path = front.filter (· ≠ ".") ++ [name] := by
    rw [names_eq, hparts, List.filter_append]
    simp [hname]
  have hisname : IsName name := by
    apply isName_of_mem_names
    rw [hnames]
    exact List.mem_append_right _ List.mem_cons_self
  refine ⟨?_, ?_⟩
  · rw [place_eq_of_name hpath hparts hname, place_of_parts hfault, haeq, hroot, hfull]
    -- a relative path goes on from the working directory, an absolute one from the root
    rcases hbase with ⟨hrel, rfl⟩ | ⟨hpathabs, hbaseabs, hnil⟩
    · rw [place_of_parts (fault?_of_place hdir), habs] at hdir
      rw [hrel, habs]
      exact walk_append hdir
    · rw [hpathabs, hbaseabs, hnil]
      rfl
  · rw [haeq, hnames, List.foldl_append]
    exact getLast?_join (hisname)

/-- The absolute form of a path that ends in a slash ends in a slash. -/
theorem getLast?_absolute? {workDir path a : String} (habs : isAbsolute workDir = true)
    (ha : absolute? workDir path = some a) (hslash : path.toList.getLast? = some '/') :
    a.toList.getLast? = some '/' := by
  obtain ⟨base, -, hbase, haeq⟩ := exists_base_of_absolute? ha
  have hbaseabs : isAbsolute base = true := by
    rcases hbase with ⟨-, rfl⟩ | ⟨-, h, -⟩
    · exact habs
    · exact h
  have hroot : (names path).foldl join base ≠ "" := by
    intro hempty
    have hfull := (foldl_join_names path base).2
    rw [hempty, hbaseabs] at hfull
    exact Bool.false_ne_true hfull
  rw [haeq, if_pos hslash]
  exact getLast?_join_empty hroot

/-- A path is coherent unless its last part is a dot: its absolute form leaves out nothing that says
more. -/
theorem coherent_of_getLast? {workDir path : String} (hdir : d.place workDir = .ok d.workDir)
    (habs : isAbsolute workDir = true) (hpath : fault? path = none)
    (hfault : ∀ a ∈ absolute? workDir path, fault? a = none)
    (hdot : (segments path).getLast? ≠ some ".") : d.Coherent workDir path := by
  intro a ha
  by_cases hslash : path.toList.getLast? = some '/'
  · -- no file is read at a path that ends in a slash
    have hend := getLast?_absolute? habs ha hslash
    rw [read_of_namesDirectory (by simp [namesDirectory, hslash]),
      read_of_namesDirectory (by simp [namesDirectory, hend])]
  · obtain ⟨-, hne, -⟩ := exists_base_of_absolute? ha
    obtain ⟨front, name, hparts, hname⟩ := getLast?_parts hne hslash hdot
    obtain ⟨hplace, hend⟩ :=
      place_of_absolute? hdir habs ha hpath (hfault a ha) hslash hparts hname
    have hmem : name ∈ parts path := by simp [hparts]
    have hisname : IsName name := isName_of_mem_parts hmem
    have hnoslash : name.toList.getLast? ≠ some '/' :=
      fun h => hisname.slash (List.mem_of_getLast? h)
    have hdirectory : namesDirectory a = namesDirectory path := by
      simp [namesDirectory, hend, hnoslash, hslash]
    rw [read_congr hplace hdirectory]

end Files.Disk

end ApiTypes
