import ApiTypes.Proofs.Compile.Beginning

namespace ApiTypes.Compile

open Text TypeScript

/-- An empty line is put between a brace at the end of a line and a line that begins so. -/
def parted (start s : List Char) : List Char :=
  replaceAll ('}' :: '\n' :: start) ('}' :: '\n' :: '\n' :: start) s

def separatorChars : List Char :=
  "\x7d\n/export typ".toList

section parted

variable {start u w : List Char}

theorem parted_append (h : '}' ∉ u) (w : List Char) :
    parted start (u ++ w) = u ++ parted start w := by
  induction u with
  | nil => rfl
  | cons c u ih =>
    have hc : ¬ '}' :: '\n' :: start <+: c :: (u ++ w) := fun hstart =>
      h ((List.cons_prefix_cons.1 hstart).1 ▸ List.mem_cons_self)
    unfold parted at ih ⊢
    rw [List.cons_append, replaceAll_cons hc, ih fun hu => h (List.mem_cons_of_mem c hu)]
    rfl

theorem parted_append_brace (h : '}' ∉ start) (u w : List Char) :
    parted start (u ++ '}' :: w) = parted start u ++ parted start ('}' :: w) := by
  refine replaceAll_append_start (List.cons_ne_nil _ _) (fun hmem => ?_) u w
  obtain hnewline | hstart := List.mem_cons.1 hmem
  · cases hnewline
  · exact h hstart

theorem parted_brace (hstart : '}' ∉ start) (h : start <+: w) :
    parted start ('}' :: '\n' :: w) = '}' :: '\n' :: '\n' :: parted start w := by
  obtain ⟨v, rfl⟩ := h
  rw [parted_append hstart]
  exact replaceAll_append (List.cons_ne_nil _ _) v

theorem parted_brace_of_not (h : ¬ start <+: w) :
    parted start ('}' :: '\n' :: w) = '}' :: '\n' :: parted start w := by
  have hbrace : ¬ '}' :: '\n' :: start <+: '}' :: '\n' :: w := fun hbrace =>
    h (List.cons_prefix_cons.1 (List.cons_prefix_cons.1 hbrace).2).2
  have hrest : parted start ('\n' :: w) = '\n' :: parted start w :=
    parted_append (u := ['\n']) (by decide) w
  unfold parted at hrest ⊢
  rw [replaceAll_cons hbrace]
  exact congrArg _ hrest

end parted

section separate

variable {u w : List Char} {c : Char}

theorem separate_eq (s : List Char) :
    separate s = breakMarks (parted "export ".toList (parted ['/'] s)) := rfl

/-- A character that is in none of the replaced texts parts a text. -/
theorem separate_append_cons (hc : c ∉ separatorChars) (u w : List Char) :
    separate (u ++ c :: w) = separate u ++ c :: separate w := by
  have hslash : '}' :: '\n' :: ['/'] ⊆ separatorChars := by decide
  have hexport : '}' :: '\n' :: "export ".toList ⊆ separatorChars := by decide
  have hmark : aliasMark ⊆ separatorChars := by decide
  simp only [separate_eq]
  unfold parted
  rw [replaceAll_append_cons (List.cons_ne_nil _ _) (fun h => hc (hslash h)),
    replaceAll_append_cons (List.cons_ne_nil _ _) (fun h => hc (hexport h)),
    breakMarks_append_cons fun h => hc (hmark h)]

theorem separate_newline (w : List Char) : separate ('\n' :: w) = '\n' :: separate w := by
  have hparted : ∀ start v : List Char, parted start ('\n' :: v) = '\n' :: parted start v :=
    fun start v => parted_append (u := ['\n']) (by decide) v
  rw [separate_eq, hparted, hparted, separate_eq]
  exact breakMarks_append_cons (u := []) (by decide) _

theorem separate_alias (u w : List Char) :
    separate (u ++ ';' :: '\n' :: w) = separate (u ++ [';', '\n']) ++ separate w := by
  have hc : ';' ∉ separatorChars := by decide
  rw [separate_append_cons hc, separate_append_cons hc, separate_newline, separate_newline,
    List.append_assoc]
  rfl

theorem separate_brace_end (u : List Char) :
    separate (u ++ ['}', '\n']) =
      breakMarks (parted "export ".toList (parted ['/'] u)) ++ ['}', '\n'] := by
  have hend : ∀ start, start ≠ [] → '}' ∉ start → ∀ v : List Char,
      parted start (v ++ ['}', '\n']) = parted start v ++ ['}', '\n'] := by
    intro start hne hstart v
    rw [parted_append_brace hstart, parted_brace_of_not (mt List.prefix_nil.1 hne)]
    rfl
  have hc : '}' ∉ aliasMark := by decide
  rw [separate_eq, hend _ (by decide) (by decide), hend _ (by decide) (by decide),
    breakMarks_append_cons hc]
  rfl

/-- Behind an interface there is an empty line before the next declaration. -/
theorem separate_interface (h : Begins w) (u : List Char) :
    separate (u ++ '}' :: '\n' :: w) = separate (u ++ ['}', '\n']) ++ '\n' :: separate w := by
  have hslash : '}' ∉ ['/'] := by decide
  have hexport : '}' ∉ "export ".toList := by decide
  have hparted : parted "export ".toList (parted ['/'] (u ++ '}' :: '\n' :: w)) =
      parted "export ".toList (parted ['/'] u) ++
        '}' :: '\n' :: '\n' :: parted "export ".toList (parted ['/'] w) := by
    rw [parted_append_brace hslash]
    rcases h with h | h
    · -- the line before a comment is put in first, and is not put in again
      have hnot : ¬ "export ".toList <+: '\n' :: parted ['/'] w := fun hnewline =>
        absurd (List.cons_prefix_cons.1 hnewline).1 (by decide)
      rw [parted_brace hslash h, parted_append_brace hexport, parted_brace_of_not hnot]
      exact congrArg _ (congrArg _ (congrArg _ (parted_append (u := ['\n']) (by decide) _)))
    · have hnot : ¬ ['/'] <+: w := by
        obtain ⟨v, rfl⟩ := h
        exact fun hcomment => absurd (List.cons_prefix_cons.1 hcomment).1 (by decide)
      have hkept : "export ".toList <+: parted ['/'] w := by
        obtain ⟨v, rfl⟩ := h
        rw [parted_append hexport]
        exact List.prefix_append _ _
      rw [parted_brace_of_not hnot, parted_append_brace hexport, parted_brace hexport hkept]
  have hbrace : '}' ∉ aliasMark := by decide
  have hnewline : '\n' ∉ aliasMark := by decide
  have hlines : ∀ v : List Char, breakMarks ('\n' :: v) = '\n' :: breakMarks v := fun v =>
    breakMarks_append_cons hnewline [] v
  rw [separate_brace_end, separate_eq, hparted, breakMarks_append_cons hbrace, hlines, hlines,
    separate_eq, List.append_assoc]
  rfl

end separate

def block (d : Declaration) : List Char :=
  separate d.text

def aliasBlocks (ds : List Declaration) : List (List Char) :=
  (ds.filter (!·.isInterface)).map block

def interfaceBlocks (ds : List Declaration) : List (List Char) :=
  (ds.filter (·.isInterface)).map block

section blocks

variable {d : Declaration} {ds : List Declaration}

theorem exists_text_of_alias (h : d.isInterface = false) : ∃ u, d.text = u ++ [';', '\n'] := by
  unfold Declaration.text
  rw [h]
  exact ⟨_, (List.append_assoc _ _ _).symm⟩

theorem exists_text_of_interface (h : d.isInterface = true) : ∃ u, d.text = u ++ ['}', '\n'] := by
  -- only an object type is declared as an interface, and its text ends in its brace
  have htype : ∃ body, d.type.textAt 0 = body ++ ['}'] := by
    obtain ⟨name, description, type⟩ := d
    cases type with
    | object ms index =>
      cases ms with
      | nil =>
        cases index with
        | none => exact ⟨['{'], rfl⟩
        | some t => exact ⟨_, rfl⟩
      | cons m ms => exact ⟨_, rfl⟩
    | _ => cases h
  obtain ⟨body, hbody⟩ := htype
  have hcode : "export interface ".toList ++ d.name.toList ++ ' ' :: (body ++ ['}']) ++ ['\n'] =
      ("export interface ".toList ++ d.name.toList ++ ' ' :: body) ++ ['}', '\n'] := by
    simp
  unfold Declaration.text
  rw [h, hbody]
  dsimp only
  rw [hcode, ← List.append_assoc]
  exact ⟨_, rfl⟩

theorem separate_aliases (h : ∀ d ∈ ds, d.isInterface = false) (w : List Char) :
    separate (ds.flatMap Declaration.text ++ w) = (ds.map block).flatten ++ separate w := by
  induction ds with
  | nil => rfl
  | cons d ds ih =>
    have hds := ih fun d' hd' => h d' (List.mem_cons_of_mem d hd')
    obtain ⟨u, hu⟩ := exists_text_of_alias (h d List.mem_cons_self)
    have hd : separate (d.text ++ (ds.flatMap Declaration.text ++ w)) =
        block d ++ separate (ds.flatMap Declaration.text ++ w) := by
      unfold block
      rw [hu, List.append_assoc]
      exact separate_alias u _
    rw [List.flatMap_cons, List.append_assoc, hd, hds, List.map_cons, List.flatten_cons,
      List.append_assoc]

theorem separate_interfaces (h : ∀ d ∈ ds, d.isInterface = true) :
    separate (ds.flatMap Declaration.text) = ['\n'].intercalate (ds.map block) := by
  induction ds with
  | nil => rfl
  | cons d ds ih =>
    have hds := ih fun d' hd' => h d' (List.mem_cons_of_mem d hd')
    cases ds with
    | nil => simp [block]
    | cons d' ds =>
      -- behind the brace of an interface the next declaration begins, so a line is put in there
      obtain ⟨u, hu⟩ := exists_text_of_interface (h d List.mem_cons_self)
      have hd : separate (d.text ++ (d' :: ds).flatMap Declaration.text) =
          block d ++ '\n' :: separate ((d' :: ds).flatMap Declaration.text) := by
        have hbegins : Begins ((d' :: ds).flatMap Declaration.text) :=
          (begins_text d').imp (fun h => h.trans (List.prefix_append _ _))
            fun h => h.trans (List.prefix_append _ _)
        unfold block
        rw [hu, List.append_assoc]
        exact separate_interface hbegins u
      rw [List.flatMap_cons, hd, hds]
      simp [List.intercalate]

/-- The aliases stand one after the other, and the interfaces behind them with an empty line between
each two. -/
theorem separate_declarationsText (ds : List Declaration) :
    separate (declarationsText ds) =
      (aliasBlocks ds).flatten ++ ['\n'].intercalate (interfaceBlocks ds) := by
  have haliases : ∀ d ∈ ds.filter (!·.isInterface), d.isInterface = false := by
    intro d hd
    simpa using (List.mem_filter.1 hd).2
  have hinterfaces : ∀ d ∈ ds.filter (·.isInterface), d.isInterface = true := fun d hd =>
    (List.mem_filter.1 hd).2
  unfold declarationsText
  rw [separate_aliases haliases, separate_interfaces hinterfaces]
  rfl

end blocks

section root

def memberLines (m : Member TypeExpr) : List Char :=
  separate (TypeExpr.membersAt 1 [m])

def rootBlock (members : List (List Char)) : List Char :=
  "export interface API ".toList ++
    if members = [] then "\x7b\x7d\n".toList
    else "\x7b\n".toList ++ members.flatten ++ "\x7d\n".toList

theorem separate_membersAt (ms : List (Member TypeExpr)) (w : List Char) :
    separate (TypeExpr.membersAt 1 ms ++ w) = (ms.map memberLines).flatten ++ separate w := by
  induction ms with
  | nil => rfl
  | cons m ms ih =>
    -- a member ends like an alias, with a semicolon
    obtain ⟨u, hu⟩ : ∃ u, TypeExpr.membersAt 1 [m] = u ++ [';', '\n'] := by
      refine ⟨_, (List.append_nil _).trans rfl⟩
    have hcons : TypeExpr.membersAt 1 (m :: ms) =
        TypeExpr.membersAt 1 [m] ++ TypeExpr.membersAt 1 ms := by
      simp [TypeExpr.membersAt]
    have hm : separate (TypeExpr.membersAt 1 [m] ++ (TypeExpr.membersAt 1 ms ++ w)) =
        memberLines m ++ separate (TypeExpr.membersAt 1 ms ++ w) := by
      unfold memberLines
      rw [hu, List.append_assoc]
      exact separate_alias u _
    rw [hcons, List.append_assoc, hm, ih, List.map_cons, List.flatten_cons, List.append_assoc]

/-- In the interface of an application the members stand one after the other. -/
theorem block_root (ms : List (Member TypeExpr)) :
    block ⟨"API", none, .object ms none⟩ = rootBlock (ms.map memberLines) := by
  have hbrace : '{' ∉ separatorChars := by decide
  have hhead : separate "export interface API ".toList = "export interface API ".toList := by
    decide +kernel
  cases ms with
  | nil => decide +kernel
  | cons m ms =>
    have htext : Declaration.text ⟨"API", none, .object (m :: ms) none⟩ =
        "export interface API ".toList ++
          '{' :: '\n' :: (TypeExpr.membersAt 1 (m :: ms) ++ "\x7d\n".toList) := by
      simp [Declaration.text, Declaration.isInterface, TypeExpr.textAt, TypeExpr.indexAt,
        indentation]
    have hend : separate "\x7d\n".toList = "\x7d\n".toList := by decide +kernel
    unfold block rootBlock
    rw [htext, separate_append_cons hbrace, separate_newline, separate_membersAt, hhead, hend,
      if_neg (by simp)]
    simp

theorem aliasBlocks_append (ds ds' : List Declaration) :
    aliasBlocks (ds ++ ds') = aliasBlocks ds ++ aliasBlocks ds' := by
  unfold aliasBlocks
  rw [List.filter_append, List.map_append]

theorem interfaceBlocks_append (ds ds' : List Declaration) :
    interfaceBlocks (ds ++ ds') = interfaceBlocks ds ++ interfaceBlocks ds' := by
  unfold interfaceBlocks
  rw [List.filter_append, List.map_append]

/-- The interface of the application comes behind the aliases and before the other interfaces. -/
theorem separate_declarationsText_root (ms : List (Member TypeExpr)) (ds : List Declaration) :
    separate (declarationsText (⟨"API", none, .object ms none⟩ :: ds)) =
      (aliasBlocks ds).flatten ++
        ['\n'].intercalate (rootBlock (ms.map memberLines) :: interfaceBlocks ds) := by
  have hinterfaces : interfaceBlocks (⟨"API", none, .object ms none⟩ :: ds) =
      rootBlock (ms.map memberLines) :: interfaceBlocks ds :=
    congrArg (List.cons · _) (block_root ms)
  rw [separate_declarationsText, hinterfaces]
  rfl

end root

end ApiTypes.Compile
