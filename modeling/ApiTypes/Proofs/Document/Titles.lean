import ApiTypes.Proofs.Document.Faithful

namespace ApiTypes.Document

/-- An object without a reference says in place what it accepts. -/
def isInPlace : Json → Bool
  | .object members => !Table.contains "$ref" members
  | _ => false

def ownTitleOf? (j : Json) : Option String :=
  (j.text? "title").filter (· ≠ "")

/-- The titles of two replies come out alike: two own titles of the same words, or an own title that
reads as the status of a reply without one. -/
inductive SameTitle : String × Json → String × Json → Prop
  | words {e e' : String × Json} {t t' : String} (h : ownTitleOf? e.2 = some t)
    (h' : ownTitleOf? e'.2 = some t')
    (hwords : Naming.normalizeTitle t = Naming.normalizeTitle t') : SameTitle e e'
  | status {e e' : String × Json} {t : String} (h : ownTitleOf? e.2 = some t)
    (h' : ownTitleOf? e'.2 = none) (hstatus : Naming.normalizeTitle t = e'.1) : SameTitle e e'

def titleEnd (e : String × Json) : String :=
  ((ownTitleOf? e.2).map Naming.normalizeTitle).getD e.1

def response (title : String) (e : String × Json) : Json :=
  match e.2 with
  | .object members =>
    if Table.contains "$ref" members then .object members
    else .object (Table.insert "title" (.string (title ++ "Status" ++ titleEnd e)) members)
  | j => j

variable {e e' : String × Json}

theorem responses_eq_map (title : String) (statuses : List (String × Json)) :
    responses title statuses = statuses.map (response title) := by
  refine List.map_congr_left fun e _ => ?_
  obtain ⟨status, j⟩ := e
  cases j with
  | object members =>
    dsimp only
    by_cases href : Table.contains "$ref" members
    · have hclass : Fragment.ofJson (.object members) = .reference members := if_pos href
      rw [hclass]
      exact (if_pos href).symm
    · have hclass : Fragment.ofJson (.object members) = .inlined members := if_neg href
      rw [hclass]
      exact (if_neg href).symm
  | _ => rfl

theorem response_of_isInPlace (h : isInPlace e.2) (title : String) :
    ∃ members, e.2 = .object members ∧ response title e =
      .object (Table.insert "title" (.string (title ++ "Status" ++ titleEnd e)) members) := by
  obtain ⟨status, j⟩ := e
  cases j with
  | object members =>
    have href : ¬ Table.contains "$ref" members := by simpa [isInPlace] using h
    exact ⟨members, rfl, if_neg href⟩
  | _ => cases h

theorem response_of_not_isInPlace (h : ¬ isInPlace e.2) (title : String) :
    response title e = e.2 := by
  obtain ⟨status, j⟩ := e
  cases j with
  | object members =>
    have href : Table.contains "$ref" members := by simpa [isInPlace] using h
    exact if_pos href
  | _ => rfl

theorem isInPlace_response (title : String) (e : String × Json) :
    isInPlace (response title e) = isInPlace e.2 := by
  by_cases h : isInPlace e.2
  · obtain ⟨members, hmembers, hresponse⟩ := response_of_isInPlace h title
    rw [hresponse, hmembers, isInPlace, isInPlace, Table.contains, Table.get?_insert,
      if_neg (by decide), Table.contains]
  · rw [response_of_not_isInPlace h]

theorem text?_response (h : isInPlace e.2) (title : String) :
    (response title e).text? "title" = some (title ++ "Status" ++ titleEnd e) := by
  obtain ⟨members, -, hresponse⟩ := response_of_isInPlace h title
  rw [hresponse, Json.text?, Json.get?, Table.get?_insert, if_pos rfl]
  rfl

/-- Every reply in place has a title. -/
theorem titles_responses (title : String) (statuses : List (String × Json)) :
    ((responses title statuses).filter isInPlace).map (Json.text? "title") =
      ((statuses.filter fun e => isInPlace e.2).map fun e =>
        title ++ "Status" ++ titleEnd e).map some := by
  have hkept : isInPlace ∘ response title = fun e => isInPlace e.2 :=
    funext fun e => isInPlace_response title e
  rw [responses_eq_map, List.filter_map, hkept, List.map_map, List.map_map]
  exact List.map_congr_left fun e he => text?_response (List.mem_filter.1 he).2 title

theorem SameTitle.titleEnd_eq (h : SameTitle e e') : titleEnd e = titleEnd e' := by
  unfold titleEnd
  cases h with
  | words h h' hwords =>
    rw [h, h']
    exact hwords
  | status h h' hstatus =>
    rw [h, h']
    exact hstatus

/-- Two statuses are different, so an own title takes part if two titles come out alike. -/
theorem sameTitle_of_titleEnd_eq (hstatus : e.1 ≠ e'.1) (h : titleEnd e = titleEnd e') :
    SameTitle e e' ∨ SameTitle e' e := by
  unfold titleEnd at h
  cases ht : ownTitleOf? e.2 with
  | none =>
    cases ht' : ownTitleOf? e'.2 with
    | none =>
      rw [ht, ht'] at h
      exact absurd h hstatus
    | some t' =>
      rw [ht, ht'] at h
      exact .inr (.status ht' ht h.symm)
  | some t =>
    cases ht' : ownTitleOf? e'.2 with
    | none =>
      rw [ht, ht'] at h
      exact .inl (.status ht ht' h)
    | some t' =>
      rw [ht, ht'] at h
      exact .inl (.words ht ht' h)

/-- The replies in place have titles, and these are different if and only if no two of different
statuses come out alike. -/
theorem titles_nodup_iff (title : String) (statuses : List (String × Json))
    (hkeys : (Table.keys statuses).Nodup) :
    ∃ titles : List String,
      ((responses title statuses).filter isInPlace).map (Json.text? "title") = titles.map some ∧
      (titles.Nodup ↔ ∀ e ∈ statuses, ∀ e' ∈ statuses, isInPlace e.2 → isInPlace e'.2 →
        e.1 ≠ e'.1 → ¬ SameTitle e e') := by
  refine ⟨_, titles_responses title statuses, ?_⟩
  rw [List.nodup_map_iff_inj_on ((List.Nodup.of_map _ hkeys).filter _)]
  simp only [List.mem_filter]
  constructor
  · intro hinj e he e' he' hin hin' hstatus hsame
    have heq := hinj e ⟨he, hin⟩ e' ⟨he', hin'⟩ (congrArg _ hsame.titleEnd_eq)
    exact hstatus (congrArg Prod.fst heq)
  · rintro hdifferent e ⟨he, hin⟩ e' ⟨he', hin'⟩ htitle
    have hend : titleEnd e = titleEnd e' := (String.append_right_inj _).1 htitle
    by_contra hne
    -- two entries of one status would be one entry
    have hstatus : e.1 ≠ e'.1 := fun h => hne (List.inj_on_of_nodup_map hkeys he he' h)
    obtain hsame | hsame := sameTitle_of_titleEnd_eq hstatus hend
    · exact hdifferent e he e' he' hin hin' hstatus hsame
    · exact hdifferent e' he' e he hin' hin hstatus.symm hsame

def titledReplies : List (String × Json) :=
  [("200", .object [("title", .string "Not found")]), ("404", .object [("title", .string "")]),
    ("500", .object [("$ref", .string "errors#"), ("title", .string "NotFound")])]

theorem titles_nodup_iff_titledReplies :
    (Table.keys titledReplies).Nodup ∧
      ((responses "Test" titledReplies).filter isInPlace).map (Json.text? "title") =
        [some "TestStatusNotFound", some "TestStatus404"] ∧
      ∀ e ∈ titledReplies, ∀ e' ∈ titledReplies, isInPlace e.2 → isInPlace e'.2 →
        e.1 ≠ e'.1 → ¬ SameTitle e e' := by
  have hkeys : (Table.keys titledReplies).Nodup := by decide
  have htitles : ((responses "Test" titledReplies).filter isInPlace).map (Json.text? "title") =
      ["TestStatusNotFound", "TestStatus404"].map some := by decide +kernel
  obtain ⟨titles, heq, hiff⟩ := titles_nodup_iff "Test" titledReplies hkeys
  obtain rfl : titles = ["TestStatusNotFound", "TestStatus404"] :=
    (List.map_injective_iff.2 fun _ _ => Option.some.inj) (heq.symm.trans htitles)
  exact ⟨hkeys, htitles, hiff.1 (by decide)⟩

/-- Two own titles of the same words. -/
theorem not_titles_nodup :
    ¬ ∀ (title : String) (statuses : List (String × Json)), (Table.keys statuses).Nodup →
      (((responses title statuses).filter isInPlace).map (Json.text? "title")).Nodup := by
  intro h
  have hnodup := h "Test" [("200", .object [("title", .string "Not found")]),
    ("404", .object [("title", .string "NotFound")])] (by decide)
  revert hnodup
  decide +kernel

end ApiTypes.Document
