import ApiTypes.Proofs.Compile.Names
import ApiTypes.Proofs.Naming.Numbering
import ApiTypes.Proofs.Text.Replace

namespace ApiTypes

namespace Naming

def occurrences (base : String) (paths : List String) : Nat :=
  paths.countP fun path => baseName path = base

/-- What is written behind a base: nothing for its first path, then numbers from one on. -/
def numeral (n : Nat) : String :=
  if n = 0 then "" else toString n

def numbered (earlier : List String) : List String → List (String × Nat)
  | [] => []
  | path :: paths =>
    (baseName path, occurrences (baseName path) earlier) :: numbered (earlier ++ [path]) paths

theorem candidate_eq_append_numeral (base : String) (n : Nat) :
    Compile.candidate base n = base ++ numeral n := by
  rw [candidate_eq, numeral]
  split
  · exact String.append_empty.symm
  · rfl

/-- A path with a letter or digit has a word. -/
theorem baseName_ne_empty {path : String} (h : path.toList.any Char.isAlphanum) :
    baseName path ≠ "" := by
  intro hempty
  have hnone := (baseName_eq_empty_iff path).1 hempty
  rw [spelledOut, Text.any_replaceFirst (by decide) h] at hnone
  cases hnone

section numbered

variable {base : String} {earlier paths : List String} {path : String} {n : Nat}

theorem occurrences_append (base : String) (paths paths' : List String) :
    occurrences base (paths ++ paths') = occurrences base paths + occurrences base paths' :=
  List.countP_append

theorem occurrences_singleton (base path : String) :
    occurrences base [path] = if baseName path = base then 1 else 0 := by
  simp [occurrences, List.countP_cons]

theorem namesAfter_eq_map (hwords : ∀ path ∈ paths, baseName path ≠ "") (earlier : List String) :
    namesAfter earlier paths = (numbered earlier paths).map fun e => Compile.candidate e.1 e.2 := by
  induction paths generalizing earlier with
  | nil => rfl
  | cons path paths ih =>
    obtain ⟨hpath, hpaths⟩ := List.forall_mem_cons.1 hwords
    rw [namesAfter, nameAfter_of_baseName_ne hpath, ih hpaths]
    rfl

/-- The numbers of a base are those from the number of its earlier paths on. -/
theorem mem_numbered_iff :
    (base, n) ∈ numbered earlier paths ↔
      occurrences base earlier ≤ n ∧ n < occurrences base (earlier ++ paths) := by
  induction paths generalizing earlier with
  | nil =>
    rw [List.append_nil]
    exact iff_of_false List.not_mem_nil (fun h => not_lt.2 h.1 h.2)
  | cons path paths ih =>
    have htotal : earlier ++ path :: paths = earlier ++ [path] ++ paths := by simp
    rw [numbered, List.mem_cons, ih, Prod.mk.injEq, htotal, occurrences_append base _ paths,
      occurrences_append, occurrences_singleton]
    -- a path of this base has the next number, the others leave the numbers of the base alone
    by_cases hbase : baseName path = base
    · subst hbase
      simp only [if_true, true_and]
      omega
    · rw [if_neg hbase]
      simp [Ne.symm hbase]

theorem nodup_numbered (earlier paths : List String) : (numbered earlier paths).Nodup := by
  induction paths generalizing earlier with
  | nil => exact List.nodup_nil
  | cons path paths ih =>
    refine List.nodup_cons.2 ⟨fun hmem => ?_, ih _⟩
    -- later paths of the base have greater numbers
    have hle := (mem_numbered_iff.1 hmem).1
    rw [occurrences_append, occurrences_singleton, if_pos rfl] at hle
    omega

end numbered

/-- One base is another one with digits behind it, and these digits, with a number of the longer
base behind them, are a number of the shorter one. -/
def Clash (paths : List String) (base base' : String) : Prop :=
  ∃ digits m n, digits ≠ "" ∧ base' = base ++ digits ∧ m < occurrences base paths ∧
    n < occurrences base' paths ∧ numeral m = digits ++ numeral n

/-- Two bases that have an endpoint name in common are equal, or the longer one ends in digits. -/
theorem exists_digits_of_candidate_eq {base base' : String} {m n : Nat}
    (h : Compile.candidate base m = Compile.candidate base' n) :
    ∃ digits, (base' = base ++ digits ∧ numeral m = digits ++ numeral n) ∨
      (base = base' ++ digits ∧ numeral n = digits ++ numeral m) := by
  rw [candidate_eq_append_numeral, candidate_eq_append_numeral, ← String.toList_inj,
    String.toList_append, String.toList_append] at h
  obtain ⟨digits, hbase, hnumeral⟩ | ⟨digits, hbase, hnumeral⟩ := List.append_eq_append_iff.1 h
  · exact ⟨String.ofList digits, .inl ⟨String.toList_inj.1 (by simpa using hbase),
      String.toList_inj.1 (by simpa using hnumeral)⟩⟩
  · exact ⟨String.ofList digits, .inr ⟨String.toList_inj.1 (by simpa using hbase),
      String.toList_inj.1 (by simpa using hnumeral)⟩⟩

/-- The name of a clash belongs to both bases. -/
theorem Clash.exists_candidate_eq {paths : List String} {base base' : String}
    (h : Clash paths base base') : base ≠ base' ∧ ∃ m n, m < occurrences base paths ∧
      n < occurrences base' paths ∧ Compile.candidate base m = Compile.candidate base' n := by
  obtain ⟨digits, m, n, hdigits, rfl, hm, hn, hnumeral⟩ := h
  refine ⟨fun hself => ?_, m, n, hm, hn, ?_⟩
  · exact hdigits ((String.append_right_inj base).1 (String.append_empty.trans hself)).symm
  · rw [candidate_eq_append_numeral, candidate_eq_append_numeral, hnumeral, String.append_assoc]

/-- Without a clash different bases have no name in common. -/
theorem base_eq_of_candidate_eq {paths : List String} {base base' : String} {m n : Nat}
    (hclash : ∀ base base', ¬ Clash paths base base') (hm : m < occurrences base paths)
    (hn : n < occurrences base' paths)
    (h : Compile.candidate base m = Compile.candidate base' n) : base = base' := by
  by_contra hne
  obtain ⟨digits, ⟨rfl, hnumeral⟩ | ⟨rfl, hnumeral⟩⟩ := exists_digits_of_candidate_eq h
  · have hdigits : digits ≠ "" := by
      rintro rfl
      exact hne String.append_empty.symm
    exact hclash _ _ ⟨digits, m, n, hdigits, rfl, hm, hn, hnumeral⟩
  · have hdigits : digits ≠ "" := by
      rintro rfl
      exact hne String.append_empty
    exact hclash _ _ ⟨digits, n, m, hdigits, rfl, hn, hm, hnumeral⟩

/-- The endpoints of paths with letters or digits have different names if and only if no two bases
clash. -/
theorem names_nodup_iff (paths : List String)
    (hwords : ∀ path ∈ paths, path.toList.any Char.isAlphanum) :
    (Registry.empty.handOut paths).1.Nodup ↔ ∀ base base', ¬ Clash paths base base' := by
  have hnames := namesAfter_eq_map (fun path hpath => baseName_ne_empty (hwords path hpath)) []
  have hmem : ∀ base n, (base, n) ∈ numbered [] paths ↔ n < occurrences base paths := fun base n =>
    mem_numbered_iff.trans (and_iff_right (Nat.zero_le n))
  rw [(counts_empty.handOut paths).1, hnames, List.nodup_map_iff_inj_on (nodup_numbered [] paths)]
  constructor
  · intro hinj base base' hclash
    obtain ⟨hne, m, n, hm, hn, hsame⟩ := hclash.exists_candidate_eq
    exact hne (congrArg Prod.fst (hinj _ ((hmem _ _).2 hm) _ ((hmem _ _).2 hn) hsame))
  · rintro hclash ⟨base, m⟩ hm ⟨base', n⟩ hn hsame
    rw [hmem] at hm hn
    obtain rfl := base_eq_of_candidate_eq hclash hm hn hsame
    exact congrArg _ (Compile.candidate_injective base hsame)

def spacedPaths : List String :=
  ["/user-id", "/user/id", "/user/id2"]

theorem names_nodup_iff_spacedPaths :
    (∀ path ∈ spacedPaths, path.toList.any Char.isAlphanum) ∧
      (Registry.empty.handOut spacedPaths).1 = ["UserId", "UserId1", "UserId2"] ∧
      ∀ base base', ¬ Clash spacedPaths base base' := by
  have hwords : ∀ path ∈ spacedPaths, path.toList.any Char.isAlphanum := by decide
  have hnames : (Registry.empty.handOut spacedPaths).1 = ["UserId", "UserId1", "UserId2"] := by
    decide +kernel
  have hnodup : (Registry.empty.handOut spacedPaths).1.Nodup := by
    rw [hnames]
    decide
  exact ⟨hwords, hnames, (names_nodup_iff spacedPaths hwords).1 hnodup⟩

/-- The second path of one base has the name of the first path of another. -/
theorem not_names_nodup :
    ¬ ∀ paths : List String, (∀ path ∈ paths, path.toList.any Char.isAlphanum) →
      (Registry.empty.handOut paths).1.Nodup := by
  intro h
  have hnodup := h ["/user-id", "/user/id", "/user/id1"] (by decide)
  have hnames : (Registry.empty.handOut ["/user-id", "/user/id", "/user/id1"]).1 =
      ["UserId", "UserId1", "UserId1"] := by decide +kernel
  rw [hnames] at hnodup
  revert hnodup
  decide

end Naming

end ApiTypes
