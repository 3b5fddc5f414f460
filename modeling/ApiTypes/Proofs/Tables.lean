import ApiTypes.Table
import Mathlib.Data.List.Induction
import Mathlib.Data.List.Nodup

namespace ApiTypes.Table

variable {α : Type} {key : String} {v : α} {ps qs : List (String × α)}

theorem ofList_concat (ps : List (String × α)) (p : String × α) :
    ofList (ps ++ [p]) = insert p.1 p.2 (ofList ps) := by
  simp [ofList, List.foldl_append]

theorem keys_ofList (ps : List (String × α)) : keys (ofList ps) = (ps.map Prod.fst).eraseDups := by
  induction ps using List.reverseRecOn with
  | nil => rfl
  | append_singleton ps p ih =>
    rw [ofList_concat, keys_insert, ih, List.map_append, List.eraseDups_append]
    split
    · next h => simp [List.removeAll, List.mem_eraseDups.1 h]
    · next h => simp [List.removeAll, mt List.mem_eraseDups.2 h, List.eraseDups_cons]

theorem nodup_keys_ofList (ps : List (String × α)) : (keys (ofList ps)).Nodup := by
  induction ps using List.reverseRecOn with
  | nil => exact List.nodup_nil
  | append_singleton ps p ih =>
    rw [ofList_concat, keys_insert]
    split
    · exact ih
    · next h =>
      rw [← List.concat_eq_append]
      exact ih.concat h

theorem get?_ofList_append (key : String) (ps qs : List (String × α)) :
    get? key (ofList (ps ++ qs)) = (get? key (ofList qs)).or (get? key (ofList ps)) := by
  induction qs using List.reverseRecOn with
  | nil => simp [ofList]
  | append_singleton qs q ih =>
    rw [← List.append_assoc, ofList_concat, ofList_concat, get?_insert, get?_insert, ih]
    split <;> rfl

theorem get?_append (key : String) (ps qs : List (String × α)) :
    get? key (ps ++ qs) = (get? key ps).or (get? key qs) :=
  List.lookup_append

theorem insert_of_not_mem (h : key ∉ keys ps) : insert key v ps = ps ++ [(key, v)] := by
  induction ps with
  | nil => rfl
  | cons p ps ih =>
    simp only [keys, List.map_cons, List.mem_cons, not_or] at h
    rw [insert, if_neg (Ne.symm h.1), ih h.2, List.cons_append]

/-- Pairs with different keys are a table already. -/
theorem ofList_of_nodup (h : (keys ps).Nodup) : ofList ps = ps := by
  induction ps using List.reverseRecOn with
  | nil => rfl
  | append_singleton ps p ih =>
    simp only [keys, List.map_append, List.nodup_append] at h
    obtain ⟨hps, -, hp⟩ := h
    rw [ofList_concat, ih hps, insert_of_not_mem]
    exact fun hmem => hp p.1 hmem p.1 (by simp) rfl

theorem length_insert (key : String) (v : α) (ps : List (String × α)) :
    (insert key v ps).length = if key ∈ keys ps then ps.length else ps.length + 1 := by
  have hkeys := congrArg List.length (keys_insert key v ps)
  by_cases h : key ∈ keys ps
  · rw [if_pos h] at hkeys ⊢
    simpa only [keys, List.length_map] using hkeys
  · rw [if_neg h] at hkeys ⊢
    simpa only [keys, List.length_map, List.length_append, List.length_singleton] using hkeys

theorem length_ofList_le (ps : List (String × α)) : (ofList ps).length ≤ ps.length := by
  induction ps using List.reverseRecOn with
  | nil => exact Nat.le_refl _
  | append_singleton ps p ih =>
    rw [ofList_concat, length_insert, List.length_append, List.length_singleton]
    split <;> omega

/-- No pair is lost only if the keys are different. -/
theorem nodup_of_length_ofList (h : (ofList ps).length = ps.length) : (keys ps).Nodup := by
  induction ps using List.reverseRecOn with
  | nil => exact List.nodup_nil
  | append_singleton ps p ih =>
    have hle := length_ofList_le ps
    rw [ofList_concat, length_insert, List.length_append, List.length_singleton] at h
    split at h
    · omega
    · next hnew =>
      rw [keys_ofList, List.mem_eraseDups] at hnew
      have hps := ih (by omega)
      rw [keys, List.map_append, List.map_singleton, ← List.concat_eq_append]
      exact hps.concat hnew

theorem mem_of_mem_insert {p : String × α} (h : p ∈ insert key v ps) : p = (key, v) ∨ p ∈ ps := by
  induction ps with
  | nil => exact .inl (List.mem_singleton.1 h)
  | cons q ps ih =>
    unfold insert at h
    split at h
    · exact (List.mem_cons.1 h).imp_right (List.mem_cons_of_mem q)
    · obtain rfl | h := List.mem_cons.1 h
      · exact .inr List.mem_cons_self
      · exact (ih h).imp_right (List.mem_cons_of_mem q)

/-- A table has no pairs but those inserted. -/
theorem mem_of_mem_ofList {p : String × α} (h : p ∈ ofList ps) : p ∈ ps := by
  induction ps using List.reverseRecOn with
  | nil => exact h
  | append_singleton ps q ih =>
    rw [ofList_concat] at h
    obtain rfl | h := mem_of_mem_insert h
    · exact List.mem_append_right ps List.mem_cons_self
    · exact List.mem_append_left [q] (ih h)

theorem get?_of_mem (hnodup : (keys ps).Nodup) (h : (key, v) ∈ ps) : get? key ps = some v := by
  induction ps with
  | nil => cases h
  | cons p ps ih =>
    obtain ⟨k, w⟩ := p
    simp only [keys, List.map_cons, List.nodup_cons] at hnodup
    rw [get?_cons]
    obtain h | hmem := List.mem_cons.1 h
    · obtain ⟨rfl, rfl⟩ := Prod.mk.inj h
      exact if_pos rfl
    · have hne : key ≠ k := by
        rintro rfl
        exact hnodup.1 (List.mem_map_of_mem hmem)
      rw [if_neg hne]
      exact ih hnodup.2 hmem

/-- A key stands at most once. -/
theorem filter_key (hnodup : (keys ps).Nodup) (key : String) :
    ps.filter (fun p => p.1 = key) = ((get? key ps).map (key, ·)).toList := by
  induction ps with
  | nil => rfl
  | cons p ps ih =>
    obtain ⟨k, w⟩ := p
    simp only [keys, List.map_cons, List.nodup_cons] at hnodup
    rw [get?_cons]
    by_cases hk : k = key
    · subst hk
      have hrest : ps.filter (fun p => p.1 = k) = [] := by
        refine List.filter_eq_nil_iff.2 fun p hp => ?_
        have hne : p.1 ≠ k := fun he => hnodup.1 (he ▸ List.mem_map_of_mem hp)
        simpa using hne
      simp [hrest]
    · rw [List.filter_cons_of_neg (by simpa using hk), ih hnodup.2, if_neg (Ne.symm hk)]

end ApiTypes.Table
