import ApiTypes.Diff.Edit

/-!
Sliding of insertions.  An insertion can be moved past kept lines if it ends with the same lines, or
starts with them.  Insertions are moved up as far as possible, where they may meet and join others,
and then down again; so they come to stand as low as possible.
-/

namespace ApiTypes.Diff

/-- An insertion between the edits above it, the nearest first, and those below it. -/
structure Cursor where
  above : List Edit
  lines : List String
  below : List Edit

def Cursor.edits (c : Cursor) : List Edit :=
  c.above.reverse ++ .insert c.lines :: c.below

/-- How many steps edits can take part in. -/
def weight : List Edit → Nat
  | [] => 0
  | e :: es => e.old.length + e.new.length + 1 + weight es

def Cursor.up : Nat → Cursor → Cursor
  | 0, c => c
  | bound + 1, ⟨above, ls, below⟩ =>
    match above with
    | [] => ⟨above, ls, below⟩
    | .delete ds :: above => up bound ⟨above, ls, .delete ds :: below⟩
    | .insert is :: above => up bound ⟨above, is ++ ls, below⟩
    | .keep ks :: above =>
      let n := commonEnd ks ls
      if n = 0 then ⟨.keep ks :: above, ls, below⟩
      else
        let moved := ks.drop (ks.length - n)
        let above := keeping (ks.take (ks.length - n)) ++ above
        up bound ⟨above, moved ++ ls.take (ls.length - n), .keep moved :: below⟩

def Cursor.down : Nat → Cursor → Cursor
  | 0, c => c
  | bound + 1, ⟨above, ls, below⟩ =>
    match below with
    | [] => ⟨above, ls, below⟩
    | .delete ds :: below => down bound ⟨.delete ds :: above, ls, below⟩
    | .insert is :: below => down bound ⟨above, ls ++ is, below⟩
    | .keep ks :: below =>
      let n := commonStart ks ls
      if n = 0 then ⟨above, ls, .keep ks :: below⟩
      else
        let below := keeping (ks.drop n) ++ below
        down bound ⟨.keep (ks.take n) :: above, ls.drop n ++ ks.take n, below⟩

theorem Cursor.before_up (bound : Nat) (c : Cursor) :
    before (up bound c).edits = before c.edits := by
  fun_induction up bound c with
  | case1 | case2 | case5 => rfl
  | case3 _ _ _ _ _ ih | case4 _ _ _ _ _ ih =>
    rw [ih]
    simp [edits, Edit.old]
  | case6 bound ls below ks above n _ moved above' ih =>
    have h : ks.take (ks.length - n) ++ moved = ks := List.take_append_drop _ ks
    rw [ih]
    clear_value moved
    have hm : ks.take (ks.length - n) ++ (moved ++ before below) = ks ++ before below := by
      rw [← List.append_assoc, h]
    simp [edits, above', Edit.old, hm]

theorem Cursor.after_up (bound : Nat) (c : Cursor) :
    after (up bound c).edits = after c.edits := by
  fun_induction up bound c with
  | case1 | case2 | case5 => rfl
  | case3 _ _ _ _ _ ih | case4 _ _ _ _ _ ih =>
    rw [ih]
    simp [edits, Edit.new]
  | case6 bound ls below ks above n _ moved above' ih =>
    -- the lines that the insertion is moved past are the ones at its own end
    have h : ks.take (ks.length - n) ++ moved = ks := List.take_append_drop _ ks
    have hl : ls.take (ls.length - n) ++ moved = ls := by
      rw [show moved = ls.drop (ls.length - n) from drop_commonEnd ks ls, List.take_append_drop]
    rw [ih]
    clear_value moved
    have hm : moved ++ (ls.take (ls.length - n) ++ (moved ++ after below)) =
        moved ++ (ls ++ after below) := by
      rw [← List.append_assoc (ls.take _), hl]
    simp only [edits, above', Edit.new, after_append, after_cons, List.reverse_append,
      List.reverse_cons, reverse_keeping, after_keeping, List.append_assoc, hm]
    simp only [after, List.flatMap_nil, List.nil_append, ← List.append_assoc, h]

theorem Cursor.before_down (bound : Nat) (c : Cursor) :
    before (down bound c).edits = before c.edits := by
  fun_induction down bound c with
  | case1 | case2 | case5 => rfl
  | case3 _ _ _ _ _ ih | case4 _ _ _ _ _ ih =>
    rw [ih]
    simp [edits, Edit.old]
  | case6 bound above ls ks below n _ below' ih =>
    have h : ks.take n ++ (ks.drop n ++ before below) = ks ++ before below := by
      rw [← List.append_assoc, List.take_append_drop]
    rw [ih]
    simp [edits, below', Edit.old, h]

theorem Cursor.after_down (bound : Nat) (c : Cursor) :
    after (down bound c).edits = after c.edits := by
  fun_induction down bound c with
  | case1 | case2 | case5 => rfl
  | case3 _ _ _ _ _ ih | case4 _ _ _ _ _ ih =>
    rw [ih]
    simp [edits, Edit.new]
  | case6 bound above ls ks below n _ below' ih =>
    have h : ks.take n = ls.take n := take_commonStart ks ls
    have hl : ks.take n ++ (ls.drop n ++ (ks.take n ++ (ks.drop n ++ after below))) =
        ls ++ (ks ++ after below) := by
      rw [← List.append_assoc _ (ks.drop n), List.take_append_drop, h, ← List.append_assoc,
        List.take_append_drop]
    rw [ih]
    simp [edits, below', Edit.new, hl]

/-- Slides the insertions among the edits below, of which at most `bound` are looked at. -/
def slideFrom : Nat → List Edit → List Edit → List Edit
  | 0, above, below => above.reverse ++ below
  | _, above, [] => above.reverse
  | bound + 1, above, .insert ls :: below =>
    let c := Cursor.up (weight above) ⟨above, ls, below⟩
    let c := Cursor.down (weight c.below) c
    slideFrom bound (.insert c.lines :: c.above) c.below
  | bound + 1, above, e :: below => slideFrom bound (e :: above) below

theorem before_slideFrom (bound : Nat) (above below : List Edit) :
    before (slideFrom bound above below) = before (above.reverse ++ below) := by
  fun_induction slideFrom bound above below with
  | case1 | case2 => simp
  | case3 bound above ls below up down ih =>
    have h : before down.edits = before (above.reverse ++ .insert ls :: below) :=
      (Cursor.before_down _ _).trans (Cursor.before_up _ _)
    rw [ih, ← h]
    simp [Cursor.edits]
  | case4 _ _ _ _ _ ih => simpa using ih

theorem after_slideFrom (bound : Nat) (above below : List Edit) :
    after (slideFrom bound above below) = after (above.reverse ++ below) := by
  fun_induction slideFrom bound above below with
  | case1 | case2 => simp
  | case3 bound above ls below up down ih =>
    have h : after down.edits = after (above.reverse ++ .insert ls :: below) :=
      (Cursor.after_down _ _).trans (Cursor.after_up _ _)
    rw [ih, ← h]
    simp [Cursor.edits]
  | case4 _ _ _ _ _ ih => simpa using ih

/-- The deletions of a run of edits that keep nothing, put together and behind the insertions. -/
def deletionsLast (run : List Edit) : List Edit :=
  let inserts := run.filter fun e => e.old.isEmpty
  let deleted := before run
  if deleted.isEmpty then inserts else inserts ++ [.delete deleted]

/-- Puts the deletions between kept lines behind the insertions there; `run` are the edits since the
last kept lines. -/
def orderRuns (run : List Edit) : List Edit → List Edit
  | [] => deletionsLast run
  | .keep ks :: es => deletionsLast run ++ .keep ks :: orderRuns [] es
  | e :: es => orderRuns (run ++ [e]) es

def slide (es : List Edit) : List Edit :=
  let bound := (weight es + 1) * (weight es + 1)
  slideFrom bound [] (orderRuns [] es)

theorem before_deletionsLast (run : List Edit) : before (deletionsLast run) = before run := by
  have h : before (run.filter fun e => e.old.isEmpty) = [] := by
    simp [before]
  by_cases hd : before run = []
  · simp [deletionsLast, h, hd]
  · simp [deletionsLast, h, hd]
    rfl

theorem after_deletionsLast {run : List Edit} (h : ∀ e ∈ run, e.old = [] ∨ e.new = []) :
    after (deletionsLast run) = after run := by
  have hi : after (run.filter fun e => e.old.isEmpty) = after run := by
    induction run with
    | nil => rfl
    | cons e run ih =>
      have ih := ih fun f hf => h f (List.mem_cons_of_mem _ hf)
      cases he : e.old <;> have := h e List.mem_cons_self <;> simp_all
  by_cases hd : before run = []
  · simp [deletionsLast, hi, hd]
  · simp [deletionsLast, hi, hd]
    rfl

theorem before_orderRuns (run es : List Edit) : before (orderRuns run es) = before (run ++ es) := by
  fun_induction orderRuns run es with
  | case1 run => simp [before_deletionsLast]
  | case2 run ks es ih => simp [before_deletionsLast, ih]
  | case3 run e es _ ih => simpa using ih

theorem after_orderRuns {run : List Edit} (h : ∀ e ∈ run, e.old = [] ∨ e.new = [])
    (es : List Edit) : after (orderRuns run es) = after (run ++ es) := by
  fun_induction orderRuns run es with
  | case1 run => simp [after_deletionsLast h]
  | case2 run ks es ih => simp [after_deletionsLast h, ih]
  | case3 run e es he ih =>
    have hs : e.old = [] ∨ e.new = [] := by
      cases e <;> simp_all [Edit.old, Edit.new]
    simpa using ih fun f hf => by
      rcases List.mem_append.1 hf with hf | hf
      · exact h f hf
      · exact List.mem_singleton.1 hf ▸ hs

/-- Sliding changes neither the list that edits start from nor the one that they lead to. -/
theorem before_slide (es : List Edit) : before (slide es) = before es := by
  simp [slide, before_slideFrom, before_orderRuns]

theorem after_slide (es : List Edit) : after (slide es) = after es := by
  simp [slide, after_slideFrom, after_orderRuns]

end ApiTypes.Diff
