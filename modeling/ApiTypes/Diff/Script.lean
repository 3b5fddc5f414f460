import ApiTypes.Diff.Edit
import ApiTypes.Diff.Middle

namespace ApiTypes.Diff

def replacing (old new : List String) : List Edit :=
  (if old.isEmpty then [] else [.delete old]) ++ (if new.isEmpty then [] else [.insert new])

def editsWithin : Nat → List String → List String → List Edit
  | 0, old, new => replacing old new
  | bound + 1, old, new =>
    let p := commonStart old new
    let oldRest := old.drop p
    let newRest := new.drop p
    let q := commonEnd oldRest newRest
    let a := oldRest.take (oldRest.length - q)
    let b := newRest.take (newRest.length - q)
    let inner :=
      if a.isEmpty ∨ b.isEmpty then replacing a b
      else
        match middle? a b with
        | some (x, y) =>
          editsWithin bound (a.take x) (b.take y) ++ editsWithin bound (a.drop x) (b.drop y)
        | none => replacing a b
    keeping (old.take p) ++ inner ++ keeping (oldRest.drop (oldRest.length - q))

/-- The edits between two lists.  Every division leaves less on both sides, so that there are at
most as many divisions, one inside the other, as there are lines. -/
def edits (old new : List String) : List Edit :=
  editsWithin (old.length + new.length + 1) old new

theorem before_replacing (old new : List String) : before (replacing old new) = old := by
  cases old <;> cases new <;> simp [replacing, before, Edit.old]

theorem after_replacing (old new : List String) : after (replacing old new) = new := by
  cases old <;> cases new <;> simp [replacing, after, Edit.new]

theorem before_editsWithin (bound : Nat) (old new : List String) :
    before (editsWithin bound old new) = old := by
  induction bound generalizing old new with
  | zero => exact before_replacing old new
  | succ bound ih =>
    simp only [editsWithin, before_append, before_keeping]
    split
    · simp only [before_replacing, List.append_assoc, List.take_append_drop]
    · split
      · simp only [before_append, ih, List.append_assoc, List.take_append_drop]
      · simp only [before_replacing, List.append_assoc, List.take_append_drop]

theorem after_editsWithin (bound : Nat) (old new : List String) :
    after (editsWithin bound old new) = new := by
  induction bound generalizing old new with
  | zero => exact after_replacing old new
  | succ bound ih =>
    simp only [editsWithin, after_append, after_keeping, take_commonStart old new,
      drop_commonEnd (old.drop (commonStart old new)) (new.drop (commonStart old new))]
    split
    · simp only [after_replacing, List.append_assoc, List.take_append_drop]
    · split
      · simp only [after_append, ih, List.append_assoc, List.take_append_drop]
      · simp only [after_replacing, List.append_assoc, List.take_append_drop]

/-- The edits lead from the old list to the new one. -/
theorem before_edits (old new : List String) : before (edits old new) = old :=
  before_editsWithin _ old new

theorem after_edits (old new : List String) : after (edits old new) = new :=
  after_editsWithin _ old new

end ApiTypes.Diff
