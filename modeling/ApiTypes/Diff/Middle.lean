/-!
A point where two lists of lines can be divided without making the shortest list of edits longer.
Edits are paths from one corner of a grid to the other, where a step along a diagonal keeps a line.
The search grows paths from both corners, one edit at a time, until two of them meet.  A diagonal is
told by how much further it is in the old list than in the new one.
-/

namespace ApiTypes.Diff

/-- How many lines two lists have in common from two positions on. -/
def runLength (as bs : Array String) (i j : Nat) : Nat :=
  if _ : i < as.size then
    if _ : j < bs.size then
      if as[i] = bs[j] then runLength as bs (i + 1) (j + 1) + 1 else 0
    else 0
  else 0
termination_by as.size - i

structure Reach where
  diagonal : Int
  /-- The position in the old list at which the last run of kept lines starts. -/
  start : Nat
  stop : Nat

/-- The positions to which one more edit leads, on diagonals from the highest to the lowest. `above`
is where the path on the diagonal above has come to, and the list tells the same of those below. -/
def steps : Option Nat → List Nat → List Nat
  | none, [] => [0]
  | some x, [] => [x]
  | none, y :: ys => (y + 1) :: steps (some y) ys
  | some x, y :: ys => (if y < x then x else y + 1) :: steps (some y) ys

def extend (as bs : Array String) (d : Nat) (rs : List Reach) : List Reach :=
  (steps none (rs.map Reach.stop)).mapIdx fun i x =>
    let k : Int := d - 2 * i
    ⟨k, x, x + runLength as bs x ((x - k).toNat)⟩

def reach? (rs : Array Reach) (k : Int) : Option Nat := do
  let top ← rs[0]?
  let gap := top.diagonal - k
  if gap < 0 then none else (rs[gap.toNat / 2]?).map Reach.stop

/-- The first path that meets one from the other corner, in lists of which the old one has `n` lines
and is by `delta` longer. -/
def meeting? (n : Nat) (delta : Int) (rs : List Reach) (others : Array Reach) : Option Reach :=
  rs.find? fun r => (reach? others (delta - r.diagonal)).any fun x => n ≤ r.stop + x

/-- Searches paths with `d` or more edits, in at most `bound` rounds. -/
def search? (as bs : Array String) (bound d : Nat) (forward backward : List Reach) :
    Option (Nat × Nat) :=
  match bound with
  | 0 => none
  | bound + 1 =>
    let n := as.size
    let delta : Int := (n : Int) - bs.size
    let forward := extend as bs d forward
    let met := if delta % 2 = 0 then none else meeting? n delta forward backward.toArray
    match met with
    | some r => some (r.start, (r.start - r.diagonal).toNat)
    | none =>
      let backward := extend as.reverse bs.reverse d backward
      let met := if delta % 2 = 0 then meeting? n delta backward forward.toArray else none
      match met with
      | some r => some (n - r.stop, bs.size - (r.stop - r.diagonal).toNat)
      | none => search? as bs bound (d + 1) forward backward

/-- A point on a shortest path, by the positions in both lists. -/
def middle? (old new : List String) : Option (Nat × Nat) :=
  let bound := (old.length + new.length + 1) / 2 + 1
  search? old.toArray new.toArray bound 0 [] []

end ApiTypes.Diff
