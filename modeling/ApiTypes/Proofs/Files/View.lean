import ApiTypes.Files.Disk
import ApiTypes.Files.Memory
import ApiTypes.Proofs.Command.Following

namespace ApiTypes.Files

/-- What can be seen of a disk that stands still; nothing becomes of changes to it. -/
def Disk.view (d : Disk) : Access Id where
  read path := (d.read path).mapError Fault.reason
  isFile path := d.isFile path
  makeDirectory _ := .ok ()
  write _ _ := .ok ()

def Call.written? : Call → Option String
  | .write path => some path
  | _ => none

section noting

variable {σ α : Type}

def noted (call : Call) (a : StateM σ α) : StateM (σ × List Call) α := fun (s, calls) =>
  let (x, s) := a.run s
  (x, s, calls ++ [call])

def unnoted (a : StateM σ α) : StateM (σ × List Call) α := fun (s, calls) =>
  let (x, s) := a.run s
  (x, s, calls)

/-- The same access, where the calls that change something are written down. -/
def Access.noting (A : Access (StateM σ)) : Access (StateM (σ × List Call)) where
  read path := unnoted (A.read path)
  isFile path := unnoted (A.isFile path)
  makeDirectory path := noted (.makeDirectory path) (A.makeDirectory path)
  write path text := noted (.write path) (A.write path text)

def SameRun (a : StateM (σ × List Call) α) (b : StateM σ α) : Prop :=
  ∀ s calls, (a.run (s, calls)).1 = (b.run s).1 ∧ (a.run (s, calls)).2.1 = (b.run s).2

theorem follows_sameRun :
    Following (m := StateM (σ × List Call)) (n := StateM σ) SameRun where
  pure x s calls := ⟨rfl, rfl⟩
  bind := by
    intro α β a b f g hab hfg s calls
    obtain ⟨hx, hs⟩ := hab s calls
    have hrest := hfg (b.run s).1 (b.run s).2 (a.run (s, calls)).2.2
    have hstate : (a.run (s, calls)).2 = ((b.run s).2, (a.run (s, calls)).2.2) := by
      rw [← hs]
    show ((f (a.run (s, calls)).1).run (a.run (s, calls)).2).1 = _ ∧
      ((f (a.run (s, calls)).1).run (a.run (s, calls)).2).2.1 = _
    rw [hstate, hx]
    exact hrest

/-- Writing calls down changes nothing else. -/
theorem acts_noting (A : Access (StateM σ)) : Acts SameRun A.noting A where
  follows := follows_sameRun
  read _ _ _ := ⟨rfl, rfl⟩
  isFile _ _ _ := ⟨rfl, rfl⟩
  makeDirectory _ _ _ := ⟨rfl, rfl⟩
  write _ _ _ _ := ⟨rfl, rfl⟩

def faulted (call : Call) (a : StateM σ (Except String Unit)) :
    StateM (σ × List Call) (Except String Unit) := fun (s, calls) =>
  match a.run s with
  | (.ok _, s) => (.ok (), s, calls)
  | (.error reason, s) => (.error reason, s, calls ++ [call])

def Access.faulting (A : Access (StateM σ)) : Access (StateM (σ × List Call)) where
  read := A.noting.read
  isFile := A.noting.isFile
  makeDirectory path := faulted (.makeDirectory path) (A.makeDirectory path)
  write path text := faulted (.write path) (A.write path text)

theorem run_faulted (call : Call) (a : StateM σ (Except String Unit)) (s : σ)
    (calls : List Call) :
    (faulted call a).run (s, calls) = match a.run s with
      | (.ok _, s) => (.ok (), s, calls)
      | (.error reason, s) => (.error reason, s, calls ++ [call]) := rfl

theorem sameRun_faulted (call : Call) (a : StateM σ (Except String Unit)) :
    SameRun (faulted call a) a := by
  intro s calls
  rw [run_faulted]
  obtain ⟨r, s'⟩ := a.run s
  cases r <;> exact ⟨rfl, rfl⟩

theorem acts_faulting (A : Access (StateM σ)) : Acts SameRun A.faulting A where
  follows := follows_sameRun
  read := (acts_noting A).read
  isFile := (acts_noting A).isFile
  makeDirectory _ := sameRun_faulted _ _
  write _ _ := sameRun_faulted _ _

end noting

/-- Only looking: the answer is that of the disk that stands still, and nothing has changed. -/
def OnlyLooks {α : Type} (d : Disk) (a : StateM (Disk × List Call) α) (x : Id α) : Prop :=
  ∀ calls, a.run (d, calls) = (x, (d, calls))

/-- What only looks can be left out in front of something else. -/
theorem OnlyLooks.run_bind {α β : Type} {d : Disk} {a : StateM (Disk × List Call) α} {x : Id α}
    (h : OnlyLooks d a x) (f : α → StateM (Disk × List Call) β) (calls : List Call) :
    (a >>= f).run (d, calls) = (f x.run).run (d, calls) := by
  show (f (a.run (d, calls)).1).run (a.run (d, calls)).2 = _
  rw [h calls]
  rfl

theorem looks_view (d : Disk) : Looks (OnlyLooks d) Disk.access.noting d.view := by
  refine { follows := ⟨?_, ?_⟩, read := ?_, isFile := ?_ }
  · exact fun x calls => rfl
  · intro α β a x f g ha hf calls
    show (f (a.run (d, calls)).1).run (a.run (d, calls)).2 = _
    rw [ha calls]
    exact hf x calls
  · exact fun path calls => rfl
  · exact fun path calls => rfl

theorem looks_faulting (d : Disk) : Looks (OnlyLooks d) Disk.access.faulting d.view where
  follows := (looks_view d).follows
  read := (looks_view d).read
  isFile := (looks_view d).isFile

theorem read?_view (d : Disk) (path : String) : d.view.read? path = (d.read path).toOption := by
  show ((d.read path).mapError Fault.reason).toOption = _
  cases d.read path <;> rfl

theorem isFile_eq (d : Disk) (path : String) : d.isFile path = (d.read path).toOption.isSome := by
  unfold Disk.isFile
  cases d.read path <;> rfl

end ApiTypes.Files
