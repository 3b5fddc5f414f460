import ApiTypes.Command.Run

namespace ApiTypes

variable {m n : Type → Type} [Monad m] [Monad n]

/-- A relation between the actions of two monads that sequences keep. -/
structure Following (R : ∀ {α : Type}, m α → n α → Prop) : Prop where
  pure : ∀ {α : Type} (x : α), R (pure x) (pure x)
  bind : ∀ {α β : Type} {a : m α} {b : n α} {f : α → m β} {g : α → n β}, R a b →
    (∀ x, R (f x) (g x)) → R (a >>= f) (b >>= g)

structure Files.Looks (R : ∀ {α : Type}, m α → n α → Prop) (A : Files.Access m)
    (B : Files.Access n) : Prop where
  follows : Following (m := m) (n := n) R
  read : ∀ path, R (A.read path) (B.read path)
  isFile : ∀ path, R (A.isFile path) (B.isFile path)

structure Files.Acts (R : ∀ {α : Type}, m α → n α → Prop) (A : Files.Access m)
    (B : Files.Access n) : Prop extends Files.Looks R A B where
  makeDirectory : ∀ path, R (A.makeDirectory path) (B.makeDirectory path)
  write : ∀ path text, R (A.write path text) (B.write path text)

namespace Following

variable {R : ∀ {α : Type}, m α → n α → Prop} (F : Following (m := m) (n := n) R)

include F

theorem map {α β : Type} {a : m α} {b : n α} (h : R a b) (f : α → β) :
    R (do return f (← a)) (do return f (← b)) :=
  F.bind h fun x => F.pure (f x)

theorem findSomeM? {α β : Type} {f : α → m (Option β)} {g : α → n (Option β)}
    (h : ∀ x, R (f x) (g x)) (xs : List α) : R (xs.findSomeM? f) (xs.findSomeM? g) := by
  induction xs with
  | nil => exact F.pure none
  | cons x xs ih =>
    unfold List.findSomeM?
    apply F.bind (h x)
    intro found
    cases found with
    | some y => exact F.pure (some y)
    | none => exact ih

theorem foldlM {α β : Type} {f : β → α → m β} {g : β → α → n β} (h : ∀ y x, R (f y x) (g y x))
    (xs : List α) (y : β) : R (xs.foldlM f y) (xs.foldlM g y) := by
  induction xs generalizing y with
  | nil => exact F.pure y
  | cons x xs ih =>
    rw [List.foldlM_cons, List.foldlM_cons]
    exact F.bind (h y x) ih

variable [LawfulMonad m] [LawfulMonad n]

theorem mapM {α β : Type} {f : α → m β} {g : α → n β} (h : ∀ x, R (f x) (g x)) (xs : List α) :
    R (xs.mapM f) (xs.mapM g) := by
  induction xs with
  | nil => exact F.pure []
  | cons x xs ih =>
    rw [List.mapM_cons, List.mapM_cons]
    exact F.bind (h x) fun y => F.bind ih fun ys => F.pure (y :: ys)

end Following

namespace Files.Looks

variable {R : ∀ {α : Type}, m α → n α → Prop} {A : Files.Access m} {B : Files.Access n}
variable (L : Files.Looks R A B)

include L

theorem read? (path : String) : R (A.read? path) (B.read? path) :=
  L.follows.map (L.read path) _

theorem config_read (path : String) : R (Config.read A path) (Config.read B path) := by
  apply L.follows.bind (L.read path)
  intro r
  cases r with
  | error reason => exact L.follows.pure _
  | ok text => exact L.follows.pure _

theorem config_discover (workDir : String) (named : Option String) :
    R (Config.discover A workDir named) (Config.discover B workDir named) := by
  cases named with
  | some path => exact L.config_read path
  | none =>
    apply L.follows.bind (L.isFile _)
    intro found
    cases found with
    | true => exact L.config_read _
    | false => exact L.follows.pure _

theorem readInput (path : String) : R (Command.readInput A path) (Command.readInput B path) := by
  have hset : R (Route.RouteSet.read A path) (Route.RouteSet.read B path) := by
    apply L.follows.bind (L.read path)
    intro r
    cases r with
    | error reason => exact L.follows.pure _
    | ok text => exact L.follows.pure _
  apply L.follows.bind hset
  intro r
  cases r with
  | error e => exact L.follows.pure _
  | ok set => exact L.follows.pure _

theorem style_resolve (workDir : String) (o : Options) :
    R (Style.resolve A.read? workDir o) (Style.resolve B.read? workDir o) := by
  unfold Style.resolve
  split
  · split
    · exact L.follows.pure _
    · apply L.follows.map
      exact L.follows.findSomeM? (fun above => L.follows.findSomeM? (fun name =>
        L.follows.map (L.read? _) _) _) _
  · exact L.follows.pure none

theorem render (workDir : String) (rs : Route.Routes) (ds : List (String × Json))
    (s : Output.Settings) :
    R (Output.render A.read? workDir rs ds s) (Output.render B.read? workDir rs ds s) := by
  unfold Output.render
  split
  · exact L.follows.pure _
  · exact L.follows.map (L.style_resolve workDir s.options) _

theorem changes (path text : String) :
    R (Command.changes A path text) (Command.changes B path text) :=
  L.follows.map (L.read? path) _

theorem isCurrent (t : Files.Task) : R (t.isCurrent A) (t.isCurrent B) :=
  L.follows.map (L.read? t.path) _

variable [LawfulMonad m] [LawfulMonad n]

theorem check (workDir : String) (rs : Route.Routes) (ds : List (String × Json))
    (s : Output.Settings) (schemaOut : Option String) :
    R (Command.check A workDir rs ds s schemaOut) (Command.check B workDir rs ds s schemaOut) := by
  apply L.follows.bind (L.render workDir rs ds s)
  intro r
  cases r with
  | error e => exact L.follows.pure _
  | ok rendered =>
    obtain ⟨compiled, texts⟩ := rendered
    refine L.follows.bind (L.follows.mapM ?_ _) fun reports => ?_
    · rintro ⟨path, text⟩
      exact L.changes path text
    · split
      · exact L.follows.pure _
      · exact L.follows.pure _

end Files.Looks

namespace Files.Acts

variable {R : ∀ {α : Type}, m α → n α → Prop} {A : Files.Access m} {B : Files.Access n}
variable (L : Files.Acts R A B)

include L

theorem makeParent (t : Files.Task) : R (t.makeParent A) (t.makeParent B) := by
  unfold Files.Task.makeParent
  split
  · exact L.follows.pure _
  · exact L.follows.map (L.makeDirectory _) _

theorem put (t : Files.Task) : R (t.put A) (t.put B) :=
  L.follows.map (L.write t.path t.text) _

theorem task_save (t : Files.Task) : R (t.save A) (t.save B) := by
  apply L.follows.bind (L.isCurrent t)
  intro current
  cases current with
  | true => exact L.follows.pure _
  | false =>
    apply L.follows.bind (L.makeParent t)
    intro made
    cases made with
    | error e => exact L.follows.pure _
    | ok _ => exact L.follows.map (L.put t) _

theorem save (workDir path text : String) :
    R (Files.save A workDir path text) (Files.save B workDir path text) := by
  unfold Files.save
  split
  · exact L.task_save _
  · exact L.follows.pure _

theorem step (s : Files.Saving) : R (s.step A) (s.step B) := by
  have hstage : R (s.nextStage A) (s.nextStage B) := by
    unfold Files.Saving.nextStage
    split
    · exact L.follows.map (L.isCurrent _) _
    · apply L.follows.bind (L.makeParent _)
      intro made
      cases made <;> exact L.follows.pure _
    · apply L.follows.bind (L.put _)
      intro done
      cases done <;> exact L.follows.pure _
    · exact L.follows.pure _
  exact L.follows.map hstage _

theorem stepAt (saves : List Files.Saving) (place : Nat) :
    R (Files.stepAt A saves place) (Files.stepAt B saves place) := by
  unfold Files.stepAt
  split
  · exact L.follows.map (L.step _) _
  · exact L.follows.pure saves

theorem rounds (rs : List (List Nat)) (saves : List Files.Saving) :
    R (Files.rounds A rs saves) (Files.rounds B rs saves) := by
  induction rs generalizing saves with
  | nil => exact L.follows.pure saves
  | cons places rs ih =>
    unfold Files.rounds
    split
    · exact L.follows.pure saves
    · exact L.follows.bind (L.follows.foldlM L.stepAt places saves) ih

theorem saveAll (schedule : Files.Schedule) (workDir : String) (files : List (String × String)) :
    R (Files.saveAll A schedule workDir files) (Files.saveAll B schedule workDir files) :=
  L.follows.map (L.rounds _ _) _

theorem extractIn (schedule : Files.Schedule) (workDir : String) (rs : Route.Routes)
    (ds : List (String × Json)) (s : Output.Settings)
    (accept : Option (Json → Except String Unit)) :
    R (Output.extractIn A schedule workDir rs ds s accept)
      (Output.extractIn B schedule workDir rs ds s accept) := by
  unfold Output.extractIn
  split
  · apply L.follows.bind (L.render workDir rs ds s)
    intro r
    cases r with
    | error e => exact L.follows.pure _
    | ok rendered =>
      dsimp only
      split
      · exact L.follows.pure _
      · exact L.follows.map (L.saveAll schedule workDir _) _
  · exact L.follows.pure _

theorem command_write (schedule : Files.Schedule) (workDir : String) (rs : Route.Routes)
    (ds : List (String × Json)) (s : Output.Settings) (schemaOut : Option String) :
    R (Command.write A schedule workDir rs ds s schemaOut)
      (Command.write B schedule workDir rs ds s schemaOut) := by
  apply L.follows.bind (L.extractIn schedule workDir rs ds s _)
  intro run
  split
  · exact L.follows.pure _
  · apply L.follows.bind (L.save workDir _ _)
    intro saved
    cases saved <;> exact L.follows.pure _
  · exact L.follows.pure _

variable [LawfulMonad m] [LawfulMonad n]

/-- Generating over accesses that follow each other. -/
theorem generate (schedule : Files.Schedule) (workDir : String) (o : Command.GenerateOptions) :
    R (Command.generate A schedule workDir o) (Command.generate B schedule workDir o) := by
  apply L.follows.bind (L.config_discover workDir o.config)
  intro found
  cases found with
  | error e => exact L.follows.pure _
  | ok config =>
    dsimp only
    split
    · exact L.follows.pure _
    · split
      · exact L.follows.pure _
      · split
        · exact L.follows.pure _
        · apply L.follows.bind (L.readInput o.input)
          intro input
          cases input with
          | error f => exact L.follows.pure _
          | ok parts =>
            dsimp only
            split
            · exact L.check workDir _ _ _ _
            · exact L.command_write schedule workDir _ _ _ _

end Files.Acts

end ApiTypes
