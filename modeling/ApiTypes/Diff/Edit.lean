namespace ApiTypes.Diff

inductive Edit where
  | keep (lines : List String)
  | delete (lines : List String)
  | insert (lines : List String)
  deriving DecidableEq, Repr

namespace Edit

def old : Edit → List String
  | keep ls | delete ls => ls
  | insert _ => []

def new : Edit → List String
  | keep ls | insert ls => ls
  | delete _ => []

end Edit

def before (es : List Edit) : List String :=
  es.flatMap Edit.old

def after (es : List Edit) : List String :=
  es.flatMap Edit.new

def keeping (ls : List String) : List Edit :=
  if ls.isEmpty then [] else [.keep ls]

def commonStart : List String → List String → Nat
  | a :: as, b :: bs => if a = b then commonStart as bs + 1 else 0
  | _, _ => 0

def commonEnd (as bs : List String) : Nat :=
  commonStart as.reverse bs.reverse

@[simp] theorem before_nil : before [] = [] := rfl

@[simp] theorem after_nil : after [] = [] := rfl

@[simp] theorem before_cons (e : Edit) (es : List Edit) :
    before (e :: es) = e.old ++ before es := by
  simp [before]

@[simp] theorem after_cons (e : Edit) (es : List Edit) : after (e :: es) = e.new ++ after es := by
  simp [after]

@[simp] theorem before_append (es fs : List Edit) : before (es ++ fs) = before es ++ before fs := by
  simp [before]

@[simp] theorem after_append (es fs : List Edit) : after (es ++ fs) = after es ++ after fs := by
  simp [after]

@[simp] theorem before_keeping (ls : List String) : before (keeping ls) = ls := by
  cases ls <;> simp [keeping, Edit.old, before]

@[simp] theorem after_keeping (ls : List String) : after (keeping ls) = ls := by
  cases ls <;> simp [keeping, Edit.new, after]

@[simp] theorem reverse_keeping (ls : List String) : (keeping ls).reverse = keeping ls := by
  cases ls <;> simp [keeping]

theorem take_commonStart (as bs : List String) :
    as.take (commonStart as bs) = bs.take (commonStart as bs) := by
  fun_induction commonStart as bs <;> simp_all

/-- The lines that two lists have in common at their ends are the same. -/
theorem drop_commonEnd (as bs : List String) :
    as.drop (as.length - commonEnd as bs) = bs.drop (bs.length - commonEnd as bs) := by
  have h := congrArg List.reverse (take_commonStart as.reverse bs.reverse)
  simpa only [commonEnd, List.take_reverse, List.reverse_reverse] using h

end ApiTypes.Diff
