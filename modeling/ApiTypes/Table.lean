namespace ApiTypes.Table

variable {α β : Type}

def get? (key : String) (t : List (String × α)) : Option α :=
  t.lookup key

def contains (key : String) (t : List (String × α)) : Bool :=
  (get? key t).isSome

def keys (t : List (String × α)) : List String :=
  t.map Prod.fst

/-- A key that is already there keeps its position and gets the new value. -/
def insert (key : String) (value : α) : List (String × α) → List (String × α)
  | [] => [(key, value)]
  | (k, v) :: t => if k = key then (key, value) :: t else (k, v) :: insert key value t

def ofList (pairs : List (String × α)) : List (String × α) :=
  pairs.foldl (fun t (k, v) => insert k v t) []

@[simp] theorem get?_nil (key : String) : get? key ([] : List (String × α)) = none := rfl

theorem get?_cons (key k : String) (v : α) (t : List (String × α)) :
    get? key ((k, v) :: t) = if key = k then some v else get? key t := by
  by_cases h : key = k
  · simp [get?, h]
  · simp [get?, List.lookup_cons, h, beq_eq_false_iff_ne.2 h]

theorem get?_insert (key k : String) (v : α) (t : List (String × α)) :
    get? key (insert k v t) = if key = k then some v else get? key t := by
  induction t with
  | nil => simp [insert, get?_cons]
  | cons p t ih =>
    obtain ⟨k', v'⟩ := p
    by_cases h : k' = k
    · by_cases hk : key = k <;> simp [insert, get?_cons, h, hk]
    · by_cases hk : key = k'
      · simp [insert, get?_cons, h, hk]
      · simp [insert, get?_cons, h, hk, ih]

theorem mem_keys_iff {key : String} {t : List (String × α)} :
    key ∈ keys t ↔ contains key t = true := by
  induction t with
  | nil => simp [keys, contains]
  | cons p t ih =>
    obtain ⟨k, v⟩ := p
    by_cases h : key = k <;> simp_all [keys, contains, get?_cons]

theorem keys_insert (key : String) (v : α) (t : List (String × α)) :
    keys (insert key v t) = if key ∈ keys t then keys t else keys t ++ [key] := by
  induction t with
  | nil => simp [insert, keys]
  | cons p t ih =>
    obtain ⟨k, w⟩ := p
    simp only [keys] at ih ⊢
    by_cases h : k = key
    · simp [insert, h]
    · simp only [insert, h, if_false, List.map_cons, ih, List.mem_cons, Ne.symm h, false_or]
      split <;> simp_all

end ApiTypes.Table
