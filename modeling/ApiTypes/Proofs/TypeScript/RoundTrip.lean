import ApiTypes.Proofs.Lists
import ApiTypes.Proofs.TypeScript.Grammar

namespace ApiTypes.TypeScript

namespace TypeExpr

theorem bareList_eq_map (ts : List TypeExpr) : bareList ts = ts.map bare := by
  induction ts with
  | nil => rfl
  | cons t ts ih => simp [bareList, ih]

theorem Normal.of_occurs {t t' : TypeExpr} (h : t'.Normal) (hsub : ∀ u, Occurs u t → Occurs u t') :
    t.Normal where
  real x hx := h.real x (hsub _ hx)
  union ms hms := h.union ms (hsub _ hms)
  intersection ms hms := h.intersection ms (hsub _ hms)
  names n hn := h.names n (hsub _ hn)

theorem Normal.readable {t : TypeExpr} (h : t.Normal) : t.Readable where
  real := h.real
  names n hn := by
    obtain ⟨hint, rfl⟩ := h.names n hn
    exact isIdentifier_safeName hint

end TypeExpr

section names

theorem wordType_safeName (hint : String) :
    Grammar.wordType (safeName hint) = .named (safeName hint) := by
  have hne : ∀ w : String, (∃ c ∈ w.toList.head?, c.isLower) → safeName hint ≠ w := by
    rintro w ⟨c, hc, hlower⟩ rfl
    exact not_isLower_head?_safeName hint c hc hlower
  have hkeyword : Keyword.ofText? (safeName hint) = none := by
    refine List.find?_eq_none.2 fun k _ hk => ?_
    have hlower : ∃ c ∈ k.text.toList.head?, c.isLower := by
      cases k <;> exact ⟨_, rfl, by decide⟩
    exact hne k.text hlower (beq_iff_eq.1 hk).symm
  have htrue := hne "true" ⟨'t', rfl, by decide⟩
  have hfalse := hne "false" ⟨'f', rfl, by decide⟩
  simp [Grammar.wordType, hkeyword, htrue, hfalse]

end names

namespace TypeExpr

variable {t : TypeExpr}

theorem Normal.factors_bare_ne_nil (h : t.Normal) : t.bare.factors ≠ [] := by
  induction t using TypeExpr.induction with
  | intersection ms ih =>
    have hms := h.intersection ms .self
    cases ms with
    | nil => cases hms
    | cons m ms =>
      have hm := ih m List.mem_cons_self (h.of_occurs fun _ => .intersection List.mem_cons_self)
      rw [bare, bareList, List.flatMap_cons, factors]
      exact List.append_ne_nil_of_left_ne_nil hm _
  | literal l => cases l <;> simp [bare, factors]
  | _ => simp [bare, factors]

theorem joined_of_length {ts : List TypeExpr} (h : 2 ≤ ts.length)
    (make : List TypeExpr → TypeExpr) : Grammar.joined make ts = make ts := by
  match ts, h with
  | _ :: _ :: _, _ => rfl

theorem Normal.joined_factors (h : t.Normal) :
    Grammar.joined .intersection t.bare.factors = t.bare := by
  cases t with
  | intersection ms =>
    have hlength : (bareList ms).length ≤ ((bareList ms).flatMap factors).length := by
      refine List.length_le_flatMap fun x hx => ?_
      rw [bareList_eq_map] at hx
      obtain ⟨m, hm, rfl⟩ := List.mem_map.1 hx
      exact Normal.factors_bare_ne_nil (h.of_occurs fun _ => .intersection hm)
    rw [bareList_eq_map, List.length_map] at hlength
    simp only [bare, factors]
    rw [bareList_eq_map]
    exact joined_of_length ((h.intersection ms .self).trans hlength) _
  | literal l => cases l <;> rfl
  | _ => rfl

end TypeExpr

namespace Grammar

/-- The tokens do not go on with one of the symbols `cs`. -/
def Stops (cs : List Char) (rest : List Token) : Prop :=
  ∀ c ∈ cs, rest.head? ≠ some (.symbol c)

section readers

variable {α β : Type} {c : Char} {cs : List Char} {item : Reader α} {u rest r : List Token}
  {xs : List α} {k : Nat}

theorem Stops.mono {cs' : List Char} (h : Stops cs rest) (hsub : cs' ⊆ cs) : Stops cs' rest :=
  fun c hc => h c (hsub hc)

theorem stops_cons (h : c ∉ cs) (rest : List Token) : Stops cs (.symbol c :: rest) := by
  rintro d hd heq
  cases heq
  exact h hd

theorem after?_symbol (c : Char) (rest : List Token) :
    after? c (.symbol c :: rest) = some rest := by
  simp [after?]

theorem after?_eq_none (h : rest.head? ≠ some (.symbol c)) : after? c rest = none := by
  unfold after?
  split
  · next d _ => rw [if_neg (by rintro rfl; exact h rfl)]
  · rfl

theorem more_of_stops (h : Stops [c] rest) (m : Nat) : more c item m rest = some ([], rest) := by
  cases m with
  | zero => rfl
  | succ m => rw [more, after?_eq_none (h c List.mem_cons_self)]

theorem more_symbol (m : Nat) (rest : List Token) :
    more c item (m + 1) (.symbol c :: rest) = separated c item m rest := by
  rw [more, after?_symbol]
  rfl

/-- The tokens `us` are read as the items `ys` and whatever items stand behind them. -/
def ReadsItems (c : Char) (item : Reader α) (cs : List Char) (us : List Token) (ys : List α) :
    Prop :=
  ∀ ⦃rest r : List Token⦄ ⦃xs : List α⦄ ⦃k : Nat⦄, Stops cs rest →
    (∀ m ≥ k, more c item m rest = some (xs, r)) →
    ∀ m ≥ k + us.length, separated c item m (us ++ rest) = some (ys ++ xs, r)

theorem readsItems_single {x : α} (hx : ∀ rest, Stops cs rest → item (u ++ rest) = some (x, rest)) :
    ReadsItems c item cs u [x] := by
  intro rest r xs k hrest hmore m hm
  simp [separated, hx rest hrest, hmore m (Nat.le_of_add_right_le hm)]

theorem ReadsItems.append {us vs : List Token} {ys zs : List α}
    (hus : ReadsItems c item cs us ys) (hvs : ReadsItems c item cs vs zs) (hc : c ∉ cs) :
    ReadsItems c item cs (us ++ .symbol c :: vs) (ys ++ zs) := by
  intro rest r xs k hrest hmore m hm
  have hbehind : ∀ m ≥ k + vs.length + 1, more c item m (.symbol c :: (vs ++ rest)) =
      some (zs ++ xs, r) := by
    intro m hm
    obtain ⟨m, rfl⟩ := Nat.exists_eq_add_of_le' (Nat.le_of_add_left_le hm)
    rw [more_symbol]
    exact hvs hrest hmore m (by omega)
  simp only [List.length_append, List.length_cons] at hm
  have := hus (stops_cons hc _) hbehind m (by omega)
  simpa using this

theorem readsItems_intercalate {bs : List β} {tokens : β → List Token} {value : β → List α}
    (hne : bs ≠ []) (hc : c ∉ cs) (h : ∀ b ∈ bs, ReadsItems c item cs (tokens b) (value b)) :
    ReadsItems c item cs ([.symbol c].intercalate (bs.map tokens)) (bs.flatMap value) := by
  induction bs with
  | nil => exact absurd rfl hne
  | cons b bs ih =>
    have hb := h b List.mem_cons_self
    cases bs with
    | nil => simpa using hb
    | cons d ds =>
      have := hb.append (ih (by simp) fun x hx => h x (List.mem_cons_of_mem b hx)) hc
      simpa using this

theorem ReadsItems.separated {us : List Token} {ys : List α} {n : Nat}
    (h : ReadsItems c item cs us ys) (hrest : Stops (c :: cs) rest) (hn : us.length ≤ n) :
    separated c item n (us ++ rest) = some (ys, rest) := by
  have hmore : ∀ m ≥ 0, more c item m rest = some ([], rest) := fun m _ =>
    more_of_stops (hrest.mono (by simp)) m
  simpa using h (hrest.mono (List.subset_cons_self c cs)) hmore n (by omega)

theorem followedBy_symbol {x : α} (h : item u = some (x, .symbol c :: rest)) :
    followedBy c item u = some (x, rest) := by
  simp [followedBy, h, after?_symbol]

end readers

section types

variable {t u : TypeExpr} {us rest : List Token} {n : Nat}

def ReadsArray (us : List Token) (u : TypeExpr) : Prop :=
  ∀ n rest, us.length ≤ n → arrayType (typeAt n) n (us ++ rest) = some (arrays u rest)

def ReadsFactors (us : List Token) (fs : List TypeExpr) : Prop :=
  ∀ n, us.length ≤ n → ReadsItems '&' (arrayType (typeAt n) n) ['['] us fs

def ReadsType (us : List Token) (u : TypeExpr) : Prop :=
  ∀ n rest, us.length < n → Stops ['[', '&', '|'] rest → typeAt n (us ++ rest) = some (u, rest)

theorem arrays_of_stops (h : Stops ['['] rest) (u : TypeExpr) : arrays u rest = (u, rest) := by
  unfold arrays
  split
  · exact absurd rfl (h '[' List.mem_cons_self)
  · rfl

theorem ReadsArray.readsFactors (h : ReadsArray us u) : ReadsFactors us [u] := by
  intro n hn
  refine readsItems_single fun rest hrest => ?_
  rw [h n rest hn, arrays_of_stops hrest]

theorem ReadsFactors.intersectionType {fs : List TypeExpr} (h : ReadsFactors us fs)
    (hn : us.length ≤ n) (hrest : Stops ['&', '['] rest) :
    intersectionType (typeAt n) n (us ++ rest) = some (joined .intersection fs, rest) := by
  rw [Grammar.intersectionType, (h n hn).separated hrest hn]
  rfl

theorem ReadsFactors.readsType {fs : List TypeExpr} (h : ReadsFactors us fs) :
    ReadsType us (joined .intersection fs) := by
  intro n rest hn hrest
  obtain ⟨n, rfl⟩ := Nat.exists_eq_add_one_of_ne_zero (Nat.ne_zero_of_lt hn)
  have hn := Nat.le_of_lt_succ hn
  have hitem : ReadsItems '|' (Grammar.intersectionType (typeAt n) n) ['&', '['] us
      [joined .intersection fs] :=
    readsItems_single fun rest hrest => h.intersectionType hn hrest
  rw [typeAt, unionType, hitem.separated (hrest.mono (by simp)) hn]
  rfl

theorem ReadsType.grouped (h : ReadsType us u) : ReadsArray (groupedTokens true us) u := by
  intro n rest hn
  simp only [groupedTokens, if_true, List.length_append, List.length_cons] at hn
  have hinner := h n (.symbol ')' :: rest) (by omega) (stops_cons (by decide) rest)
  simp [groupedTokens, arrayType, primary, followedBy_symbol hinner]

/-- A type is read from its tokens, alone and as a part of other types. -/
structure Reads (t : TypeExpr) : Prop where
  type : ReadsType t.tokens t.bare
  factors : t.isUnion = false → ReadsFactors t.tokens t.bare.factors
  array : t.isCompound = false → ReadsArray t.tokens t.bare

theorem factors_bare_of_isCompound (h : t.isCompound = false) : t.bare.factors = [t.bare] := by
  cases t with
  | literal l => cases l <;> rfl
  | union ms => cases h
  | intersection ms => cases h
  | _ => rfl

theorem Reads.of_factors (ht : t.Normal) (h : ReadsFactors t.tokens t.bare.factors)
    (harray : t.isCompound = false → ReadsArray t.tokens t.bare) : Reads t where
  type := ht.joined_factors ▸ h.readsType
  factors _ := h
  array := harray

theorem Reads.of_array (ht : t.Normal) (hc : t.isCompound = false)
    (h : ReadsArray t.tokens t.bare) : Reads t :=
  .of_factors ht (factors_bare_of_isCompound hc ▸ h.readsFactors) fun _ => h

theorem Reads.groupedArray (h : Reads t) :
    ReadsArray (groupedTokens t.isCompound t.tokens) t.bare := by
  cases hc : t.isCompound with
  | true => exact h.type.grouped
  | false => exact h.array hc

theorem Reads.groupedFactors (h : Reads t) :
    ReadsFactors (groupedTokens t.isUnion t.tokens) t.bare.factors := by
  cases hu : t.isUnion with
  | true =>
    have hfactors : t.bare.factors = [t.bare] := by
      cases t with
      | union ms => rfl
      | _ => cases hu
    rw [hfactors]
    exact h.type.grouped.readsFactors
  | false => exact h.factors hu

theorem length_le_length_intercalate {α : Type} {c : Token} {xs : List α} {f : α → List Token}
    {x : α} (hx : x ∈ xs) : (f x).length ≤ ([c].intercalate (xs.map f)).length :=
  (infix_intercalate (List.mem_map_of_mem hx)).length_le

theorem typeAt_bracket (n : Nat) (ts : List Token) : typeAt n (.symbol ']' :: ts) = none := by
  cases n with
  | zero => rfl
  | succ n =>
    simp [typeAt, unionType, separated, Grammar.intersectionType, arrayType, primary]

theorem reads_keyword (k : Keyword) : ReadsArray [.word k.text] (.keyword k) := by
  intro n rest _
  simp [arrayType, primary, wordType, Keyword.ofText?_text]

theorem reads_literal {l : Literal} (hl : ∀ x, l ≠ .real x) :
    ReadsArray l.tokens (TypeExpr.literal l).bare := by
  intro n rest _
  cases l with
  | string s => simp [Literal.tokens, arrayType, primary, TypeExpr.bare]
  | real x => exact absurd rfl (hl x)
  | integer k =>
    cases k with
    | ofNat k =>
      have hk : ¬ (k : Int) < 0 := by omega
      simp [Literal.tokens, hk, arrayType, primary, TypeExpr.bare]
    | negSucc k =>
      simpa [Literal.tokens, arrayType, primary, TypeExpr.bare] using
        congrArg (fun i => arrays (.literal (.integer i)) rest) (Int.negSucc_eq k).symm
  | bool b => cases b <;> rfl
  | null => rfl

theorem reads_tuple {items : List TypeExpr} (h : ∀ t ∈ items, Reads t) :
    ReadsArray (TypeExpr.tuple items).tokens (TypeExpr.tuple items).bare := by
  intro n rest hn
  rw [TypeExpr.tokens, TypeExpr.tokensOf_eq_map] at hn ⊢
  rw [TypeExpr.bare, TypeExpr.bareList_eq_map]
  by_cases hne : items = []
  · simp [hne, arrayType, primary, after?_symbol]
  set us := [Token.symbol ','].intercalate (items.map TypeExpr.tokens) with hus
  simp only [List.length_append, List.length_cons] at hn
  have hitems : ReadsItems ',' (typeAt n) ['[', '&', '|'] us
      (items.flatMap fun t => [t.bare]) := by
    refine readsItems_intercalate hne (by decide) fun t ht => ?_
    have hlength := length_le_length_intercalate (c := .symbol ',') (f := TypeExpr.tokens) ht
    rw [← hus] at hlength
    exact readsItems_single fun rest hrest => (h t ht).type n rest (by omega) hrest
  have hread := hitems.separated (n := n) (stops_cons (c := ']') (by decide) rest) (by omega)
  -- the first item does not begin with the bracket that closes a tuple
  have hhead : (us ++ .symbol ']' :: rest).head? ≠ some (.symbol ']') := by
    intro hhead
    obtain ⟨ts, hts⟩ := List.head?_eq_some_iff.1 hhead
    rw [hts] at hread
    simp [separated, typeAt_bracket] at hread
  simp [arrayType, primary, after?_eq_none hhead, followedBy_symbol hread, List.map_eq_flatMap]

theorem reads_union {ms : List TypeExpr} (ht : (TypeExpr.union ms).Normal)
    (h : ∀ t ∈ ms, Reads t) : Reads (.union ms) where
  factors hu := by cases hu
  array hc := by cases hc
  type n rest hn hrest := by
    obtain ⟨n, rfl⟩ := Nat.exists_eq_add_one_of_ne_zero (Nat.ne_zero_of_lt hn)
    obtain ⟨hlength, hflat⟩ := ht.union ms .self
    rw [TypeExpr.tokens, TypeExpr.tokensOf_eq_map] at hn ⊢
    have hn := Nat.le_of_lt_succ hn
    have hitems : ReadsItems '|' (intersectionType (typeAt n) n) ['&', '[']
        ([.symbol '|'].intercalate (ms.map TypeExpr.tokens)) (ms.flatMap fun t => [t.bare]) := by
      refine readsItems_intercalate (by rintro rfl; cases hlength) (by decide) fun t hmem => ?_
      have hle := length_le_length_intercalate (c := .symbol '|') (f := TypeExpr.tokens) hmem
      have hjoined := TypeExpr.Normal.joined_factors (ht.of_occurs fun _ => .union hmem)
      refine readsItems_single fun rest hrest => ?_
      rw [((h t hmem).factors (hflat t hmem)).intersectionType (hle.trans hn) hrest, hjoined]
    rw [typeAt, unionType, hitems.separated (hrest.mono (by simp)) hn, TypeExpr.bare,
      TypeExpr.bareList_eq_map, List.map_eq_flatMap]
    -- the union has two members at least, so it is not read as a single type
    have hbare : 2 ≤ (ms.flatMap fun t => [t.bare]).length := by
      rwa [← List.map_eq_flatMap, List.length_map]
    rw [Option.map_some, Prod.map, TypeExpr.joined_of_length hbare]
    rfl

theorem reads_intersection {ms : List TypeExpr} (ht : (TypeExpr.intersection ms).Normal)
    (h : ∀ t ∈ ms, Reads t) : Reads (.intersection ms) := by
  refine .of_factors ht ?_ fun hc => by cases hc
  intro n hn
  rw [TypeExpr.tokens, TypeExpr.groupTokens_eq_map] at hn ⊢
  have hne : ms ≠ [] := by
    rintro rfl
    cases ht.intersection [] .self
  have hbare : (TypeExpr.intersection ms).bare.factors = ms.flatMap fun t => t.bare.factors := by
    rw [TypeExpr.bare, TypeExpr.factors, TypeExpr.bareList_eq_map, List.flatMap_map]
  rw [hbare]
  refine readsItems_intercalate hne (by decide) fun t hmem => ?_
  have hle := length_le_length_intercalate (c := .symbol '&')
    (f := fun t => groupedTokens t.isUnion t.tokens) hmem
  exact (h t hmem).groupedFactors n (hle.trans hn)

end types

section objects

variable {type : Reader TypeExpr} {rest : List Token} {n : Nat}

theorem member_tokens {m : Member TypeExpr} {u : TypeExpr}
    (h : type (m.type.tokens ++ .symbol ';' :: rest) = some (u, .symbol ';' :: rest)) :
    member type (TypeExpr.memberTokens [m] ++ rest) =
      some (⟨m.name, u, m.optional, none⟩, rest) := by
  have hkey : key? (keyToken m.name) = some m.name := by
    unfold keyToken
    split <;> rfl
  cases hoptional : m.optional with
  | true => simp [TypeExpr.memberTokens, hoptional, member, hkey, followedBy_symbol h]
  | false => simp [TypeExpr.memberTokens, hoptional, member, hkey, followedBy_symbol h]

/-- The key of a member does not look like the end of the members or like a signature. -/
theorem objectBody_member {m : Member TypeExpr} {u : TypeExpr}
    {body : List (Member TypeExpr) × Option TypeExpr} {rest' : List Token}
    (h : type (m.type.tokens ++ .symbol ';' :: rest) = some (u, .symbol ';' :: rest))
    (hrest : objectBody type n rest = some (body, rest')) :
    objectBody type (n + 1) (TypeExpr.memberTokens [m] ++ rest) =
      some ((⟨m.name, u, m.optional, none⟩ :: body.1, body.2), rest') := by
  have hm := member_tokens h
  obtain ⟨key, ts, hts, hkey⟩ : ∃ key ts, TypeExpr.memberTokens [m] ++ rest = key :: ts ∧
      ∀ c, key ≠ .symbol c := by
    refine ⟨keyToken m.name, _, rfl, fun c => ?_⟩
    unfold keyToken
    split <;> simp
  rw [hts] at hm ⊢
  rw [objectBody]
  · simp [hm, hrest]
  · exact fun ts h => absurd (List.cons.inj h).1 (hkey '}')
  · exact fun ts h => absurd (List.cons.inj h).1 (hkey '[')

/-- The end of an object, with the index signature before it. -/
theorem objectBody_index {index : Option TypeExpr} (h : ∀ t, index = some t → Reads t)
    (hn : (TypeExpr.indexTokens index).length ≤ n) {k : Nat}
    (hk : (TypeExpr.indexTokens index).length < k) :
    objectBody (typeAt n) k (TypeExpr.indexTokens index ++ .symbol '}' :: rest) =
      some (([], TypeExpr.bareIndex index), rest) := by
  obtain ⟨k, rfl⟩ := Nat.exists_eq_add_one_of_ne_zero (Nat.ne_zero_of_lt hk)
  cases index with
  | none => rfl
  | some t =>
    simp only [TypeExpr.indexTokens, List.length_append, List.length_cons, List.length_nil]
      at hn hk
    obtain ⟨k, rfl⟩ := Nat.exists_eq_add_of_le' (show 1 ≤ k by omega)
    have ht := (h t rfl).type n (.symbol ';' :: .symbol '}' :: rest) (by omega)
      (stops_cons (by decide) _)
    simp [TypeExpr.indexTokens, objectBody, index, followedBy_symbol ht, TypeExpr.bareIndex]

theorem objectBody_tokens {ms : List (Member TypeExpr)} {index : Option TypeExpr}
    (hms : ∀ m ∈ ms, Reads m.type) (hindex : ∀ t, index = some t → Reads t)
    (hn : (TypeExpr.memberTokens ms).length + (TypeExpr.indexTokens index).length ≤ n) {k : Nat}
    (hk : (TypeExpr.memberTokens ms).length + (TypeExpr.indexTokens index).length < k) :
    objectBody (typeAt n) k
      (TypeExpr.memberTokens ms ++ (TypeExpr.indexTokens index ++ .symbol '}' :: rest)) =
      some ((TypeExpr.bareMembers ms, TypeExpr.bareIndex index), rest) := by
  -- a member takes more than one token, so what is left of `k` is enough for the others
  induction ms generalizing k with
  | nil =>
    simp only [TypeExpr.memberTokens, List.length_nil, Nat.zero_add] at hn hk
    exact objectBody_index hindex hn hk
  | cons m ms ih =>
    have hsplit : TypeExpr.memberTokens (m :: ms) =
        TypeExpr.memberTokens [m] ++ TypeExpr.memberTokens ms := by
      simp [TypeExpr.memberTokens]
    have hlength : m.type.tokens.length + 1 ≤ (TypeExpr.memberTokens [m]).length := by
      simp only [TypeExpr.memberTokens, List.length_append, List.length_cons]
      omega
    obtain ⟨k, rfl⟩ := Nat.exists_eq_add_one_of_ne_zero (Nat.ne_zero_of_lt hk)
    rw [hsplit, List.length_append] at hn hk
    have htype := (hms m List.mem_cons_self).type n
      (.symbol ';' :: (TypeExpr.memberTokens ms ++
        (TypeExpr.indexTokens index ++ .symbol '}' :: rest))) (by omega)
      (stops_cons (by decide) _)
    have hrest := ih (fun m hm => hms m (List.mem_cons_of_mem _ hm)) (by omega)
      (show _ < k by omega)
    rw [hsplit, List.append_assoc, objectBody_member htype hrest]
    rfl

theorem reads_object {ms : List (Member TypeExpr)} {index : Option TypeExpr}
    (hms : ∀ m ∈ ms, Reads m.type) (hindex : ∀ t, index = some t → Reads t) :
    ReadsArray (TypeExpr.object ms index).tokens (TypeExpr.object ms index).bare := by
  intro n rest hn
  simp only [TypeExpr.tokens, List.length_append, List.length_cons, List.length_nil] at hn
  have hread : objectBody (typeAt n) n (TypeExpr.memberTokens ms ++
      (TypeExpr.indexTokens index ++ .symbol '}' :: rest)) =
        some ((TypeExpr.bareMembers ms, TypeExpr.bareIndex index), rest) :=
    objectBody_tokens hms hindex (by omega) (by omega)
  simp [TypeExpr.tokens, TypeExpr.bare, arrayType, primary, hread]

theorem reads {t : TypeExpr} (ht : t.Normal) : Reads t := by
  -- only unions and intersections are not read by the rule for arrays
  induction t using TypeExpr.induction with
  | keyword k => exact .of_array ht rfl (reads_keyword k)
  | literal l => exact .of_array ht rfl (reads_literal fun x hx => ht.real x (hx ▸ .self))
  | named name =>
    obtain ⟨hint, rfl⟩ := ht.names name .self
    refine .of_array ht rfl fun n rest _ => ?_
    simp [TypeExpr.tokens, TypeExpr.bare, arrayType, primary, wordType_safeName]
  | array e ih =>
    refine .of_array ht rfl fun n rest hn => ?_
    rw [TypeExpr.tokens, List.length_append] at hn
    have he := (ih (ht.of_occurs fun _ => .array)).groupedArray n
      (.symbol '[' :: .symbol ']' :: rest) (Nat.le_of_add_right_le hn)
    simpa [TypeExpr.tokens, TypeExpr.bare, arrays] using he
  | tuple items ih =>
    exact .of_array ht rfl (reads_tuple fun t hmem => ih t hmem (ht.of_occurs fun _ => .tuple hmem))
  | union ms ih =>
    exact reads_union ht fun t hmem => ih t hmem (ht.of_occurs fun _ => .union hmem)
  | intersection ms ih =>
    exact reads_intersection ht fun t hmem => ih t hmem (ht.of_occurs fun _ => .intersection hmem)
  | object ms index ihm ihi =>
    refine .of_array ht rfl (reads_object (fun m hm => ?_) fun t hindex => ?_)
    · exact ihm m hm (ht.of_occurs fun _ => .member hm)
    · subst hindex
      exact ihi t rfl (ht.of_occurs fun _ => .index)

end objects

/-- The text of a type is read as that type, at every level of indentation. -/
theorem type?_textAt {t : TypeExpr} (ht : t.Normal) (level : Nat) :
    type? (t.textAt level) = some t.bare := by
  have htokens : tokens? (t.textAt level) = some t.tokens := by
    have := lexes_textAt ht.readable level lexes_nil (fun c hc => by cases hc)
    rwa [List.append_nil, List.append_nil] at this
  have hread := (reads ht).type (t.tokens.length + 1) [] (Nat.lt_succ_self _)
    fun c _ hc => by cases hc
  rw [List.append_nil] at hread
  simp [type?, htokens, hread]

theorem type?_nested :
    type? ((TypeExpr.array (.union [.named "Item", .intersection [.literal (.string "a\"b"),
      .intersection [.literal .null, .object [⟨"k k", .tuple [.literal (.integer (-3))], true,
        some "*/"⟩] (some (.keyword .never))]]])).textAt 0) =
    some (.array (.union [.named "Item", .intersection [.literal (.string "a\"b"), .keyword .null,
      .object [⟨"k k", .tuple [.literal (.integer (-3))], true, none⟩]
        (some (.keyword .never))]])) := by
  refine type?_textAt ⟨fun x hx => ?_, fun ms hms => ?_, fun ms hms => ?_, fun n hn => ?_⟩ 0
  · grind [cases TypeExpr.Occurs]
  · grind [cases TypeExpr.Occurs, TypeExpr.isUnion]
  · grind [cases TypeExpr.Occurs]
  · have hname : n = "Item" := by
      unfold TypeExpr.Mentions at hn
      grind [cases TypeExpr.Occurs]
    exact ⟨"item", hname.trans (by decide)⟩

end Grammar

end ApiTypes.TypeScript
