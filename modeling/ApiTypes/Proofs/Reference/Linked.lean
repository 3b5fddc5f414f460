import ApiTypes.Proofs.Reference.Addresses

namespace ApiTypes

namespace Json.Pointer

def Escaped (s : List Char) : Prop :=
  ∀ l r, s = l ++ '~' :: r → r.head? = some '0' ∨ r.head? = some '1'

/-- A pointer as it is written: empty or with a slash in front, and all its keys escaped. -/
structure Canonical (pointer : String) : Prop where
  start : pointer = "" ∨ pointer.toList.head? = some '/'
  escaped : Escaped pointer.toList

theorem Escaped.right {l r : List Char} (h : Escaped (l ++ r)) : Escaped r := by
  rintro l' r' rfl
  exact h (l ++ l') r' (List.append_assoc l l' _).symm

/-- An escaped text begins with a written character, unless it begins with a slash. -/
theorem exists_written {c : Char} {r : List Char} (h : Escaped (c :: r)) (hslash : c ≠ '/') :
    ∃ d w, c :: r = written d ++ w := by
  by_cases htilde : c = '~'
  · subst htilde
    have hhead := h [] r rfl
    cases r with
    | nil => simp at hhead
    | cons e w =>
      rcases hhead with he | he
      · obtain rfl := Option.some.inj he
        exact ⟨'~', w, rfl⟩
      · obtain rfl := Option.some.inj he
        exact ⟨'/', w, rfl⟩
  · have hwritten : written c = [c] := by simp [written, htilde, hslash]
    exact ⟨c, r, by rw [hwritten]; rfl⟩

theorem written_ne_nil (d : Char) : written d ≠ [] := by
  unfold written
  split
  · simp
  · split <;> simp

/-- An escaped text without a slash is the written form of a key. -/
theorem exists_escape {s : List Char} (h : Escaped s) (hslash : '/' ∉ s) :
    ∃ key, (escape key).toList = s := by
  suffices hkey : ∃ key : List Char, key.flatMap written = s by
    obtain ⟨key, rfl⟩ := hkey
    exact ⟨String.ofList key, by rw [toList_escape, String.toList_ofList]⟩
  -- on the length, because a written character can be two
  induction hn : s.length using Nat.strong_induction_on generalizing s with
  | _ n ih =>
    cases s with
    | nil => exact ⟨[], rfl⟩
    | cons c r =>
      have hc : c ≠ '/' := fun he => hslash (he ▸ List.mem_cons_self)
      obtain ⟨d, w, hd⟩ := exists_written h hc
      have hlength : w.length < n := by
        have hpos := List.length_pos_iff.2 (written_ne_nil d)
        rw [← hn, hd, List.length_append]
        omega
      rw [hd] at h hslash
      obtain ⟨key, hkey⟩ := ih w.length hlength h.right
        (fun hw => hslash (List.mem_append_right _ hw)) rfl
      exact ⟨d :: key, by rw [List.flatMap_cons, hkey, hd]⟩

/-- An escaped token is what its key is written as. -/
theorem escape_unescape {s : List Char} (h : Escaped s) (hslash : '/' ∉ s) :
    (escape (unescape s)).toList = s := by
  obtain ⟨key, rfl⟩ := exists_escape h hslash
  rw [unescape_escape]

end Json.Pointer

namespace Compile

/-- The two addresses of a definition of the root. -/
def Context.Linked (c : Context) (a a' : String × String) : Prop :=
  ∃ id ∈ Table.keys (c.definitions?.getD []),
    a = ("", definitionPointer id) ∧ a' = (c.url id, "") ∨
      a = (c.url id, "") ∧ a' = ("", definitionPointer id)

def Context.SameTarget (c : Context) (a a' : String × String) : Prop :=
  a = a' ∨ c.Linked a a'

/-- What can be told apart: no address of a document has the mark in it, and no two definitions
have the same one. -/
structure Context.Marked (c : Context) : Prop where
  cwd : '#' ∉ c.cwd.toList
  ids : ∀ id ∈ Table.keys (c.definitions?.getD []), '#' ∉ id.toList
  distinct : ∀ id ∈ Table.keys (c.definitions?.getD []),
    ∀ id' ∈ Table.keys (c.definitions?.getD []), c.url id = c.url id' → id = id'

structure Plain (a : String × String) : Prop where
  base : '#' ∉ a.1.toList
  pointer : Json.Pointer.Canonical a.2

section

variable {c : Context}

theorem targetKey_inj {base pointer base' pointer' : String} (h : '#' ∉ base.toList)
    (h' : '#' ∉ base'.toList) (hkey : targetKey base pointer = targetKey base' pointer') :
    base = base' ∧ pointer = pointer' := by
  have hlist : ∀ base pointer, (targetKey base pointer).toList =
      base.toList ++ '#' :: pointer.toList := by
    simp [targetKey]
  have hkeys := congrArg String.toList hkey
  rw [hlist, hlist] at hkeys
  obtain ⟨hbase, hpointer⟩ := Text.eq_of_append_cons h h' hkeys
  exact ⟨String.toList_inj.1 hbase, String.toList_inj.1 hpointer⟩

theorem hash_not_mem_url (hcwd : '#' ∉ c.cwd.toList) {id : String} (hid : '#' ∉ id.toList) :
    '#' ∉ (c.url id).toList := by
  unfold Context.url
  split
  · exact hid
  · split <;> simp [hcwd, hid]

theorem exists_definitions_of_mem {id : String} (h : id ∈ Table.keys (c.definitions?.getD [])) :
    ∃ ds, c.root.get? "definitions" = some (.object ds) ∧ c.definitions? = some ds ∧
      id ∈ Table.keys ds := by
  cases hds : c.definitions? with
  | none =>
    rw [hds] at h
    cases h
  | some ds =>
    rw [hds] at h
    exact ⟨ds, Json.eq_object hds, rfl, h⟩

/-- A pointer to a definition is the one that its key is written as. -/
theorem eq_of_definitionId? {pointer id : String} (hcanonical : Json.Pointer.Canonical pointer)
    (h : c.definitionId? pointer = some id) :
    pointer = definitionPointer id ∧ id ∈ Table.keys (c.definitions?.getD []) := by
  unfold Context.definitionId? at h
  obtain ⟨ds, hds, h⟩ := Option.bind_eq_some_iff.1 h
  obtain ⟨token, htoken, h⟩ := Option.bind_eq_some_iff.1 h
  have happend := Text.eq_append_of_after? htoken
  dsimp only at h
  split at h
  · cases h
  · next hplain =>
    obtain ⟨hslash, hcontains⟩ := not_or.1 hplain
    obtain rfl := Option.some.inj h
    have hescaped : Json.Pointer.Escaped token := by
      have hall := hcanonical.escaped
      rw [happend] at hall
      exact hall.right
    -- a canonical pointer is written in one way, so it is the one made for the id
    have hwritten := Json.Pointer.escape_unescape hescaped (by simpa using hslash)
    constructor
    · apply String.toList_inj.1
      rw [happend, toList_definitionPointer, hwritten]
    · rw [hds]
      exact Table.mem_keys_iff.2 (by simpa using hcontains)

/-- The second key of an address is the key of the address that it is linked with. -/
theorem linked_of_aliasKey? {base pointer key : String}
    (hcanonical : Json.Pointer.Canonical pointer) (h : c.aliasKey? base pointer = some key) :
    ∃ a, c.Linked (base, pointer) a ∧ key = targetKey a.1 a.2 := by
  unfold Context.aliasKey? at h
  split at h
  · next hbase =>
    obtain ⟨id, hid, rfl⟩ := Option.map_eq_some_iff.1 h
    obtain ⟨rfl, hmem⟩ := eq_of_definitionId? hcanonical hid
    exact ⟨(c.url id, ""), ⟨id, hmem, .inl ⟨by rw [hbase], rfl⟩⟩, rfl⟩
  split at h
  · next hpointer =>
    obtain ⟨ds, hds, h⟩ := Option.bind_eq_some_iff.1 h
    obtain ⟨id, hfind, h⟩ := Option.bind_eq_some_iff.1 h
    have hmem : id ∈ Table.keys (c.definitions?.getD []) := hds ▸ List.mem_of_find?_eq_some hfind
    have hurl : c.url id = base := by simpa using List.find?_some hfind
    have hlinked : c.Linked (base, pointer) ("", definitionPointer id) :=
      ⟨id, hmem, .inr ⟨by rw [hurl, hpointer], rfl⟩⟩
    exact ⟨_, hlinked, (Option.some.inj h).symm⟩
  · cases h

theorem Context.Linked.symm {a a' : String × String} (h : c.Linked a a') : c.Linked a' a := by
  obtain ⟨id, hid, hends⟩ := h
  exact ⟨id, hid, hends.symm.imp And.symm And.symm⟩

theorem Context.SameTarget.symm {a a' : String × String} (h : c.SameTarget a a') :
    c.SameTarget a' a :=
  h.imp Eq.symm Context.Linked.symm

variable (hc : c.Marked)

include hc

theorem Context.Linked.aliasKey? {a a' : String × String} (h : c.Linked a a') :
    c.aliasKey? a.1 a.2 = some (targetKey a'.1 a'.2) := by
  obtain ⟨id, hid, hends⟩ := h
  obtain ⟨ds, hroot, hds, hmem⟩ := exists_definitions_of_mem hid
  rcases hends with ⟨rfl, rfl⟩ | ⟨rfl, rfl⟩
  · exact aliasKey?_pointer hroot hmem
  · have hdistinct := hc.distinct
    rw [hds] at hdistinct
    exact aliasKey?_url hroot (fun id' hid' h => hdistinct id' hid' id hmem h) hmem

theorem Context.Linked.base {a a' : String × String} (h : c.Linked a a') : '#' ∉ a'.1.toList := by
  obtain ⟨id, hid, ⟨-, rfl⟩ | ⟨-, rfl⟩⟩ := h
  · exact hash_not_mem_url hc.cwd (hc.ids id hid)
  · exact List.not_mem_nil

/-- An address is linked with at most one other. -/
theorem Context.Linked.unique {a b b' : String × String} (h : c.Linked a b)
    (h' : c.Linked a b') : b = b' := by
  have hkey := Option.some.inj ((h.aliasKey? hc).symm.trans (h'.aliasKey? hc))
  obtain ⟨hbase, hpointer⟩ := targetKey_inj (h.base hc) (h'.base hc) hkey
  exact Prod.ext hbase hpointer

theorem Context.SameTarget.trans {a a' a'' : String × String} (h : c.SameTarget a a')
    (h' : c.SameTarget a' a'') : c.SameTarget a a'' := by
  rcases h with rfl | h
  · exact h'
  · rcases h' with rfl | h'
    · exact .inr h
    · exact .inl (h.symm.unique hc h')

/-- The keys of an address are its own and that of the address it is linked with. -/
theorem isKey_iff {a : String × String} (ha : Plain a) (key : String) :
    c.IsKey a.1 a.2 key ↔ ∃ a', c.SameTarget a a' ∧ key = targetKey a'.1 a'.2 := by
  constructor
  · rintro (rfl | hsecond)
    · exact ⟨a, .inl rfl, rfl⟩
    · obtain ⟨a', hlinked, hkey⟩ := linked_of_aliasKey? ha.pointer hsecond
      exact ⟨a', .inr hlinked, hkey⟩
  · rintro ⟨a', rfl | hlinked, rfl⟩
    · exact .inl rfl
    · exact .inr (hlinked.aliasKey? hc)

theorem Context.SameTarget.base {a a' : String × String} (ha : Plain a) (h : c.SameTarget a a') :
    '#' ∉ a'.1.toList := by
  rcases h with rfl | h
  · exact ha.base
  · exact h.base hc

/-- Addresses have a key in common if and only if they are of one target. -/
theorem exists_key_iff {a a' : String × String} (ha : Plain a) (ha' : Plain a') :
    (∃ key, c.IsKey a.1 a.2 key ∧ c.IsKey a'.1 a'.2 key) ↔ c.SameTarget a a' := by
  constructor
  · rintro ⟨key, hkey, hkey'⟩
    obtain ⟨b, hb, rfl⟩ := (isKey_iff hc ha key).1 hkey
    obtain ⟨b', hb', heq⟩ := (isKey_iff hc ha' _).1 hkey'
    obtain ⟨hbase, hpointer⟩ := targetKey_inj (hb.base hc ha) (hb'.base hc ha') heq
    obtain rfl : b = b' := Prod.ext hbase hpointer
    exact hb.trans hc hb'.symm
  · intro h
    exact ⟨targetKey a'.1 a'.2, (isKey_iff hc ha _).2 ⟨a', h, rfl⟩, .inl rfl⟩

end

end Compile

end ApiTypes
