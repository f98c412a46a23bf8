import Mathlib.Data.List.TakeDrop

/-!
# Tables with numbered slots

A table gives some numbers a value and leaves the others free; `free` is the
least free one.  `Adds t l t'` compares two tables: `t'` is `t` with the
entries `l` besides.  An entry is added where the table is free, and taken out
again whatever else was added meanwhile (`Adds.put`, `Adds.remove`), so what a
program has added to its table can be told from its list of entries.
-/

structure Table (α : Type) where
  slots : List (Option α)
  deriving DecidableEq, Repr

namespace Table

variable {α : Type}

def get (t : Table α) (k : Nat) : Option α := t.slots[k]?.join

def free (t : Table α) : Nat := t.slots.findIdx Option.isNone

def put (t : Table α) (k : Nat) (a : α) : Table α :=
  ⟨t.slots.takeD k none ++ some a :: t.slots.drop (k + 1)⟩

def remove (t : Table α) (k : Nat) : Table α := ⟨t.slots.set k none⟩

def keep (p : α → Bool) (t : Table α) : Table α := ⟨t.slots.map (Option.filter p)⟩

theorem join_takeD : ∀ (l : List (Option α)) {k m : Nat}, m < k →
    (l.takeD k none)[m]?.join = l[m]?.join := by
  intro l k
  induction k generalizing l with
  | zero => exact fun h => absurd h (Nat.not_lt_zero _)
  | succ k ih =>
    intro m h
    rw [List.takeD_succ]
    cases m with
    | zero => cases l <;> rfl
    | succ m =>
      rw [List.getElem?_cons_succ, ih l.tail (Nat.lt_of_succ_lt_succ h)]
      cases l <;> rfl

theorem get_put (t : Table α) (k m : Nat) (a : α) :
    (t.put k a).get m = if m = k then some a else t.get m := by
  have hlen : (t.slots.takeD k none).length = k := List.takeD_length k _ none
  rw [get, put]
  rcases Nat.lt_trichotomy m k with h | rfl | h
  · rw [List.getElem?_append_left (by omega), if_neg (by omega), join_takeD _ h, get]
  · rw [List.getElem?_append_right (by omega), hlen, Nat.sub_self, if_pos rfl]
    rfl
  · obtain ⟨j, rfl⟩ : ∃ j, m = k + 1 + j := ⟨m - (k + 1), by omega⟩
    rw [List.getElem?_append_right (by omega), hlen, if_neg (by omega), get,
      show k + 1 + j - k = j + 1 by omega, List.getElem?_cons_succ, List.getElem?_drop]

@[simp] theorem get_put_self (t : Table α) (k : Nat) (a : α) : (t.put k a).get k = some a := by
  rw [get_put, if_pos rfl]

theorem get_put_ne (t : Table α) {k m : Nat} (a : α) (h : m ≠ k) :
    (t.put k a).get m = t.get m := by
  rw [get_put, if_neg h]

theorem get_remove (t : Table α) (k m : Nat) :
    (t.remove k).get m = if m = k then none else t.get m := by
  rw [get, remove, List.getElem?_set]
  by_cases h : m = k
  · rw [if_pos h, if_pos h.symm]
    split <;> rfl
  · rw [if_neg h, if_neg (Ne.symm h), get]

theorem get_keep (p : α → Bool) (t : Table α) (k : Nat) :
    (t.keep p).get k = (t.get k).filter p := by
  rw [get, keep, List.getElem?_map, get]
  cases t.slots[k]? <;> rfl

@[simp] theorem get_free (t : Table α) : t.get t.free = none := by
  rw [get, free]
  by_cases h : t.slots.findIdx Option.isNone < t.slots.length
  · rw [List.getElem?_eq_getElem h, Option.join_some]
    exact Option.isNone_iff_eq_none.mp (List.findIdx_getElem (w := h))
  · rw [List.getElem?_eq_none (by omega)]
    rfl

theorem free_le {t : Table α} {k : Nat} (h : t.get k = none) : t.free ≤ k := by
  by_contra hlt
  have hk : k < t.slots.findIdx Option.isNone := Nat.lt_of_not_le hlt
  have hlen : k < t.slots.length := Nat.lt_of_lt_of_le hk List.findIdx_le_length
  have hnone : ¬(t.slots[k]).isNone = true := by
    have := List.not_of_lt_findIdx hk
    rw [this]
    decide
  rw [get, List.getElem?_eq_getElem hlen, Option.join_some] at h
  exact hnone (Option.isNone_iff_eq_none.mpr h)

/-- `t'` is `t` with the entries `l` besides. -/
structure Adds (t : Table α) (l : List (Nat × α)) (t' : Table α) : Prop where
  nodup : (l.map Prod.fst).Nodup
  fresh : ∀ e ∈ l, t.get e.1 = none
  get_iff : ∀ k a, t'.get k = some a ↔ (k, a) ∈ l ∨ t.get k = some a

theorem Adds.refl (t : Table α) : Adds t [] t :=
  ⟨List.nodup_nil, fun _ h => (List.not_mem_nil h).elim, fun k a => by simp⟩

theorem Adds.perm {t t' : Table α} {l l' : List (Nat × α)} (h : Adds t l t') (hl : l.Perm l') :
    Adds t l' t' where
  nodup := (hl.map Prod.fst).nodup_iff.mp h.nodup
  fresh := fun e he => h.fresh e (hl.mem_iff.mpr he)
  get_iff := fun k a => by rw [h.get_iff, hl.mem_iff]

theorem Adds.get_of_mem {t t' : Table α} {l : List (Nat × α)} (h : Adds t l t') {e : Nat × α}
    (he : e ∈ l) : t'.get e.1 = some e.2 :=
  (h.get_iff e.1 e.2).mpr (Or.inl he)

theorem Adds.trans {t t' t'' : Table α} {l l' : List (Nat × α)} (h : Adds t l t')
    (h' : Adds t' l' t'') : Adds t (l' ++ l) t'' := by
  refine ⟨?_, fun e he => ?_, fun k a => ?_⟩
  · rw [List.map_append]
    refine List.nodup_append.mpr ⟨h'.nodup, h.nodup, fun k hk' m hm heq => ?_⟩
    obtain ⟨e', he', rfl⟩ := List.mem_map.mp hk'
    obtain ⟨e, he, rfl⟩ := List.mem_map.mp hm
    have hget := h.get_of_mem he
    rw [← heq, h'.fresh e' he'] at hget
    cases hget
  · rcases List.mem_append.mp he with he | he
    · refine Option.eq_none_iff_forall_ne_some.mpr fun a ha => ?_
      have hget := (h.get_iff e.1 a).mpr (Or.inr ha)
      rw [h'.fresh e he] at hget
      cases hget
    · exact h.fresh e he
  · rw [h'.get_iff, h.get_iff, List.mem_append, or_assoc]

/-- A number that is free was free and has not been taken since. -/
theorem Adds.of_get_none {t t' : Table α} {l : List (Nat × α)} {k : Nat} (h : Adds t l t')
    (hk : t'.get k = none) : t.get k = none ∧ k ∉ l.map Prod.fst := by
  have hno : ∀ a, ¬((k, a) ∈ l ∨ t.get k = some a) := by
    intro a ha
    rw [← h.get_iff, hk] at ha
    cases ha
  refine ⟨Option.eq_none_iff_forall_ne_some.mpr fun a ha => hno a (Or.inr ha), fun hmem => ?_⟩
  obtain ⟨⟨k', a⟩, he, rfl⟩ := List.mem_map.mp hmem
  exact hno a (Or.inl he)

theorem Adds.put {t t' : Table α} {l : List (Nat × α)} {k : Nat} (h : Adds t l t')
    (hk : t'.get k = none) (a : α) : Adds t ((k, a) :: l) (t'.put k a) := by
  obtain ⟨hfree, hnot⟩ := h.of_get_none hk
  refine ⟨List.nodup_cons.mpr ⟨hnot, h.nodup⟩, ?_, fun m b => ?_⟩
  · intro e he
    rcases List.mem_cons.mp he with rfl | he
    · exact hfree
    · exact h.fresh e he
  · rw [get_put, List.mem_cons, Prod.mk.injEq]
    by_cases hm : m = k
    · subst hm
      rw [if_pos rfl, hfree]
      constructor
      · intro hb
        exact Or.inl (Or.inl ⟨rfl, (Option.some.inj hb).symm⟩)
      · rintro ((⟨-, rfl⟩ | hb) | hb)
        · rfl
        · exact absurd (List.mem_map_of_mem (f := Prod.fst) hb) hnot
        · cases hb
    · rw [if_neg hm, h.get_iff]
      constructor
      · exact fun hb => hb.imp Or.inr id
      · rintro ((⟨rfl, -⟩ | hb) | hb)
        · exact absurd rfl hm
        · exact Or.inl hb
        · exact Or.inr hb

theorem Adds.remove {t t' : Table α} {l r : List (Nat × α)} {e : Nat × α}
    (h : Adds t (l ++ e :: r) t') : Adds t (l ++ r) (t'.remove e.1) := by
  have hperm : ((l ++ e :: r).map Prod.fst).Perm (e.1 :: (l ++ r).map Prod.fst) :=
    List.perm_middle.map Prod.fst
  obtain ⟨hnot, hnodup⟩ := List.nodup_cons.mp (hperm.nodup_iff.mp h.nodup)
  have hmem : ∀ x, x ∈ l ++ e :: r ↔ x = e ∨ x ∈ l ++ r := by
    intro x
    rw [List.mem_append, List.mem_cons, List.mem_append]
    tauto
  have hfree := h.fresh e ((hmem e).mpr (Or.inl rfl))
  refine ⟨hnodup, fun x hx => h.fresh x ((hmem x).mpr (Or.inr hx)), fun m b => ?_⟩
  rw [get_remove]
  by_cases hm : m = e.1
  · rw [if_pos hm, hm, hfree]
    constructor
    · exact fun hb => nomatch hb
    · rintro (hb | hb)
      · exact absurd (List.mem_map_of_mem (f := Prod.fst) hb) hnot
      · cases hb
  · rw [if_neg hm, h.get_iff, hmem]
    constructor
    · rintro ((rfl | hb) | hb)
      · exact absurd rfl hm
      · exact Or.inl hb
      · exact Or.inr hb
    · exact fun hb => hb.imp Or.inr id

end Table
