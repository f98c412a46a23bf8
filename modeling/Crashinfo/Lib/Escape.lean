import Mathlib.Data.List.Basic

/-!
# Texts with an escape character

A text is read from the left: the escape character takes the character behind
it along, whatever that is, and a last escape character stands alone (`scan`).

A reader that comes from the right needs to know whether the character it looks
at has been taken along.  `pending l n` says so from the `n` characters in
front of it: it is the parity of the run of escape characters they end in
(`pending_iff_odd_run`).  At a position that is not pending the text can be cut
(`scan_append`), so it may be read piece by piece from the right.
-/

namespace Escape

variable {α : Type} [DecidableEq α]

inductive Tok (α : Type) where
  /-- a character that stands for itself -/
  | plain (c : α)
  /-- a character behind the escape character -/
  | esc (c : α)
  /-- the escape character at the end of the text -/
  | lone
  deriving DecidableEq, Repr

def scan (e : α) : List α → List (Tok α)
  | [] => []
  | [c] => if c = e then [.lone] else [.plain c]
  | c :: d :: r => if c = e then .esc d :: scan e r else .plain c :: scan e (d :: r)

/-- How many escape characters the first `n` characters end in. -/
def run (e : α) (l : List α) : Nat → Nat
  | 0 => 0
  | n + 1 => if l[n]? = some e then run e l n + 1 else 0

/-- The first `n` characters end in an escape character that still takes the
next one along. -/
def pending (e : α) (l : List α) : Nat → Bool
  | 0 => false
  | n + 1 => decide (l[n]? = some e) && !pending e l n

theorem pending_succ (e : α) (l : List α) (n : Nat) :
    pending e l (n + 1) = (decide (l[n]? = some e) && !pending e l n) := rfl

/-- **Pending is the parity of the run.** -/
theorem pending_iff_odd_run (e : α) (l : List α) (n : Nat) :
    pending e l n = decide (run e l n % 2 = 1) := by
  induction n with
  | zero => rfl
  | succ n ih =>
    rw [pending_succ, ih, run]
    by_cases h : l[n]? = some e
    · rw [if_pos h, decide_eq_true h, Bool.true_and]
      by_cases hr : run e l n % 2 = 1
      · rw [decide_eq_true hr, decide_eq_false (by omega)]; rfl
      · rw [decide_eq_false hr, decide_eq_true (by omega)]; rfl
    · rw [if_neg h, decide_eq_false h]; rfl

theorem pending_congr {e : α} {l l' : List α} : ∀ {n : Nat}, (∀ k < n, l[k]? = l'[k]?) →
    pending e l n = pending e l' n := by
  intro n
  induction n with
  | zero => intro _; rfl
  | succ n ih =>
    intro h
    rw [pending_succ, pending_succ, h n (Nat.lt_succ_self n), ih fun k hk => h k (by omega)]

/-- What is pending at `n + 1` is the escape character in front of it. -/
theorem of_pending {e : α} {l : List α} {n : Nat} (h : pending e l (n + 1) = true) :
    l[n]? = some e ∧ pending e l n = false := by
  rw [pending_succ, Bool.and_eq_true, decide_eq_true_eq, Bool.not_eq_true'] at h
  exact h

/-- A character that leaves nothing pending without being taken along is not
the escape character. -/
theorem ne_of_not_pending {e : α} {l : List α} {n : Nat} (h0 : pending e l n = false)
    (h1 : pending e l (n + 1) = false) : l[n]? ≠ some e := by
  intro hl
  rw [pending_succ, h0, decide_eq_true hl] at h1
  cases h1

theorem pending_of_notMem {e : α} {l : List α} (h : e ∉ l) (n : Nat) : pending e l n = false := by
  cases n with
  | zero => rfl
  | succ n =>
    have hn : l[n]? ≠ some e := fun hl => h (List.mem_of_getElem? hl)
    rw [pending_succ, decide_eq_false hn, Bool.false_and]

theorem pending_cons_of_ne {e c : α} (l : List α) (h : c ≠ e) (n : Nat) :
    pending e (c :: l) (n + 1) = pending e l n := by
  induction n with
  | zero => simp [pending, h]
  | succ n ih => rw [pending_succ, ih, pending_succ]; rfl

theorem pending_esc_cons {e : α} (d : α) (l : List α) (n : Nat) :
    pending e (e :: d :: l) (n + 2) = pending e l n := by
  induction n with
  | zero => simp [pending]
  | succ n ih => rw [pending_succ, ih, pending_succ]; rfl

theorem scan_cons_of_ne {e c : α} (h : c ≠ e) (l : List α) :
    scan e (c :: l) = .plain c :: scan e l := by
  cases l with
  | nil => simp [scan, h]
  | cons d r => rw [scan, if_neg h]

theorem scan_esc_cons (e d : α) (l : List α) : scan e (e :: d :: l) = .esc d :: scan e l := by
  rw [scan, if_pos rfl]

/-- **A text can be cut where nothing is pending.** -/
theorem scan_append {e : α} (l r : List α) (h : pending e l l.length = false) :
    scan e (l ++ r) = scan e l ++ scan e r := by
  induction l using scan.induct e with
  | case1 => rfl
  | case2 => simp [pending] at h
  | case3 c hc =>
    rw [List.singleton_append, scan_cons_of_ne hc, scan, if_neg hc]
    rfl
  | case4 d l ih =>
    rw [List.length_cons, List.length_cons, pending_esc_cons] at h
    rw [List.cons_append, List.cons_append, scan_esc_cons, scan_esc_cons, ih h]
    rfl
  | case5 c d l hc ih =>
    rw [List.length_cons, pending_cons_of_ne _ hc] at h
    rw [List.cons_append, scan_cons_of_ne hc, scan_cons_of_ne hc, ih h]
    rfl

/-- Behind the end of a text stands a character that closes it.  If a token
with that character in it means what a last escape character means and then the
closing character, the text means what it meant without it. -/
theorem flatMap_scan_snoc {β : Type} {e c : α} (f : Tok α → List β) (hc : c ≠ e)
    (hf : f (.esc c) = f .lone ++ f (.plain c)) (l : List α) :
    (scan e (l ++ [c])).flatMap f = (scan e l).flatMap f ++ f (.plain c) := by
  induction l using scan.induct e with
  | case1 => simp [scan, hc]
  | case2 => rw [List.singleton_append, scan_esc_cons]; simp [scan, hf]
  | case3 d hd => rw [List.singleton_append, scan_cons_of_ne hd]; simp [scan, hc, hd]
  | case4 d l ih =>
    rw [List.cons_append, List.cons_append, scan_esc_cons, scan_esc_cons, List.flatMap_cons, ih,
      List.flatMap_cons, List.append_assoc]
  | case5 d d' l hd ih =>
    rw [List.cons_append, scan_cons_of_ne hd, scan_cons_of_ne hd, List.flatMap_cons, ih,
      List.flatMap_cons, List.append_assoc]

/-- A character that closes the text takes no part in the tokens before it. -/
theorem mem_scan_snoc {e c d : α} (hc : c ≠ e) (hd : d ≠ c) {l : List α} :
    .esc d ∈ scan e (l ++ [c]) ↔ .esc d ∈ scan e l := by
  induction l using scan.induct e with
  | case1 => simp [scan, hc]
  | case2 => rw [List.singleton_append, scan_esc_cons]; simp [scan, hd]
  | case3 x hx => rw [List.singleton_append, scan_cons_of_ne hx]; simp [scan, hc, hx]
  | case4 x l ih =>
    rw [List.cons_append, List.cons_append, scan_esc_cons, scan_esc_cons, List.mem_cons, ih,
      List.mem_cons]
  | case5 x x' l hx ih =>
    rw [List.cons_append, scan_cons_of_ne hx, scan_cons_of_ne hx, List.mem_cons, ih,
      List.mem_cons]

/-- A character that is taken along comes from the text. -/
theorem mem_of_esc_mem_scan {e c : α} {l : List α} (h : .esc c ∈ scan e l) : c ∈ l := by
  induction l using scan.induct e with
  | case1 => cases h
  | case2 => simp [scan] at h
  | case3 d hd => simp [scan, hd] at h
  | case4 d l ih =>
    rw [scan_esc_cons, List.mem_cons, Tok.esc.injEq] at h
    rcases h with rfl | h
    · exact List.mem_cons_of_mem _ List.mem_cons_self
    · exact List.mem_cons_of_mem _ (List.mem_cons_of_mem _ (ih h))
  | case5 d d' l hd ih =>
    rw [scan_cons_of_ne hd, List.mem_cons] at h
    rcases h with h | h
    · cases h
    · exact List.mem_cons_of_mem _ (ih h)

/-- A character that stands for itself comes from the text. -/
theorem mem_of_plain_mem_scan {e c : α} {l : List α} (h : .plain c ∈ scan e l) : c ∈ l := by
  induction l using scan.induct e with
  | case1 => cases h
  | case2 => simp [scan] at h
  | case3 d hd =>
    rw [scan, if_neg hd, List.mem_singleton, Tok.plain.injEq] at h
    rw [h]
    exact List.mem_singleton_self d
  | case4 d l ih =>
    rw [scan_esc_cons, List.mem_cons] at h
    rcases h with h | h
    · cases h
    · exact List.mem_cons_of_mem _ (List.mem_cons_of_mem _ (ih h))
  | case5 d d' l hd ih =>
    rw [scan_cons_of_ne hd, List.mem_cons, Tok.plain.injEq] at h
    rcases h with rfl | h
    · exact List.mem_cons_self
    · exact List.mem_cons_of_mem _ (ih h)

/-- Two readings that give every token texts of one length agree on the whole
only if they agree on every token. -/
theorem eq_of_flatMap_eq {β γ : Type} {f g : γ → List β} {l : List γ}
    (hlen : ∀ t ∈ l, (f t).length = (g t).length) (h : l.flatMap f = l.flatMap g) :
    ∀ t ∈ l, f t = g t := by
  induction l with
  | nil => exact fun t ht => absurd ht List.not_mem_nil
  | cons u l ih =>
    rw [List.flatMap_cons, List.flatMap_cons] at h
    obtain ⟨hu, hl⟩ := List.append_inj h (hlen u List.mem_cons_self)
    intro t ht
    rcases List.mem_cons.mp ht with rfl | ht
    · exact hu
    · exact ih (fun t ht => hlen t (List.mem_cons_of_mem _ ht)) hl t ht

/-! ### Cutting a text at a separator -/

section Split

variable {β : Type} {p : β → Bool}

theorem splitOnP_append {w : List β} (hw : ∀ b ∈ w, p b = false) (l : List β) :
    (w ++ l).splitOnP p = (l.splitOnP p).modifyHead (w ++ ·) := by
  induction w with
  | nil =>
    rw [List.nil_append]
    cases l.splitOnP p <;> rfl
  | cons b w ih =>
    obtain ⟨hb, hrest⟩ := List.forall_mem_cons.mp hw
    rw [List.cons_append, List.splitOnP_cons_eq_if_modifyHead, hb, if_neg Bool.false_ne_true,
      ih hrest, List.modifyHead_modifyHead]
    rfl

theorem length_splitOnP (l : List β) : (l.splitOnP p).length = l.countP p + 1 := by
  induction l with
  | nil => rfl
  | cons b l ih =>
    rw [List.splitOnP_cons_eq_if_modifyHead]
    split
    · rename_i hb
      rw [List.length_cons, ih, List.countP_cons_of_pos hb]
    · rename_i hb
      rw [List.length_modifyHead, ih, List.countP_cons_of_neg hb]

/-- Nothing but the separators is lost. -/
theorem mem_splitOnP {x : β} (hx : p x = false) (l : List β) :
    x ∈ l ↔ ∃ t ∈ l.splitOnP p, x ∈ t := by
  induction l with
  | nil => simp
  | cons b l ih =>
    rw [List.splitOnP_cons_eq_if_modifyHead, List.mem_cons, ih]
    split
    · rename_i hb
      have hne : x ≠ b := by
        rintro rfl
        rw [hx] at hb
        cases hb
      simp [hne]
    · obtain ⟨y, ys, hl⟩ := List.exists_cons_of_ne_nil (List.splitOnP_ne_nil p l)
      rw [hl]
      simp [or_assoc]

/-- **A text may be cut at the separators before it is read.**  The separators
are those of the text: one that is taken along stays one, and no other token
stands for a text with a separator in it. -/
theorem splitOnP_flatMap_scan {e c : α} {b : β} {f : Tok α → List β} (hc : c ≠ e)
    (hb : p b = true) (hplain : f (.plain c) = [b]) (hesc : f (.esc c) = f .lone ++ [b])
    (hf : ∀ t, t ≠ .plain c → t ≠ .esc c → ∀ b ∈ f t, p b = false) (l : List α) :
    ((scan e l).flatMap f).splitOnP p =
      (l.splitOnP (· = c)).map fun l => (scan e l).flatMap f := by
  have hlone : ∀ b ∈ f .lone, p b = false := hf _ nofun nofun
  have hcut : ∀ l : List α, (c :: l).splitOnP (· = c) = [] :: l.splitOnP (· = c) := fun l => by
    rw [List.splitOnP_cons_eq_if_modifyHead, if_pos (by simp)]
  have hkeep : ∀ d l, d ≠ c → ∀ x xs, l.splitOnP (· = c) = x :: xs →
      (d :: l).splitOnP (· = c) = (d :: x) :: xs := by
    intro d l hd x xs hl
    rw [List.splitOnP_cons_eq_if_modifyHead, if_neg (by simpa using hd), hl]
    rfl
  have hparts : ∀ l : List α, ∃ x xs, l.splitOnP (· = c) = x :: xs :=
    fun l => List.exists_cons_of_ne_nil (List.splitOnP_ne_nil _ l)
  have hsep : ∀ l : List β, (b :: l).splitOnP p = [] :: l.splitOnP p := fun l => by
    rw [List.splitOnP_cons_eq_if_modifyHead, if_pos hb]
  induction l using scan.induct e with
  | case1 => rfl
  | case2 =>
    rw [hkeep e [] hc.symm [] [] rfl, scan, if_pos rfl, List.flatMap_singleton,
      List.splitOnP_eq_singleton hlone]
    simp [scan]
  | case3 d hd =>
    rw [scan, if_neg hd, List.flatMap_singleton]
    by_cases hdc : d = c
    · rw [hdc, hplain, hsep, hcut]
      rfl
    · have hno := hf (.plain d) (fun h => hdc (Tok.plain.inj h)) nofun
      rw [hkeep d [] hdc [] [] rfl, List.splitOnP_eq_singleton hno]
      simp [scan, hd]
  | case4 d l ih =>
    obtain ⟨x, xs, hl⟩ := hparts l
    rw [scan_esc_cons, List.flatMap_cons]
    by_cases hdc : d = c
    · rw [hdc, hesc, List.append_assoc, splitOnP_append hlone, List.singleton_append, hsep, ih,
        hkeep e _ hc.symm _ _ (hcut l)]
      simp [scan]
    · have hno := hf (.esc d) nofun (fun h => hdc (Tok.esc.inj h))
      rw [splitOnP_append hno, ih, hkeep e _ hc.symm _ _ (hkeep d l hdc x xs hl), hl]
      simp [scan_esc_cons]
  | case5 d d' l hd ih =>
    obtain ⟨x, xs, hl⟩ := hparts (d' :: l)
    rw [scan_cons_of_ne hd, List.flatMap_cons]
    by_cases hdc : d = c
    · rw [hdc, hplain, List.singleton_append, hsep, hcut, ih]
      rfl
    · have hno := hf (.plain d) (fun h => hdc (Tok.plain.inj h)) nofun
      rw [splitOnP_append hno, ih, hkeep d _ hdc x xs hl, hl]
      simp [scan_cons_of_ne hd]

end Split

end Escape
