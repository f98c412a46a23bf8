import Crashinfo.Lib.Script

/-!
# Programs that pay for their answers

Some answers cost nothing, such as those that only make a program ask again.  A
program starts with a credit, pays for the answers it takes, and leaves what it
has not spent.  `Pays` is its weakest precondition: a script that costs as much
as the credit does not end before the program does, however many of its answers
are free.

A loop pays turn by turn (`pays_forever`), as long as it does not come to a turn
that is given up (`pays_forever_or`).  `Comes` are the turns a loop takes; from
any of them on it is the same loop (`Comes.forever_eq`).
-/

namespace Script

open Run

variable {ω ε σ α β : Type}

/-! ### How many answers are taken -/

/-- A program that ends takes `k` answers at least. -/
def Asks (k : Nat) (m : Run ω ε σ α) : Prop :=
  ∀ s o a s' o', m s o = .done a s' o' → o'.length + k ≤ o.length

section Asks

variable {j k : Nat}

theorem asks_pure (a : α) : Asks 0 (pure a : Run ω ε σ α) := by
  intro s o a' s' o' h
  cases h
  exact Nat.le_refl _

theorem asks_ask : Asks 1 (ask : Run ω ε σ ω) := by
  intro s o a s' o' h
  cases o with
  | nil => cases h
  | cons w o =>
    cases h
    exact Nat.le_refl _

theorem asks_get : Asks 0 (get : Run ω ε σ σ) := by
  intro s o a s' o' h
  cases h
  exact Nat.le_refl _

theorem asks_modify (f : σ → σ) : Asks 0 (modify f : Run ω ε σ Unit) := by
  intro s o a s' o' h
  cases h
  exact Nat.le_refl _

theorem asks_fault (e : ε) : Asks k (fault e : Run ω ε σ α) := by
  intro s o a s' o' h
  cases h

theorem asks_stuck : Asks k (stuck : Run ω ε σ α) := by
  intro s o a s' o' h
  cases h

theorem asks_bind {m : Run ω ε σ α} {f : α → Run ω ε σ β} (hm : Asks j m)
    (hf : ∀ a, Asks k (f a)) : Asks (j + k) (m >>= f) := by
  intro s o b s' o' h
  cases hrun : m s o with
  | done a t p =>
    rw [bind_of_done hrun] at h
    have h1 := hm _ _ _ _ _ hrun
    have h2 := hf a _ _ _ _ _ h
    omega
  | stop why t =>
    rw [bind_of_stop hrun] at h
    cases h

theorem Asks.le {m : Run ω ε σ α} (h : Asks k m) (hle : j ≤ k) : Asks j m := by
  intro s o a s' o' hrun
  have := h s o a s' o' hrun
  omega

theorem asks_forever {body : α → Run ω ε σ (α ⊕ β)} (h : ∀ a, Asks 0 (body a)) (a : α) :
    Asks 0 (forever body a) := by
  have hturns : ∀ n a, Asks 0 (turns body n a) := by
    intro n
    induction n with
    | zero =>
      intro a s o b s' o' hrun
      cases hrun
    | succ n ih =>
      intro a
      rw [turns]
      refine asks_bind (k := 0) (h a) fun r => ?_
      cases r with
      | inl b => exact ih b
      | inr b => exact asks_pure b
  exact fun s o => hturns _ a s o

end Asks

/-! ### The turns of a loop -/

/-- The turns of `body` from `a` in `s` with the answers `o` lead to `a'` in `s'`,
with `o'` left. -/
inductive Comes (body : α → Run ω ε σ (α ⊕ β)) : α → σ → List ω → α → σ → List ω → Prop
  | refl (a : α) (s : σ) (o : List ω) : Comes body a s o a s o
  | step {a b a' : α} {s t s' : σ} {o p o' : List ω} (h : body a s o = .done (.inl b) t p)
      (hrest : Comes body b t p a' s' o') : Comes body a s o a' s' o'

def Asking (body : α → Run ω ε σ (α ⊕ β)) : Prop :=
  ∀ a s o b s' o', body a s o = .done (.inl b) s' o' → o'.length < o.length

section Turns

variable {body : α → Run ω ε σ (α ⊕ β)} {a a' : α} {s s' : σ} {o o' : List ω}

/-- More turns than answers are of no use. -/
theorem turns_eq (hask : Asking body) {m n : Nat} (hm : o.length < m) (hn : o.length < n) :
    turns body m a s o = turns body n a s o := by
  induction m generalizing n a s o with
  | zero => exact absurd hm (Nat.not_lt_zero _)
  | succ m ih =>
    cases n with
    | zero => exact absurd hn (Nat.not_lt_zero _)
    | succ n =>
      rw [turns, turns]
      cases hrun : body a s o with
      | stop why t => rw [bind_of_stop hrun, bind_of_stop hrun]
      | done r t p =>
        rw [bind_of_done hrun, bind_of_done hrun]
        cases r with
        | inr b => rfl
        | inl b =>
          have hlt := hask _ _ _ _ _ _ hrun
          exact ih (by omega) (by omega)

theorem forever_inl (hask : Asking body) {b : α} (h : body a s o = .done (.inl b) s' o') :
    forever body a s o = forever body b s' o' := by
  have hlt := hask _ _ _ _ _ _ h
  rw [forever, turns, bind_of_done h]
  exact turns_eq hask hlt (Nat.lt_succ_self _)

theorem forever_inr {b : β} (h : body a s o = .done (.inr b) s' o') :
    forever body a s o = .done b s' o' := by
  rw [forever, turns, bind_of_done h]
  rfl

theorem forever_stop {why : Stop ε} (h : body a s o = .stop why s') :
    forever body a s o = .stop why s' := by
  rw [forever, turns, bind_of_stop h]

/-- **A loop is the rest of it**, from wherever it has come to. -/
theorem Comes.forever_eq (hask : Asking body) (h : Comes body a s o a' s' o') :
    forever body a s o = forever body a' s' o' := by
  induction h with
  | refl => rfl
  | step h _ ih => exact (forever_inl hask h).trans ih

end Turns

/-! ### Paying -/

variable {c : ω → Nat}

def cost (c : ω → Nat) : List ω → Nat
  | [] => 0
  | w :: o => c w + cost c o

@[simp] theorem cost_nil : cost c [] = 0 := rfl

@[simp] theorem cost_cons (w : ω) (o : List ω) : cost c (w :: o) = c w + cost c o := rfl

@[simp] theorem cost_replicate (n : Nat) (w : ω) : cost c (List.replicate n w) = n * c w := by
  induction n with
  | zero => rw [List.replicate_zero, cost_nil, Nat.zero_mul]
  | succ n ih => rw [List.replicate_succ, cost_cons, ih, Nat.succ_mul, Nat.add_comm]

/-- A run with the credit `n`: it ends in `Q` with what is left of it, or is cut off
by a script that costs less. -/
def Paid (c : ω → Nat) (n : Nat) (o : List ω) (Q : α → σ → Nat → Prop) : Res ω ε σ α → Prop
  | .done a s rest => ∃ j, cost c o + j ≤ cost c rest + n ∧ Q a s j
  | .stop why _ => why = .cut ∧ cost c o < n

/-- Started in `s` with the credit `n`, `m` ends in `Q` with what is left of it. -/
def Pays (c : ω → Nat) (n : Nat) (m : Run ω ε σ α) (s : σ) (Q : α → σ → Nat → Prop) : Prop :=
  ∀ o, Paid c n o Q (m s o)

section Pays

variable {n : Nat} {s : σ}

theorem pays_pure {Q : α → σ → Nat → Prop} {a : α} (h : Q a s n) :
    Pays c n (pure a : Run ω ε σ α) s Q :=
  fun _ => ⟨n, Nat.le_refl _, h⟩

theorem pays_get {Q : σ → σ → Nat → Prop} (h : Q s s n) : Pays c n (get : Run ω ε σ σ) s Q :=
  fun _ => ⟨n, Nat.le_refl _, h⟩

theorem pays_modify {Q : Unit → σ → Nat → Prop} {f : σ → σ} (h : Q () (f s) n) :
    Pays c n (modify f : Run ω ε σ Unit) s Q :=
  fun _ => ⟨n, Nat.le_refl _, h⟩

theorem pays_ask {Q : ω → σ → Nat → Prop} (hn : 0 < n)
    (h : ∀ w, c w ≤ n ∧ Q w s (n - c w)) : Pays c n (ask : Run ω ε σ ω) s Q := by
  intro o
  cases o with
  | nil => exact ⟨rfl, hn⟩
  | cons w o =>
    obtain ⟨hle, hQ⟩ := h w
    refine ⟨n - c w, ?_, hQ⟩
    rw [cost_cons]
    omega

theorem Paid.of_done {k : Nat} {o p : List ω} {Q : α → σ → Nat → Prop} {r : Res ω ε σ α}
    (hcost : cost c o + k ≤ cost c p + n) (h : Paid c k p Q r) : Paid c n o Q r := by
  cases r with
  | done a s' rest =>
    obtain ⟨j, hj, hQ⟩ := h
    exact ⟨j, by omega, hQ⟩
  | stop why s' => exact ⟨h.1, by have := h.2; omega⟩

theorem pays_bind {Q : β → σ → Nat → Prop} {m : Run ω ε σ α} {f : α → Run ω ε σ β}
    (h : Pays c n m s fun a s' j => Pays c j (f a) s' Q) : Pays c n (m >>= f) s Q := by
  intro o
  have hm := h o
  cases hrun : m s o with
  | done a t p =>
    rw [hrun] at hm
    obtain ⟨j, hj, hf⟩ := hm
    rw [bind_of_done hrun]
    exact (hf p).of_done hj
  | stop why t =>
    rw [hrun] at hm
    rw [bind_of_stop hrun]
    exact hm

theorem Pays.imp {Q Q' : α → σ → Nat → Prop} {m : Run ω ε σ α} (h : Pays c n m s Q)
    (hQ : ∀ a s' j, Q a s' j → Q' a s' j) : Pays c n m s Q' := by
  intro o
  have hm := h o
  generalize m s o = res at hm ⊢
  cases res with
  | done a s' rest =>
    obtain ⟨j, hj, hq⟩ := hm
    exact ⟨j, hj, hQ _ _ _ hq⟩
  | stop why s' => exact hm

theorem Pays.andThen {R : α → σ → Nat → Prop} {Q : β → σ → Nat → Prop} {m : Run ω ε σ α}
    {f : α → Run ω ε σ β} (h : Pays c n m s R)
    (hf : ∀ a s' j, R a s' j → Pays c j (f a) s' Q) : Pays c n (m >>= f) s Q :=
  pays_bind (h.imp hf)

/-- **The rule for loops that may be given up**: `I` is what holds in front of a turn
with the credit that is left, and `X` is where the loop is given up. -/
theorem pays_forever_or {Q : β → σ → Nat → Prop} {body : α → Run ω ε σ (α ⊕ β)}
    (I : α → σ → Nat → Prop) (X : α → σ → Prop) (hask : Asking body)
    (hbody : ∀ a s j, I a s j → Pays c j (body a) s fun r s' j' =>
      Sum.elim (fun a' => I a' s' j' ∨ X a' s') (Q · s' j') r)
    {a : α} (h : I a s n) (o : List ω) :
    (∃ a' s' o', Comes body a s o a' s' o' ∧ X a' s') ∨ Paid c n o Q (forever body a s o) := by
  induction hlen : o.length using Nat.strongRecOn generalizing a s n o with
  | ind len ih =>
    have hb := hbody a s n h o
    cases hrun : body a s o with
    | stop why t =>
      rw [hrun] at hb
      rw [forever_stop hrun]
      exact Or.inr hb
    | done r t p =>
      rw [hrun] at hb
      obtain ⟨j, hj, hr⟩ := hb
      cases r with
      | inr b =>
        rw [forever_inr hrun]
        exact Or.inr ⟨j, hj, hr⟩
      | inl b =>
        rcases hr with hI | hX
        · have hlt := hask _ _ _ _ _ _ hrun
          rcases ih p.length (by omega) hI p rfl with ⟨a', s', o', hcomes, hX⟩ | hpaid
          · exact Or.inl ⟨a', s', o', .step hrun hcomes, hX⟩
          · rw [forever_inl hask hrun]
            exact Or.inr (hpaid.of_done hj)
        · exact Or.inl ⟨b, t, p, .step hrun (.refl b t p), hX⟩

theorem pays_forever {Q : β → σ → Nat → Prop} {body : α → Run ω ε σ (α ⊕ β)}
    (I : α → σ → Nat → Prop) (hask : Asking body)
    (hbody : ∀ a s j, I a s j → Pays c j (body a) s fun r s' j' =>
      Sum.elim (I · s' j') (Q · s' j') r)
    {a : α} (h : I a s n) : Pays c n (forever body a) s Q := by
  intro o
  refine (pays_forever_or I (fun _ _ => False) hask (fun a s j hI => ?_) h o).resolve_left ?_
  · refine (hbody a s j hI).imp fun r s' j' hr => ?_
    cases r with
    | inl a' => exact Or.inl hr
    | inr b => exact hr
  · rintro ⟨a', s', o', -, hX⟩
    exact hX

end Pays

end Script
