import Mathlib.Data.List.Basic

/-!
# Programs that ask

A program that depends on its surroundings asks them, and everything they say
in a run is one script of answers, read from the front (`Run.ask`).  A script
may end while the program is still asking: then the program is `cut` off, so
the runs of a program include every run as far as it got.

`Meets` is the weakest precondition of a program over all scripts whose answers
are as `P` says: it ends in `Q`, or it stops in `K`.  `Ends` says that it does
not fault and takes at most `n` answers, so it is only ever cut off by a shorter
script.  Both have one rule for each way a program is built.

An endless loop (`Run.forever`) takes as many turns as the script has answers,
and one more: each turn asks at least once, so a script is over before that.
-/

namespace Script

variable {ω ε σ τ α β : Type}

inductive Stop (ε : Type) where
  /-- the script is over -/
  | cut
  /-- a call waits for what never comes -/
  | stuck
  | fault (e : ε)
  deriving DecidableEq, Repr

theorem Stop.cut_ne_stuck : (Stop.cut : Stop ε) ≠ .stuck := nofun

theorem Stop.fault_ne_stuck (e : ε) : Stop.fault e ≠ .stuck := nofun

inductive Res (ω ε σ α : Type) where
  | done (a : α) (s : σ) (rest : List ω)
  | stop (why : Stop ε) (s : σ)

def Res.state : Res ω ε σ α → σ
  | .done _ s _ => s
  | .stop _ s => s

def Res.Faults (e : ε) : Res ω ε σ α → Prop
  | .stop (.fault e') _ => e' = e
  | _ => False

instance [DecidableEq ε] (e : ε) (r : Res ω ε σ α) : Decidable (r.Faults e) :=
  match r with
  | .stop (.fault e') _ => inferInstanceAs (Decidable (e' = e))
  | .stop .cut _ => isFalse id
  | .stop .stuck _ => isFalse id
  | .done _ _ _ => isFalse id

/-- More answers would not have led any further. -/
def Res.Over : Res ω ε σ α → Prop
  | .stop .cut _ => False
  | _ => True

instance (r : Res ω ε σ α) : Decidable r.Over :=
  match r with
  | .stop .cut _ => isFalse id
  | .stop .stuck _ => isTrue trivial
  | .stop (.fault _) _ => isTrue trivial
  | .done _ _ _ => isTrue trivial

/-- A run that is over, but has not come to a fault and does not wait, has come to its end. -/
theorem Res.Over.exists {r : Res ω ε σ α} (h : r.Over) (hfault : ∀ e, ¬r.Faults e)
    (hstuck : ∀ s, r ≠ .stop .stuck s) : ∃ a s rest, r = .done a s rest := by
  cases r with
  | done a s rest => exact ⟨a, s, rest, rfl⟩
  | stop why s =>
    cases why with
    | cut => exact h.elim
    | stuck => exact absurd rfl (hstuck s)
    | fault e => exact absurd rfl (hfault e)

inductive Res.After (Q : α → σ → Prop) : Res ω ε σ α → Prop
  | done {a : α} {s : σ} {rest : List ω} (h : Q a s) : After Q (.done a s rest)

instance (r : Res ω ε σ α) (Q : α → σ → Prop) [∀ a s, Decidable (Q a s)] :
    Decidable (r.After Q) :=
  match r with
  | .done a s _ => decidable_of_iff (Q a s) ⟨.done, fun h => match h with | .done h => h⟩
  | .stop _ _ => isFalse fun h => nomatch h

theorem Res.after_done {a : α} {s : σ} {rest : List ω} {Q : α → σ → Prop} :
    (Res.done a s rest : Res ω ε σ α).After Q ↔ Q a s :=
  ⟨fun h => match h with | .done h => h, .done⟩

theorem Res.After.mono {r : Res ω ε σ α} {Q Q' : α → σ → Prop} (h : r.After Q)
    (hQ : ∀ a s rest, r = .done a s rest → Q a s → Q' a s) : r.After Q' := by
  cases h with
  | done h => exact .done (hQ _ _ _ rfl h)

theorem Res.After.exists {r : Res ω ε σ α} {Q : α → σ → Prop} (h : r.After Q) :
    ∃ a s rest, r = .done a s rest ∧ Q a s := by
  cases h with
  | done h => exact ⟨_, _, _, rfl, h⟩

/-- A program with the state `σ`, the answers `ω` and the faults `ε`. -/
def Run (ω ε σ α : Type) : Type := σ → List ω → Res ω ε σ α

namespace Run

protected def bind (m : Run ω ε σ α) (f : α → Run ω ε σ β) : Run ω ε σ β := fun s o =>
  match m s o with
  | .done a s' o' => f a s' o'
  | .stop why s' => .stop why s'

instance : Monad (Run ω ε σ) where
  pure a := fun s o => .done a s o
  bind := Run.bind

protected theorem bind_assoc {γ : Type} (m : Run ω ε σ α) (f : α → Run ω ε σ β)
    (g : β → Run ω ε σ γ) : m >>= f >>= g = m >>= fun a => f a >>= g := by
  funext s o
  show Run.bind (Run.bind m f) g s o = Run.bind m (fun a => Run.bind (f a) g) s o
  simp only [Run.bind]
  cases m s o with
  | done a s' o' => rfl
  | stop why s' => rfl

protected theorem id_map (m : Run ω ε σ α) : id <$> m = m := by
  funext s o
  show Run.bind m pure s o = m s o
  simp only [Run.bind]
  cases m s o with
  | done a s' o' => rfl
  | stop why s' => rfl

instance : LawfulMonad (Run ω ε σ) :=
  LawfulMonad.mk' _ Run.id_map (fun _ _ => rfl) Run.bind_assoc

def ask : Run ω ε σ ω := fun s o =>
  match o with
  | [] => .stop .cut s
  | w :: o => .done w s o

def get : Run ω ε σ σ := fun s o => .done s s o

def modify (f : σ → σ) : Run ω ε σ Unit := fun s o => .done () (f s) o

def fault (e : ε) : Run ω ε σ α := fun s _ => .stop (.fault e) s

def stuck : Run ω ε σ α := fun s _ => .stop .stuck s

def zoom (part : τ → σ) (put : σ → τ → τ) (m : Run ω ε σ α) : Run ω ε τ α := fun t o =>
  match m (part t) o with
  | .done a s o => .done a (put s t) o
  | .stop why s => .stop why (put s t)

/-- At most `n` turns of a loop; a turn says how the next one starts, or what
the loop comes to. -/
def turns (body : α → Run ω ε σ (α ⊕ β)) : Nat → α → Run ω ε σ β
  | 0, _ => fun s _ => .stop .cut s
  | n + 1, a => body a >>= fun r =>
    match r with
    | .inl a' => turns body n a'
    | .inr b => pure b

def forever (body : α → Run ω ε σ (α ⊕ β)) (a : α) : Run ω ε σ β := fun s o =>
  turns body (o.length + 1) a s o

end Run

open Run

/-! ### Over all scripts -/

/-- Started in `s`, with answers as `P` says, `m` ends in `Q` or stops in `K`. -/
def Meets (P : ω → Prop) (m : Run ω ε σ α) (s : σ) (Q : α → σ → Prop)
    (K : Stop ε → σ → Prop) : Prop :=
  ∀ o, (∀ w ∈ o, P w) →
    match m s o with
    | .done a s' rest => (∀ w ∈ rest, P w) ∧ Q a s'
    | .stop why s' => K why s'

section Meets

variable {P : ω → Prop} {s : σ} {K K' : Stop ε → σ → Prop}

theorem meets_pure {Q : α → σ → Prop} {a : α} (h : Q a s) :
    Meets P (pure a : Run ω ε σ α) s Q K :=
  fun _ ho => ⟨ho, h⟩

theorem meets_bind {Q : β → σ → Prop} {m : Run ω ε σ α} {f : α → Run ω ε σ β}
    (h : Meets P m s (fun a s' => Meets P (f a) s' Q K) K) : Meets P (m >>= f) s Q K := by
  intro o ho
  have hm := h o ho
  show match Run.bind m f s o with
    | .done a s' rest => (∀ w ∈ rest, P w) ∧ Q a s'
    | .stop why s' => K why s'
  rw [Run.bind]
  generalize m s o = res at hm ⊢
  cases res with
  | done a s' rest => exact hm.2 rest hm.1
  | stop why s' => exact hm

theorem meets_ask {Q : ω → σ → Prop} (h : ∀ w, P w → Q w s) (hcut : K .cut s) :
    Meets P (ask : Run ω ε σ ω) s Q K := by
  intro o ho
  cases o with
  | nil => exact hcut
  | cons w o => exact ⟨fun v hv => ho v (List.mem_cons_of_mem w hv), h w (ho w List.mem_cons_self)⟩

theorem meets_get {Q : σ → σ → Prop} (h : Q s s) : Meets P (get : Run ω ε σ σ) s Q K :=
  fun _ ho => ⟨ho, h⟩

theorem meets_modify {Q : Unit → σ → Prop} {f : σ → σ} (h : Q () (f s)) :
    Meets P (modify f : Run ω ε σ Unit) s Q K :=
  fun _ ho => ⟨ho, h⟩

theorem meets_fault {Q : α → σ → Prop} {e : ε} (h : K (.fault e) s) :
    Meets P (fault e : Run ω ε σ α) s Q K :=
  fun _ _ => h

theorem meets_stuck {Q : α → σ → Prop} (h : K .stuck s) :
    Meets P (stuck : Run ω ε σ α) s Q K :=
  fun _ _ => h

theorem Meets.mono {Q Q' : α → σ → Prop} {m : Run ω ε σ α} (h : Meets P m s Q K)
    (hQ : ∀ a s', Q a s' → Q' a s') (hK : ∀ why s', K why s' → K' why s') :
    Meets P m s Q' K' := by
  intro o ho
  have hm := h o ho
  generalize m s o = res at hm ⊢
  cases res with
  | done a s' rest => exact ⟨hm.1, hQ a s' hm.2⟩
  | stop why s' => exact hK why s' hm

theorem Meets.imp {Q Q' : α → σ → Prop} {m : Run ω ε σ α} (h : Meets P m s Q K)
    (hQ : ∀ a s', Q a s' → Q' a s') : Meets P m s Q' K :=
  h.mono hQ fun _ _ hk => hk

theorem Meets.andThen {R : α → σ → Prop} {Q : β → σ → Prop} {m : Run ω ε σ α}
    {f : α → Run ω ε σ β} (h : Meets P m s R K)
    (hf : ∀ a s', R a s' → Meets P (f a) s' Q K) : Meets P (m >>= f) s Q K :=
  meets_bind (h.imp hf)

theorem Meets.and_any {Q R : α → σ → Prop} {m : Run ω ε σ α} (h : Meets P m s Q K)
    (h' : Meets P m s R K') : Meets P m s (fun a s' => Q a s' ∧ R a s') K := by
  intro o ho
  have h1 := h o ho
  have h2 := h' o ho
  generalize m s o = res at h1 h2 ⊢
  cases res with
  | done a s' rest => exact ⟨h1.1, h1.2, h2.2⟩
  | stop why s' => exact h1

theorem Meets.and {Q R : α → σ → Prop} {m : Run ω ε σ α} (h : Meets P m s Q K)
    (h' : Meets P m s R K) : Meets P m s (fun a s' => Q a s' ∧ R a s') K :=
  h.and_any h'

theorem meets_zoom {Q : α → τ → Prop} {K : Stop ε → τ → Prop} {t : τ} {part : τ → σ}
    {put : σ → τ → τ} {m : Run ω ε σ α}
    (h : Meets P m (part t) (fun a s' => Q a (put s' t)) (fun why s' => K why (put s' t))) :
    Meets P (zoom part put m) t Q K := by
  intro o ho
  have hm := h o ho
  rw [zoom]
  generalize m (part t) o = res at hm ⊢
  cases res with
  | done a s' rest => exact hm
  | stop why s' => exact hm

/-- **The rule for loops**: `I` is what holds in front of every turn. -/
theorem meets_forever {Q : β → σ → Prop} {body : α → Run ω ε σ (α ⊕ β)} (I : α → σ → Prop)
    (hcut : ∀ a s, I a s → K .cut s)
    (hbody : ∀ a s, I a s → Meets P (body a) s (fun r s' => Sum.elim (I · s') (Q · s') r) K)
    {a : α} (h : I a s) : Meets P (forever body a) s Q K := by
  have hturns : ∀ n a s, I a s → Meets P (turns body n a) s Q K := by
    intro n
    induction n with
    | zero => exact fun a s h _ _ => hcut a s h
    | succ n ih =>
      intro a s h
      refine meets_bind ((hbody a s h).imp ?_)
      intro r s' hr
      cases r with
      | inl a' => exact ih a' s' hr
      | inr b => exact meets_pure hr
  exact fun o ho => hturns (o.length + 1) a s h o ho

/-- Whatever the answers are, `m` ends in `Q` if it ends. -/
abbrev Leads (m : Run ω ε σ α) (s : σ) (Q : α → σ → Prop) : Prop :=
  Meets (fun _ => True) m s Q fun _ _ => True

theorem leads_any (m : Run ω ε σ α) (s : σ) : Leads m s fun _ _ => True := by
  intro o _
  cases m s o with
  | done a s' rest => exact ⟨fun _ _ => trivial, trivial⟩
  | stop why s' => trivial

theorem meets_forever_inv {body : α → Run ω ε σ (α ⊕ β)} (I : σ → Prop)
    (hcut : ∀ s, I s → K .cut s)
    (hbody : ∀ a s, I s → Meets P (body a) s (fun _ s' => I s') K) {a : α} (h : I s) :
    Meets P (forever body a) s (fun _ s' => I s') K := by
  refine meets_forever (fun _ s => I s) (fun _ => hcut) (fun a s hs => ?_) h
  refine (hbody a s hs).imp fun r s' hr => ?_
  cases r <;> exact hr

end Meets

/-! ### With enough answers -/

/-- Started in `s`, with answers as `P` says, `m` ends in `Q` after at most `n`
of them, unless the script is over before that. -/
def Ends (P : ω → Prop) (n : Nat) (m : Run ω ε σ α) (s : σ) (Q : α → σ → Prop) : Prop :=
  ∀ o, (∀ w ∈ o, P w) →
    match m s o with
    | .done a s' rest => (∀ w ∈ rest, P w) ∧ o.length ≤ rest.length + n ∧ Q a s'
    | .stop why _ => why = .cut ∧ o.length < n

section Ends

variable {P : ω → Prop} {s : σ} {k n : Nat}

theorem ends_pure {Q : α → σ → Prop} {a : α} (h : Q a s) :
    Ends P n (pure a : Run ω ε σ α) s Q :=
  fun _ ho => ⟨ho, Nat.le_add_right _ _, h⟩

theorem ends_bind {Q : β → σ → Prop} {m : Run ω ε σ α} {f : α → Run ω ε σ β}
    (h : Ends P k m s (fun a s' => Ends P n (f a) s' Q)) : Ends P (k + n) (m >>= f) s Q := by
  intro o ho
  have hm := h o ho
  show match Run.bind m f s o with
    | .done a s' rest => (∀ w ∈ rest, P w) ∧ o.length ≤ rest.length + (k + n) ∧ Q a s'
    | .stop why _ => why = .cut ∧ o.length < k + n
  rw [Run.bind]
  generalize m s o = res at hm ⊢
  cases res with
  | stop why s' => exact ⟨hm.1, Nat.lt_add_right n hm.2⟩
  | done a s' o' =>
    obtain ⟨ho', hlen, hf⟩ := hm
    have hfo := hf o' ho'
    dsimp only
    generalize f a s' o' = res at hfo ⊢
    cases res with
    | stop why s'' => exact ⟨hfo.1, by have := hfo.2; omega⟩
    | done b s'' o'' => exact ⟨hfo.1, by have := hfo.2.1; omega, hfo.2.2⟩

theorem ends_step {Q : β → σ → Prop} {m : Run ω ε σ α} {f : α → Run ω ε σ β}
    (h : Ends P 0 m s (fun a s' => Ends P n (f a) s' Q)) : Ends P n (m >>= f) s Q := by
  have hb := ends_bind h
  rwa [Nat.zero_add] at hb

theorem ends_ask {Q : ω → σ → Prop} (h : ∀ w, P w → Q w s) :
    Ends P 1 (ask : Run ω ε σ ω) s Q := by
  intro o ho
  cases o with
  | nil => exact ⟨rfl, Nat.one_pos⟩
  | cons w o =>
    exact ⟨fun v hv => ho v (List.mem_cons_of_mem w hv), Nat.le_refl _, h w (ho w List.mem_cons_self)⟩

theorem ends_get {Q : σ → σ → Prop} (h : Q s s) : Ends P n (get : Run ω ε σ σ) s Q :=
  fun _ ho => ⟨ho, Nat.le_add_right _ _, h⟩

theorem ends_modify {Q : Unit → σ → Prop} {f : σ → σ} (h : Q () (f s)) :
    Ends P n (modify f : Run ω ε σ Unit) s Q :=
  fun _ ho => ⟨ho, Nat.le_add_right _ _, h⟩

theorem Ends.mono {Q Q' : α → σ → Prop} {m : Run ω ε σ α} (h : Ends P k m s Q) (hn : k ≤ n)
    (hQ : ∀ a s', Q a s' → Q' a s') : Ends P n m s Q' := by
  intro o ho
  have hm := h o ho
  generalize m s o = res at hm ⊢
  cases res with
  | done a s' rest => exact ⟨hm.1, by have := hm.2.1; omega, hQ a s' hm.2.2⟩
  | stop why s' => exact ⟨hm.1, by have := hm.2; omega⟩

theorem Ends.meets {Q : α → σ → Prop} {K : Stop ε → σ → Prop} {m : Run ω ε σ α}
    (h : Ends P n m s Q) (hK : 0 < n → ∀ s', K .cut s') : Meets P m s Q K := by
  intro o ho
  have hm := h o ho
  generalize m s o = res at hm ⊢
  cases res with
  | done a s' rest => exact ⟨hm.1, hm.2.2⟩
  | stop why s' =>
    obtain ⟨rfl, hlt⟩ := hm
    exact hK (by omega) s'

theorem Ends.of_done {Q : α → σ → Prop} {m : Run ω ε σ α} (h : Ends P n m s Q) {o rest : List ω}
    {a : α} {s' : σ} (ho : ∀ w ∈ o, P w) (hrun : m s o = .done a s' rest) : Q a s' := by
  have hm := h o ho
  rw [hrun] at hm
  exact hm.2.2

theorem Ends.and {Q R : α → σ → Prop} {m : Run ω ε σ α} (h : Ends P n m s Q) (hm : Leads m s R) :
    Ends P n m s (fun a s' => Q a s' ∧ R a s') := by
  intro o ho
  have h1 := h o ho
  have h2 := hm o fun _ _ => trivial
  generalize m s o = res at h1 h2 ⊢
  cases res with
  | done a s' rest => exact ⟨h1.1, h1.2.1, h1.2.2, h2.2⟩
  | stop why s' => exact h1

theorem Ends.after {Q : α → σ → Prop} {m : Run ω ε σ α} (h : Ends P n m s Q) {o : List ω}
    (ho : ∀ w ∈ o, P w) (hlen : n ≤ o.length) : (m s o).After Q := by
  have hm := h o ho
  generalize m s o = res at hm ⊢
  cases res with
  | done a s' rest => exact .done hm.2.2
  | stop why s' => exact absurd hm.2 (Nat.not_lt.mpr hlen)

/-- **The rule for loops that end**: `I m` is what holds in front of a turn if
at most `m` more follow it. -/
theorem ends_forever {Q : β → σ → Prop} {body : α → Run ω ε σ (α ⊕ β)} (I : Nat → α → σ → Prop)
    (hk : 1 ≤ k)
    (hbody : ∀ m a s, I m a s →
      Ends P k (body a) s (fun r s' => Sum.elim (fun a' => ∃ m' < m, I m' a' s') (Q · s') r))
    {m : Nat} {a : α} (h : I m a s) : Ends P ((m + 1) * k) (forever body a) s Q := by
  have hturns : ∀ j m a s, I m a s → ∀ o, (∀ w ∈ o, P w) →
      match turns body j a s o with
      | .done b s' rest => (∀ w ∈ rest, P w) ∧ o.length ≤ rest.length + (m + 1) * k ∧ Q b s'
      | .stop why _ => why = .cut ∧ (o.length < (m + 1) * k ∨ j ≤ m) := by
    intro j
    induction j with
    | zero => exact fun m a s _ o _ => ⟨rfl, Or.inr (Nat.zero_le m)⟩
    | succ j ih =>
      intro m a s h o ho
      have hb := hbody m a s h o ho
      have hmul : ∀ m' < m, (m' + 1) * k + k ≤ (m + 1) * k := by
        intro m' hlt
        rw [← Nat.succ_mul]
        exact Nat.mul_le_mul_right k (Nat.succ_le_succ hlt)
      have hm1 : k ≤ (m + 1) * k := Nat.le_mul_of_pos_left k (Nat.succ_pos m)
      rw [turns]
      show match Run.bind (body a) _ s o with
        | .done b s' rest => (∀ w ∈ rest, P w) ∧ o.length ≤ rest.length + (m + 1) * k ∧ Q b s'
        | .stop why _ => why = .cut ∧ (o.length < (m + 1) * k ∨ j + 1 ≤ m)
      rw [Run.bind]
      generalize body a s o = res at hb ⊢
      cases res with
      | stop why s' => exact ⟨hb.1, Or.inl (Nat.lt_of_lt_of_le hb.2 hm1)⟩
      | done r s' o' =>
        obtain ⟨ho', hlen, hr⟩ := hb
        cases r with
        | inr b => exact ⟨ho', by omega, hr⟩
        | inl a' =>
          obtain ⟨m', hlt, hI⟩ := hr
          have hrest := ih m' a' s' hI o' ho'
          have := hmul m' hlt
          dsimp only
          generalize turns body j a' s' o' = res at hrest ⊢
          cases res with
          | done b s'' o'' => exact ⟨hrest.1, by have := hrest.2.1; omega, hrest.2.2⟩
          | stop why s'' =>
            refine ⟨hrest.1, ?_⟩
            rcases hrest.2 with hl | hl
            · exact Or.inl (by omega)
            · exact Or.inr (by omega)
  intro o ho
  have hrun := hturns (o.length + 1) m a s h o ho
  have := Nat.le_mul_of_pos_right (m + 1) hk
  rw [forever]
  generalize turns body (o.length + 1) a s o = res at hrun ⊢
  cases res with
  | done b s' rest => exact hrun
  | stop why s' =>
    refine ⟨hrun.1, ?_⟩
    rcases hrun.2 with hl | hl
    · exact hl
    · omega

theorem ends_forever_once {Q : β → σ → Prop} {body : α → Run ω ε σ (α ⊕ β)} {a : α}
    (h : Ends P n (body a) s (fun r s' => ∃ b, r = .inr b ∧ Q b s')) :
    Ends P n (forever body a) s Q := by
  intro o ho
  have hb := h o ho
  show match Run.bind (body a) _ s o with
    | .done b s' rest => (∀ w ∈ rest, P w) ∧ o.length ≤ rest.length + n ∧ Q b s'
    | .stop why _ => why = .cut ∧ o.length < n
  rw [Run.bind]
  generalize body a s o = res at hb ⊢
  cases res with
  | stop why s' => exact hb
  | done r s' rest =>
    obtain ⟨ho', hlen, b, rfl, hQ⟩ := hb
    exact ⟨ho', hlen, hQ⟩

end Ends

/-! ### One run -/

theorem bind_of_done {m : Run ω ε σ α} {f : α → Run ω ε σ β} {s s' : σ} {o o' : List ω} {a : α}
    (h : m s o = .done a s' o') : (m >>= f) s o = f a s' o' := by
  show Run.bind m f s o = _
  rw [Run.bind, h]

theorem bind_of_stop {m : Run ω ε σ α} {f : α → Run ω ε σ β} {s s' : σ} {o : List ω}
    {why : Stop ε} (h : m s o = .stop why s') : (m >>= f) s o = .stop why s' := by
  show Run.bind m f s o = _
  rw [Run.bind, h]

/-- What `m` leads to does not depend on what is made of its value. -/
theorem Meets.of_bind_pure {P : ω → Prop} {m : Run ω ε σ α} {s : σ} {Q : σ → Prop}
    {K : Stop ε → σ → Prop} (h : Meets P (m >>= fun _ => pure ()) s (fun _ s' => Q s') K) :
    Meets P m s (fun _ s' => Q s') K := by
  intro o ho
  have hm := h o ho
  cases hrun : m s o with
  | done a s' rest =>
    rw [bind_of_done hrun] at hm
    exact hm
  | stop why s' =>
    rw [bind_of_stop hrun] at hm
    exact hm

theorem bind_congr_run {m m' : Run ω ε σ α} {f : α → Run ω ε σ β} {s s' : σ} {o o' : List ω}
    (h : m s o = m' s' o') : (m >>= f) s o = (m' >>= f) s' o' := by
  show Run.bind m f s o = Run.bind m' f s' o'
  rw [Run.bind, Run.bind, h]

theorem zoom_of_done {m : Run ω ε σ α} {part : τ → σ} {put : σ → τ → τ} {t : τ} {s' : σ}
    {o o' : List ω} {a : α} (h : m (part t) o = .done a s' o') :
    zoom part put m t o = .done a (put s' t) o' := by
  rw [zoom, h]

theorem faults_bind_of_stop {m : Run ω ε σ α} {f : α → Run ω ε σ β} {s s' : σ} {o : List ω}
    {why : Stop ε} {e : ε} (h : m s o = .stop why s') :
    ((m >>= f) s o).Faults e ↔ (m s o).Faults e := by
  rw [bind_of_stop h, h]
  cases why with
  | cut | stuck => exact Iff.rfl
  | fault e' => exact Iff.rfl

theorem of_bind_done {m : Run ω ε σ α} {f : α → Run ω ε σ β} {s s' : σ} {o o' : List ω} {b : β}
    (h : (m >>= f) s o = .done b s' o') :
    ∃ a s₁ o₁, m s o = .done a s₁ o₁ ∧ f a s₁ o₁ = .done b s' o' := by
  cases hm : m s o with
  | stop why s₁ =>
    rw [bind_of_stop hm] at h
    cases h
  | done a s₁ o₁ =>
    rw [bind_of_done hm] at h
    exact ⟨a, s₁, o₁, rfl, h⟩

theorem of_zoom_done {m : Run ω ε σ α} {part : τ → σ} {put : σ → τ → τ} {t t' : τ}
    {o o' : List ω} {a : α} (h : zoom part put m t o = .done a t' o') :
    ∃ s', m (part t) o = .done a s' o' ∧ t' = put s' t := by
  rw [zoom] at h
  cases hm : m (part t) o with
  | stop why s' =>
    rw [hm] at h
    cases h
  | done b s' o'' =>
    rw [hm] at h
    cases h
    exact ⟨s', rfl, rfl⟩

theorem Meets.of_done {P : ω → Prop} {m : Run ω ε σ α} {s s' : σ} {o o' : List ω} {a : α}
    {Q : α → σ → Prop} {K : Stop ε → σ → Prop} (h : Meets P m s Q K) (ho : ∀ w ∈ o, P w)
    (hrun : m s o = .done a s' o') : Q a s' := by
  have hm := h o ho
  rw [hrun] at hm
  exact hm.2

end Script
