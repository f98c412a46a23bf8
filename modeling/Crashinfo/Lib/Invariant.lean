import Crashinfo.Lib.Script

/-!
# What holds wherever a program stops

`Always K I m R` says that `m` keeps `I`, whatever the answers are: `I` holds in
the end, and also where the run is cut off or faults.  Besides, what `m` comes
to is as `R` says, and it stops in no other way than `K` allows.  There is one
rule for each way a program is built, so a proof follows the text of the
program; what is to be shown is left to the primitive calls.
-/

namespace Script

open Run

variable {ω ε σ τ α β : Type}

/-- `m` keeps `I`, comes to what is in `R`, and stops as in `K`. -/
def Always (K : Stop ε → Prop) (I : σ → Prop) (m : Run ω ε σ α) (R : α → Prop) : Prop :=
  ∀ s, I s → Meets (fun _ => True) m s (fun a s' => I s' ∧ R a) (fun why s' => K why ∧ I s')

section Rules

variable {K : Stop ε → Prop} {I : σ → Prop} {R : α → Prop} {Q : β → Prop}

theorem always_pure {a : α} (h : R a) : Always K I (pure a : Run ω ε σ α) R :=
  fun _ hs => meets_pure ⟨hs, h⟩

theorem always_bind {m : Run ω ε σ α} {f : α → Run ω ε σ β} (hm : Always K I m R)
    (hf : ∀ a, R a → Always K I (f a) Q) : Always K I (m >>= f) Q :=
  fun s hs => (hm s hs).andThen fun a s' h => hf a h.2 s' h.1

theorem always_ask (hcut : K .cut) : Always K I (ask : Run ω ε σ ω) fun _ => True :=
  fun _ hs => meets_ask (fun _ _ => ⟨hs, trivial⟩) ⟨hcut, hs⟩

theorem always_get {R : σ → Prop} (h : ∀ s, I s → R s) : Always K I (get : Run ω ε σ σ) R :=
  fun s hs => meets_get ⟨hs, h s hs⟩

theorem always_modify {f : σ → σ} (h : ∀ s, I s → I (f s)) :
    Always K I (modify f : Run ω ε σ Unit) fun _ => True :=
  fun s hs => meets_modify ⟨h s hs, trivial⟩

theorem always_fault {e : ε} (h : K (.fault e)) : Always K I (fault e : Run ω ε σ α) R :=
  fun _ hs => meets_fault ⟨h, hs⟩

theorem always_stuck (h : K .stuck) : Always K I (stuck : Run ω ε σ α) R :=
  fun _ hs => meets_stuck ⟨h, hs⟩

theorem Always.mono {R' : α → Prop} {m : Run ω ε σ α} (h : Always K I m R)
    (hR : ∀ a, R a → R' a) : Always K I m R' :=
  fun s hs => (h s hs).imp fun a _ hr => ⟨hr.1, hR a hr.2⟩

theorem Always.leads {m : Run ω ε σ α} (h : Always K I m R) {s : σ} (hs : I s) :
    Leads m s fun a s' => I s' ∧ R a :=
  (h s hs).mono (fun _ _ hr => hr) fun _ _ _ => trivial

theorem Always.keeps {m : Run ω ε σ α} (h : Always K I m R) {s : σ} (hs : I s) :
    Leads m s fun _ s' => I s' :=
  (h.leads hs).imp fun _ _ hr => hr.1

/-- What the program reads from its state may be used in what follows. -/
theorem always_get_bind {f : σ → Run ω ε σ α} (h : ∀ s, I s → Always K I (f s) R) :
    Always K I (get >>= f) R :=
  always_bind (always_get fun _ hs => hs) h

/-- `J` is what holds of the loop variables in front of every turn. -/
theorem always_forever {body : α → Run ω ε σ (α ⊕ β)} (J : α → Prop) (hcut : K .cut)
    (hbody : ∀ a, J a → Always K I (body a) (Sum.elim J Q)) {a : α} (h : J a) :
    Always K I (forever body a) Q := by
  intro s hs
  refine meets_forever (fun a s => J a ∧ I s) (fun _ s h => ⟨hcut, h.2⟩) ?_ ⟨h, hs⟩
  intro a s hI
  refine (hbody a hI.1 s hI.2).imp fun r s' hr => ?_
  cases r with
  | inl a' => exact ⟨hr.2, hr.1⟩
  | inr b => exact ⟨hr.1, hr.2⟩

theorem always_zoom {J : τ → Prop} {part : τ → σ} {put : σ → τ → τ} {m : Run ω ε σ α}
    (hput : ∀ t, J t → J (put (part t) t)) (h : ∀ t, J t → Always K (fun s => J (put s t)) m R) :
    Always K J (zoom part put m) R :=
  fun t ht => meets_zoom (h t ht (part t) (hput t ht))

/-- What holds wherever a run stops holds where one has come to. -/
theorem Meets.state {m : Run ω ε σ α} {s : σ}
    (h : Meets (fun _ => True) m s (fun _ s' => I s') (fun _ s' => I s')) (o : List ω) :
    I (m s o).state := by
  have hm := h o fun _ _ => trivial
  generalize m s o = res at hm ⊢
  cases res with
  | done a s' rest => exact hm.2
  | stop why s' => exact hm

theorem Always.not_faults {e : ε} {m : Run ω ε σ α} (h : Always K I m R) (hK : ¬K (.fault e))
    {s : σ} (hs : I s) (o : List ω) : ¬(m s o).Faults e := by
  have hm := h s hs o fun _ _ => trivial
  generalize m s o = res at hm ⊢
  match res, hm with
  | .done _ _ _, _ => exact id
  | .stop .cut _, _ => exact id
  | .stop .stuck _, _ => exact id
  | .stop (.fault e') _, hm =>
    intro heq
    rw [show e' = e from heq] at hm
    exact hK hm.1

end Rules

end Script
