import Crashinfo.Basic
import Crashinfo.Lib.Script

/-!
# What the system answers

Every call whose outcome the program does not decide asks for an `Answer`.  An
answer that does not fit the call counts as `ok`, so every list of answers is a
script of every program.
-/

namespace Crashinfo

inductive Errno where
  | eintr
  | eagain
  | ebadf
  | eexist
  | enoent
  | epipe
  | other
  deriving DecidableEq, Repr

/-- What the thread that dumps the information does on its own. -/
inductive ThreadAct where
  /-- it opens a file of `/proc` -/
  | openProc (cloexec : Bool)
  /-- it closes the last file it has opened -/
  | closeProc
  /-- it closes the info pipe, and ends -/
  | closePipe
  deriving DecidableEq, Repr

inductive Answer where
  | ok
  /-- the call fails -/
  | err (e : Errno)
  /-- a transfer stops after `n + 1` bytes -/
  | amount (n : Nat)
  /-- `unw_prepare` has returned `p` in the other thread -/
  | prepared (p : Int)
  | thread (a : ThreadAct)
  /-- a child has ended, by the signal `n` or with the exit code `n` -/
  | status (signaled : Bool) (n : Nat)
  deriving DecidableEq, Repr

def NoErr (w : Answer) : Prop := ∀ e, w ≠ .err e

def Answer.atMost (w : Answer) (n : Nat) : Nat :=
  match w with
  | .amount k => min (k + 1) n
  | _ => n

theorem Answer.atMost_le (w : Answer) (n : Nat) : w.atMost n ≤ n := by
  cases w with
  | amount k => exact Nat.min_le_right _ _
  | _ => exact Nat.le_refl n

theorem Answer.atMost_eq_zero {w : Answer} {n : Nat} (h : w.atMost n = 0) : n = 0 := by
  cases w with
  | amount k => simp only [Answer.atMost] at h; omega
  | _ => exact h

/-- The error of a call that creates a name: a name that is taken cannot be
created, and only then `EEXIST` is the answer. -/
def Answer.create (w : Answer) (taken : Bool) : Option Errno :=
  match w with
  | .err e => if e = .eexist then if taken then some e else none else some e
  | _ => if taken then some .eexist else none

theorem Answer.create_eq_none {w : Answer} {taken : Bool} (h : w.create taken = none) :
    taken = false := by
  cases taken with
  | false => rfl
  | true => cases w <;> simp [Answer.create] at h

theorem Answer.create_eq_some {w : Answer} {taken : Bool} {e : Errno}
    (h : w.create taken = some e) :
    e = .eexist ∧ taken = true ∨ e ≠ .eexist ∧ w = .err e := by
  have htaken : (if taken then some Errno.eexist else none) = some e →
      e = .eexist ∧ taken = true := by
    intro he
    cases taken with
    | false => cases he
    | true => exact ⟨(Option.some.inj he).symm, rfl⟩
  cases w with
  | err e' =>
    rw [Answer.create] at h
    by_cases he : e' = .eexist
    · rw [if_pos he, he] at h
      exact Or.inl (htaken h)
    · rw [if_neg he, Option.some.injEq] at h
      exact Or.inr (h ▸ ⟨he, rfl⟩)
  | ok => exact Or.inl (htaken h)
  | amount k => exact Or.inl (htaken h)
  | prepared p => exact Or.inl (htaken h)
  | thread a => exact Or.inl (htaken h)
  | status b n => exact Or.inl (htaken h)

end Crashinfo
