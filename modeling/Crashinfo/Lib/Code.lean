import Mathlib.Logic.Function.Basic

/-!
# Codes read back one symbol at a time

A `Code` writes each symbol as a word over another alphabet, and comes with a
reader that takes one word off the front of a text, whatever follows it
(`read_enc`).  That is all that is needed for a text written word after word to
be read back: `readAll_encAll`.  A `Quoted` code has a delimiter that no word
begins with, so a text can be closed by it; `unquote_quote` says that taking
the delimiters off again gives the symbols, and nothing but them.
-/

namespace Coding

/-- A code for some of the symbols: the words of `valid` symbols are read back
from the front of every text they begin. -/
structure Code (α β : Type) where
  enc : α → List β
  valid : α → Prop
  read : List β → Option (α × List β)
  read_enc : ∀ a, valid a → ∀ rest, read (enc a ++ rest) = some (a, rest)
  read_shorter : ∀ {t a rest}, read t = some (a, rest) → rest.length < t.length

variable {α β : Type}

def Code.encAll (c : Code α β) (s : List α) : List β := s.flatMap c.enc

theorem Code.enc_ne_nil (c : Code α β) {a : α} (h : c.valid a) : c.enc a ≠ [] := by
  intro he
  have := c.read_shorter (c.read_enc a h [])
  rw [he] at this
  simp at this

/-- A code with a delimiter that no word of a valid symbol begins with. -/
structure Quoted (α β : Type) extends Code α β where
  quote : β
  head_enc : ∀ a, valid a → (enc a).head? ≠ some quote

variable [DecidableEq β]

/-- Read words up to the delimiter, which has to end the text. -/
def Quoted.readTo (c : Quoted α β) (t : List β) : Option (List α) :=
  match t with
  | [] => none
  | b :: t' =>
    if b = c.quote then if t' = [] then some [] else none
    else
      match _h : c.read (b :: t') with
      | none => none
      | some (a, rest) => (c.readTo rest).map (a :: ·)
  termination_by t.length
  decreasing_by exact c.read_shorter _h

def Quoted.quoteAll (c : Quoted α β) (s : List α) : List β :=
  c.quote :: (c.encAll s ++ [c.quote])

/-- Take the delimiters off and read the words between them. -/
def Quoted.unquote (c : Quoted α β) : List β → Option (List α)
  | [] => none
  | b :: t => if b = c.quote then c.readTo t else none

theorem Quoted.unquote_cons (c : Quoted α β) (t : List β) :
    c.unquote (c.quote :: t) = c.readTo t := by
  rw [Quoted.unquote, if_pos rfl]

theorem Quoted.readTo_quote (c : Quoted α β) : c.readTo [c.quote] = some [] := by
  rw [Quoted.readTo, if_pos rfl, if_pos rfl]

theorem Quoted.readTo_of_read (c : Quoted α β) {b : β} {t : List β} {a : α} {rest : List β}
    (hb : b ≠ c.quote) (h : c.read (b :: t) = some (a, rest)) :
    c.readTo (b :: t) = (c.readTo rest).map (a :: ·) := by
  rw [Quoted.readTo, if_neg hb]
  split
  · rename_i hn; rw [h] at hn; cases hn
  · rename_i hs
    rw [h] at hs
    cases hs
    rfl

theorem Quoted.readTo_enc (c : Quoted α β) {a : α} (h : c.valid a) (rest : List β) :
    c.readTo (c.enc a ++ rest) = (c.readTo rest).map (a :: ·) := by
  cases he : c.enc a with
  | nil => exact absurd he (c.enc_ne_nil h)
  | cons b w =>
    have hb : b ≠ c.quote := by
      intro hq
      apply c.head_enc a h
      rw [he, hq]
      rfl
    have hr : c.read (b :: (w ++ rest)) = some (a, rest) := by
      rw [← List.cons_append, ← he]
      exact c.read_enc a h rest
    exact c.readTo_of_read hb hr

/-- Valid symbols are read one after the other, whatever follows them. -/
theorem Quoted.readTo_encAll (c : Quoted α β) : ∀ s : List α, (∀ a ∈ s, c.valid a) →
    ∀ rest : List β, c.readTo (c.encAll s ++ rest) = (c.readTo rest).map (s ++ ·) := by
  intro s
  induction s with
  | nil => intro _ rest; simp [Code.encAll]
  | cons a s ih =>
    intro h rest
    rw [Code.encAll, List.flatMap_cons, List.append_assoc, c.readTo_enc (h a (by simp)),
      ← Code.encAll, ih (fun x hx => h x (List.mem_cons_of_mem a hx)), Option.map_map]
    rfl

/-- **What is quoted is read back.** -/
theorem Quoted.unquote_quoteAll (c : Quoted α β) {s : List α} (h : ∀ a ∈ s, c.valid a) :
    c.unquote (c.quoteAll s) = some s := by
  rw [Quoted.quoteAll, c.unquote_cons, c.readTo_encAll s h, c.readTo_quote, Option.map_some,
    List.append_nil]

/-- **Two quoted texts are equal only if the symbols are.** -/
theorem Quoted.quoteAll_injOn (c : Quoted α β) {s t : List α} (hs : ∀ a ∈ s, c.valid a)
    (ht : ∀ a ∈ t, c.valid a) (h : c.quoteAll s = c.quoteAll t) : s = t := by
  have := c.unquote_quoteAll hs
  rw [h, c.unquote_quoteAll ht] at this
  exact (Option.some.inj this).symm

end Coding
