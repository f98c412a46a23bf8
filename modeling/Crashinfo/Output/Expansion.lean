import Crashinfo.Lib.Escape
import Crashinfo.Output.Expand
import Mathlib.Logic.Relation

/-!
# Expanding an output path, read from the left

`expansion` is what the wild cards mean: the template is read from the left,
`@` takes the next character along, and every token is replaced by a text of
its own.  Nothing that is put in is looked at again.

The loop of `open_output` goes the other way, in place.  `Cursor.Inv` is what
holds each time its condition is tested: up to the cell `i` the array still
holds the template, nothing is pending there, and from the cell `j + 1` on it
holds the expansion of the rest.  `expandBody_inv` says one turn keeps it,
`expandLoop_inv` says the loop ends with it at `i = 0`.

`AccOk n b` is the part of it about the accesses: all inside the array, no cell
up to `b` written yet, and no cell read after it was written.
-/

namespace Crashinfo

open Escape

/-! ### The meaning of a template -/

/-- The name of a file without the directories: what follows the last `/`. -/
def baseName (exe : Str) : Str := (exe.reverse.takeWhile (· ≠ ch '/')).reverse

def bang (c : Byte) : Byte := if c = ch '/' then ch '!' else c

/-- What a token of the template stands for.  The path of an executable that is
not known is never used, see `ReadsExe`. -/
def wild (r : Round) : Tok Byte → Str
  | .plain c => [c]
  | .lone => [ESC]
  | .esc c =>
    if c = ESC then [ESC]
    else if c = ch 'p' then fmtD r.pid
    else if c = ch 'Q' then fmt0D r.seqLen r.counter
    else if c = ch 'e' then baseName (r.exe.getD [])
    else if c = ch 'E' then (r.exe.getD []).map bang
    else [ESC, c]

def expansion (r : Round) (s : Str) : Str := (scan ESC s).flatMap (wild r)

/-- The template has the wild card `@c`, and its `@` is not itself escaped. -/
def Active (c : Byte) (s : Str) : Prop := .esc c ∈ scan ESC s

instance (c : Byte) (s : Str) : Decidable (Active c s) := by unfold Active; infer_instance

/-- `@e` or `@E` -/
def IsExe (c : Byte) : Prop := c = ch 'e' ∨ c = ch 'E'

instance (c : Byte) : Decidable (IsExe c) := by unfold IsExe; infer_instance

/-- The template makes the code look at `conf.proc.exe`. -/
def ReadsExe (s : Str) : Prop := Active (ch 'e') s ∨ Active (ch 'E') s

theorem expansion_cons_of_ne (r : Round) {c : Byte} (h : c ≠ ESC) (s : Str) :
    expansion r (c :: s) = c :: expansion r s := by
  rw [expansion, scan_cons_of_ne h, List.flatMap_cons]
  rfl

theorem expansion_of_notMem (r : Round) {s : Str} (h : ESC ∉ s) : expansion r s = s := by
  induction s with
  | nil => rfl
  | cons b s ih =>
    rw [List.mem_cons, not_or] at h
    rw [expansion_cons_of_ne r (Ne.symm h.1), ih h.2]

theorem expansion_esc_cons (r : Round) (c : Byte) (s : Str) :
    expansion r (ESC :: c :: s) = wild r (.esc c) ++ expansion r s := by
  rw [expansion, scan_esc_cons, List.flatMap_cons]
  rfl

/-- The NUL behind a template stays behind its expansion. -/
theorem expansion_nul (r : Round) (s : Str) : expansion r (s ++ [0]) = expansion r s ++ [0] :=
  flatMap_scan_snoc (wild r) (by decide) rfl s

theorem active_cons_of_ne {c d : Byte} (h : c ≠ ESC) (s : Str) :
    Active d (c :: s) ↔ Active d s := by
  simp [Active, scan_cons_of_ne h]

theorem active_esc_cons {c d : Byte} (s : Str) :
    Active d (ESC :: c :: s) ↔ d = c ∨ Active d s := by
  simp [Active, scan_esc_cons]

theorem readsExe_cons_of_ne {c : Byte} (h : c ≠ ESC) (s : Str) :
    ReadsExe (c :: s) ↔ ReadsExe s := by
  rw [ReadsExe, active_cons_of_ne h, active_cons_of_ne h, ReadsExe]

theorem readsExe_esc_cons (c : Byte) (s : Str) :
    ReadsExe (ESC :: c :: s) ↔ IsExe c ∨ ReadsExe s := by
  rw [ReadsExe, active_esc_cons, active_esc_cons, ReadsExe, IsExe, eq_comm (a := c),
    eq_comm (a := c)]
  tauto

/-- The NUL behind a template is not part of a wild card that means anything. -/
theorem readsExe_nul (s : Str) : ReadsExe (s ++ [0]) ↔ ReadsExe s := by
  rw [ReadsExe, Active, Active, mem_scan_snoc (by decide) (by decide),
    mem_scan_snoc (by decide) (by decide)]
  rfl

/-! ### The accesses -/

def Access.idx : Access → Int
  | .rd k => k
  | .wr k => k

/-- The accesses to an array of `n` cells, of which those up to `b` have not
been written yet. -/
structure AccOk (n b : Int) (acc : List Access) : Prop where
  bounds : ∀ a ∈ acc, 0 ≤ a.idx ∧ a.idx < n
  fresh : ∀ k, .wr k ∈ acc → b < k
  /-- no cell is read after it was written -/
  order : acc.Pairwise fun a a' => ∀ k, a = .wr k → a' ≠ .rd k

theorem accOk_nil (n b : Int) : AccOk n b [] :=
  ⟨fun a ha => by simp at ha, fun k hk => by simp at hk, List.Pairwise.nil⟩

theorem AccOk.mono {n b b' : Int} {acc : List Access} (h : AccOk n b acc) (hb : b' ≤ b) :
    AccOk n b' acc :=
  ⟨h.bounds, fun k hk => by have := h.fresh k hk; omega, h.order⟩

theorem AccOk.read {n b k : Int} {acc : List Access} (h : AccOk n b acc) (h0 : 0 ≤ k)
    (hb : k ≤ b) (hn : k < n) : AccOk n b (acc ++ [.rd k]) where
  bounds a ha := by
    rcases List.mem_append.mp ha with ha | ha
    · exact h.bounds a ha
    · rw [List.mem_singleton.mp ha]; exact ⟨h0, hn⟩
  fresh m hm := by
    rcases List.mem_append.mp hm with hm | hm
    · exact h.fresh m hm
    · simp at hm
  order := by
    refine List.pairwise_append.mpr ⟨h.order, List.pairwise_singleton _ _, ?_⟩
    rintro a ha a' ha' m rfl he
    rw [List.mem_singleton.mp ha', Access.rd.injEq] at he
    have := h.fresh m ha
    omega

theorem AccOk.write {n b k : Int} {acc : List Access} (h : AccOk n b acc) (h0 : 0 ≤ k)
    (hb : b < k) (hn : k < n) : AccOk n b (acc ++ [.wr k]) where
  bounds a ha := by
    rcases List.mem_append.mp ha with ha | ha
    · exact h.bounds a ha
    · rw [List.mem_singleton.mp ha]; exact ⟨h0, hn⟩
  fresh m hm := by
    rcases List.mem_append.mp hm with hm | hm
    · exact h.fresh m hm
    · rw [List.mem_singleton, Access.wr.injEq] at hm; omega
  order := by
    refine List.pairwise_append.mpr ⟨h.order, List.pairwise_singleton _ _, ?_⟩
    rintro a ha a' ha' m rfl he
    rw [List.mem_singleton.mp ha'] at he
    cases he

/-! ### The array -/

@[simp] theorem Cells.read_cells (p : Cells) (k : Int) : (p.read k).cells = p.cells := rfl
@[simp] theorem Cells.write_cells (p : Cells) (k : Nat) (b : Byte) :
    (p.write k b).cells = p.cells.set k b := rfl

theorem Cells.at_eq {p : Cells} {k : Nat} {b : Byte} (h : p.cells[k]? = some b) : p.at k = b := by
  rw [Cells.at, if_pos (by omega), List.getD_eq_getElem?_getD, Int.toNat_natCast, h]
  rfl

/-- Writing a cell puts a character in front of what stands behind it. -/
theorem drop_set_self {l : List Byte} {k : Nat} (b : Byte) (h : k < l.length) :
    (l.set k b).drop k = b :: l.drop (k + 1) := by
  rw [List.drop_eq_getElem_cons (by simpa using h), List.getElem_set_self,
    List.drop_set_of_lt (Nat.lt_succ_self k)]

theorem Cells.copy_length : ∀ (bs : List Byte) (p : Cells) (k : Nat),
    (p.copy k bs).cells.length = p.cells.length := by
  intro bs
  induction bs with
  | nil => intro p k; rfl
  | cons b bs ih =>
    intro p k
    have := ih (p.write k b) (k + 1)
    rw [Cells.write_cells, List.length_set] at this
    exact this

theorem Cells.copy_below : ∀ (bs : List Byte) (p : Cells) (k m : Nat), m < k →
    (p.copy k bs).cells[m]? = p.cells[m]? := by
  intro bs
  induction bs with
  | nil => intro p k m _; rfl
  | cons b bs ih =>
    intro p k m h
    have := ih (p.write k b) (k + 1) m (by omega)
    rw [Cells.write_cells, List.getElem?_set_ne (by omega)] at this
    exact this

/-- Copying a text puts it in front of what stands behind it. -/
theorem Cells.copy_drop : ∀ (bs : List Byte) (p : Cells) (k : Nat),
    k + bs.length ≤ p.cells.length →
    (p.copy k bs).cells.drop k = bs ++ p.cells.drop (k + bs.length) := by
  intro bs
  induction bs with
  | nil => intro p k _; rfl
  | cons b bs ih =>
    intro p k h
    simp only [List.length_cons] at h
    have hlen : (p.write k b).cells.length = p.cells.length := by simp
    have hk : k < ((p.write k b).copy (k + 1 : Nat) bs).cells.length := by
      rw [Cells.copy_length, hlen]; omega
    have hget : ((p.write k b).copy (k + 1 : Nat) bs).cells[k] = b := by
      have := Cells.copy_below bs (p.write k b) (k + 1) k (by omega)
      rw [List.getElem?_eq_getElem hk, Cells.write_cells,
        List.getElem?_set_self (by omega)] at this
      exact Option.some.inj this
    have hdrop := ih (p.write k b) (k + 1) (by rw [hlen]; omega)
    show ((p.write k b).copy (k + 1 : Nat) bs).cells.drop k = _
    rw [List.drop_eq_getElem_cons hk, hget, hdrop, Cells.write_cells,
      List.drop_set_of_lt (by omega), List.length_cons, List.cons_append]
    congr 3
    omega

theorem Cells.copy_accOk {n b : Int} : ∀ (bs : List Byte) (p : Cells) (k : Nat),
    AccOk n b p.acc → b < k → (k + bs.length : Nat) ≤ n → AccOk n b (p.copy k bs).acc := by
  intro bs
  induction bs with
  | nil => intro p k h _ _; exact h
  | cons c bs ih =>
    intro p k h hb hn
    simp only [List.length_cons] at hn
    exact ih (p.write k c) (k + 1) (h.write (by omega) hb (by omega)) (by omega) (by omega)

theorem Cells.escRun_cells : ∀ (m : Nat) (p : Cells), (p.escRun m).2.cells = p.cells := by
  intro m
  induction m with
  | zero => intro p; rfl
  | succ m ih =>
    intro p
    rw [Cells.escRun]
    split
    · exact ih (p.read m)
    · rfl

theorem Cells.escRun_eq_run : ∀ (m : Nat) (p : Cells), m ≤ p.cells.length →
    (p.escRun m).1 = run ESC p.cells m := by
  intro m
  induction m with
  | zero => intro p _; rfl
  | succ m ih =>
    intro p h
    have hat : p.at m = p.cells[m] := Cells.at_eq (List.getElem?_eq_getElem (by omega))
    rw [Cells.escRun, run, List.getElem?_eq_getElem (by omega), hat]
    by_cases he : p.cells[m] = ESC
    · rw [if_pos he, if_pos (congrArg some he)]
      exact congrArg (· + 1) (ih (p.read m) (by simpa using by omega))
    · rw [if_neg he, if_neg (fun h => he (Option.some.inj h))]

theorem Cells.escRun_accOk {n b : Int} : ∀ (m : Nat) (p : Cells), AccOk n b p.acc →
    (m : Int) ≤ b + 1 → (m : Int) ≤ n → AccOk n b (p.escRun m).2.acc := by
  intro m
  induction m with
  | zero => intro p h _ _; exact h
  | succ m ih =>
    intro p h hb hn
    have hr : AccOk n b (p.read m).acc := h.read (by omega) (by omega) (by omega)
    rw [Cells.escRun]
    split
    · exact ih (p.read m) hr (by omega) (by omega)
    · exact hr

/-! ### One wild card -/

/-- The text the loop over the path of the executable writes. -/
def exeText (last : Bool) (rev : List Byte) : Str :=
  if last then (rev.takeWhile (· ≠ ch '/')).reverse else (rev.map bang).reverse

/-- How often that loop tests whether there is a cell left: once for every
character it writes, and once more for a `/` that ends it. -/
def exeTests (last : Bool) (rev : List Byte) : Nat :=
  (exeText last rev).length + if last ∧ ch '/' ∈ rev then 1 else 0

/-- A character that does not end the loop is written in front of the others. -/
theorem exeText_cons {last : Bool} {b : Byte} (h : ¬(b = ch '/' ∧ last = true)) (rest : List Byte) :
    exeText last (b :: rest) = exeText last rest ++ [bang b] := by
  cases last with
  | true =>
    have hb : b ≠ ch '/' := fun hb => h ⟨hb, rfl⟩
    simp [exeText, hb, bang]
  | false => simp [exeText]

theorem exeTests_cons {last : Bool} {b : Byte} (h : ¬(b = ch '/' ∧ last = true))
    (rest : List Byte) : exeTests last (b :: rest) = exeTests last rest + 1 := by
  rw [exeTests, exeTests, exeText_cons h, List.length_append, List.length_singleton]
  cases last with
  | true =>
    have hb : ch '/' ≠ b := fun hb => h ⟨hb.symm, rfl⟩
    simp only [List.mem_cons, hb, false_or]
    omega
  | false => simp only [Bool.false_eq_true, false_and, if_false]

/-- What the loop over the path of the executable comes to, on an array with
the cells `l`: it gives up, or it has put `w` in front of what the cells from
`j + 1` on held, without touching a cell up to `i`.  It makes `m` tests. -/
def ExeRes (l : List Byte) (i j m : Nat) (w : Str) : Except ExpandStop Cursor → Prop
  | .error (.tooLong c') => j < i + m ∧ AccOk l.length i c'.path.acc
  | .error (.fault _) => False
  | .ok c' => ∃ j' : Nat, i + m ≤ j ∧ c'.i = i ∧ c'.j = j' ∧ i ≤ j' ∧ j' ≤ j ∧
      c'.path.cells.length = l.length ∧ (∀ k ≤ i, c'.path.cells[k]? = l[k]?) ∧
      c'.path.cells.drop (j' + 1) = w ++ l.drop (j + 1) ∧ AccOk l.length i c'.path.acc

theorem ExeRes.snoc {l : List Byte} {i j m : Nat} {w : Str} {x : Byte}
    {res : Except ExpandStop Cursor} (hij : i < j) (hlt : j < l.length)
    (h : ExeRes (l.set j x) i (j - 1) m w res) : ExeRes l i j (m + 1) (w ++ [x]) res := by
  have hlen : (l.set j x).length = l.length := List.length_set
  match res, h with
  | .error (.tooLong c'), h =>
    rw [ExeRes, hlen] at h
    exact ⟨by omega, h.2⟩
  | .ok c', ⟨j', h0, h1, h2, h3, h4, h5, h6, h7, h8⟩ =>
    refine ⟨j', by omega, h1, h2, h3, by omega, by rw [h5, hlen], fun k hk => ?_, ?_, hlen ▸ h8⟩
    · rw [h6 k hk, List.getElem?_set_ne (by omega)]
    · rw [h7, show j - 1 + 1 = j by omega, drop_set_self x hlt, List.append_assoc]
      rfl

theorem exeLoop_spec (i : Nat) : ∀ (rev : List Byte) (c : Cursor) (j : Nat), c.i = i → c.j = j →
    i ≤ j → j < c.path.cells.length → AccOk c.path.cells.length i c.path.acc →
    ExeRes c.path.cells i j (exeTests (decide (c.path.at i = ch 'e')) rev)
      (exeText (decide (c.path.at i = ch 'e')) rev) (exeLoop c rev) := by
  intro rev
  induction rev with
  | nil =>
    intro c j hi hj hij _ hacc
    cases decide (c.path.at i = ch 'e') <;>
      exact ⟨j, hij, hi, hj, hij, Nat.le_refl j, rfl, fun _ _ => rfl, rfl, hacc⟩
  | cons b rest ih =>
    intro c j hi hj hij hlt hacc
    rw [exeLoop]
    have hread : AccOk c.path.cells.length i (c.path.read c.i).acc :=
      hacc.read (by omega) (by omega) (by omega)
    -- the rest of the loop behind a turn that wrote `x` into the cell `j`
    have hturn : ∀ (p : Cells) (x : Byte), p.cells = c.path.cells →
        AccOk c.path.cells.length i p.acc → i < j →
        ExeRes c.path.cells i j (exeTests (decide (c.path.at i = ch 'e')) rest + 1)
          (exeText (decide (c.path.at i = ch 'e')) rest ++ [x])
          (exeLoop { c with path := p.write c.j x, j := c.j - 1 } rest) := by
      intro p x hp hpacc hij
      have hcells : (p.write c.j x).cells = c.path.cells.set j x := by
        rw [hj, Cells.write_cells, hp]
      have hlen : (p.write c.j x).cells.length = c.path.cells.length := by
        rw [hcells, List.length_set]
      have hat : (p.write c.j x).at i = c.path.at i := by
        rw [Cells.at, Cells.at, hcells, List.getD_eq_getElem?_getD, List.getD_eq_getElem?_getD,
          Int.toNat_natCast, List.getElem?_set_ne (by omega)]
      rw [← hat]
      refine ExeRes.snoc (by omega) hlt (hcells ▸
        ih { c with path := p.write c.j x, j := c.j - 1 } (j - 1) hi ?_ (by omega) ?_ ?_)
      · simp only [hj]; omega
      · rw [hlen]; omega
      · rw [hlen]; exact hpacc.write (by omega) (by omega) (by omega)
    by_cases hslash : b = ch '/' ∧ c.path.at i = ch 'e'
    · obtain ⟨rfl, he⟩ := hslash
      have htests : exeTests (decide (c.path.at i = ch 'e')) (ch '/' :: rest) = 1 := by
        rw [decide_eq_true he]
        simp [exeTests, exeText]
      have htext : exeText (decide (c.path.at i = ch 'e')) (ch '/' :: rest) = [] := by
        rw [decide_eq_true he]
        rfl
      rw [htests, htext, if_pos rfl, hi, if_pos he]
      by_cases hle : c.j ≤ i
      · rw [if_pos hle]
        exact ⟨by omega, hacc⟩
      · rw [if_neg hle]
        exact ⟨j, by omega, rfl, hj, hij, Nat.le_refl j, rfl, fun _ _ => rfl, rfl, hi ▸ hread⟩
    · have hgo : ¬(b = ch '/' ∧ decide (c.path.at i = ch 'e') = true) :=
        fun h => hslash ⟨h.1, of_decide_eq_true h.2⟩
      rw [exeTests_cons hgo, exeText_cons hgo]
      by_cases hle : c.j ≤ c.i
      · rw [if_pos hle]
        exact ⟨by omega, hacc⟩
      rw [if_neg hle]
      by_cases hb : b = ch '/'
      · have he : c.path.at c.i ≠ ch 'e' := by
          rw [hi]
          exact fun h => hslash ⟨hb, h⟩
        rw [if_pos hb, if_neg he, bang, if_pos hb]
        exact hturn (c.path.read c.i) (ch '!') rfl hread (by omega)
      · rw [if_neg hb, bang, if_neg hb]
        exact hturn c.path b rfl hacc (by omega)

/-- The room a wild card takes beyond the text it stands for: the loop over the
path of the executable keeps the two characters of the wild card, and it tests
for one more cell before it finds the `/` that ends it. -/
def slack (r : Round) (d : Byte) : Nat :=
  if d = ch 'e' then 2 + if ch '/' ∈ r.exe.getD [] then 1 else 0
  else if d = ch 'E' then 2 else 0

/-- What the `switch` comes to, on an array with the cells `l`: it gives up, or
it has put `w` in front of what the cells from `j + 1` on held, and below the
two characters of the wild card nothing has changed.  It gives up exactly if
there is no room for `w` and `m` cells more. -/
def WildRes (l : List Byte) (i j m : Nat) (w : Str) : Except ExpandStop Cursor → Prop
  | .error (.tooLong c') => j + 2 < i + w.length + m ∧ AccOk l.length (i - 2) c'.path.acc
  | .error (.fault _) => False
  | .ok c' => ∃ j' : Nat, i + w.length + m ≤ j + 2 ∧
      c'.i = (i : Int) - 1 ∧ c'.j = j' ∧ i ≤ j' + 1 ∧ j' ≤ j + 1 ∧
      c'.path.cells.length = l.length ∧ (∀ k, k + 1 < i → c'.path.cells[k]? = l[k]?) ∧
      c'.path.cells.drop j' = w ++ l.drop (j + 1) ∧ AccOk l.length (i - 2) c'.path.acc

/-- The cases `'p'` and `'Q'`: a text of fixed length is copied. -/
theorem wildRes_copy {i j : Nat} {p : Cells} {bs : Str} {notes notes' : List Str}
    (h1 : 1 ≤ i) (hlt : j < p.cells.length) (hacc : AccOk p.cells.length i p.acc)
    (hbs : bs ≠ []) {m : Int} (hm : m = bs.length) :
    WildRes p.cells i j 0 bs
      (if (j : Int) - (m - 1) < (i : Int) - 1 then
        .error (.tooLong ⟨p, i - 1, j - (m - 1), notes⟩)
      else .ok ⟨p.copy (j - (m - 1)) bs, i - 1, j - (m - 1), notes'⟩) := by
  have hlen : 0 < bs.length := List.length_pos_of_ne_nil hbs
  have hacc2 : AccOk p.cells.length (i - 2) p.acc := hacc.mono (by omega)
  by_cases hlong : (j : Int) - (m - 1) < (i : Int) - 1
  · rw [if_pos hlong]; exact ⟨by omega, hacc2⟩
  · rw [if_neg hlong]
    obtain ⟨j', hj'⟩ : ∃ j' : Nat, (j : Int) - (m - 1) = j' :=
      ⟨((j : Int) - (m - 1)).toNat, by omega⟩
    rw [hj']
    refine ⟨j', by omega, rfl, rfl, by omega, by omega, Cells.copy_length bs p j',
      fun k hk => Cells.copy_below bs p j' k (by omega), ?_,
      Cells.copy_accOk bs p j' hacc2 (by omega) (by omega)⟩
    rw [Cells.copy_drop bs p j' (by omega), show j' + bs.length = j + 1 by omega]

/-- The cases `'e'` and `'E'`: the path of the executable is copied from its end. -/
theorem wildRes_exe {r : Round} {p : Cells} {i j : Nat} {notes : List Str} {d : Byte} {exe : Str}
    (hd : d = ch 'e' ∨ d = ch 'E') (hexe : r.exe = some exe) (hat : p.at i = d)
    (hij : i ≤ j) (hlt : j < p.cells.length) (hacc : AccOk p.cells.length i p.acc) :
    WildRes p.cells i j (slack r d) (wild r (.esc d))
      (match exeLoop ⟨p, i, j, notes⟩ exe.reverse with
        | .error e => .error e
        | .ok c => .ok { c with i := c.i - 1, j := c.j + 1 }) := by
  have hloop := exeLoop_spec i exe.reverse ⟨p, i, j, notes⟩ j rfl rfl hij hlt hacc
  have hne : d ≠ ESC ∧ d ≠ ch 'p' ∧ d ≠ ch 'Q' := by
    rcases hd with rfl | rfl <;> decide
  have htext : exeText (decide (p.at i = ch 'e')) exe.reverse = wild r (.esc d) := by
    rw [hat, wild, if_neg hne.1, if_neg hne.2.1, if_neg hne.2.2, hexe, Option.getD_some]
    by_cases he : d = ch 'e'
    · rw [if_pos he, decide_eq_true he]
      rfl
    · rw [if_neg he, if_pos (hd.resolve_left he), decide_eq_false he, exeText,
        if_neg (by decide), List.map_reverse, List.reverse_reverse]
  have htests : exeTests (decide (p.at i = ch 'e')) exe.reverse + 2
      = (wild r (.esc d)).length + slack r d := by
    rw [exeTests, htext, hat, slack, hexe, Option.getD_some]
    by_cases he : d = ch 'e'
    · rw [if_pos he, decide_eq_true he]
      simp only [List.mem_reverse, true_and]
      omega
    · rw [if_neg he, if_pos (hd.resolve_left he), decide_eq_false he]
      rfl
  rw [htext] at hloop
  generalize exeTests (decide (p.at i = ch 'e')) exe.reverse = m at hloop htests
  generalize exeLoop ⟨p, i, j, notes⟩ exe.reverse = res at hloop ⊢
  match res, hloop with
  | .error (.tooLong c'), h => exact ⟨by have := h.1; omega, h.2.mono (by omega)⟩
  | .ok c', ⟨j', h0, h1', h2, h3, h4, h5, h6, h7, h8⟩ =>
    exact ⟨j' + 1, by omega, by simp only [h1'], by simp only [h2]; omega, by omega, by omega,
      h5, fun k hk => h6 k (by omega), h7, h8.mono (by omega)⟩

/-- The default case: an unknown wild card stays as it is. -/
theorem wildRes_unknown {q : Cells} {k m : Nat} {notes : List Str} {d : Byte} (hkm : k ≤ m)
    (hlt : m + 1 < q.cells.length) (he : q.cells[k]? = some ESC)
    (hacc : AccOk q.cells.length k q.acc) :
    WildRes q.cells (k + 1) (m + 1) 0 [ESC, d]
      (.ok ⟨((q.write (m + 1 : Nat) d).read k).write m ((q.write (m + 1 : Nat) d).at k), k, m,
        notes⟩) := by
  have hback : (q.write (m + 1 : Nat) d).at k = ESC := by
    refine Cells.at_eq ?_
    rw [Cells.write_cells, List.getElem?_set_ne (by omega)]
    exact he
  have hwrite : AccOk q.cells.length k (q.write (m + 1 : Nat) d).acc :=
    hacc.write (by omega) (by omega) (by omega)
  rw [hback]
  refine ⟨m, by simp only [List.length_cons, List.length_nil]; omega,
    (Int.add_sub_cancel (k : Int) 1).symm, rfl, by omega, by omega, ?_, fun x hx => ?_,
    ?_, ((hwrite.read (by omega) (by omega) (by omega)).mono (by omega)).write (by omega)
      (by omega) (by omega)⟩
  · rw [Cells.write_cells, List.length_set, Cells.read_cells, Cells.write_cells, List.length_set]
  · rw [Cells.write_cells, Cells.read_cells, Cells.write_cells, List.getElem?_set_ne (by omega),
      List.getElem?_set_ne (by omega)]
  · rw [Cells.write_cells, Cells.read_cells, Cells.write_cells,
      drop_set_self ESC (by rw [List.length_set]; omega), drop_set_self d hlt]
    rfl

/-- **Every case of the `switch` puts the meaning of its wild card in place.** -/
theorem expandWild_spec {r : Round} (hseq : (Numeral.digits 10 r.counter).length ≤ r.seqLen)
    {path : Cells} {i j : Nat} (notes : List Str) {d : Byte} (hexe : r.exe = none → ¬IsExe d)
    (h1 : 1 ≤ i) (hij : i ≤ j) (hlt : j < path.cells.length)
    (hd : path.cells[i]? = some d) (he : path.cells[i - 1]? = some ESC)
    (hacc : AccOk path.cells.length i path.acc) :
    WildRes path.cells i j (slack r d) (wild r (.esc d)) (expandWild r ⟨path, i, j, notes⟩) := by
  have hat : path.at i = d := Cells.at_eq hd
  have hread : AccOk path.cells.length i (path.read i).acc :=
    hacc.read (by omega) (by omega) (by omega)
  have hread2 : AccOk path.cells.length i ((path.read i).read i).acc :=
    hread.read (by omega) (by omega) (by omega)
  simp only [expandWild, hat]
  by_cases hesc : d = ESC
  · have hw : wild r (.esc d) = [ESC] := by rw [wild, if_pos hesc]
    have hm : slack r d = 0 := by rw [hesc]; rfl
    rw [if_pos hesc, hw, hm]
    refine ⟨j, by simp only [List.length_singleton]; omega, rfl, rfl, by omega, by omega, by simp,
      fun k hk => ?_, ?_,
      (hread2.mono (by omega)).write (by omega) (by omega) (by omega)⟩
    · rw [Cells.write_cells, List.getElem?_set_ne (by omega)]
      rfl
    · rw [Cells.write_cells, Cells.read_cells, Cells.read_cells, drop_set_self d hlt, hesc]
      rfl
  rw [if_neg hesc]
  by_cases hp : d = ch 'p'
  · rw [if_pos hp, wild, if_neg hesc, if_pos hp, show slack r d = 0 by rw [hp]; rfl]
    exact wildRes_copy (p := path.read i) h1 hlt hread (fmtD_ne_nil _) rfl
  rw [if_neg hp]
  by_cases hQ : d = ch 'Q'
  · have hlen : (fmt0D r.seqLen r.counter).length = r.seqLen := length_fmt0D hseq
    have hne : fmt0D r.seqLen r.counter ≠ [] := by
      rw [← List.length_pos_iff, hlen]
      exact Nat.lt_of_lt_of_le (Numeral.length_digits_pos 10 _) hseq
    rw [if_pos hQ, wild, if_neg hesc, if_neg hp, if_pos hQ, show slack r d = 0 by rw [hQ]; rfl,
      List.take_of_length_le (Nat.le_of_eq hlen)]
    by_cases hs : r.exist = .sequence
    · simp only [if_pos hs]
      exact wildRes_copy (p := path.read i) h1 hlt hread hne (by rw [hlen])
    · simp only [if_neg hs]
      exact wildRes_copy (p := path.read i) h1 hlt hread hne (by rw [hlen])
  rw [if_neg hQ]
  by_cases heE : d = ch 'e' ∨ d = ch 'E'
  · obtain ⟨exe, hexe⟩ : ∃ exe, r.exe = some exe :=
      Option.ne_none_iff_exists'.mp fun h => hexe h heE
    rw [if_pos heE, hexe]
    exact wildRes_exe (p := path.read i) heE hexe hat hij hlt hread
  -- an unknown wild card stays as it is
  have he' : d ≠ ch 'e' := fun h => heE (Or.inl h)
  have hE' : d ≠ ch 'E' := fun h => heE (Or.inr h)
  have hw : wild r (.esc d) = [ESC, d] := by
    rw [wild, if_neg hesc, if_neg hp, if_neg hQ, if_neg he', if_neg hE']
  rw [if_neg heE, hw, slack, if_neg he', if_neg hE']
  obtain ⟨k, rfl⟩ : ∃ k, i = k + 1 := ⟨i - 1, by omega⟩
  obtain ⟨m, rfl⟩ : ∃ m, j = m + 1 := ⟨j - 1, by omega⟩
  rw [show ((k + 1 : Nat) : Int) - 1 = k by omega, show ((m + 1 : Nat) : Int) - 1 = m by omega]
  exact wildRes_unknown (q := ((path.read ↑(k + 1)).read ↑(k + 1)).read ↑(k + 1)) (by omega) hlt he
    ((hread2.read (by omega) (by omega) (by omega)).mono (by omega))

theorem expandWild_fault {r : Round} {path : Cells} {i j : Nat} {notes : List Str} {d : Byte}
    (hexe : r.exe = none) (hd : path.cells[i]? = some d) (he : IsExe d) :
    expandWild r ⟨path, i, j, notes⟩ = .error (.fault .nullDeref) := by
  have hne : d ≠ ESC ∧ d ≠ ch 'p' ∧ d ≠ ch 'Q' := by
    rcases he with rfl | rfl <;> decide
  have hat : path.at i = d := Cells.at_eq hd
  simp only [expandWild, hat]
  rw [if_neg hne.1, if_neg hne.2.1, if_neg hne.2.2, if_pos (show d = ch 'e' ∨ d = ch 'E' from he),
    hexe]

/-! ### The loop -/

theorem intlen_eq (n : Nat) : intlen n = (Numeral.digits 10 n).length := by
  induction n using intlen.induct with
  | case1 n h => rw [intlen, if_pos h, Numeral.digits_of_lt h]; rfl
  | case2 n h ih =>
    rw [intlen, if_neg h, ih, Numeral.digits_of_le (b := 10) (n := n) (by decide) (by omega),
      List.length_append, List.length_singleton, Nat.add_comm]

/-- What holds each time the condition of the loop is tested; `t` is the
template with its NUL, in an array of `n` cells. -/
structure Cursor.Inv (r : Round) (t : Str) (n : Nat) (c : Cursor) (i j : Nat) : Prop where
  i_eq : c.i = i
  j_eq : c.j = j
  le : i ≤ j
  lt : j < n
  length : c.path.cells.length = n
  mem : i < t.length
  /-- up to `i` stands what is left of the template -/
  template : ∀ k ≤ i, c.path.cells[k]? = t[k]?
  /-- the next character has not been taken along by an escape character -/
  cut : pending ESC t (i + 1) = false
  /-- behind `j` stands the expansion of the rest -/
  done : c.path.cells.drop (j + 1) = expansion r (t.drop (i + 1))
  known : r.exe = none → ¬ReadsExe (t.drop (i + 1))
  accOk : AccOk n i c.path.acc

/-- The loop is entered with all of the template left. -/
theorem inv_start (r : Round) {s rest : Str} (h0 : 0 ∉ s) :
    (Cursor.start (s ++ 0 :: rest)).Inv r (s ++ [0]) (s ++ 0 :: rest).length s.length
      (s.length + rest.length) where
  i_eq := by
    rw [Cursor.start, cstr_append_nul h0]
  j_eq := by
    simp only [Cursor.start, List.length_append, List.length_cons]
    omega
  le := Nat.le_add_right _ _
  lt := by
    rw [List.length_append, List.length_cons]
    omega
  length := rfl
  mem := by simp
  template k hk := by
    show (s ++ 0 :: rest)[k]? = (s ++ [0])[k]?
    rw [show s ++ 0 :: rest = (s ++ [0]) ++ rest by simp, List.getElem?_append_left (by simp; omega)]
  cut := by
    rw [pending_succ, List.getElem?_concat_length]
    rfl
  done := by
    rw [List.drop_of_length_le (l := s ++ [0]) (by simp), List.drop_of_length_le]
    · rfl
    · simp only [Cursor.start, List.length_append, List.length_cons]
      omega
  known _ := by
    rw [List.drop_of_length_le (by simp)]
    rintro (h | h) <;> cases h
  accOk := accOk_nil _ _

/-- `is_escape` looks left from a character, and only at the template. -/
theorem isEscape_spec {p : Cells} {t : Str} {i : Nat} {n b : Int} (ht : ∀ k < i, p.cells[k]? = t[k]?)
    (hi : i ≤ p.cells.length) (hn : (i : Int) ≤ n) (hb : (i : Int) ≤ b + 1)
    (hacc : AccOk n b p.acc) :
    (isEscape p (i - 1)).1 = pending ESC t i ∧ (isEscape p (i - 1)).2.cells = p.cells ∧
      AccOk n b (isEscape p (i - 1)).2.acc := by
  have hto : ((i : Int) - 1 + 1).toNat = i := by omega
  refine ⟨?_, ?_, ?_⟩
  · rw [← pending_congr ht, pending_iff_odd_run, ← Cells.escRun_eq_run i p hi, isEscape, hto]
  · rw [isEscape, hto]
    exact Cells.escRun_cells i p
  · rw [isEscape, hto]
    exact Cells.escRun_accOk i p hacc hb hn

/-- The rest of a template behind a place where it can be cut needs no more
than the whole of it. -/
theorem readsExe_of_drop {t : Str} {k : Nat} (hk : k ≤ t.length) (hcut : pending ESC t k = false)
    (h : ReadsExe (t.drop k)) : ReadsExe t := by
  have hlen : (t.take k).length = k := by rw [List.length_take]; omega
  have hp : pending ESC (t.take k) (t.take k).length = false := by
    rw [hlen, ← hcut]
    exact pending_congr fun m hm => List.getElem?_take_of_lt hm
  have hscan := scan_append (t.take k) (t.drop k) hp
  rw [List.take_append_drop] at hscan
  rw [ReadsExe, Active, Active, hscan, List.mem_append, List.mem_append]
  exact h.imp Or.inr Or.inr

inductive Giveup where
  | tooLong
  | unknownExe
  deriving DecidableEq, Repr

/-- How a turn goes on with `i` characters left: it is decided by the template
and the size of the array alone. -/
def wayOn (r : Round) (t : Str) (n i : Nat) : Except Giveup Nat :=
  if pending ESC t i then
    if r.exe = none ∧ IsExe (t.getD i 0) then .error .unknownExe
    else if i + (expansion r (t.drop (i - 1))).length + slack r (t.getD i 0) ≤ n + 1 then
      .ok (i - 2)
    else .error .tooLong
  else .ok (i - 1)

def waysOn (r : Round) (t : Str) (n : Nat) : Nat → Nat → Except Giveup Unit
  | 0, _ => .ok ()
  | m + 1, i =>
    if 1 ≤ i then
      match wayOn r t n i with
      | .ok i' => waysOn r t n m i'
      | .error e => .error e
    else .ok ()

/-- How the expansion of a template in an array of `n` cells ends. -/
def verdict (r : Round) (s : Str) (n : Nat) : Except Giveup Unit :=
  waysOn r (s ++ [0]) n s.length s.length

theorem verdict_of_notMem (r : Round) {s : Str} (h : ESC ∉ s) (n : Nat) : verdict r s n = .ok () := by
  have hesc : ESC ∉ s ++ [0] := by
    rw [List.mem_append, List.mem_singleton, not_or]
    exact ⟨h, by decide⟩
  have hways : ∀ m i, waysOn r (s ++ [0]) n m i = .ok () := by
    intro m
    induction m with
    | zero => exact fun i => rfl
    | succ m ih =>
      intro i
      rw [waysOn, wayOn, pending_of_notMem hesc]
      split
      · exact ih _
      · rfl
  exact hways _ _

/-- What a turn of the loop comes to, entered with `i` characters left. -/
def TurnRes (r : Round) (t : Str) (n i : Nat) : Except ExpandStop Cursor → Prop
  | .error (.tooLong c') => wayOn r t n i = .error .tooLong ∧ AccOk n (-1) c'.path.acc
  | .error (.fault f) =>
    wayOn r t n i = .error .unknownExe ∧ f = .nullDeref ∧ r.exe = none ∧ ReadsExe t
  | .ok c' => ∃ i' j' : Nat, wayOn r t n i = .ok i' ∧ i' < i ∧ c'.next.Inv r t n i' j'

theorem drop_of_pending {t : Str} {k : Nat} (hesc : pending ESC t (k + 1) = true)
    (hmem : k + 1 < t.length) : t.drop k = ESC :: t[k + 1] :: t.drop (k + 1 + 1) := by
  rw [List.drop_eq_getElem_cons (by omega), List.drop_eq_getElem_cons hmem,
    (List.getElem?_eq_some_iff.mp (of_pending hesc).1).2]

theorem wayOn_of_pending {r : Round} {t : Str} {n k : Nat} (hesc : pending ESC t (k + 1) = true)
    (hmem : k + 1 < t.length) :
    wayOn r t n (k + 1) =
      if r.exe = none ∧ IsExe t[k + 1] then .error .unknownExe
      else if k + 1 + ((wild r (.esc t[k + 1])).length +
          (expansion r (t.drop (k + 1 + 1))).length) + slack r t[k + 1] ≤ n + 1 then
        .ok (k - 1)
      else .error .tooLong := by
  have hgetD : t.getD (k + 1) 0 = t[k + 1] := by
    rw [List.getD_eq_getElem?_getD, List.getElem?_eq_getElem hmem, Option.getD_some]
  rw [wayOn, if_pos hesc, hgetD, Nat.add_sub_cancel, drop_of_pending hesc hmem,
    expansion_esc_cons, List.length_append]
  rfl

theorem Cursor.Inv.read {r : Round} {t : Str} {n i j : Nat} {c : Cursor} (h : c.Inv r t n i j)
    {p : Cells} (hcells : p.cells = c.path.cells) (hacc : AccOk n i p.acc) :
    ({ c with path := p } : Cursor).Inv r t n i j where
  i_eq := h.i_eq
  j_eq := h.j_eq
  le := h.le
  lt := h.lt
  length := hcells ▸ h.length
  mem := h.mem
  template := hcells ▸ h.template
  cut := h.cut
  done := hcells ▸ h.done
  known := h.known
  accOk := hacc

/-- **A character that stands for itself** is moved to the end. -/
theorem Cursor.Inv.plain {r : Round} {t : Str} {n i j : Nat} {c : Cursor} (h : c.Inv r t n i j)
    (h1 : 1 ≤ i) (hesc : pending ESC t i = false) (hmem : i < t.length) :
    ({ c with path := (c.path.read c.i).write c.j t[i] } : Cursor).next.Inv r t n (i - 1) (j - 1) := by
  obtain ⟨path, ci, cj, notes⟩ := c
  obtain ⟨hi, hj, hle, hlt, hlen, -, htmpl, hcut, hdone, hknown, hacc⟩ := h
  simp only at hi hj hlen htmpl hdone hacc
  subst hi hj
  have hne : t[i] ≠ ESC := by
    have := ne_of_not_pending hesc hcut
    rw [List.getElem?_eq_getElem hmem] at this
    exact fun h => this (congrArg some h)
  have hdrop : t.drop i = t[i] :: t.drop (i + 1) := List.drop_eq_getElem_cons hmem
  refine ⟨?_, ?_, by omega, by omega, ?_, by omega, fun k hk => ?_, ?_, ?_, ?_, ?_⟩
  · simp only [Cursor.next]; omega
  · simp only [Cursor.next]; omega
  · simp only [Cursor.next]
    rw [Cells.write_cells, List.length_set]
    exact hlen
  · simp only [Cursor.next]
    rw [Cells.write_cells, List.getElem?_set_ne (by omega)]
    exact htmpl k (by omega)
  · rw [show i - 1 + 1 = i by omega]; exact hesc
  · simp only [Cursor.next]
    rw [Cells.write_cells, show j - 1 + 1 = j by omega, show i - 1 + 1 = i by omega, hdrop,
      expansion_cons_of_ne r hne, Cells.read_cells, drop_set_self _ (by omega), hdone]
  · rw [show i - 1 + 1 = i by omega, hdrop, readsExe_cons_of_ne hne]
    exact hknown
  · have hread : AccOk n i (path.acc ++ [.rd i]) := hacc.read (by omega) (by omega) (by omega)
    have hwrite : AccOk n ↑(i - 1) (path.acc ++ [.rd i] ++ [.wr j]) :=
      (hread.mono (by omega)).write (by omega) (by omega) (by omega)
    exact hwrite

/-- **A wild card** is taken along by the escape character in front of it. -/
theorem Cursor.Inv.wild {r : Round} {t : Str} {n k j : Nat} {c : Cursor} (h : c.Inv r t n (k + 1) j)
    (hk0 : k ≠ 0) (hesc : pending ESC t (k + 1) = true) (hmem : k + 1 < t.length)
    (hfault : ¬(r.exe = none ∧ IsExe t[k + 1])) {res : Except ExpandStop Cursor}
    (hwild : WildRes c.path.cells (k + 1) j (slack r t[k + 1]) (Crashinfo.wild r (.esc t[k + 1])) res) :
    TurnRes r t n (k + 1) res := by
  obtain ⟨hi, hj, hle, hlt, hlen, -, htmpl, -, hdone, hknown, -⟩ := h
  obtain ⟨-, hcutk⟩ := of_pending hesc
  have hdrop := drop_of_pending hesc hmem
  have hway := wayOn_of_pending (r := r) (n := n) hesc hmem
  have hrest := congrArg List.length hdone
  rw [List.length_drop, hlen] at hrest
  cases res with
  | error e =>
    cases e with
    | fault f => exact hwild.elim
    | tooLong c' =>
      rw [WildRes, hlen] at hwild
      refine ⟨?_, hwild.2.mono (by omega)⟩
      rw [hway, if_neg hfault, if_neg]
      omega
  | ok c' =>
    obtain ⟨j', h0, h1', h2, h3, h4, h5, h6, h7, h8⟩ := hwild
    rw [hlen] at h8
    refine ⟨k - 1, j' - 1, ?_, by omega, ⟨?_, ?_, by omega, by omega,
      by rw [← hlen]; exact h5, by omega, fun m hm => ?_, ?_, ?_, ?_, h8.mono (by omega)⟩⟩
    · rw [hway, if_neg hfault, if_pos]
      omega
    · simp only [Cursor.next]; omega
    · simp only [Cursor.next]; omega
    · simp only [Cursor.next]
      rw [h6 m (by omega)]
      exact htmpl m (by omega)
    · rw [show k - 1 + 1 = k by omega]; exact hcutk
    · simp only [Cursor.next]
      rw [show j' - 1 + 1 = j' by omega, show k - 1 + 1 = k by omega, hdrop,
        expansion_esc_cons, h7, hdone]
    · intro hx
      rw [show k - 1 + 1 = k by omega, hdrop, readsExe_esc_cons]
      rintro (hy | hy)
      · exact hfault ⟨hx, hy⟩
      · exact hknown hx hy

/-- **A turn of the loop keeps the invariant.** -/
theorem expandBody_inv {r : Round} (hseq : intlen r.counter ≤ r.seqLen) {t : Str} {n : Nat}
    {c : Cursor} {i j : Nat} (hhead : t[0]? ≠ some ESC) (h : c.Inv r t n i j) (h1 : 1 ≤ i) :
    TurnRes r t n i (expandBody r c) := by
  have hlt := h.lt
  have hle := h.le
  have hmem := h.mem
  obtain ⟨path, ci, cj, notes⟩ := c
  obtain rfl : ci = i := h.i_eq
  obtain rfl : cj = j := h.j_eq
  have hlen : path.cells.length = n := h.length
  obtain ⟨he1, he2, he3⟩ := isEscape_spec (p := path) (i := i) (n := n) (b := i)
    (fun k hk => h.template k (by omega)) (by omega) (by omega) (by omega) h.accOk
  rw [expandBody]
  simp only
  generalize isEscape path (i - 1) = e at he1 he2 he3 ⊢
  obtain ⟨esc, p⟩ := e
  have hp : Cursor.Inv r t n ⟨p, i, j, notes⟩ i j := h.read he2 he3
  have hd : p.cells[i]? = some t[i] := by
    rw [hp.template i (Nat.le_refl i), List.getElem?_eq_getElem hmem]
  simp only at he1 ⊢
  cases hesc : pending ESC t i with
  | false =>
    rw [he1, hesc, if_neg (by decide), Cells.at_eq hd]
    exact ⟨i - 1, j - 1, by rw [wayOn, hesc, if_neg (by decide)], by omega, hp.plain h1 hesc hmem⟩
  | true =>
    obtain ⟨k, rfl⟩ : ∃ k, i = k + 1 := ⟨i - 1, by omega⟩
    obtain ⟨hk, hcutk⟩ := of_pending hesc
    -- the template starts with another character, so the escape character is not at its front
    have hk0 : k ≠ 0 := by
      rintro rfl
      exact hhead hk
    rw [he1, hesc, if_pos rfl]
    by_cases hfault : r.exe = none ∧ IsExe t[k + 1]
    · rw [expandWild_fault hfault.1 hd hfault.2]
      refine ⟨by rw [wayOn_of_pending hesc hmem, if_pos hfault], rfl, hfault.1,
        readsExe_of_drop (k := k) (by omega) hcutk ?_⟩
      rw [drop_of_pending hesc hmem, readsExe_esc_cons]
      exact Or.inl hfault.2
    · have hpk : p.cells[k + 1 - 1]? = some ESC := (hp.template _ (by omega)).trans hk
      have hlen : p.cells.length = n := hp.length
      have hwild := expandWild_spec (by rw [← intlen_eq]; exact hseq) notes
        (fun hx hy => hfault ⟨hx, hy⟩) (by omega) hle (by omega) hd hpk (by rw [hlen]; exact he3)
      exact hp.wild hk0 hesc hmem hfault hwild

/-- What `m` turns of the loop come to, entered with `i` characters left. -/
def LoopRes (r : Round) (t : Str) (n m i : Nat) : Except ExpandStop Cursor → Prop
  | .error (.tooLong c') => waysOn r t n m i = .error .tooLong ∧ AccOk n (-1) c'.path.acc
  | .error (.fault f) =>
    waysOn r t n m i = .error .unknownExe ∧ f = .nullDeref ∧ r.exe = none ∧ ReadsExe t
  | .ok c' => waysOn r t n m i = .ok () ∧ ∃ j', c'.Inv r t n 0 j'

theorem expandLoop_inv {r : Round} (hseq : intlen r.counter ≤ r.seqLen) {t : Str} {n : Nat}
    (hhead : t[0]? ≠ some ESC) : ∀ (m : Nat) (c : Cursor) (i j : Nat), c.Inv r t n i j → i ≤ m →
    LoopRes r t n m i (expandLoop r m c) := by
  intro m
  induction m with
  | zero =>
    intro c i j h hi
    obtain rfl : i = 0 := by omega
    exact ⟨rfl, j, h⟩
  | succ m ih =>
    intro c i j h hi
    rw [expandLoop]
    by_cases h1 : 1 ≤ i
    · rw [if_pos (by have := h.i_eq; omega)]
      have hbody := expandBody_inv hseq hhead h h1
      generalize expandBody r c = res at hbody ⊢
      match res, hbody with
      | .error (.tooLong c'), ⟨hway, hacc⟩ => exact ⟨by rw [waysOn, if_pos h1, hway], hacc⟩
      | .error (.fault f), ⟨hway, hf⟩ => exact ⟨by rw [waysOn, if_pos h1, hway], hf⟩
      | .ok c', ⟨i', j', hway, hlt, hinv⟩ =>
        have hrec := ih c'.next i' j' hinv (by omega)
        have hways : waysOn r t n (m + 1) i = waysOn r t n m i' := by
          rw [waysOn, if_pos h1, hway]
        show LoopRes r t n (m + 1) i (expandLoop r m c'.next)
        generalize expandLoop r m c'.next = res at hrec ⊢
        match res, hrec with
        | .error (.tooLong c₂), h₂ => exact ⟨by rw [hways]; exact h₂.1, h₂.2⟩
        | .error (.fault f), h₂ => exact ⟨by rw [hways]; exact h₂.1, h₂.2⟩
        | .ok c₂, h₂ => exact ⟨by rw [hways]; exact h₂.1, h₂.2⟩
    · obtain rfl : i = 0 := by omega
      rw [if_neg (by have := h.i_eq; omega)]
      exact ⟨by rw [waysOn, if_neg h1], j, h⟩

/-- One turn of the loop, from one test of its condition to the next. -/
def Turn (r : Round) (c c' : Cursor) : Prop := 1 ≤ c.i ∧ ∃ c₁, expandBody r c = .ok c₁ ∧ c' = c₁.next

theorem inv_of_turns {r : Round} (hseq : intlen r.counter ≤ r.seqLen) {t : Str} {n : Nat}
    (hhead : t[0]? ≠ some ESC) {c c' : Cursor} {i j : Nat} (h : c.Inv r t n i j)
    (hturns : Relation.ReflTransGen (Turn r) c c') : ∃ i' j', c'.Inv r t n i' j' := by
  induction hturns with
  | refl => exact ⟨i, j, h⟩
  | tail _ hturn ih =>
    obtain ⟨i', j', h'⟩ := ih
    obtain ⟨h1, c₁, hbody, rfl⟩ := hturn
    have hres := expandBody_inv hseq hhead h' (by have := h'.i_eq; omega)
    rw [hbody] at hres
    obtain ⟨i₂, j₂, -, -, h₂⟩ := hres
    exact ⟨i₂, j₂, h₂⟩

/-- What the expansion of `s` in an array of `n` cells comes to. -/
def CellsRes (r : Round) (s : Str) (n : Nat) : Except ExpandStop Cursor → Prop
  | .error (.tooLong c) => verdict r s n = .error .tooLong ∧ AccOk n (-1) c.path.acc
  | .error (.fault f) =>
    verdict r s n = .error .unknownExe ∧ f = .nullDeref ∧ r.exe = none ∧ ReadsExe s
  | .ok c => verdict r s n = .ok () ∧ c.i = 0 ∧ 0 ≤ c.j ∧ c.path.cells.length = n ∧
      c.path.cells.drop c.j.toNat = expansion r s ++ [0] ∧ (r.exe = none → ¬ReadsExe s) ∧
      AccOk n (-1) c.path.acc

/-- **What the expansion comes to**: the expansion of the template with its NUL
at the end of the array, or `too_long`, or the use of an executable whose path
is not known.  What stood behind the template plays no part. -/
theorem expandCells_spec {r : Round} (hseq : intlen r.counter ≤ r.seqLen) {s : Str} (rest : Str)
    (hslash : s.head? = some (ch '/')) (h0 : 0 ∉ s) :
    CellsRes r s (s ++ 0 :: rest).length (expandCells r (s ++ 0 :: rest)) := by
  obtain ⟨u, rfl⟩ : ∃ u, s = ch '/' :: u := by
    cases s with
    | nil => cases hslash
    | cons b u => exact ⟨u, by rw [Option.some.inj hslash]⟩
  have hloop := expandLoop_inv hseq (n := (ch '/' :: u ++ 0 :: rest).length)
    (by simp only [List.cons_append, List.getElem?_cons_zero]; decide) (ch '/' :: u).length
    (Cursor.start (ch '/' :: u ++ 0 :: rest)) _ _ (inv_start r h0) (Nat.le_refl _)
  rw [expandCells, cstr_append_nul h0]
  generalize expandLoop r (ch '/' :: u).length _ = res at hloop ⊢
  match res, hloop with
  | .error (.tooLong c'), h => exact h
  | .error (.fault f), h => exact ⟨h.1, h.2.1, h.2.2.1, (readsExe_nul _).mp h.2.2.2⟩
  | .ok c', ⟨hways, j, h⟩ =>
    have hlt := h.lt
    have hneg : AccOk (ch '/' :: u ++ 0 :: rest).length (-1) c'.path.acc :=
      h.accOk.mono (by omega)
    refine ⟨hways, h.i_eq, by simp only [h.j_eq]; omega, ?_, ?_, fun hx => ?_, ?_⟩
    · simp only [h.j_eq]
      rw [Cells.write_cells, List.length_set, h.length]
    · simp only [h.j_eq]
      rw [Cells.write_cells, Int.toNat_natCast, drop_set_self _ (by rw [h.length]; exact hlt),
        h.done, expansion_cons_of_ne r (by decide)]
      exact congrArg (ch '/' :: ·) (expansion_nul r u)
    · rw [readsExe_cons_of_ne (by decide), ← readsExe_nul]
      exact h.known hx
    · exact hneg.write (by have := h.j_eq; omega) (by have := h.j_eq; omega)
        (by have := h.j_eq; omega)

/-- **The expansion is right and stays inside its array.**  At every test of the
loop condition `0 ≤ i ≤ j < PATH_MAX`; no access leaves the array and no cell is
read after it was written; and what the loop leaves at `&path[j]` is the
expansion of the template, unless it gives up at `too_long`. -/
theorem expandCells_expands {r : Round} {exe s rest : Str} (hexe : r.exe = some exe)
    (hseq : intlen r.counter ≤ r.seqLen) (hslash : s.head? = some (ch '/')) (h0 : 0 ∉ s)
    (hlen : (s ++ 0 :: rest).length = pathMax) :
    (∀ c, Relation.ReflTransGen (Turn r) (Cursor.start (s ++ 0 :: rest)) c →
      0 ≤ c.i ∧ c.i ≤ c.j ∧ c.j < pathMax) ∧
    ∃ c, (expandCells r (s ++ 0 :: rest) = .ok c ∧ c.i = 0 ∧
        c.path.cells.drop c.j.toNat = expansion r s ++ [0] ∨
      expandCells r (s ++ 0 :: rest) = .error (.tooLong c)) ∧ AccOk pathMax (-1) c.path.acc := by
  constructor
  · intro c hturns
    have hhead : (s ++ [0])[0]? ≠ some ESC := by
      cases s with
      | nil => cases hslash
      | cons b u =>
        rw [Option.some.inj hslash, List.cons_append, List.getElem?_cons_zero]
        decide
    obtain ⟨i, j, h⟩ := inv_of_turns hseq hhead (inv_start r h0) hturns
    have := h.lt
    rw [hlen] at this
    rw [h.i_eq, h.j_eq]
    exact ⟨by omega, by have := h.le; omega, by omega⟩
  · have hspec := expandCells_spec hseq rest hslash h0
    rw [hlen] at hspec
    generalize expandCells r (s ++ 0 :: rest) = res at hspec ⊢
    match res, hspec with
    | .error (.tooLong c), ⟨_, hacc⟩ => exact ⟨c, Or.inr rfl, hacc⟩
    | .error (.fault f), ⟨_, _, hx, _⟩ => rw [hexe] at hx; cases hx
    | .ok c, ⟨_, hi, _, _, hres, _, hacc⟩ => exact ⟨c, Or.inl ⟨rfl, hi, hres⟩, hacc⟩

theorem expandCells_expands_at :
    let r : Round := ⟨[], .append, 42, some (lit "/bin/vi"), 3, 2⟩
    let s := lit "/a@@@e-@p/@Q@E@x@"
    let rest : Str := List.replicate 4078 0
    (∀ c, Relation.ReflTransGen (Turn r) (Cursor.start (s ++ 0 :: rest)) c →
      0 ≤ c.i ∧ c.i ≤ c.j ∧ c.j < pathMax) ∧
    ∃ c, (expandCells r (s ++ 0 :: rest) = .ok c ∧ c.i = 0 ∧
        c.path.cells.drop c.j.toNat = expansion r s ++ [0] ∨
      expandCells r (s ++ 0 :: rest) = .error (.tooLong c)) ∧ AccOk pathMax (-1) c.path.acc :=
  expandCells_expands (rfl : _ = some (lit "/bin/vi")) (by simp [intlen]) (by decide) (by decide)
    (by rw [List.length_append, List.length_cons, List.length_replicate]; decide)

end Crashinfo
