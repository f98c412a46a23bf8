import Crashinfo.Conf

/-!
# Expanding an output path, as the code does it

`open_output` expands the wild cards of a path inside the array that holds it.
The array is filled by `strftime` from the left; the loop then moves the text
to the right end of the array, character by character from the last one, and
puts what a wild card stands for in its place.  `i` is the character that is
looked at, `j` the cell that is written next.

`Cells` is the array together with every access to it, in order, so that what
the loop reads and writes can be talked about afterwards.  A read outside the
array gives a NUL and a write outside it is lost, but both are recorded.
-/

namespace Crashinfo

def ESC : Byte := ch '@'

def pathMax : Nat := 4096

inductive Access where
  | rd (k : Int)
  | wr (k : Int)
  deriving DecidableEq, Repr

/-- The array `path` and the accesses to it. -/
structure Cells where
  cells : List Byte
  acc : List Access := []
  deriving DecidableEq, Repr

def Cells.at (p : Cells) (k : Int) : Byte := if 0 ≤ k then p.cells.getD k.toNat 0 else 0

def Cells.read (p : Cells) (k : Int) : Cells := { p with acc := p.acc ++ [.rd k] }

def Cells.write (p : Cells) (k : Int) (b : Byte) : Cells where
  cells := if 0 ≤ k then p.cells.set k.toNat b else p.cells
  acc := p.acc ++ [.wr k]

def Cells.copy (p : Cells) (k : Int) : List Byte → Cells
  | [] => p
  | b :: bs => (p.write k b).copy (k + 1) bs

/-- The loop of `is_escape(path, n - 1)`: how many escape characters end at the
index `n - 1`, and the array after they and the one before them were read. -/
def Cells.escRun (p : Cells) : Nat → Nat × Cells
  | 0 => (0, p)
  | n + 1 =>
    if p.at n = ESC then
      let (r, p') := (p.read n).escRun n
      (r + 1, p')
    else (0, p.read n)

def isEscape (p : Cells) (idx : Int) : Bool × Cells :=
  let (r, p') := p.escRun (idx + 1).toNat
  (decide (r % 2 = 1), p')

def intlen (i : Nat) : Nat := if i < 10 then 1 else 1 + intlen (i / 10)

/-- What one round of the expansion reads besides the array. -/
structure Round where
  /-- `c->output` -/
  output : Str
  /-- `c->exists` -/
  exist : ConfExists
  /-- `run.pid` -/
  pid : Int
  /-- `conf.proc.exe` -/
  exe : Option Str
  counter : Nat
  seqLen : Nat
  deriving DecidableEq, Repr

/-- The loop variables, and the notices logged on the way. -/
structure Cursor where
  path : Cells
  i : Int
  j : Int
  notes : List Str := []
  deriving DecidableEq, Repr

/-- How the expansion ends early: at the label `too_long`, or in a fault. -/
inductive ExpandStop where
  | tooLong (c : Cursor)
  | fault (f : Fault)
  deriving DecidableEq, Repr

def seqNotice (output : Str) : Str :=
  lit "Sequence wild card in '" ++ output ++ lit "', but sequence mode is not used"

def unknownNotice (c : Byte) (output : Str) : Str :=
  lit "Unknown wild card '@" ++ [c] ++ lit "' in '" ++ output ++ lit "'"

/-- The loop of the cases `'e'` and `'E'` over the characters of the path of the
executable, from the last one.  `i` does not change. -/
def exeLoop (c : Cursor) : List Byte → Except ExpandStop Cursor
  | [] => .ok c
  | b :: rest =>
    if c.j ≤ c.i then .error (.tooLong c)
    else if b = ch '/' then
      if c.path.at c.i = ch 'e' then .ok { c with path := c.path.read c.i }
      else exeLoop { c with path := (c.path.read c.i).write c.j (ch '!'), j := c.j - 1 } rest
    else exeLoop { c with path := c.path.write c.j b, j := c.j - 1 } rest

/-- The cases of the `switch`: `path[i]` stands behind an active escape
character. -/
def expandWild (r : Round) (c : Cursor) : Except ExpandStop Cursor :=
  let b := c.path.at c.i
  let c := { c with path := c.path.read c.i }
  if b = ESC then
    .ok { c with path := (c.path.read c.i).write c.j b, i := c.i - 1 }
  else if b = ch 'p' then
    -- an `int` needs at most 11 of the 32 bytes of `buf`
    let buf := fmtD r.pid
    let c := { c with j := c.j - (buf.length - 1), i := c.i - 1 }
    if c.j < c.i then .error (.tooLong c)
    else .ok { c with path := c.path.copy c.j buf }
  else if b = ch 'Q' then
    let c := { c with j := c.j - (r.seqLen - 1), i := c.i - 1 }
    if c.j < c.i then .error (.tooLong c)
    else
      let buf := fmt0D r.seqLen r.counter
      let c := { c with path := c.path.copy c.j (buf.take r.seqLen) }
      if r.exist = .sequence then .ok c
      else .ok { c with notes := c.notes ++ [seqNotice r.output] }
  else if b = ch 'e' ∨ b = ch 'E' then
    match r.exe with
    | none => .error (.fault .nullDeref)
    | some exe =>
      match exeLoop c exe.reverse with
      | .error e => .error e
      | .ok c => .ok { c with i := c.i - 1, j := c.j + 1 }
  else
    -- `path[i]` is read for the notice and again for the assignment
    let c := { c with path := c.path.read c.i, notes := c.notes ++ [unknownNotice b r.output] }
    let p := (c.path.read c.i).write c.j b
    let b' := p.at (c.i - 1)
    .ok { c with path := (p.read (c.i - 1)).write (c.j - 1) b', i := c.i - 1, j := c.j - 1 }

def expandBody (r : Round) (c : Cursor) : Except ExpandStop Cursor :=
  let (esc, p) := isEscape c.path (c.i - 1)
  let c := { c with path := p }
  if esc then expandWild r c
  else
    let b := c.path.at c.i
    .ok { c with path := (c.path.read c.i).write c.j b }

def Cursor.next (c : Cursor) : Cursor := { c with i := c.i - 1, j := c.j - 1 }

/-- The loop.  Every turn takes at least one from `i`, so `strlen(path)` turns
are enough. -/
def expandLoop (r : Round) : Nat → Cursor → Except ExpandStop Cursor
  | 0, c => .ok c
  | n + 1, c =>
    if c.i ≥ 1 then
      match expandBody r c with
      | .error e => .error e
      | .ok c => expandLoop r n c.next
    else .ok c

def cstr (cells : List Byte) : Str := cells.takeWhile (· ≠ 0)

theorem cstr_append_nul {s rest : Str} (h : 0 ∉ s) : cstr (s ++ 0 :: rest) = s := by
  have hs : ∀ b ∈ s, decide (b ≠ 0) = true := by
    intro b hb
    refine decide_eq_true ?_
    rintro rfl
    exact h hb
  rw [cstr, List.takeWhile_append_of_pos hs, List.takeWhile_cons_of_neg (by decide),
    List.append_nil]

theorem nul_notMem_cstr (cells : List Byte) : 0 ∉ cstr cells := by
  intro h
  have hall : (cstr cells).all (fun b => decide (b ≠ 0)) = true := List.all_takeWhile
  exact absurd (List.all_eq_true.mp hall 0 h) (by decide)

def Cursor.start (cells : List Byte) : Cursor where
  path := { cells := cells }
  i := (cstr cells).length
  j := cells.length - 1

/-- The whole expansion: the loop, and `path[j] = '/'` behind it. -/
def expandCells (r : Round) (cells : List Byte) : Except ExpandStop Cursor :=
  match expandLoop r (cstr cells).length (Cursor.start cells) with
  | .error e => .error e
  | .ok c => .ok { c with path := c.path.write c.j (ch '/') }

def Cursor.result (c : Cursor) : Str := cstr (c.path.cells.drop c.j.toNat)

example : (expandCells ⟨[], .append, 42, some (lit "/usr/bin/vi"), 3, 2⟩
      (lit "/a@@@e-@p/@Q@x@" ++ List.replicate 20 0)).toOption.map Cursor.result
    = some (lit "/a@vi-42/03@x@") := by
  decide

end Crashinfo
