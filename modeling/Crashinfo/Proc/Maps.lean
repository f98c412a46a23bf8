import Crashinfo.Conf.Dump
import Crashinfo.Conf.Values
import Crashinfo.Main.Tee
import Crashinfo.Proc.Info
import Crashinfo.Proc.Pidmap
import Crashinfo.Proc.Scanf

/-!
# The mappings of the process

`read_proc_info` reads `/proc/PID/maps` unless mappings were configured.  A line about
executable memory that a file is mapped to is turned, in place, into the directive
`proc_maps`, and `parse_line` gets it.

The kernel's lines are told apart as they should be, and the text that is kept is not
overwritten.  But an address passes through a `long long` and the white space at the
end of a path gets lost, so the mappings are the kernel's only where neither matters
(`readProcMaps_iff`).  The loop ends as the one of `readProcInfo` does
(`parseMaps_directives`).
-/

namespace Crashinfo

open Lines Token

/-- `"%jx-%*x %*c%*c%c%*c %*x %*s %*d %n%c%*[^\n]"` -/
def mapsFormat : List Conv :=
  [.num 16 true, .lit (ch '-'), .num 16 false, .white, .char false, .char false, .char true,
    .char false, .white, .num 16 false, .white, .word, .white, .num 10 false, .white, .pos,
    .char true, .line]

def scanMapping (buf : Str) : Option (Nat × Nat) :=
  match sscanf mapsFormat buf with
  | [.num addr, .char exec, .pos file, .char tmp] =>
    if exec = ch 'x' ∧ tmp = ch '/' then some (addr, file) else none
  | _ => none

def rewriteMapping (buf : Str) (addr file : Nat) : Except Fault Str :=
  let text := lit "proc_maps=" ++ fmtHash addr ++ lit ":"
  let array := overwrite (buf ++ [0]) 0 (text ++ [0])
  if text.length < file then
    .ok (cstr (overwrite array text.length (cstr (array.drop file) ++ [0])))
  else .error .assertion

/-- The loop over the lines; `true` if it comes to the end of them.  Each call of
`parse_line` gets what is next of `allocs`. -/
def mapsLoop : List Bool → ConfState → List Str → Except Fault (Bool × ConfState × List Message)
  | _, s, [] => .ok (true, s, [])
  | allocs, s, buf :: bufs =>
    match scanMapping buf with
    | none => mapsLoop allocs s bufs
    | some (addr, file) => do
      let line ← rewriteMapping buf addr file
      let r ← parseLine (allocs.headD true) s line
      if r.ret ≠ 0 then
        -- `parse_line` has put a NUL in place of the `=`
        return (false, r.state, r.log ++
          [(.err, lit "Failed to parse '" ++ line.takeWhile (· ≠ ch '=') ++ lit "'")])
      else
        let (ok, s, log) ← mapsLoop allocs.tail r.state bufs
        return (ok, s, r.log ++ log)

/-- `read_proc_info`, as far as `maps` goes; `content` is what is in the file. -/
def readProcMaps (allocs : List Bool) (s : ConfState) (content : List Byte) :
    Except Fault (Bool × ConfState × List Message) :=
  if s.conf.proc.maps = [] then mapsLoop allocs s (procLines content) else .ok (true, s, [])

/-! ### What the kernel writes -/

/-- An area of memory, as the kernel shows it. -/
structure Vma where
  start : Nat
  stop : Nat
  r : Bool
  w : Bool
  x : Bool
  shared : Bool
  offset : Nat
  dev : Str
  inode : Nat
  /-- how many blanks there are in front of the path -/
  blanks : Nat
  /-- it may be empty -/
  path : Str

def Vma.perms (v : Vma) : Str :=
  [if v.r then ch 'r' else ch '-', if v.w then ch 'w' else ch '-', if v.x then ch 'x' else ch '-',
    if v.shared then ch 's' else ch 'p']

def Vma.head (v : Vma) : Str :=
  fmt08x v.start ++ ch '-' :: (fmt08x v.stop ++ ch ' ' :: (v.perms ++ ch ' ' :: (fmt08x v.offset ++
    ch ' ' :: (v.dev ++ ch ' ' :: (dec v.inode ++ List.replicate v.blanks (ch ' '))))))

def Vma.text (v : Vma) : Str := v.head ++ v.path

/-- A line that the kernel can write, and that there is room for in the buffer. -/
structure MapsLine extends Vma where
  start_lt : start < 2 ^ 64
  dev_word : Word isDelim dev
  dev_nul : 0 ∉ dev
  blanks_pos : 0 < blanks
  path_head : ∀ c ∈ path.head?, isDelim c = false
  path_line : ch '\n' ∉ path ∧ 0 ∉ path
  short : toVma.text.length + 1 < procSize

def mapsText (ls : List MapsLine) : List Byte := ls.flatMap fun l => l.text ++ [ch '\n']

/-- The line is about executable memory that a file is mapped to. -/
def MapsLine.isFile (l : MapsLine) : Bool := l.x && decide (l.path.head? = some (ch '/'))

def fileMappings (ls : List MapsLine) : List (Nat × Str) :=
  (ls.filter MapsLine.isFile).map fun l => (l.start, l.path)

/-- What the line says survives: the address is a `long long`, and the path does not end
with white space. -/
def MapsLine.Survives (l : MapsLine) : Prop :=
  l.start < 2 ^ 63 ∧ ∀ c ∈ l.path.getLast?, isDelim c = false

/-! ### Rewriting a line -/

section Rewrite

theorem digits_of_mem_fmtHash {n : Nat} {c : Byte} (h : c ∈ fmtHash n) :
    (digitVal c).isSome = true := by
  unfold fmtHash at h
  split at h
  · rw [List.mem_singleton.mp h]
    decide
  · rcases List.mem_append.mp h with h | h
    · rcases List.mem_cons.mp h with rfl | h
      · decide
      · rw [List.mem_singleton.mp h]
        decide
    · obtain ⟨d, hd, rfl⟩ := List.mem_map.mp h
      have hlt := Numeral.digits_lt (by decide) hd
      rw [digitVal_digitChar (by omega)]
      rfl

def directiveHead (addr : Nat) : Str := lit "proc_maps=" ++ fmtHash addr ++ lit ":"

theorem nul_notMem_directiveHead (addr : Nat) : 0 ∉ directiveHead addr := by
  intro h
  rcases List.mem_append.mp h with h | h
  · rcases List.mem_append.mp h with h | h
    · exact absurd h (by decide)
    · exact absurd (digits_of_mem_fmtHash h) (by decide)
  · exact absurd h (by decide)

/-- **The path is moved as a whole**, if the directive is shorter than what stood in
front of it. -/
theorem rewriteMapping_eq {a path : Str} {addr : Nat} (hpath : 0 ∉ path)
    (hlt : (directiveHead addr).length < a.length) :
    rewriteMapping (a ++ path) addr a.length = .ok (directiveHead addr ++ path) := by
  have harray : overwrite (a ++ path ++ [0]) 0 (directiveHead addr ++ [0]) =
      directiveHead addr ++ 0 :: (a ++ path ++ [0]).drop ((directiveHead addr).length + 1) := by
    rw [overwrite, List.length_append]
    simp
  -- the path begins behind the NUL of the directive
  have htail : (overwrite (a ++ path ++ [0]) 0 (directiveHead addr ++ [0])).drop a.length =
      path ++ [0] := by
    obtain ⟨k, hk⟩ := Nat.exists_eq_add_of_lt hlt
    have hskip : a.length - (directiveHead addr).length = k + 1 := by omega
    have hsum : (directiveHead addr).length + 1 + k = a.length := by omega
    rw [harray, List.drop_append, List.drop_eq_nil_of_le (Nat.le_of_lt hlt), hskip,
      List.drop_succ_cons, List.drop_drop, hsum, List.append_assoc]
    exact List.drop_left
  have htake : (overwrite (a ++ path ++ [0]) 0 (directiveHead addr ++ [0])).takeD
      (directiveHead addr).length 0 = directiveHead addr := by
    rw [harray, List.takeD_eq_take _ (by rw [List.length_append]; omega)]
    exact List.take_left
  have hmoved : overwrite (overwrite (a ++ path ++ [0]) 0 (directiveHead addr ++ [0]))
      (directiveHead addr).length (path ++ [0]) = (directiveHead addr ++ path) ++ 0 ::
        (overwrite (a ++ path ++ [0]) 0 (directiveHead addr ++ [0])).drop
          ((directiveHead addr).length + (path ++ [0]).length) := by
    rw [overwrite, htake]
    simp
  have hnul : 0 ∉ directiveHead addr ++ path := by
    intro h
    rcases List.mem_append.mp h with h | h
    · exact nul_notMem_directiveHead addr h
    · exact hpath h
  rw [rewriteMapping, ← directiveHead]
  rw [if_pos hlt, htail, cstr_append_nul hpath, hmoved, cstr_append_nul hnul]

end Rewrite

/-! ### Scanning a line -/

section Scan

theorem scanFrom_line (n : Nat) (s : Str) : scanFrom n [.line] s = [] := by
  rw [scanFrom, Conv.take]
  split
  · rfl
  · rename_i h
    split at h
    · cases h
    · cases h
      rfl

theorem scanFrom_blank {n : Nat} {ds : List Conv} {s : Str}
    (hs : ∀ c ∈ s.head?, isDelim c = false) :
    scanFrom n (.white :: ds) (ch ' ' :: s) = scanFrom n ds s :=
  scanFrom_white (w := [ch ' ']) (List.forall_mem_singleton.mpr (by decide)) hs

theorem word_fmt08x (m : Nat) : Word isDelim (fmt08x m) := by
  refine ⟨?_, fun c hc => isDelim_of_isDigit (isDigit_of_mem_fmt08x hc)⟩
  apply List.ne_nil_of_length_pos
  rw [length_fmt08x]
  omega

theorem word_dec (m : Nat) : Word isDelim (dec m) :=
  ⟨dec_ne_nil m, fun _ hc => isDelim_of_isDigit (isDigit_of_mem_dec hc)⟩

/-- **What is stored out of what stands in front of the path.** -/
theorem scanFrom_head {v : Vma} (n : Nat) (rest : Str) (hstart : v.start < 2 ^ 64)
    (hdev : Word isDelim v.dev) (hblanks : 0 < v.blanks) :
    scanFrom n mapsFormat (v.head ++ rest) =
      .num v.start :: .char (if v.x then ch 'x' else ch '-') ::
        scanFrom n [.white, .pos, .char true, .line] (List.replicate v.blanks (ch ' ') ++ rest) := by
  have hperm : ∀ (s : Str), ∀ c ∈ ((if v.r then ch 'r' else ch '-') :: s).head?,
      isDelim c = false := by
    intro s
    apply forall_mem_head_cons
    cases v.r with
    | true => decide
    | false => decide
  obtain ⟨k, hk⟩ := Nat.exists_eq_succ_of_ne_zero (Nat.pos_iff_ne_zero.mp hblanks)
  have hline : v.head ++ rest = fmt08x v.start ++ ch '-' :: (fmt08x v.stop ++ ch ' ' ::
      ((if v.r then ch 'r' else ch '-') :: (if v.w then ch 'w' else ch '-') ::
        (if v.x then ch 'x' else ch '-') :: (if v.shared then ch 's' else ch 'p') :: ch ' ' ::
          (fmt08x v.offset ++ ch ' ' :: (v.dev ++ ch ' ' :: (dec v.inode ++
            (List.replicate v.blanks (ch ' ') ++ rest)))))) := by
    simp [Vma.head, Vma.perms]
  have hinode : ∀ c ∈ (List.replicate v.blanks (ch ' ') ++ rest).head?,
      isDigit 10 c = false := by
    rw [hk]
    exact forall_mem_head_cons (by decide) _
  rw [hline, mapsFormat]
  -- the addresses
  rw [scanFrom_hex true (forall_mem_head_cons (by decide) _) (Or.inl hstart), scanFrom_lit,
    scanFrom_hex false (forall_mem_head_cons (by decide) _) (Or.inr rfl)]
  -- the permissions
  rw [scanFrom_blank (hperm _), scanFrom_char, scanFrom_char, scanFrom_char,
    scanFrom_char]
  -- the offset, the device and the inode
  rw [scanFrom_blank ((word_fmt08x _).head_append _),
    scanFrom_hex false (forall_mem_head_cons (by decide) _) (Or.inr rfl),
    scanFrom_blank (hdev.head_append _), scanFrom_word hdev (forall_mem_head_cons (by decide) _),
    scanFrom_blank ((word_dec _).head_append _), scanFrom_dec v.inode hinode]
  rfl

/-- **The kernel's lines are told apart.** -/
theorem scanMapping_line (l : MapsLine) :
    scanMapping (l.text ++ [ch '\n']) =
      if l.isFile then some (l.start, l.head.length) else none := by
  have hscan := scanFrom_head (l.text ++ [ch '\n']).length (l.path ++ [ch '\n']) l.start_lt
    l.dev_word l.blanks_pos
  rw [← List.append_assoc, ← Vma.text] at hscan
  have hblanks : Blank isDelim (List.replicate l.blanks (ch ' ')) := by
    intro c hc
    rw [List.eq_of_mem_replicate hc]
    decide
  rw [scanMapping, sscanf, hscan]
  cases hpath : l.path with
  | nil =>
    -- the white space goes to the end of the line
    have hfile : l.isFile = false := by
      rw [MapsLine.isFile, hpath]
      exact Bool.and_false _
    have hall : Blank isDelim (List.replicate l.blanks (ch ' ') ++ [ch '\n']) := by
      intro c hc
      rcases List.mem_append.mp hc with hc | hc
      · exact hblanks c hc
      · rw [List.mem_singleton.mp hc]
        decide
    have hskip : scanFrom (l.text ++ [ch '\n']).length [.white, .pos, .char true, .line]
        (List.replicate l.blanks (ch ' ') ++ [ch '\n'] ++ []) =
          scanFrom (l.text ++ [ch '\n']).length [.pos, .char true, .line] [] :=
      scanFrom_white hall fun c hc => absurd hc (Option.not_mem_none c)
    rw [List.append_nil] at hskip
    rw [List.nil_append, hskip, scanFrom_pos, scanFrom_char_nil, hfile]
    rfl
  | cons c p =>
    have hhead : ∀ d ∈ (c :: p ++ [ch '\n']).head?, isDelim d = false := by
      intro d hd
      rw [← Option.some.inj hd]
      exact l.path_head c (by rw [hpath]; rfl)
    have hpos : (l.text ++ [ch '\n']).length - (c :: p ++ [ch '\n']).length = l.head.length := by
      rw [Vma.text, hpath, List.append_assoc, List.length_append]
      omega
    have hfile : l.isFile = true ↔ (if l.x then ch 'x' else ch '-') = ch 'x' ∧ c = ch '/' := by
      rw [MapsLine.isFile, hpath, List.head?_cons, Bool.and_eq_true, decide_eq_true_iff,
        Option.some.injEq]
      cases l.x with
      | true => exact and_congr_left' (iff_of_true rfl rfl)
      | false => exact and_congr_left' (iff_of_false Bool.false_ne_true (by decide))
    rw [scanFrom_white hblanks hhead, scanFrom_pos, hpos, List.cons_append, scanFrom_char,
      scanFrom_line]
    exact if_congr hfile.symm rfl rfl

end Scan

/-! ### Parsing a directive -/

section Parse

theorem isDigit_of_mem_hex {n : Nat} {c : Byte} (h : c ∈ (Numeral.digits 16 n).map digitChar) :
    isDigit 16 c = true := by
  obtain ⟨d, hd, rfl⟩ := List.mem_map.mp h
  exact isDigit_digitChar (by decide) (Numeral.digits_lt (by decide) hd)

theorem literal_fmtHash (n : Nat) : Literal (fmtHash n) n := by
  unfold fmtHash
  by_cases hn : n = 0
  · rw [if_pos hn, hn]
    exact .plain (.octal (List.forall_mem_nil _))
  · have hval : digitsVal 16 ((Numeral.digits 16 n).map digitChar) = n := by
      rw [digitsVal, filterMap_digitVal, Numeral.value_digits]
      intro d hd
      have := Numeral.digits_lt (by decide) hd
      omega
    have hne : (Numeral.digits 16 n).map digitChar ≠ [] := by
      rw [Ne, List.map_eq_nil_iff]
      exact Numeral.digits_ne_nil 16 n
    have hhex : Unsigned (ch '0' :: ch 'x' :: (Numeral.digits 16 n).map digitChar)
        (digitsVal 16 ((Numeral.digits 16 n).map digitChar)) :=
      .hex (Or.inl rfl) hne fun d hd => isDigit_of_mem_hex hd
    rw [hval] at hhex
    rw [if_neg hn]
    exact .plain hhex

theorem trim_path {path : Str} (hne : path ≠ []) (hhead : ∀ c ∈ path.head?, isDelim c = false) :
    Trimmed isDelim (trim isDelim path) ∧ ∃ w, Blank isDelim w ∧ path = trim isDelim path ++ w := by
  have hblank : ¬Blank isDelim path := by
    intro hb
    cases path with
    | nil => exact hne rfl
    | cons c p =>
      have hc := hhead c rfl
      rw [hb c List.mem_cons_self] at hc
      cases hc
  obtain ⟨w, w', hw, hw', htrim, hpath⟩ := exists_trim hblank
  cases w with
  | nil => exact ⟨htrim, w', hw', hpath⟩
  | cons c w =>
    have hc := hhead c (by rw [hpath]; rfl)
    rw [hw c List.mem_cons_self] at hc
    cases hc

theorem trim_eq_iff {path : Str} (hne : path ≠ []) (hhead : ∀ c ∈ path.head?, isDelim c = false) :
    trim isDelim path = path ↔ ∀ c ∈ path.getLast?, isDelim c = false := by
  constructor
  · intro h
    have htrim := (trim_path hne hhead).1
    rw [h] at htrim
    exact htrim.last
  · intro hlast
    exact Trimmed.trim_eq ⟨hne, hhead, hlast⟩

/-- The directive has its address and its path for a value. -/
theorem rewritten_split (addr : Nat) {path : Str} (hne : path ≠ [])
    (hhead : ∀ c ∈ path.head?, isDelim c = false) :
    Trimmed isDelim (fmtHash addr ++ ch ':' :: trim isDelim path) ∧
      ∃ w, Blank isDelim w ∧ directiveHead addr ++ (path ++ [ch '\n']) =
        Key.name .procMaps ++ ch '=' :: ((fmtHash addr ++ ch ':' :: trim isDelim path) ++ w) := by
  obtain ⟨htrim, w, hw, hpath⟩ := trim_path hne hhead
  have hword := (literal_fmtHash addr).word
  constructor
  · refine ⟨List.append_ne_nil_of_left_ne_nil hword.ne_nil _, hword.head_append _, fun c hc => ?_⟩
    rw [← List.singleton_append, ← List.append_assoc,
      List.getLast?_append_of_ne_nil _ htrim.ne_nil] at hc
    exact htrim.last c hc
  · refine ⟨w ++ [ch '\n'], ?_, ?_⟩
    · intro c hc
      rcases List.mem_append.mp hc with hc | hc
      · exact hw c hc
      · rw [List.mem_singleton.mp hc]
        decide
    · have hsplit : path ++ [ch '\n'] = trim isDelim path ++ (w ++ [ch '\n']) := by
        rw [← List.append_assoc, ← hpath]
      have hdirective : directiveHead addr =
          Key.name .procMaps ++ ch '=' :: (fmtHash addr ++ [ch ':']) :=
        List.append_assoc _ _ _
      rw [hsplit, hdirective]
      simp only [List.append_assoc, List.cons_append, List.nil_append]

/-- **What `parse_line` makes of the directive**: the address passes through a
`long long`, and the path loses the white space at its end. -/
theorem parseLine_rewritten (alloc : Bool) (s : ConfState) (addr : Nat) {path : Str}
    (hne : path ≠ []) (hhead : ∀ c ∈ path.head?, isDelim c = false) :
    ∃ r, parseLine alloc s (directiveHead addr ++ (path ++ [ch '\n'])) = .ok r ∧
      (r.ret = 0 ↔ alloc = true) ∧
      r.state.conf.proc.maps = s.conf.proc.maps ++
        if alloc then [((toLong addr % 2 ^ 64).toNat, trim isDelim path)] else [] := by
  obtain ⟨hv, w, hw, hline⟩ := rewritten_split addr hne hhead
  have hname : ch '=' ∉ Key.name .procMaps := (Key.plain_name .procMaps).1
  have hwords : headWords (directiveHead addr ++ (path ++ [ch '\n'])) =
      Key.name .procMaps :: [] := by
    rw [hline, headWords_append_eq hname, tokens_word (Key.word_name .procMaps)]
  have htail : tailOf (directiveHead addr ++ (path ++ [ch '\n'])) =
      (fmtHash addr ++ ch ':' :: trim isDelim path) ++ w := by
    rw [hline, tailOf_append_eq hname]
  have hvalue : trim isDelim (tailOf (directiveHead addr ++ (path ++ [ch '\n']))) =
      fmtHash addr ++ ch ':' :: trim isDelim path := by
    rw [htail]
    exact trim_pad (w := []) (List.forall_mem_nil _) hv hw
  have hblank : ¬Blank isDelim (tailOf (directiveHead addr ++ (path ++ [ch '\n']))) := by
    rw [htail]
    exact fun hb => hv.not_blank fun c hc => hb c (List.mem_append_left _ hc)
  obtain ⟨log, hparse⟩ := parseMappingMulti_eq hv alloc (Key.name .procMaps) s.conf.proc.maps
  obtain ⟨seen, log', hrun⟩ := parseOption_of_ok (k := .procMaps) hparse
  rw [← hvalue] at hrun
  refine ⟨_, (parseLine_option hwords hblank).trans hrun, ?_⟩
  rw [hvalue, strtol_literal (literal_fmtHash addr) (breaks_colon _)]
  cases alloc with
  | true => exact ⟨iff_of_true rfl rfl, rfl⟩
  | false =>
    have hret : (-1 : Int) ≠ 0 := by decide
    exact ⟨iff_of_false hret Bool.false_ne_true, (List.append_nil _).symm⟩

end Parse

/-! ### The loop -/

def AllSurvive (allocs : List Bool) (ls : List MapsLine) : Prop :=
  ∀ i l, (ls.filter MapsLine.isFile)[i]? = some l → allocs.getD i true = true ∧ l.Survives

section Loop

variable {allocs : List Bool} {l : MapsLine} {ls : List MapsLine}

theorem length_fmtHash_le (n : Nat) : (fmtHash n).length ≤ 2 + (Numeral.digits 16 n).length := by
  unfold fmtHash
  split
  · exact Nat.le_add_right_of_le (by decide)
  · rw [List.length_append, List.length_map]
    exact Nat.le_refl _

/-- **The assertion**: the directive is shorter than what it replaces. -/
theorem directiveHead_lt (v : Vma) : (directiveHead v.start).length < v.head.length := by
  have hhash := length_fmtHash_le v.start
  have hstart := length_fmt08x v.start
  have hoffset := length_fmt08x v.offset
  have hstop := length_fmt08x v.stop
  have hname : (lit "proc_maps=").length = 10 := rfl
  have hcolon : (lit ":").length = 1 := rfl
  have hperms : v.perms.length = 4 := rfl
  simp only [directiveHead, Vma.head, List.length_append, List.length_cons]
  omega

theorem isFile_iff : l.isFile = true ↔ l.x = true ∧ l.path.head? = some (ch '/') := by
  rw [MapsLine.isFile, Bool.and_eq_true, decide_eq_true_iff]

theorem path_ne_nil (h : l.isFile = true) : l.path ≠ [] := by
  intro hnil
  have hhead := (isFile_iff.mp h).2
  rw [hnil] at hhead
  cases hhead

theorem mapsLoop_other (allocs : List Bool) (s : ConfState) (h : ¬l.isFile = true)
    (bufs : List Str) :
    mapsLoop allocs s ((l.text ++ [ch '\n']) :: bufs) = mapsLoop allocs s bufs := by
  rw [mapsLoop, scanMapping_line, if_neg h]

theorem mapsLoop_file (allocs : List Bool) (s : ConfState) (h : l.isFile = true)
    (bufs : List Str) :
    ∃ r : Parsed, (r.ret = 0 ↔ allocs.headD true = true) ∧
      r.state.conf.proc.maps = s.conf.proc.maps ++ (if allocs.headD true then
        [((toLong l.start % 2 ^ 64).toNat, trim isDelim l.path)] else []) ∧
      ∃ log, mapsLoop allocs s ((l.text ++ [ch '\n']) :: bufs) =
        if r.ret ≠ 0 then .ok (false, r.state, log)
        else mapsLoop allocs.tail r.state bufs >>= fun q => .ok (q.1, q.2.1, r.log ++ q.2.2) := by
  have hpath : 0 ∉ l.path ++ [ch '\n'] := by
    intro h
    rcases List.mem_append.mp h with h | h
    · exact l.path_line.2 h
    · exact absurd (List.mem_singleton.mp h) (by decide)
  obtain ⟨r, hparse, hret, hmaps⟩ :=
    parseLine_rewritten (allocs.headD true) s l.start (path_ne_nil h) l.path_head
  have hmessage : (directiveHead l.start ++ (l.path ++ [ch '\n'])).takeWhile (· ≠ ch '=') =
      lit "proc_maps" := by
    exact takeWhile_append_eq (a := lit "proc_maps") (by decide) _
  refine ⟨r, hret, hmaps,
    r.log ++ [(.err, lit "Failed to parse '" ++ lit "proc_maps" ++ lit "'")], ?_⟩
  rw [mapsLoop, scanMapping_line, if_pos h]
  dsimp only
  rw [Vma.text, List.append_assoc, rewriteMapping_eq hpath (directiveHead_lt l.toVma)]
  show (parseLine _ _ _ >>= _) = _
  rw [hparse, hmessage]
  rfl

theorem allSurvive_other (h : ¬l.isFile = true) :
    AllSurvive allocs (l :: ls) ↔ AllSurvive allocs ls := by
  rw [AllSurvive, List.filter_cons_of_neg h, AllSurvive]

theorem allSurvive_file (h : l.isFile = true) :
    AllSurvive allocs (l :: ls) ↔
      (allocs.headD true = true ∧ l.Survives) ∧ AllSurvive allocs.tail ls := by
  rw [AllSurvive, List.filter_cons_of_pos h, AllSurvive]
  constructor
  · intro hall
    refine ⟨?_, fun i l' hl' => ?_⟩
    · have hzero := hall 0 l rfl
      cases allocs with
      | nil => exact hzero
      | cons a allocs => exact hzero
    · have hsucc := hall (i + 1) l' hl'
      cases allocs with
      | nil => exact hsucc
      | cons a allocs => exact hsucc
  · intro ⟨hzero, hall⟩ i l' hl'
    cases i with
    | zero =>
      rw [← Option.some.inj hl']
      cases allocs with
      | nil => exact hzero
      | cons a allocs => exact hzero
    | succ i =>
      have hsucc := hall i l' hl'
      cases allocs with
      | nil => exact hsucc
      | cons a allocs => exact hsucc

theorem survives_iff (h : l.isFile = true) :
    ((toLong l.start % 2 ^ 64).toNat, trim isDelim l.path) = (l.start, l.path) ↔ l.Survives := by
  rw [Prod.mk.injEq, toLong_mod_eq_iff l.start l.start_lt, trim_eq_iff (path_ne_nil h) l.path_head,
    MapsLine.Survives]

/-- **A run of the loop** adds to the mappings, and what it adds is right just if
everything survives. -/
theorem mapsLoop_run (allocs : List Bool) (s : ConfState) (ls : List MapsLine) :
    ∃ ok s' log more, mapsLoop allocs s (ls.map fun l => l.text ++ [ch '\n']) = .ok (ok, s', log) ∧
      s'.conf.proc.maps = s.conf.proc.maps ++ more ∧
      (more = fileMappings ls ↔ AllSurvive allocs ls) := by
  induction ls generalizing allocs s with
  | nil =>
    refine ⟨true, s, [], [], rfl, (List.append_nil _).symm, iff_of_true rfl ?_⟩
    intro i l hl
    cases hl
  | cons l ls ih =>
    rw [List.map_cons]
    by_cases hfile : l.isFile = true
    · obtain ⟨r, hret, hmaps, log, hrun⟩ :=
        mapsLoop_file allocs s hfile (ls.map fun l => l.text ++ [ch '\n'])
      have hcons : fileMappings (l :: ls) = (l.start, l.path) :: fileMappings ls := by
        rw [fileMappings, List.filter_cons_of_pos hfile]
        rfl
      rw [hcons, allSurvive_file hfile]
      by_cases halloc : allocs.headD true = true
      · obtain ⟨ok, s', log', more, hrest, hmore, hiff⟩ := ih allocs.tail r.state
        rw [if_neg (not_not.mpr (hret.mpr halloc)), hrest] at hrun
        rw [if_pos halloc] at hmaps
        refine ⟨ok, s', _, ((toLong l.start % 2 ^ 64).toNat, trim isDelim l.path) :: more, hrun,
          ?_, ?_⟩
        · rw [hmore, hmaps, List.append_assoc]
          rfl
        · rw [List.cons.injEq, survives_iff hfile, hiff, and_iff_right halloc]
      · rw [if_pos (hret.not.mpr halloc)] at hrun
        rw [if_neg halloc] at hmaps
        refine ⟨false, r.state, log, [], hrun, hmaps, iff_of_false ?_ ?_⟩
        · exact (List.cons_ne_nil _ _).symm
        · exact fun h => halloc h.1.1
    · have hsame : fileMappings (l :: ls) = fileMappings ls := by
        rw [fileMappings, List.filter_cons_of_neg hfile, fileMappings]
      rw [mapsLoop_other allocs s hfile, hsame, allSurvive_other hfile]
      exact ih allocs s

end Loop

/-! ### The rest of the program -/

section Rest

def directives (ls : List MapsLine) : List Str :=
  (ls.filter MapsLine.isFile).map fun l => directiveHead l.start ++ (l.path ++ [ch '\n'])

/-- What a call of `parse_line` comes to, with memory and without. -/
def Answer.ofAlloc (e : Errno) (alloc : Bool) : Answer := if alloc then .ok else .err e

/-- **`read_proc_info` goes on with the tasks** just if this loop comes to the end of
the lines. -/
theorem parseMaps_directives (e : Errno) {allocs : List Bool} {ls : List MapsLine}
    (hlen : (directives ls).length ≤ allocs.length) (s : ConfState) (h : Host)
    (o : List Answer) :
    ∃ ok s' log h' rest, mapsLoop allocs s (ls.map fun l => l.text ++ [ch '\n']) =
        .ok (ok, s', log) ∧
      parseMaps (directives ls) h (allocs.map (Answer.ofAlloc e) ++ o) = .done ok h' rest := by
  induction ls generalizing allocs s h with
  | nil => exact ⟨true, s, [], h, _, rfl, rfl⟩
  | cons l ls ih =>
    rw [List.map_cons]
    by_cases hfile : l.isFile = true
    · have hcons : directives (l :: ls) =
          (directiveHead l.start ++ (l.path ++ [ch '\n'])) :: directives ls := by
        rw [directives, List.filter_cons_of_pos hfile]
        rfl
      obtain ⟨r, hret, -, log, hrun⟩ :=
        mapsLoop_file allocs s hfile (ls.map fun l => l.text ++ [ch '\n'])
      rw [hcons] at hlen ⊢
      cases allocs with
      | nil => exact absurd hlen (Nat.not_succ_le_zero _)
      | cons a allocs =>
        rw [List.length_cons, List.length_cons] at hlen
        cases a with
        | true =>
          obtain ⟨ok, s', log', h', rest, hloop, hparse⟩ :=
            ih (Nat.le_of_succ_le_succ hlen) r.state h
          rw [if_neg (not_not.mpr (hret.mpr rfl)), List.tail_cons, hloop] at hrun
          exact ⟨ok, s', _, h', rest, hrun, hparse⟩
        | false =>
          rw [if_pos (hret.not.mpr Bool.false_ne_true)] at hrun
          exact ⟨false, r.state, log, _, _, hrun, rfl⟩
    · have hsame : directives (l :: ls) = directives ls := by
        rw [directives, List.filter_cons_of_neg hfile, directives]
      rw [hsame] at hlen ⊢
      rw [mapsLoop_other allocs s hfile]
      exact ih hlen s h

end Rest

/-! ### The file -/

section File

/-- What is neither the end of a line nor that of a text. -/
def Inner (c : Byte) : Prop := c ≠ ch '\n' ∧ c ≠ 0

instance : DecidablePred Inner := fun c => inferInstanceAs (Decidable (c ≠ ch '\n' ∧ c ≠ 0))

theorem inner_of_isDigit {b : Nat} {c : Byte} (h : isDigit b c = true) : Inner c := by
  obtain ⟨hdelim, -, -, hnul⟩ := plain_of_isDigit h
  refine ⟨?_, hnul⟩
  rintro rfl
  exact absurd hdelim (by decide)

theorem inner_perms (v : Vma) : ∀ c ∈ v.perms, Inner c := by
  have hflag : ∀ (b : Bool) (x y : Byte), Inner x → Inner y → Inner (if b then x else y) := by
    intro b x y hx hy
    cases b with
    | true => exact hx
    | false => exact hy
  have hdash : Inner (ch '-') := by decide
  rw [Vma.perms]
  simp only [List.forall_mem_cons]
  exact ⟨hflag _ _ _ (by decide) hdash, hflag _ _ _ (by decide) hdash,
    hflag _ _ _ (by decide) hdash, hflag _ _ _ (by decide) (by decide), List.forall_mem_nil _⟩

theorem inner_text (l : MapsLine) : ∀ c ∈ l.text, Inner c := by
  have hblank : Inner (ch ' ') := by decide
  have hdash : Inner (ch '-') := by decide
  have hhex : ∀ m, ∀ c ∈ fmt08x m, Inner c := fun m c hc =>
    inner_of_isDigit (isDigit_of_mem_fmt08x hc)
  have hdev : ∀ c ∈ l.dev, Inner c := by
    intro c hc
    refine ⟨?_, fun h => l.dev_nul (h ▸ hc)⟩
    rintro rfl
    exact absurd (l.dev_word.plain _ hc) (by decide)
  have hpath : ∀ c ∈ l.path, Inner c := by
    intro c hc
    exact ⟨fun h => l.path_line.1 (h ▸ hc), fun h => l.path_line.2 (h ▸ hc)⟩
  have hblanks : ∀ c ∈ List.replicate l.blanks (ch ' '), Inner c := by
    intro c hc
    rw [List.eq_of_mem_replicate hc]
    exact hblank
  have hdec : ∀ c ∈ dec l.inode, Inner c := fun c hc => inner_of_isDigit (isDigit_of_mem_dec hc)
  rw [Vma.text, Vma.head]
  simp only [List.forall_mem_append, List.forall_mem_cons]
  exact ⟨⟨hhex _, hdash, hhex _, hblank, inner_perms _, hblank, hhex _, hblank, hdev, hblank, hdec,
    hblanks⟩, hpath⟩

/-- **`fgets` reads the lines**, as they all have room in the buffer. -/
theorem procLines_mapsText (ls : List MapsLine) :
    procLines (mapsText ls) = ls.map fun l => l.text ++ [ch '\n'] := by
  have hend : ∀ l : MapsLine, ch '\n' ∉ l.text := fun l h => (inner_text l _ h).1 rfl
  have hlines : lines (ch '\n') (mapsText ls) = ls.map fun l => l.text ++ [ch '\n'] := by
    induction ls with
    | nil => rfl
    | cons l ls ih =>
      rw [mapsText, List.flatMap_cons, List.append_assoc, List.singleton_append,
        lines_append_cons (hend l), ← mapsText, ih]
      rfl
  have hroom : ∀ t ∈ lines (ch '\n') (mapsText ls), t.length ≤ procSize - 1 := by
    intro t ht
    rw [hlines] at ht
    obtain ⟨l, -, rfl⟩ := List.mem_map.mp ht
    have := l.short
    rw [List.length_append]
    exact Nat.le_sub_one_of_lt this
  rw [procLines, pieces_eq_lines (Nat.le_refl _) hroom, hlines, List.map_map]
  refine List.map_congr_left fun l _ => cstr_of_notMem fun h => ?_
  rcases List.mem_append.mp h with h | h
  · exact (inner_text l _ h).2 rfl
  · exact absurd (List.mem_singleton.mp h) (by decide)

end File

/-- **The mappings are those of the kernel** just if every mapping of a file gets
memory, begins below 2^63 and has a path that does not end with white space.  The
assertion holds in any case. -/
theorem readProcMaps_iff (allocs : List Bool) (s : ConfState) (hempty : s.conf.proc.maps = [])
    (ls : List MapsLine) :
    readProcMaps allocs s (mapsText ls) ≠ .error .assertion ∧
      ((∃ ok s' log, readProcMaps allocs s (mapsText ls) = .ok (ok, s', log) ∧
        s'.conf.proc.maps = fileMappings ls) ↔ AllSurvive allocs ls) := by
  obtain ⟨ok, s', log, more, hrun, hmaps, hiff⟩ := mapsLoop_run allocs s ls
  rw [readProcMaps, if_pos hempty, procLines_mapsText, hrun]
  rw [hempty, List.nil_append] at hmaps
  refine ⟨nofun, ?_⟩
  rw [← hiff, ← hmaps]
  constructor
  · rintro ⟨ok', t, log', heq, hfile⟩
    cases heq
    exact hfile
  · intro hfile
    exact ⟨ok, s', log, rfl, hfile⟩

theorem word_dev : Word isDelim (lit "08:02") := by
  have hall : (lit "08:02").all (fun c => !isDelim c) = true := by decide
  refine ⟨by decide, fun c hc => ?_⟩
  simpa using List.all_eq_true.mp hall c hc

def textArea (start : Nat) : Vma where
  start := start
  stop := start + 0x1000
  r := true
  w := false
  x := true
  shared := false
  offset := 0
  dev := lit "08:02"
  inode := 7
  blanks := 21
  path := lit "/a"

def textLine (start : Nat) (hlt : start < 2 ^ 64)
    (hshort : (textArea start).text.length + 1 < procSize) : MapsLine where
  toVma := textArea start
  start_lt := hlt
  dev_word := word_dev
  dev_nul := (by decide : 0 ∉ lit "08:02")
  blanks_pos := (by decide : 0 < 21)
  path_head := forall_mem_head_cons (by decide) _
  path_line := (by decide : ch '\n' ∉ lit "/a" ∧ 0 ∉ lit "/a")
  short := hshort

theorem readProcMaps_program :
    readProcMaps [true] ⟨{}, fun _ => 0⟩
        (mapsText [textLine 0x400000 (by decide) (by decide)]) ≠ .error .assertion ∧
      ((∃ ok s' log, readProcMaps [true] ⟨{}, fun _ => 0⟩
            (mapsText [textLine 0x400000 (by decide) (by decide)]) = .ok (ok, s', log) ∧
          s'.conf.proc.maps = fileMappings [textLine 0x400000 (by decide) (by decide)]) ↔
        AllSurvive [true] [textLine 0x400000 (by decide) (by decide)]) :=
  readProcMaps_iff [true] ⟨{}, fun _ => 0⟩ rfl [textLine 0x400000 (by decide) (by decide)]

/-- All the addresses of the upper half become the same one. -/
theorem not_readProcMaps_high :
    ¬∃ ok s' log, readProcMaps [true] ⟨{}, fun _ => 0⟩
          (mapsText [textLine (2 ^ 63) (by decide) (by decide)]) = .ok (ok, s', log) ∧
        s'.conf.proc.maps = fileMappings [textLine (2 ^ 63) (by decide) (by decide)] := by
  have hrun : ((readProcMaps [true] ⟨{}, fun _ => 0⟩
      (mapsText [textLine (2 ^ 63) (by decide) (by decide)])).toOption.map fun r =>
        r.2.1.conf.proc.maps) = some [(2 ^ 63 - 1, lit "/a")] := by
    decide
  intro ⟨ok, s', log, heq, hmaps⟩
  rw [heq] at hrun
  have hone : s'.conf.proc.maps = [(2 ^ 63 - 1, lit "/a")] := Option.some.inj hrun
  exact absurd (hone.symm.trans hmaps) (by decide)

end Crashinfo
