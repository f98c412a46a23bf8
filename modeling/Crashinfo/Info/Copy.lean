import Crashinfo.Info.Dump

/-!
# What is copied from files

The command line is the arguments of the process, each with a NUL behind it.
`info_dump` reads it with one character of lookahead and puts a comma where a NUL
has something behind it, which comes to the same as taking it apart and quoting
the pieces, as long as every escape has room in the buffer (`cmdlineFile_iff`).

`proc_dump` copies a file line by line, as long as the lines have room in its
buffer (`dumpFile_copies_iff`).
-/

namespace Crashinfo

open Lines

/-! ### The command line -/

def fgetc : List Byte → Option Byte × List Byte
  | [] => (none, [])
  | c :: p => (some c, p)

theorem length_fgetc {p q : List Byte} {c : Byte} (h : fgetc p = (some c, q)) :
    q.length < p.length := by
  cases p with
  | nil => cases h
  | cons d p =>
    cases h
    exact Nat.lt_succ_self _

/-- `yaml_esc` with the buffer of `info_dump`. -/
def yamlEscIn (c : Byte) : Except Fault Str :=
  if FitsEscBuf (yamlEsc c) then .ok (yamlEsc c) else .error .outOfBounds

/-- A turn of the loop: what it prints, and the stream behind it. -/
def cmdlineTurn (c : Byte) (p : List Byte) : Except Fault (Str × List Byte) :=
  if c ≠ 0 then (yamlEscIn c).map fun s => (s, p)
  else
    match fgetc p with
    | (some c, p) => .ok (lit "\", \"", c :: p)
    | (none, p) => .ok ([], p)

theorem length_cmdlineTurn {c : Byte} {p q : List Byte} {s : Str}
    (h : cmdlineTurn c p = .ok (s, q)) : q.length = p.length := by
  rw [cmdlineTurn, yamlEscIn] at h
  split at h
  · split at h
    · cases h
      rfl
    · cases h
  · cases p with
    | nil | cons d p =>
      cases h
      rfl

def cmdlineLoop (c : Byte) (p : List Byte) : Except Fault Str :=
  match _hturn : cmdlineTurn c p with
  | .error e => .error e
  | .ok (s, p) =>
    match _hnext : fgetc p with
    | (some d, p) => (cmdlineLoop d p).map (s ++ ·)
    | (none, _) => .ok s
termination_by p.length
decreasing_by exact Nat.lt_of_lt_of_eq (length_fgetc _hnext) (length_cmdlineTurn _hturn)

def cmdlineFile (p : List Byte) : Except Fault Str :=
  match fgetc p with
  | (none, _) => .ok []
  | (some c, p) => (cmdlineLoop c p).map fun s => lit "\"" ++ s ++ lit "\""

/-- The arguments: what stands between the NULs, if the last NUL is left out. -/
def arguments (content : List Byte) : List Str :=
  (if content.getLast? = some 0 then content.dropLast else content).splitOn 0

/-- **What should be printed for a command line.** -/
def argumentsText (content : List Byte) : Str :=
  if content = [] then [] else List.intercalate (lit ", ") ((arguments content).map fputy)

section Turns

variable {c d : Byte} {p q : List Byte} {s : Str}

theorem cmdlineLoop_last (hturn : cmdlineTurn c p = .ok (s, [])) : cmdlineLoop c p = .ok s := by
  rw [cmdlineLoop]
  split
  · next e he => cases he.symm.trans hturn
  · next s' q' hq =>
    cases hq.symm.trans hturn
    rfl

theorem cmdlineLoop_more (hturn : cmdlineTurn c p = .ok (s, d :: q)) :
    cmdlineLoop c p = (cmdlineLoop d q).map (s ++ ·) := by
  rw [cmdlineLoop]
  split
  · next e he => cases he.symm.trans hturn
  · next s' q' hq =>
    cases hq.symm.trans hturn
    rfl

theorem cmdlineTurn_zero (d : Byte) (p : List Byte) :
    cmdlineTurn 0 (d :: p) = .ok (lit "\", \"", d :: p) := rfl

theorem cmdlineTurn_ascii (hc : c ≠ 0) (h : c.toNat < 128) (p : List Byte) :
    cmdlineTurn c p = .ok (yamlEsc c, p) := by
  rw [cmdlineTurn, if_pos hc, yamlEscIn, if_pos (fits_yamlEsc h)]
  rfl

theorem ascii_cons : Ascii (c :: s) ↔ c.toNat < 128 ∧ Ascii s :=
  List.forall_mem_cons

/-- The loop prints its text, if all of it has room in the buffer. -/
theorem cmdlineLoop_eq (h : Ascii (c :: p)) :
    cmdlineLoop c p = .ok (cmdlineText (c :: p)) := by
  induction p generalizing c with
  | nil =>
    by_cases hc : c = 0
    · subst hc
      exact cmdlineLoop_last rfl
    · rw [cmdlineLoop_last (cmdlineTurn_ascii hc (ascii_cons.mp h).1 []), cmdlineText, if_pos hc]
      exact congrArg _ (List.append_nil _).symm
  | cons d p ih =>
    have hrest := ih (ascii_cons.mp h).2
    rw [cmdlineText]
    by_cases hc : c = 0
    · subst hc
      rw [cmdlineLoop_more (cmdlineTurn_zero d p), hrest, if_neg (not_not.mpr rfl),
        if_neg (List.cons_ne_nil d p)]
      rfl
    · rw [cmdlineLoop_more (cmdlineTurn_ascii hc (ascii_cons.mp h).1 (d :: p)), hrest, if_pos hc]
      rfl

/-- It overruns the buffer at the first byte from `0x80` on. -/
theorem cmdlineLoop_overruns (h : ¬Ascii (c :: p)) :
    cmdlineLoop c p = .error .outOfBounds := by
  have hhigh : ∀ {c : Byte} {p : List Byte}, 128 ≤ c.toNat →
      cmdlineLoop c p = .error .outOfBounds := by
    intro c p hge
    have hturn : cmdlineTurn c p = .error .outOfBounds := by
      have hc : c ≠ 0 := by
        rintro rfl
        exact absurd hge (by decide)
      rw [cmdlineTurn, if_pos hc, yamlEscIn, if_neg (not_fits_yamlEsc hge)]
      rfl
    rw [cmdlineLoop]
    split
    · next e he => rw [Except.error.inj (he.symm.trans hturn)]
    · next s q hq => cases hq.symm.trans hturn
  induction p generalizing c with
  | nil =>
    exact hhigh (Nat.not_lt.mp fun hlt => h (ascii_cons.mpr ⟨hlt, fun _ hmem => by cases hmem⟩))
  | cons d p ih =>
    by_cases hlt : c.toNat < 128
    · have hrest := ih fun hp => h (ascii_cons.mpr ⟨hlt, hp⟩)
      by_cases hc : c = 0
      · subst hc
        rw [cmdlineLoop_more (cmdlineTurn_zero d p), hrest]
        rfl
      · rw [cmdlineLoop_more (cmdlineTurn_ascii hc hlt (d :: p)), hrest]
        rfl
    · exact hhigh (Nat.not_lt.mp hlt)

end Turns

/-- What is printed for a file is its text, if it is ASCII, and nothing else. -/
theorem cmdlineFile_eq_iff (content : List Byte) (text : Str) :
    cmdlineFile content = .ok text ↔ Ascii content ∧ text = cmdline (some content) := by
  cases content with
  | nil =>
    have hnil : Ascii [] := fun _ hmem => by cases hmem
    rw [and_iff_right hnil]
    exact ⟨fun h => (Except.ok.inj h).symm, fun h => congrArg Except.ok h.symm⟩
  | cons c s =>
    have hfile : cmdlineFile (c :: s) =
        (cmdlineLoop c s).map fun s => lit "\"" ++ s ++ lit "\"" := rfl
    rw [hfile]
    by_cases h : Ascii (c :: s)
    · rw [and_iff_right h, cmdlineLoop_eq h]
      exact ⟨fun h => (Except.ok.inj h).symm, fun h => congrArg Except.ok h.symm⟩
    · rw [cmdlineLoop_overruns h]
      exact ⟨fun he => (by cases he), fun hs => absurd hs.1 h⟩

theorem arguments_cons_cons (c d : Byte) (s : List Byte) :
    arguments (c :: d :: s) =
      if c = 0 then [] :: arguments (d :: s) else (arguments (d :: s)).modifyHead (c :: ·) := by
  have hsplit : ∀ t : List Byte, (c :: t).splitOn 0 =
      if c = 0 then [] :: t.splitOn 0 else (t.splitOn 0).modifyHead (c :: ·) := by
    intro t
    rw [List.splitOn_cons_eq_if_modifyHead]
    simp
  rw [arguments, arguments, List.getLast?_cons_cons]
  split
  · rw [List.dropLast_cons_cons, hsplit]
  · rw [hsplit]

theorem arguments_ne_nil (content : List Byte) : arguments content ≠ [] :=
  List.splitOn_ne_nil _ _

/-- **The lookahead takes the arguments apart.** -/
theorem cmdlineText_eq (c : Byte) (s : List Byte) :
    cmdlineText (c :: s) =
      List.intercalate (lit "\", \"") ((arguments (c :: s)).map fun a => a.flatMap yamlEsc) := by
  induction s generalizing c with
  | nil =>
    by_cases hc : c = 0
    · subst hc
      rfl
    · have harg : arguments [c] = [[c]] := by
        have hlast : [c].getLast? ≠ some 0 := fun h => hc (Option.some.inj h)
        rw [arguments, if_neg hlast]
        simp [List.splitOn_cons_eq_if_modifyHead, hc]
      rw [harg, cmdlineText, if_pos hc]
      simp [cmdlineText]
  | cons d s ih =>
    obtain ⟨a, as, has⟩ := List.exists_cons_of_ne_nil (arguments_ne_nil (d :: s))
    rw [cmdlineText, arguments_cons_cons, ih]
    by_cases hc : c = 0
    · rw [if_neg (not_not.mpr hc), if_neg (List.cons_ne_nil d s), if_pos hc, has]
      simp
    · rw [if_pos hc, if_neg hc, has]
      cases as with
      | nil => simp
      | cons b as => simp

/-- Quotes around each piece are quotes between them, and around all. -/
theorem intercalate_fputy {as : List Str} (h : as ≠ []) :
    List.intercalate (lit ", ") (as.map fputy) =
      lit "\"" ++ List.intercalate (lit "\", \"") (as.map fun a => a.flatMap yamlEsc) ++ lit "\"" := by
  induction as with
  | nil => exact absurd rfl h
  | cons a as ih =>
    have hquote : lit "\"" = [ch '"'] := rfl
    have hsep : lit "\", \"" = ch '"' :: (lit ", " ++ [ch '"']) := rfl
    cases as with
    | nil => simp [fputy, hquote]
    | cons b as =>
      rw [List.map_cons, List.map_cons, List.intercalate_cons_cons, ← List.map_cons,
        ih (List.cons_ne_nil b as)]
      simp only [List.map_cons, List.intercalate_cons_cons, fputy, hquote, hsep, List.cons_append,
        List.nil_append, List.append_assoc]

theorem cmdline_eq (content : List Byte) : cmdline (some content) = argumentsText content := by
  cases content with
  | nil => rfl
  | cons c s =>
    rw [argumentsText, if_neg (List.cons_ne_nil c s), intercalate_fputy (arguments_ne_nil _),
      ← cmdlineText_eq]
    rfl

/-- **The command line is printed argument by argument**, and stands in the document
like that, just if it is ASCII. -/
theorem cmdlineFile_iff (content : List Byte) :
    (cmdlineFile content = .ok (argumentsText content) ∧
      ∀ (conf : Conf) (f : Findings) (exe : Str), ∃ before after,
        headTexts conf { f with cmdline := some content } exe =
          before ++ lit "cmdline: [ " :: argumentsText content :: lit " ]\n" :: after) ↔
      Ascii content := by
  rw [cmdlineFile_eq_iff, and_iff_left (cmdline_eq content).symm, and_iff_left]
  intro conf f exe
  rw [← cmdline_eq]
  exact ⟨[lit "---\ndatetime: ", datetime f.startTm f.rest, lit "exe: ", fputy exe, lit "\n"],
    mappings conf.proc.maps, rfl⟩

/-- An argument of one byte, which is not ASCII: its escape has eleven bytes. -/
theorem not_cmdlineFile :
    cmdlineFile [0x80, 0] = .error .outOfBounds ∧ ¬∃ text, cmdlineFile [0x80, 0] = .ok text := by
  have hover : cmdlineFile [0x80, 0] = .error .outOfBounds := by
    have hascii : ¬Ascii [0x80, 0] := fun h => absurd (ascii_cons.mp h).1 (by decide)
    rw [cmdlineFile, fgetc]
    exact congrArg (Except.map _) (cmdlineLoop_overruns hascii)
  refine ⟨hover, ?_⟩
  rintro ⟨text, htext⟩
  cases hover.symm.trans htext

/-- Empty arguments at both ends and in between. -/
example : argumentsText [0, 97, 0, 0, 98, 0, 0] = lit "\"\", \"a\", \"\", \"b\", \"\"" := by decide

/-! ### Files of `/proc`, line by line -/

def copied (indent : Int) (line : List Byte) : Str :=
  List.replicate (indent + 4).toNat (ch ' ') ++ chompSpace line ++ lit "\n"

theorem spaces_eq {n : Int} (h0 : 0 ≤ n) (h : n ≤ 23) :
    spaces n = List.replicate n.toNat (ch ' ') := by
  have hlen : 24 - n.toNat - 1 = 23 - n.toNat := by omega
  have hrest : 23 - (23 - n.toNat) = n.toNat := by omega
  rw [spaces, if_neg (by omega), if_neg (by omega), SP, List.drop_replicate, hlen, hrest]

section Block

variable {indent : Int} {content : List Byte}

theorem blockLine_eq_copied (h0 : 0 ≤ indent) (h : indent + 4 ≤ 23) {line : List Byte}
    (hnul : 0 ∉ line) : blockLine indent (cstr line) = copied indent line := by
  rw [blockLine, copied, cstr_of_notMem hnul, spaces_eq (by omega) h]

theorem notMem_of_mem_lines (hnul : 0 ∉ content) {l : List Byte}
    (hl : l ∈ lines (ch '\n') content) : 0 ∉ l := by
  intro hmem
  have hflat : (lines (ch '\n') content).flatten = content := flatten_lines content
  rw [← hflat] at hnul
  exact hnul (List.mem_flatten_of_mem hl hmem)

theorem blockLines_eq_iff (h0 : 0 ≤ indent) (h : indent + 4 ≤ 23) (hnul : 0 ∉ content) :
    blockLines indent content = (lines (ch '\n') content).map (copied indent) ↔
      ∀ l ∈ lines (ch '\n') content, l.length < lineSize := by
  have hle := Nat.le_refl content.length
  rw [blockLines]
  constructor
  · intro heq l hl
    by_contra hlong
    have hmore := length_lines_lt_fgetsAll hle hl (Nat.not_lt.mp hlong)
    have hlen := congrArg List.length heq
    rw [List.length_map, List.length_map] at hlen
    omega
  · intro hroom
    rw [fgetsAll_eq_lines hle hroom, List.map_map]
    apply List.map_congr_left
    intro l hl
    exact blockLine_eq_copied h0 h (notMem_of_mem_lines hnul hl)

theorem blockLines_ne {line : List Byte} (hnl : ch '\n' ∉ line)
    (hlong : lineSize - 1 ≤ line.length) :
    blockLines indent (line ++ [ch '\n']) ≠
      (lines (ch '\n') (line ++ [ch '\n'])).map (copied indent) := by
  intro heq
  have hlines : lines (ch '\n') (line ++ [ch '\n']) = [line ++ [ch '\n']] :=
    lines_append_cons hnl []
  have hmem : line ++ [ch '\n'] ∈ lines (ch '\n') (line ++ [ch '\n']) := by
    rw [hlines]
    exact List.mem_singleton_self _
  have hroom : lineSize ≤ (line ++ [ch '\n']).length := by
    rw [List.length_append, List.length_singleton]
    omega
  have hmore := length_lines_lt_fgetsAll (Nat.le_refl _) hmem hroom
  have hlen := congrArg List.length heq
  rw [blockLines, List.length_map, List.length_map] at hlen
  omega

/-- What is dumped of a file is the same just if its lines are. -/
theorem dumpFile_eq_iff {dir : Dir} {name : Str} (hdir : dir name = .ok content)
    (texts : List Str) :
    dumpFile dir indent name =
        puts ([spaces (indent + 2), fputy name] ++ lit ": |\n" :: texts) ↔
      blockLines indent content = texts := by
  have hinj : Function.Injective Event.put := fun a b hab => Event.put.inj hab
  rw [dumpFile, hdir]
  simp only [puts, ← List.map_append]
  rw [(List.map_injective_iff.mpr hinj).eq_iff, List.append_cancel_left_eq, List.cons.injEq,
    and_iff_right rfl]

/-- **`proc_dump` copies a file line by line** just if every line has room in its
buffer. -/
theorem dumpFile_copies_iff {dir : Dir} {name : Str} (h0 : 0 ≤ indent) (h : indent + 4 ≤ 23)
    (hnul : 0 ∉ content) (hdir : dir name = .ok content) :
    dumpFile dir indent name =
        puts ([spaces (indent + 2), fputy name] ++ lit ": |\n" ::
          (lines (ch '\n') content).map (copied indent)) ↔
      ∀ l ∈ lines (ch '\n') content, l.length < lineSize :=
  (dumpFile_eq_iff hdir _).trans (blockLines_eq_iff h0 h hnul)

/-- The mount points of a task, with tabs at their ends. -/
theorem dumpFile_copies_mounts :
    let content := lit "proc /proc\t\n\n  tmpfs /tmp"
    let dir : Dir := fun _ => .ok content
    dumpFile dir 4 (lit "mounts") =
      puts ([spaces (4 + 2), fputy (lit "mounts")] ++ lit ": |\n" ::
        (lines (ch '\n') content).map (copied 4)) := by
  intro content dir
  have hroom : ∀ l ∈ lines (ch '\n') content, l.length < lineSize := by decide
  have hindent : (0 : Int) ≤ 4 ∧ (4 : Int) + 4 ≤ 23 := by decide
  have hdir : dir (lit "mounts") = .ok content := rfl
  exact (dumpFile_copies_iff hindent.1 hindent.2 (by decide) hdir).mpr hroom

/-- A line with as many characters as the buffer has makes two. -/
theorem not_dumpFile_copies :
    let content := List.replicate 4096 (ch 'a') ++ [ch '\n']
    let dir : Dir := fun _ => .ok content
    dumpFile dir 0 (lit "cmdline") ≠
      puts ([spaces (0 + 2), fputy (lit "cmdline")] ++ lit ": |\n" ::
        (lines (ch '\n') content).map (copied 0)) := by
  intro content dir heq
  have hdir : dir (lit "cmdline") = .ok content := rfl
  have hnl : ch '\n' ∉ List.replicate 4096 (ch 'a') :=
    fun h => absurd (List.eq_of_mem_replicate h) (by decide)
  have hlong : lineSize - 1 ≤ (List.replicate 4096 (ch 'a')).length := by
    rw [List.length_replicate]
    decide
  exact blockLines_ne hnl hlong ((dumpFile_eq_iff hdir _).mp heq)

end Block

end Crashinfo
