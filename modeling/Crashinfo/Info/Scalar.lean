import Crashinfo.Info.Copy
import Crashinfo.Lib.Block

/-!
# Files as literal scalars

`proc_dump` prints `: |` and the lines of a file below it, indented by two columns
more than the name of the file.  To a reader of YAML this is a literal scalar that
does not say how far it is indented, so its first line says so.

The lines are read back as they are in the file, but for white space at their ends
and blank lines at the end, just if the first line with something in it does not
begin with a space (`dumpFile_scalar_iff`).
-/

namespace Crashinfo

open Lines

def docLines (s : Str) : List Str := (lines (ch '\n') s).map fun l => l.takeWhile (· ≠ ch '\n')

/-- What a literal scalar below a line that is indented by `n` is read as, and the
lines behind it. -/
def readScalar (n : Nat) (doc : Str) : Option (List Str × List Str) :=
  Block.read (ch ' ') n (docLines doc)

/-- The lines of a file without the white space at their ends. -/
def chompedLines (content : List Byte) : List Str := (lines (ch '\n') content).map chompSpace

def Printable (c : Byte) : Prop := c = ch '\t' ∨ 0x20 ≤ c ∧ c ≠ 0x7f

instance : DecidablePred Printable := fun c =>
  inferInstanceAs (Decidable (c = ch '\t' ∨ 0x20 ≤ c ∧ c ≠ 0x7f))

section Scalar

variable {indent : Int} {content : List Byte} {rest : Str}

theorem notMem_chompSpace {l : Str} (hl : l ∈ lines (ch '\n') content) :
    ch '\n' ∉ chompSpace l := by
  obtain ⟨a, ha, rfl | rfl⟩ := exists_of_mem_lines hl
  · have hend : chompSpace (a ++ [ch '\n']) = chompSpace a := by
      rw [chompSpace_eq, chompSpace_eq]
      exact Token.chomp_append_blank (List.forall_mem_singleton.mpr (by decide)) a
    rw [hend]
    exact fun h => ha ((List.rdropWhile_prefix _ _).subset h)
  · exact fun h => ha ((List.rdropWhile_prefix _ _).subset h)

/-- A line is empty or ends with something else than white space. -/
theorem chompedLines_shape :
    ∀ l ∈ chompedLines content, l = [] ∨ ¬Block.Blank (ch ' ') l := by
  intro l hl
  obtain ⟨l', -, rfl⟩ := List.mem_map.mp hl
  rw [chompSpace_eq]
  by_cases hne : Token.chomp isDelim l' = []
  · exact Or.inl hne
  · refine Or.inr fun hblank => ?_
    have hlast : ¬isDelim ((Token.chomp isDelim l').getLast hne) = true :=
      List.rdropWhile_last_not _ _ hne
    rw [hblank _ (List.getLast_mem hne)] at hlast
    exact hlast (by decide)

theorem docLines_append_cons {l : Str} (hl : ch '\n' ∉ l) (s : Str) :
    docLines (l ++ ch '\n' :: s) = l :: docLines s := by
  have hall : ∀ c ∈ l, decide (c ≠ ch '\n') = true := by
    intro c hc
    refine decide_eq_true ?_
    rintro rfl
    exact hl hc
  rw [docLines, lines_append_cons hl, List.map_cons, List.takeWhile_append_of_pos hall,
    List.takeWhile_cons_of_neg (by decide), List.append_nil, docLines]

/-- What is printed for a file is its lines, indented. -/
theorem docLines_block {ls : List Str} (hls : ∀ l ∈ ls, ch '\n' ∉ l) (k : Nat) (rest : Str) :
    docLines ((ls.map fun l => List.replicate k (ch ' ') ++ l ++ lit "\n").flatten ++ rest) =
      Block.emit (ch ' ') k ls ++ docLines rest := by
  induction ls with
  | nil => rfl
  | cons l ls ih =>
    obtain ⟨hl, hls⟩ := List.forall_mem_cons.mp hls
    have hnl : ch '\n' ∉ List.replicate k (ch ' ') ++ l := by
      intro h
      rcases List.mem_append.mp h with h | h
      · exact absurd (List.eq_of_mem_replicate h) (by decide)
      · exact hl h
    have hend : lit "\n" = [ch '\n'] := rfl
    rw [List.map_cons, List.flatten_cons, hend, List.append_assoc, List.append_assoc,
      List.singleton_append, docLines_append_cons hnl, ← hend, ih hls]
    rfl

def firstText (content : List Byte) : Option Str :=
  Block.firstLine (ch ' ') (chompedLines content)

theorem indentation_eq_zero_iff {l : Str} :
    Block.indentation (ch ' ') l = 0 ↔ l.head? ≠ some (ch ' ') := by
  cases l with
  | nil => exact iff_of_true rfl nofun
  | cons c l =>
    rw [Block.indentation, List.length_eq_zero_iff, List.takeWhile_eq_nil_iff]
    simp

/-- **A file is read back from the document** just if its first line with something in
it does not begin with a space. -/
theorem dumpFile_scalar_iff {dir : Dir} {name : Str} (h0 : 0 ≤ indent) (h : indent + 4 ≤ 23)
    (hprint : ∀ c ∈ content, c = ch '\n' ∨ Printable c)
    (hroom : ∀ l ∈ lines (ch '\n') content, l.length < lineSize)
    (hdir : dir name = .ok content)
    (hrest : Block.Outer (ch ' ') (indent + 2).toNat (docLines rest)) :
    (∃ block, dumpFile dir indent name =
        puts ([spaces (indent + 2), fputy name] ++ lit ": |\n" :: block) ∧
      readScalar (indent + 2).toNat (block.flatten ++ rest) =
        some (Block.trimEnd (chompedLines content), docLines rest)) ↔
      ∀ l ∈ firstText content, l.head? ≠ some (ch ' ') := by
  have hnul : 0 ∉ content := fun hmem => absurd (hprint 0 hmem) (by decide)
  have hblock : blockLines indent content =
      (chompedLines content).map fun l =>
        List.replicate (indent + 4).toNat (ch ' ') ++ l ++ lit "\n" := by
    rw [(blockLines_eq_iff h0 h hnul).mpr hroom, chompedLines, List.map_map]
    rfl
  have hnl : ∀ l ∈ chompedLines content, ch '\n' ∉ l := by
    intro l hl
    obtain ⟨l', hl', rfl⟩ := List.mem_map.mp hl
    exact notMem_chompSpace hl'
  have hread : readScalar (indent + 2).toNat ((blockLines indent content).flatten ++ rest) =
      some (Block.trimEnd (chompedLines content), docLines rest) ↔
        ∀ l ∈ firstText content, l.head? ≠ some (ch ' ') := by
    have hn : (indent + 2).toNat < (indent + 4).toNat := by omega
    rw [readScalar, hblock, docLines_block hnl, Block.read_emit_iff hn chompedLines_shape hrest]
    exact forall₂_congr fun l _ => indentation_eq_zero_iff
  rw [← hread]
  constructor
  · rintro ⟨block, heq, hblock⟩
    rwa [(dumpFile_eq_iff hdir block).mp heq]
  · exact fun hread => ⟨_, (dumpFile_eq_iff hdir _).mpr rfl, hread⟩

theorem dumpFile_scalar_mounts :
    let content := lit "\n/dev/sda1 / ext4\n  none\t\n\n"
    let dir : Dir := fun _ => .ok content
    let rest := lit "      \"limits\": ~\n"
    (∃ block, dumpFile dir 4 (lit "mounts") =
        puts ([spaces (4 + 2), fputy (lit "mounts")] ++ lit ": |\n" :: block) ∧
      readScalar ((4 : Int) + 2).toNat (block.flatten ++ rest) =
        some (Block.trimEnd (chompedLines content), docLines rest)) ↔
      ∀ l ∈ firstText content, l.head? ≠ some (ch ' ') := by
  intro content dir rest
  have hprint : content.all (fun c => decide (c = ch '\n' ∨ Printable c)) = true := by decide
  have hroom : (lines (ch '\n') content).all (fun l => decide (l.length < lineSize)) = true := by
    decide
  have hrest : Block.Outer (ch ' ') ((4 : Int) + 2).toNat (docLines rest) := by decide
  exact dumpFile_scalar_iff (by decide) (by decide)
    (fun c hc => of_decide_eq_true (List.all_eq_true.mp hprint c hc))
    (fun l hl => of_decide_eq_true (List.all_eq_true.mp hroom l hl)) rfl hrest

/-- The table of the sockets begins with spaces, so it is taken to be indented further:
its lines lose these spaces. -/
theorem not_dumpFile_scalar :
    let content := lit "  sl  local_address\n   0: 0100007F:0035\n"
    let dir : Dir := fun _ => .ok content
    ∃ block, dumpFile dir 0 (lit "net/tcp") =
        puts ([spaces (0 + 2), fputy (lit "net/tcp")] ++ lit ": |\n" :: block) ∧
      readScalar ((0 : Int) + 2).toNat (block.flatten ++ []) =
        some ([lit "sl  local_address", lit " 0: 0100007F:0035"], []) ∧
      readScalar ((0 : Int) + 2).toNat (block.flatten ++ []) ≠
        some (Block.trimEnd (chompedLines content), docLines []) := by
  intro content dir
  refine ⟨blockLines 0 content, rfl, ?_, ?_⟩
  · decide
  · decide

end Scalar

end Crashinfo
