import Forge.Engine.Runner
import Forge.Python.Utf8Lines

/-! # The output of a step

The standard output of a step reaches `_exec_step` in chunks, and the cuts between them are Docker's. Each chunk
is decoded and cut into lines by itself.
-/
namespace Forge.Engine.DockerJobRunner
open Forge.Python
set_option autoImplicit false

variable {deadline : ℚ} {output : List OutputChunk}

def stdoutChunks (output : List OutputChunk) : List (List UInt8) :=
  output.map fun chunk => chunk.stdout.getD []

/-- The bytes that the step has written, without the cuts. -/
def stdoutBytes (output : List OutputChunk) : List UInt8 := (stdoutChunks output).flatten

/-- The chunks are read in time, and none comes from the other stream. -/
structure StdoutInTime (deadline : ℚ) (output : List OutputChunk) : Prop where
  clock : ∀ chunk ∈ output, chunk.clock ≤ deadline
  stderr : ∀ chunk ∈ output, chunk.stderr = none

theorem entry_injective (stepName : String) : Function.Injective (entry stepName) := by
  intro line line' hSame
  have hChars := congrArg String.toList hSame
  simp only [entry, String.toList_append] at hChars
  exact String.toList_injective (List.append_cancel_left hChars)

/-! ## Chunks and their lines -/

/-- The log lines for these lines of text. -/
def entries (stepName : String) (lines : List (List Char)) : List String :=
  lines.map fun line => entry stepName (String.ofList line)

theorem entries_injective (stepName : String) : Function.Injective (entries stepName) := by
  apply List.map_injective_iff.mpr
  intro line line' hSame
  exact String.ofList_injective (entry_injective stepName hSame)

theorem chunkEntries_eq (stepName : String) (chunk : List UInt8) :
    chunkEntries stepName chunk = entries stepName (lineBodies (decodeReplace chunk)) := by
  unfold chunkEntries
  split
  · rename_i hEmpty
    rw [hEmpty]
    rfl
  · rw [splitLines, String.toList_ofList, List.map_map]
    rfl

theorem entries_chunkLines (stepName : String) (chunks : List (List UInt8)) :
    chunks.flatMap (chunkEntries stepName) = entries stepName (chunkLines chunks) := by
  rw [entries, chunkLines, List.map_flatMap]
  apply List.flatMap_congr
  intro chunk _
  exact chunkEntries_eq stepName chunk

theorem readOutput_stdout (stepName : String) (h : StdoutInTime deadline output) :
    readOutput deadline stepName output = (entries stepName (chunkLines (stdoutChunks output)), false) := by
  rw [← entries_chunkLines]
  induction output with
  | nil => rfl
  | cons chunk rest ih =>
    obtain ⟨hClock, hLater⟩ := List.forall_mem_cons.mp h.clock
    obtain ⟨hStderr, hOthers⟩ := List.forall_mem_cons.mp h.stderr
    have hChunk : (chunk.stdout.toList ++ chunk.stderr.toList).flatMap (chunkEntries stepName) =
        chunkEntries stepName (chunk.stdout.getD []) := by
      rw [hStderr]
      cases chunk.stdout with
      | none => rfl
      | some bytes => exact List.flatMap_singleton _ _
    simp only [readOutput, if_neg (not_lt.mpr hClock), ih ⟨hLater, hOthers⟩, hChunk]
    rfl

/-! ## Two ways of cutting -/

/-- The log lines for the whole output. -/
def wholeEntries (stepName : String) (bytes : List UInt8) : List String :=
  (splitLines (String.ofList (decodeReplace bytes))).map (entry stepName)

/-- What follows the output in the log. -/
def oomEntries (stepName : String) (e : StepExec) : List String :=
  if e.oomKilled then [entry stepName "OOM killed — container exceeded memory limit"] else []

/-- The log shows the lines of the whole output. -/
def ShowsLines (deadline : ℚ) (stepName : String) (e : StepExec) : Prop :=
  (execStep deadline stepName e).logged = wholeEntries stepName (stdoutBytes e.output) ++ oomEntries stepName e

theorem showsLines_iff (stepName : String) (e : StepExec) (h : StdoutInTime deadline e.output) :
    ShowsLines deadline stepName e ↔ CutsAtLineEnds (stdoutChunks e.output) := by
  have hLogged : (execStep deadline stepName e).logged =
      entries stepName (chunkLines (stdoutChunks e.output)) ++ oomEntries stepName e := by
    simp only [execStep, readOutput_stdout stepName h, Bool.false_eq_true, if_false, oomEntries]
  have hWhole : wholeEntries stepName (stdoutBytes e.output) =
      entries stepName (lineBodies (decodeReplace (stdoutChunks e.output).flatten)) := by
    rw [wholeEntries, splitLines, String.toList_ofList, List.map_map]
    rfl
  rw [ShowsLines, hLogged, hWhole, List.append_left_inj, (entries_injective stepName).eq_iff]
  exact chunkLines_eq_iff _

/-- Two ways of cutting the same bytes give the same log lines, those of the whole output, if and only if both
cut only where lines end. -/
theorem execStep_sameLines_iff {output output' : List OutputChunk} (stepName : String) (e : StepExec)
    (h : StdoutInTime deadline output) (h' : StdoutInTime deadline output')
    (hBytes : stdoutBytes output = stdoutBytes output') :
    ((execStep deadline stepName { e with output }).logged =
          (execStep deadline stepName { e with output := output' }).logged ∧
        (execStep deadline stepName { e with output }).logged =
          wholeEntries stepName (stdoutBytes output) ++ oomEntries stepName e) ↔
      CutsAtLineEnds (stdoutChunks output) ∧ CutsAtLineEnds (stdoutChunks output') := by
  have hFirst := showsLines_iff stepName { e with output } h
  have hSecond := showsLines_iff stepName { e with output := output' } h'
  rw [← hFirst, ← hSecond, ShowsLines, ShowsLines]
  dsimp only
  rw [← hBytes]
  constructor
  · rintro ⟨hSame, hShows⟩
    exact ⟨hShows, hSame.symm.trans hShows⟩
  · rintro ⟨hShows, hShows'⟩
    exact ⟨hShows.trans hShows'.symm, hShows⟩

/-- The step of the examples, whose output is cut so. -/
def cutExec (chunks : List (List UInt8)) : StepExec :=
  { clock := 101, output := chunks.map fun bytes => { clock := 102, stdout := some bytes }, completedAt := 104,
    exitCode := some 0 }

theorem stdoutInTime_cutExec (chunks : List (List UInt8)) : StdoutInTime 160 (cutExec chunks).output where
  clock chunk hMem := by
    obtain ⟨bytes, -, rfl⟩ := List.mem_map.mp hMem
    norm_num
  stderr chunk hMem := by
    obtain ⟨bytes, -, rfl⟩ := List.mem_map.mp hMem
    rfl

theorem execStep_sameLines_cuts :
    (execStep 160 "compile" (cutExec [[0x61, 0x0D, 0x0A], [0xC3, 0xA9, 0x0A]])).logged =
      (execStep 160 "compile" (cutExec [[0x61, 0x0D, 0x0A, 0xC3, 0xA9, 0x0A]])).logged := by
  have hIff := execStep_sameLines_iff "compile" (cutExec [])
    (stdoutInTime_cutExec [[0x61, 0x0D, 0x0A], [0xC3, 0xA9, 0x0A]])
    (stdoutInTime_cutExec [[0x61, 0x0D, 0x0A, 0xC3, 0xA9, 0x0A]]) rfl
  refine (hIff.mpr ⟨⟨.inr (.inr ⟨⟨[0x0A], ?_, ?_⟩, ?_⟩), .inr (.inl rfl), trivial⟩, .inr (.inl rfl), trivial⟩).1
  · decide
  · decide
  · decide

/-- A cut inside a line, and one inside a character of two bytes. -/
theorem execStep_not_sameLines :
    stdoutBytes (cutExec [[0x61], [0xC3, 0xA9, 0x0A]]).output = [0x61, 0xC3, 0xA9, 0x0A] ∧
      stdoutBytes (cutExec [[0x61, 0xC3], [0xA9, 0x0A]]).output = [0x61, 0xC3, 0xA9, 0x0A] ∧
      wholeEntries "compile" [0x61, 0xC3, 0xA9, 0x0A] = ["[compile] aé"] ∧
      (execStep 160 "compile" (cutExec [[0x61], [0xC3, 0xA9, 0x0A]])).logged = ["[compile] a", "[compile] é"] ∧
      (execStep 160 "compile" (cutExec [[0x61, 0xC3], [0xA9, 0x0A]])).logged =
        ["[compile] a\uFFFD", "[compile] \uFFFD"] ∧
      (execStep 160 "compile" (cutExec [[0x61], [0xC3, 0xA9, 0x0A]])).logged ≠
        (execStep 160 "compile" (cutExec [[0x61, 0xC3], [0xA9, 0x0A]])).logged := by
  decide +kernel

end Forge.Engine.DockerJobRunner
