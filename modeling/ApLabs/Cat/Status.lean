import ApLabs.Cat.Program
import Mathlib.Data.List.Basic

/-!
# What status 0 of cat2 means

The copy loop takes a failed read for the end of the file, and `main` looks at the
error indicator before the last flush.  So status 0 says that every file was opened
and that no flush made by `putc` failed, and nothing more.
-/

namespace ApLabs.Cat

open ApLabs.Foundation.CMemory
open ApLabs.Foundation.Stdio

/-! ## The files -/

/-- What `fopen` returns for each argument, after so many earlier calls. -/
def Env.opened (env : Env) : Nat → List Bytes → List (Option (List Read))
  | _, [] => []
  | calls, name :: argv => env.fopen calls name :: env.opened (calls + 1) argv

def Env.files (env : Env) (argv : List Bytes) : List (List Read) :=
  (env.opened 0 argv).filterMap id

/-- Every argument can be opened. -/
def Env.Opens (env : Env) (argv : List Bytes) : Prop := none ∉ env.opened 0 argv

instance (env : Env) (argv : List Bytes) : Decidable (env.Opens argv) :=
  inferInstanceAs (Decidable (¬ _))

/-- The complete contents of the files, in argument order. -/
def Env.whole (env : Env) (argv : List Bytes) : Bytes := (env.files argv).flatMap contents

/-- What can be read of them before a read fails. -/
def Env.readable (env : Env) (argv : List Bytes) : Bytes := (env.files argv).flatMap delivered

theorem readable_length_le (files : List (List Read)) :
    (files.flatMap delivered).length ≤ (files.flatMap contents).length := by
  induction files with
  | nil => exact Nat.le_refl _
  | cons reads files ih =>
      rw [List.flatMap_cons, List.flatMap_cons, List.length_append, List.length_append]
      exact Nat.add_le_add (delivered_part reads).length_le ih

/-- A read that fails too early loses bytes that no later file makes up for. -/
theorem readable_length_eq {files : List (List Read)}
    (same : (files.flatMap delivered).length = (files.flatMap contents).length) :
    ∀ reads ∈ files, ReadsThrough reads := by
  induction files with
  | nil => exact nofun
  | cons reads files ih =>
      rw [List.flatMap_cons, List.flatMap_cons, List.length_append, List.length_append] at same
      have first := (delivered_part reads).length_le
      have others := readable_length_le files
      rw [List.forall_mem_cons]
      constructor
      · exact delivered_eq_contents.mp ((delivered_part reads).eq_of_length (by omega))
      · exact ih (by omega)

/-- A part of what can be read is the whole only when nothing is missing. -/
theorem eq_whole_iff {env : Env} {argv : List Bytes} {received : Bytes}
    (part : received <+: env.readable argv) :
    received = env.whole argv ↔
      (∀ reads ∈ env.files argv, ReadsThrough reads) ∧ received = env.readable argv := by
  constructor
  · rintro rfl
    have upper := readable_length_le (env.files argv)
    have lower := part.length_le
    have same := Nat.le_antisymm upper lower
    exact ⟨readable_length_eq same, part.eq_of_length same.symm⟩
  · rintro ⟨through, rfl⟩
    exact List.flatMap_congr fun reads among => delivered_eq_contents.mpr (through reads among)

/-! ## Copying -/

variable {front : Bytes} {env : Env}

theorem filecopy_after {stdout : Device} (ifp : Input) {ofp : Output}
    (after : ofp.After stdout front) :
    (filecopy stdout ifp ofp).After stdout (front ++ ifp.delivered) := by
  induction ifp, ofp using filecopy.induct stdout generalizing front with
  | case1 ifp ofp more ih =>
      rw [filecopy, if_pos more]
      rcases ifp.getc_cases with ⟨ended, -⟩ | ⟨c, value, rest, -⟩
      · exact absurd ended more
      · have put := after.putc c
        rw [← value] at put
        have copied := ih put
        rw [List.append_assoc, List.singleton_append, ← rest] at copied
        exact copied
  | case2 ifp ofp ended =>
      rw [filecopy, if_neg ended]
      rcases ifp.getc_cases with ⟨-, nothing⟩ | ⟨c, value, -, -⟩
      · rw [nothing, List.append_nil]
        exact after
      · exact absurd (value.trans_ne (Input.byte_ne_eof c)) ended

/-- The loop over the arguments is left early when one of them cannot be opened. -/
theorem copyArgs_missing (prog : Bytes) {argv : List Bytes} {calls : Nat} (process : Process)
    (missing : none ∈ env.opened calls argv) :
    (copyArgs env prog calls argv process).1 = some 1 := by
  induction argv generalizing calls process with
  | nil => cases missing
  | cons name argv ih =>
      cases found : env.fopen calls name with
      | none => rw [copyArgs, found]
      | some fp =>
          rw [copyArgs, found]
          apply ih
          simpa [Env.opened, found] using missing

/-- Otherwise it copies what can be read of each file. -/
theorem copyArgs_after (prog : Bytes) {argv : List Bytes} {calls : Nat} (process : Process)
    (opens : none ∉ env.opened calls argv) (after : process.stdout.After env.stdout front) :
    (copyArgs env prog calls argv process).1 = none ∧
      (copyArgs env prog calls argv process).2.stdout.After env.stdout
        (front ++ ((env.opened calls argv).filterMap id).flatMap delivered) := by
  induction argv generalizing calls process front with
  | nil => exact ⟨rfl, by simpa [Env.opened, copyArgs] using after⟩
  | cons name argv ih =>
      cases found : env.fopen calls name with
      | none =>
          have missing : none ∈ env.opened calls (name :: argv) := by simp [Env.opened, found]
          exact absurd missing opens
      | some fp =>
          have others : none ∉ env.opened (calls + 1) argv := by
            simpa [Env.opened, found] using opens
          have copied := ih { process with
            stdout := filecopy env.stdout ⟨[], fp⟩ process.stdout } others
            (filecopy_after ⟨[], fp⟩ after)
          rw [copyArgs, found]
          simpa [Env.opened, found, Input.delivered] using copied

/-! ## The status -/

/-- Status 0 says that every file was opened and that no flush before the check
failed; then all that could be read has been copied. -/
theorem main_cases (env : Env) (prog : Bytes) {argv : List Bytes} (some_file : argv ≠ []) :
    (¬ env.Opens argv ∧ (main env prog argv).1 = 1) ∨
      env.Opens argv ∧ (main env prog argv).2.stdout.After env.stdout (env.readable argv) ∧
        (main env prog argv).1 = if (main env prog argv).2.stdout.error then 2 else 0 := by
  rw [main, if_neg some_file]
  by_cases opens : env.Opens argv
  · obtain ⟨returned, after⟩ := copyArgs_after prog .start opens (Output.after_fresh _)
    refine Or.inr ⟨opens, ?_⟩
    simp only [returned]
    split
    next failed => exact ⟨after, (if_pos failed).symm⟩
    next fine => exact ⟨after, rfl⟩
  · have missing := copyArgs_missing prog .start (not_not.mp opens)
    refine Or.inl ⟨opens, ?_⟩
    simp only [missing]

/-- A run that ends with status 0 has passed on the complete files exactly when the
failures are ones that `main` sees, or none of them loses a byte. -/
theorem run_complete_iff (env : Env) (prog : Bytes) (argv : List Bytes) (some_file : argv ≠ []) :
    ((run env prog argv).1 = 0 → (run env prog argv).2.stdout.received = env.whole argv) ↔
      (env.Opens argv → env.stdout.Accepts (env.readable argv).length →
        (∀ reads ∈ env.files argv, ReadsThrough reads) ∧
          Takes env.stdout.atExit (env.stdout.pending (env.readable argv).length)) := by
  have output : (run env prog argv).2.stdout =
      (main env prog argv).2.stdout.flush env.stdout.atExit := rfl
  have unchanged : (run env prog argv).1 = (main env prog argv).1 := rfl
  rw [unchanged, output]
  rcases main_cases env prog some_file with ⟨missing, status⟩ | ⟨opens, after, status⟩
  · rw [status]
    exact iff_of_true nofun fun opens => absurd opens missing
  · obtain ⟨part, all⟩ := after.flush_received env.stdout.atExit
    have zero : (main env prog argv).1 = 0 ↔ env.stdout.Accepts (env.readable argv).length := by
      rw [status, ← after.error]
      cases (main env prog argv).2.stdout.error <;> simp
    rw [imp_iff_right opens, zero]
    refine imp_congr_right fun accepts => ?_
    rw [← after.pending (after.error.mpr accepts), ← all]
    exact eq_whole_iff part

/-- Every argument names a file with these reads; standard output is flushed after every
second byte, and at exit. -/
def sameFile (reads : List Read) (atExit : Option Nat) : Env where
  stdin := []
  fopen _ _ := some reads
  stdout := ⟨fun put => put % 2 = 0, fun _ => none, atExit⟩

/-- A binary file whose last byte is left to the flush at exit. -/
def sound : Env := sameFile [.data 0xFF [0], .data (byte 'i') []] none

theorem sound_complete :
    (run sound (bytes "cat2") [bytes "a"]).2.stdout.received = [0xFF, 0, byte 'i'] := by
  apply (run_complete_iff sound (bytes "cat2") [bytes "a"] (by decide)).mpr
  · intro opens accepts
    refine ⟨?_, nofun⟩
    simp [sound, sameFile, Env.files, Env.opened, ReadsThrough]
  · simp [run, main, copyArgs, sound, sameFile, filecopy, getc, Output.putc]
    decide

/-- The disk is full when the last byte is flushed at exit. -/
def fullDisk : Env := sameFile [.data (byte 'h') [byte 'i', byte '!']] (some 0)

/-- The read behind the first byte fails. -/
def badSector : Env := sameFile [.data (byte 'h') [], .error, .data (byte 'i') []] none

theorem run_loses_output :
    (run fullDisk (bytes "cat2") [bytes "a"]).1 = 0 ∧
    (run fullDisk (bytes "cat2") [bytes "a"]).2.stdout.received = bytes "hi" ∧
    fullDisk.whole [bytes "a"] = bytes "hi!" ∧
    (run badSector (bytes "cat2") [bytes "a"]).1 = 0 ∧
    (run badSector (bytes "cat2") [bytes "a"]).2.stdout.received = bytes "h" ∧
    badSector.whole [bytes "a"] = bytes "hi" := by
  simp [run, main, copyArgs, fullDisk, badSector, sameFile, filecopy, getc, Output.putc]
  decide

end ApLabs.Cat
