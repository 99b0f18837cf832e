import ApLabs.Foundation.Stdio

/-!
# The program cat2

This module transcribes `labs/mycat/cat2.c`.  The environment decides what each
`fopen` returns, what is read from standard input and how the device behind standard
output behaves.
-/

namespace ApLabs.Cat

open ApLabs.Foundation.CMemory
open ApLabs.Foundation.Stdio

/-- The argument of `fopen` is preceded by the number of earlier calls. -/
structure Env where
  stdin : List Read
  fopen : Nat → Bytes → Option (List Read)
  stdout : Device

structure Process where
  stdout : Output
  stderr : Bytes

def Process.start : Process := ⟨.fresh, []⟩

/-- `fprintf` to standard error, which is not buffered. -/
def Process.complain (process : Process) (message : Bytes) : Process :=
  { process with stderr := process.stderr ++ message }

/-- The loop ends at the first `EOF`, whatever `getc` means by it. -/
def filecopy (stdout : Device) (ifp : Input) (ofp : Output) : Output :=
  if (getc ifp).1 ≠ EOF then filecopy stdout (getc ifp).2 (ofp.putc stdout (getc ifp).1)
  else ofp
termination_by ifp.size
decreasing_by exact Input.getc_size ‹_›

/-- The text holds a prime, which is no ASCII character. -/
def cantOpen (prog name : Bytes) : Bytes :=
  prog ++ bytes ": can" ++ [0xE2, 0x80, 0xB2] ++ bytes "t open " ++ name ++ bytes "\n"

def errorWriting (prog : Bytes) : Bytes := prog ++ bytes ": error writing stdout\n"

/-- The loop over the arguments, with the status of its `return` if it is left there. -/
def copyArgs (env : Env) (prog : Bytes) : Nat → List Bytes → Process → Option Nat × Process
  | _, [], process => (none, process)
  | calls, name :: argv, process =>
      match env.fopen calls name with
      | none => (some 1, process.complain (cantOpen prog name))
      | some fp =>
          copyArgs env prog (calls + 1) argv
            { process with stdout := filecopy env.stdout ⟨[], fp⟩ process.stdout }

/-- `argv` holds the arguments behind the program's name. -/
def main (env : Env) (prog : Bytes) (argv : List Bytes) : Nat × Process :=
  let (returned, process) :=
    if argv = [] then
      (none, { Process.start with stdout := filecopy env.stdout ⟨[], env.stdin⟩ .fresh })
    else copyArgs env prog 0 argv .start
  match returned with
  | some status => (status, process)
  | none =>
      if process.stdout.error then (2, process.complain (errorWriting prog))
      else (0, process)

/-- At exit standard output is flushed, and the status stays what `main` returned. -/
def run (env : Env) (prog : Bytes) (argv : List Bytes) : Nat × Process :=
  let (status, process) := main env prog argv
  (status, { process with stdout := process.stdout.flush env.stdout.atExit })

end ApLabs.Cat
