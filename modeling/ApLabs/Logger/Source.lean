import ApLabs.Foundation.Printf

/-!
# The advanced logger, function by function

This module transcribes `labs/advanced-logger/logger.c`.  The world of a call is
the global `isLog` together with everything the process has handed to stdio and
syslog so far, in order.  A call also meets a frame that it does not control:
the block `malloc` returns, with its old contents, and the old contents of the
stack slot of `done`.

The conversions of the printf family are libc's.  The `Libc` record names what
is assumed of them: each specification prints something from its own arguments,
and an unadorned `%s` prints the bytes of its string.
-/

namespace ApLabs.Logger

open ApLabs.Foundation.CMemory
open ApLabs.Foundation.Printf

/-! ## The C library -/

structure Libc where
  /-- The promoted types a variadic argument can have. -/
  Arg : Type
  str : CString → Arg
  convert : Spec → List Arg → Option Bytes
  convert_str : ∀ text, convert ⟨[], 0, byte 's'⟩ [str text] = some text.bytes
  /-- What `vfprintf` returns after printing these bytes. -/
  result : Bytes → Int

inductive Priority where
  | LOG_CRIT
  | LOG_ERR
  | LOG_WARNING
  | LOG_INFO
  deriving DecidableEq, Repr

/-- One call into stdio or syslog. -/
inductive Io (Arg : Type) where
  | printf (out : Bytes)
  | vfprintf (printed : Rendering Arg)
  | openlog (ident : CString) (option facility : Nat)
  | vsyslog (priority : Priority) (logged : Rendering Arg)
  | closelog

/-- An `int` object: its value, and whether the program assigned it. -/
structure Var where
  value : Int
  assigned : Bool
  deriving DecidableEq, Repr

def Var.indeterminate (garbage : Int) : Var := ⟨garbage, false⟩

def Var.set (value : Int) : Var := ⟨value, true⟩

/-- What a call finds on the heap and on the stack. -/
structure Frame where
  malloc : Nat → Bytes
  size_le : ∀ size, size ≤ (malloc size).length
  done : Int

/-- `returned` lists the values that the calls of the program have returned. -/
structure World (libc : Libc) where
  isLog : Int
  trace : List (Io libc.Arg)
  returned : List Var

variable {libc : Libc}

namespace World

def initial : World libc := ⟨0, [], []⟩

def emit (world : World libc) (io : Io libc.Arg) : World libc :=
  { world with trace := world.trace ++ [io] }

def ret (world : World libc) (value : Var) : World libc :=
  { world with returned := world.returned ++ [value] }

end World

def vfprintf (world : World libc) (s : Bytes) (arg : List libc.Arg) :
    Checked (Int × World libc) := do
  let format ← readString s
  match vprintf libc.convert format arg with
  | some printed => .ok (libc.result printed.out, world.emit (.vfprintf printed))
  | none => .error .format

def vsyslog (world : World libc) (priority : Priority) (format : CString)
    (arg : List libc.Arg) : Checked (World libc) :=
  match vprintf libc.convert format.bytes arg with
  | some logged => .ok (world.emit (.vsyslog priority logged))
  | none => .error .format

/-! ## Constants -/

def INFO : CString := ⟨bytes "INFO", by decide⟩
def WARN : CString := ⟨bytes "WARN", by decide⟩
def ERROR : CString := ⟨bytes "ERROR", by decide⟩
def PANIC : CString := ⟨bytes "PANIC", by decide⟩
def LOG_FILE : CString := ⟨bytes "loggerLogs", by decide⟩

def LOG_PID : Nat := 0x01
def LOG_USER : Nat := 1 <<< 3

def RESET : Nat := 0

def RED : Nat := 1
def YELLOW : Nat := 3
def BLUE : Nat := 4
def MAGENTA : Nat := 5

/-! ## Formatting -/

/-- The second argument of every call is a string; `ls` and `lf` are `int`. -/
def formatString (s : Bytes) (format : CString) (ls : Int) (sf : CString) (lf : Int) :
    Checked Bytes := do
  let s ← forLoop 0 (← int (lf - 1)) (fun i s => do store s i (← load sf.memory i)) s
  let s ← store s (← int (lf - 2)) (byte ':')
  let s ← store s (← int (lf - 1)) (byte ' ')
  let s ← forLoop lf (← int (ls + lf))
    (fun i s => do store s i (← load format.memory (← int (i - lf)))) s
  let s ← store s (← int (ls + lf)) (byte '\n')
  store s (← int ((← int (ls + lf)) + 1)) 0

/-- The decimal digits that `%d` prints for a nonnegative number. -/
def decimal (number : Nat) : Bytes := (Nat.toDigits 10 number).map byte

/-- `sprintf` into an array of `size` bytes, terminator included. -/
def sprintf (size : Nat) (out : Bytes) : Checked Bytes :=
  if out.length < size then .ok out else .error .bounds

def setTerminalColor (world : World libc) (attr t : Nat) : Checked (World libc) := do
  let command ← sprintf 13
    (0x1B :: bytes "[" ++ decimal attr ++ bytes ";" ++ decimal (t + 30) ++ bytes ";1m")
  .ok (world.emit (.printf command))

def resetTerminalColor (world : World libc) : Checked (World libc) := do
  let command ← sprintf 13 (0x1B :: bytes "[" ++ decimal RESET ++ bytes ";0;0m")
  .ok (world.emit (.printf command))

/-! ## The four levels -/

def infof (frame : Frame) (world : World libc) (format : CString) (arg : List libc.Arg) :
    Checked (World libc) := do
  let lInfo := strlen INFO + 2
  let l := strlen format
  let s := frame.malloc (l + 2 + lInfo)
  let s ← formatString s format (toInt l) INFO (toInt lInfo)
  let done := Var.indeterminate frame.done
  if world.isLog ≠ 0 then
    let world := world.emit (.printf (bytes "Writting to syslog INFO...\n"))
    let world := world.emit (.openlog LOG_FILE LOG_PID LOG_USER)
    let world ← vsyslog world .LOG_INFO format arg
    let world := world.emit .closelog
    .ok (world.ret done)
  else
    let world ← setTerminalColor world RESET BLUE
    let (done, world) ← vfprintf world s arg
    let world ← resetTerminalColor world
    .ok (world.ret (.set done))

def warnf (frame : Frame) (world : World libc) (format : CString) (arg : List libc.Arg) :
    Checked (World libc) := do
  let lWarn := strlen WARN + 2
  let l := strlen format
  let s := frame.malloc (l + 1 + lWarn)
  let s ← formatString s format (toInt l) WARN (toInt lWarn)
  let done := Var.set 0
  if world.isLog ≠ 0 then
    let world := world.emit (.printf (bytes "Writting to syslog WARN...\n"))
    let world := world.emit (.openlog LOG_FILE LOG_PID LOG_USER)
    let world ← vsyslog world .LOG_WARNING format arg
    let world := world.emit .closelog
    .ok (world.ret done)
  else
    let world ← setTerminalColor world RESET YELLOW
    let (done, world) ← vfprintf world s arg
    let world ← resetTerminalColor world
    .ok (world.ret (.set done))

def errorf (frame : Frame) (world : World libc) (format : CString) (arg : List libc.Arg) :
    Checked (World libc) := do
  let lInfo := strlen ERROR + 2
  let l := strlen format
  let s := frame.malloc (l + 1 + lInfo)
  let s ← formatString s format (toInt l) ERROR (toInt lInfo)
  let done := Var.indeterminate frame.done
  if world.isLog ≠ 0 then
    let world := world.emit (.printf (bytes "Writting to syslog ERROR...\n"))
    let world := world.emit (.openlog LOG_FILE LOG_PID LOG_USER)
    let world ← vsyslog world .LOG_ERR format arg
    let world := world.emit .closelog
    .ok (world.ret done)
  else
    let world ← setTerminalColor world RESET RED
    let (done, world) ← vfprintf world s arg
    let world ← resetTerminalColor world
    .ok (world.ret (.set done))

def panicf (frame : Frame) (world : World libc) (format : CString) (arg : List libc.Arg) :
    Checked (World libc) := do
  let lInfo := strlen PANIC + 2
  let l := strlen format
  let s := frame.malloc (l + 1 + lInfo)
  let s ← formatString s format (toInt l) PANIC (toInt lInfo)
  let done := Var.indeterminate frame.done
  if world.isLog ≠ 0 then
    let world := world.emit (.printf (bytes "Writting to syslog PANIC...\n"))
    let world := world.emit (.openlog LOG_FILE LOG_PID LOG_USER)
    let world ← vsyslog world .LOG_CRIT format arg
    let world := world.emit .closelog
    .ok (world.ret done)
  else
    let world ← setTerminalColor world RESET MAGENTA
    let (done, world) ← vfprintf world s arg
    let world ← resetTerminalColor world
    .ok (world.ret (.set done))

/-! ## Selecting the sink -/

def NOT_VALID : CString := ⟨bytes "Not a valid argument, got '%s'", by decide⟩

def initLogger (frame : Frame) (world : World libc) (logType : CString) :
    Checked (World libc) := do
  let world ←
    if logType.bytes = bytes "syslog" then
      let world := world.emit
        (.printf (bytes "Initializing Logger on: " ++ logType.bytes ++ bytes "\n"))
      .ok { world with isLog := 1 }
    else if logType.bytes = bytes "stdout" ∨ strlen logType = 0 then
      .ok { world with isLog := 0 }
    else
      -- the value of `errorf` is discarded
      let after ← errorf frame world NOT_VALID [libc.str logType]
      .ok { after with returned := world.returned }
  .ok (world.ret (.set 0))

/-! ## Runs -/

inductive Level where
  | info
  | warn
  | error
  | panic
  deriving DecidableEq, Repr

/-- The function of a level. -/
def Level.logf : Level → Frame → World libc → CString → List libc.Arg → Checked (World libc)
  | .info => infof
  | .warn => warnf
  | .error => errorf
  | .panic => panicf

/-- One call that a program linked with the logger can make. -/
inductive Call (libc : Libc) where
  | initLogger (logType : CString)
  | log (level : Level) (format : CString) (arg : List libc.Arg)

def Call.exec (world : World libc) : Frame × Call libc → Checked (World libc)
  | (frame, .initLogger logType) => Logger.initLogger frame world logType
  | (frame, .log level format arg) => level.logf frame world format arg

def run (calls : List (Frame × Call libc)) : Checked (World libc) :=
  calls.foldlM Call.exec .initial

/-! ## A small C library -/

inductive Value where
  | int (value : Int)
  | str (value : CString)
  deriving DecidableEq

/-- The conversions that the formats of this repository use. -/
def smallConvert (spec : Spec) (arg : List Value) : Option Bytes :=
  if spec.options ≠ [] then none
  else
    match arg with
    | [] => if spec.conversion = byte '%' then some [byte '%'] else none
    | [.str text] => if spec.conversion = byte 's' then some text.bytes else none
    | [.int (.ofNat number)] =>
        if spec.conversion = byte 'd' then some (decimal number) else none
    | [.int (.negSucc number)] =>
        if spec.conversion = byte 'd' then some (byte '-' :: decimal (number + 1)) else none
    | _ => none

def smallLibc : Libc where
  Arg := Value
  str := .str
  convert := smallConvert
  convert_str _ := rfl
  result out := out.length

end ApLabs.Logger
