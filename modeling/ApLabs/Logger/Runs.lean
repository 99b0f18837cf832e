import Mathlib.Data.List.Basic
import Mathlib.Data.List.Induction
import ApLabs.Logger.Sinks

/-!
# Runs of the logger

The purpose of the logger over a whole run is stated without its code: the last
valid `initLogger` argument selects a sink, and each call delivers at most one
message, to the sink selected before it.  The code's world after a run is then
the concatenation of what its calls contribute, each in the sink selected by the
calls before it.
-/

namespace ApLabs.Logger

open ApLabs.Foundation.CMemory
open ApLabs.Foundation.Printf

variable {libc : Libc}

/-! ## Selection and delivery -/

inductive Sink where
  | stdout
  | syslog
  deriving DecidableEq, Repr

/-- The value of `isLog` that stands for a sink. -/
def Sink.isLog : Sink → Int
  | .stdout => 0
  | .syslog => 1

/-- The sink a valid argument of `initLogger` selects. -/
def choice (logType : CString) : Option Sink :=
  if logType.bytes = bytes "syslog" then some .syslog
  else if logType.bytes = bytes "stdout" ∨ logType.bytes = [] then some .stdout
  else none

def Call.choice : Call libc → Option Sink
  | .initLogger logType => Logger.choice logType
  | .log .. => none

/-- The sink chosen by the last valid `initLogger` call, or stdout without one. -/
def selected (calls : List (Frame × Call libc)) : Sink :=
  (calls.filterMap fun call => call.2.choice).getLast?.getD .stdout

/-- The message a call has to deliver; a rejected argument is an error message. -/
def Call.message? : Call libc → Option (Level × CString × List libc.Arg)
  | .initLogger logType =>
      match Logger.choice logType with
      | some _ => none
      | none => some (.error, NOT_VALID, [libc.str logType])
  | .log level format arg => some (level, format, arg)

/-- A message in one of the two sinks. -/
inductive Delivery (Arg : Type) where
  | stdout (line : Rendering Arg)
  | syslog (priority : Priority) (body : Rendering Arg)
  deriving DecidableEq

/-- A message carries the tag, or the priority, of its level. -/
def deliver (sink : Sink) (level : Level) (body : Rendering libc.Arg) : Delivery libc.Arg :=
  match sink with
  | .stdout => .stdout
      ⟨level.tag.bytes ++ bytes ": " ++ body.out ++ bytes "\n", body.taken⟩
  | .syslog => .syslog level.priority body

def Call.delivery? (sink : Sink) (call : Call libc) : Option (Delivery libc.Arg) := do
  let (level, format, arg) ← call.message?
  let body ← vprintf libc.convert format.bytes arg
  some (deliver sink level body)

/-- The messages among the calls into the libraries, for both sinks in order. -/
def deliveries (trace : List (Io libc.Arg)) : List (Delivery libc.Arg) :=
  trace.filterMap fun io => match io with
    | .vfprintf printed => some (.stdout printed)
    | .vsyslog priority logged => some (.syslog priority logged)
    | _ => none

theorem deliveries_append (first second : List (Io libc.Arg)) :
    deliveries (first ++ second) = deliveries first ++ deliveries second :=
  List.filterMap_append

/-! ## What one call contributes -/

/-- A call whose arguments match its format and whose buffer is large enough. -/
structure Call.Proper (call : Frame × Call libc) : Prop where
  roomy : call.1.Roomy
  matched : ∀ level format arg, call.2 = .log level format arg →
    ∃ body, vprintf libc.convert format.bytes arg = some body
  fits : ∀ level format arg, call.2 = .log level format arg → level.Fits format

theorem Call.Proper.of_initLogger {frame : Frame} (roomy : frame.Roomy) (logType : CString) :
    Call.Proper ((frame, .initLogger logType) : Frame × Call libc) :=
  ⟨roomy, nofun, nofun⟩

theorem Call.Proper.of_log {frame : Frame} {level : Level} {format : CString}
    {arg : List libc.Arg} (roomy : frame.Roomy)
    (matched : ∃ body, vprintf libc.convert format.bytes arg = some body)
    (fits : level.Fits format) :
    Call.Proper ((frame, .log level format arg) : Frame × Call libc) := by
  refine ⟨roomy, ?_, ?_⟩
  · rintro level format arg ⟨⟩
    exact matched
  · rintro level format arg ⟨⟩
    exact fits

/-- The line that `initLogger` prints when it selects syslog. -/
def Call.notice : Call libc → List (Io libc.Arg)
  | .initLogger logType =>
      match Logger.choice logType with
      | some .syslog =>
          [.printf (bytes "Initializing Logger on: " ++ logType.bytes ++ bytes "\n")]
      | _ => []
  | .log .. => []

def Call.body? (call : Call libc) : Option (Level × Rendering libc.Arg) := do
  let (level, format, arg) ← call.message?
  let body ← vprintf libc.convert format.bytes arg
  some (level, body)

def Call.trace (sink : Sink) (call : Call libc) : List (Io libc.Arg) :=
  call.notice ++
    match call.body? with
    | some (level, body) => level.trace sink.isLog body
    | none => []

/-- The value of a call; `initLogger` discards that of its error message. -/
def Call.returned (sink : Sink) : Frame × Call libc → List Var
  | (_, .initLogger _) => [.set 0]
  | (frame, .log level format arg) =>
      match vprintf libc.convert format.bytes arg with
      | some body => [level.value libc frame sink.isLog body]
      | none => []

/-- The body of the error message for a rejected argument. -/
theorem vprintf_notValid (logType : CString) :
    vprintf libc.convert NOT_VALID.bytes [libc.str logType] =
      some ⟨bytes "Not a valid argument, got '" ++ logType.bytes ++ bytes "'",
        [(⟨[], 0, byte 's'⟩, [libc.str logType])]⟩ := by
  have rendered : vprintf libc.convert (bytes "%s") [libc.str logType] =
      some ⟨logType.bytes, [(⟨[], 0, byte 's'⟩, [libc.str logType])]⟩ := by
    have parsed : parse (bytes "%s") = some [.conv ⟨[], 0, byte 's'⟩] := by decide
    have one : (⟨[], 0, byte 's'⟩ : Spec).arity = 1 := by decide
    rw [vprintf, parsed, Option.bind_some, render, one]
    simp [libc.convert_str, render, Rendering.empty]
  have split : NOT_VALID.bytes =
      bytes "Not a valid argument, got '" ++ bytes "%s" ++ bytes "'" := by
    decide
  rw [split]
  exact vprintf_wrap libc.convert (by decide) (by decide) rendered

theorem notValid_fits : Level.error.Fits NOT_VALID := by decide

/-- The arguments of the message match its format, and its buffer is large enough. -/
def Call.Sound (call : Frame × Call libc) : Prop :=
  ∀ level format arg, call.2.message? = some (level, format, arg) →
    level.Room call.1 format ∧ level.Fits format ∧
      ∃ body, vprintf libc.convert format.bytes arg = some body

theorem Call.Proper.sound {call : Frame × Call libc} (proper : Call.Proper call) :
    Call.Sound call := by
  obtain ⟨frame, call⟩ := call
  intro level format arg message
  cases call with
  | log level format arg =>
      cases message
      exact ⟨proper.roomy.room level format, proper.fits level format arg rfl,
        proper.matched level format arg rfl⟩
  | initLogger logType =>
      simp only [Call.message?] at message
      split at message
      next chosen => cases message
      next rejected =>
        cases message
        exact ⟨proper.roomy.room .error NOT_VALID, notValid_fits, _, vprintf_notValid logType⟩

/-- One sound call, executed in a world whose `isLog` stands for a sink. -/
theorem exec_eq {world : World libc} {sink : Sink} {call : Frame × Call libc}
    (mode : world.isLog = sink.isLog) (sound : Call.Sound call) :
    Call.exec world call = .ok
      { isLog := (call.2.choice.getD sink).isLog
        trace := world.trace ++ call.2.trace sink
        returned := world.returned ++ Call.returned sink call } := by
  obtain ⟨frame, call⟩ := call
  cases call with
  | log level format arg =>
      obtain ⟨room, fits, body, rendered⟩ := sound level format arg rfl
      rw [Call.exec, logf_eq level room fits rendered, mode]
      simp [Call.choice, Call.trace, Call.notice, Call.body?, Call.message?, rendered,
        Call.returned]
  | initLogger logType =>
      rw [Call.exec, Logger.initLogger]
      by_cases syslog : logType.bytes = bytes "syslog"
      · have chosen : choice logType = some .syslog := if_pos syslog
        simp [syslog, World.emit, World.ret, Call.choice, Call.trace, Call.notice,
          Call.body?, Call.message?, Call.returned, chosen, Sink.isLog]
      · by_cases stdout : logType.bytes = bytes "stdout" ∨ logType.bytes = []
        · have chosen : choice logType = some .stdout := by
            rw [choice, if_neg syslog, if_pos stdout]
          have test : logType.bytes = bytes "stdout" ∨ strlen logType = 0 := by
            simpa [strlen] using stdout
          simp [syslog, test, World.ret, Call.choice, Call.trace, Call.notice, Call.body?,
            Call.message?, Call.returned, chosen, Sink.isLog]
        · have chosen : choice logType = none := by
            rw [choice, if_neg syslog, if_neg stdout]
          have test : ¬ (logType.bytes = bytes "stdout" ∨ strlen logType = 0) := by
            simpa [strlen] using stdout
          obtain ⟨room, fits, body, rendered⟩ := sound .error NOT_VALID [libc.str logType] (by
            simp [Call.message?, chosen])
          have rejected : errorf frame world NOT_VALID [libc.str logType] = _ :=
            logf_eq .error room fits rendered
          simp [syslog, test, rejected, World.ret, Call.choice, Call.trace, Call.notice,
            Call.body?, Call.message?, Call.returned, chosen, rendered, mode]

/-- What a call contributes to the sinks is exactly the message it has to deliver. -/
theorem deliveries_trace (sink : Sink) (call : Call libc) :
    deliveries (call.trace sink) = (call.delivery? sink).toList := by
  have silent : deliveries call.notice = [] := by
    cases call with
    | log level format arg => rfl
    | initLogger logType =>
        rw [Call.notice]
        split <;> rfl
  have spoken : ∀ level (body : Rendering libc.Arg), deliveries (level.trace sink.isLog body) =
      [deliver sink level body] := by
    intro level body
    cases sink <;> simp [deliveries, Level.trace, template, Sink.isLog, deliver, line,
      Rendering.wrap, prefixOf, bytes]
  rw [Call.trace, deliveries_append, silent, List.nil_append]
  cases message : call.message? with
  | none =>
      simp only [Call.body?, Call.delivery?, message]
      rfl
  | some parts =>
      obtain ⟨level, format, arg⟩ := parts
      cases rendered : vprintf libc.convert format.bytes arg with
      | none =>
          simp only [Call.body?, Call.delivery?, message, rendered, Option.bind_eq_bind,
            Option.bind_some, Option.bind_none]
          rfl
      | some body =>
          simp only [Call.body?, Call.delivery?, message, rendered, Option.bind_eq_bind,
            Option.bind_some, spoken, Option.toList_some]

/-! ## Whole runs -/

/-- What the calls of a run contribute, each in the sink selected before it. -/
def contributions {α : Type} (part : Sink → Frame × Call libc → List α)
    (calls : List (Frame × Call libc)) : List α :=
  calls.zipIdx.flatMap fun entry => part (selected (calls.take entry.2)) entry.1

theorem selected_concat (before : List (Frame × Call libc)) (call : Frame × Call libc) :
    selected (before ++ [call]) = call.2.choice.getD (selected before) := by
  cases chosen : call.2.choice <;> simp [selected, List.filterMap_append, chosen]

theorem contributions_concat {α : Type} (part : Sink → Frame × Call libc → List α)
    (before : List (Frame × Call libc)) (call : Frame × Call libc) :
    contributions part (before ++ [call]) =
      contributions part before ++ part (selected before) call := by
  have earlier : ∀ entry ∈ before.zipIdx,
      (before ++ [call]).take entry.2 = before.take entry.2 := by
    intro entry member
    have bound := List.snd_lt_of_mem_zipIdx member
    exact List.take_append_of_le_length (by omega)
  rw [contributions, List.zipIdx_append, List.flatMap_append, contributions]
  congr 1
  · exact List.flatMap_congr fun entry member => by rw [earlier entry member]
  · simp

/-- The world after a run of sound calls. -/
theorem run_eq {calls : List (Frame × Call libc)} (sound : ∀ call ∈ calls, Call.Sound call) :
    run calls = .ok
      { isLog := (selected calls).isLog
        trace := contributions (fun sink call => call.2.trace sink) calls
        returned := contributions Call.returned calls } := by
  induction calls using List.reverseRecOn with
  | nil => rfl
  | append_singleton before call ih =>
      have reached := ih fun call member => sound call (List.mem_append_left _ member)
      have last := sound call (by simp)
      rw [run, List.foldlM_append, ← run, reached, ok_bind]
      simp only [List.foldlM_cons, List.foldlM_nil]
      rw [exec_eq (rfl : (selected before).isLog = _) last, selected_concat, contributions_concat,
        contributions_concat]
      rfl

/-- Every call of a proper run delivers exactly its message, to the sink chosen by
the last valid selection before it; a rejected argument is reported in full and
selects nothing. -/
theorem run_delivers (calls : List (Frame × Call libc))
    (proper : ∀ call ∈ calls, Call.Proper call) :
    ∃ world, run calls = .ok world ∧ world.isLog = (selected calls).isLog ∧
      deliveries world.trace =
        contributions (fun sink call => (call.2.delivery? sink).toList) calls ∧
      (∀ call ∈ calls, ∀ sink level format arg, call.2 = .log level format arg →
        ∃ body, vprintf libc.convert format.bytes arg = some body ∧
          call.2.delivery? sink = some (deliver sink level body)) ∧
      (∀ call ∈ calls, ∀ sink logType, call.2 = .initLogger logType → choice logType = none →
        ∃ body, call.2.delivery? sink = some (deliver sink .error body) ∧
          logType.bytes <:+: body.out) := by
  refine ⟨_, run_eq fun call member => (proper call member).sound, rfl, ?_, ?_, ?_⟩
  · simp only [contributions, deliveries, List.filterMap_flatMap]
    exact List.flatMap_congr fun entry _ => deliveries_trace _ _
  · rintro ⟨frame, call⟩ member sink level format arg rfl
    obtain ⟨body, rendered⟩ := (proper _ member).matched level format arg rfl
    exact ⟨body, rendered, by simp [Call.delivery?, Call.message?, rendered]⟩
  · rintro ⟨frame, call⟩ - sink logType rfl rejected
    refine ⟨⟨bytes "Not a valid argument, got '" ++ logType.bytes ++ bytes "'",
      [(⟨[], 0, byte 's'⟩, [libc.str logType])]⟩, ?_, ?_⟩
    · simp [Call.delivery?, Call.message?, rejected, vprintf_notValid]
    · exact ⟨bytes "Not a valid argument, got '", bytes "'", rfl⟩

def syslogType : CString := ⟨bytes "syslog", by decide⟩

/-- A run in both modes, with a rejected argument that looks like a format. -/
def sampleRun : List (Frame × Call smallLibc) :=
  [(spareFrame, .log .warn ⟨bytes "disk at %d%%", by decide⟩ [.int 97]),
    (spareFrame, .initLogger syslogType),
    (spareFrame, .initLogger ⟨bytes "%n%d", by decide⟩),
    (spareFrame, .log .panic ⟨bytes "bye", by decide⟩ [])]

theorem sampleRun_proper : ∀ call ∈ sampleRun, Call.Proper call := by
  simp only [sampleRun, List.forall_mem_cons]
  refine ⟨?_, ?_, ?_, ?_, nofun⟩
  · exact Call.Proper.of_log spareFrame_roomy ⟨_, rfl⟩ (by decide)
  · exact Call.Proper.of_initLogger spareFrame_roomy _
  · exact Call.Proper.of_initLogger spareFrame_roomy _
  · exact Call.Proper.of_log spareFrame_roomy ⟨_, rfl⟩ (by decide)

theorem sampleRun_delivers :
    ∃ world, run sampleRun = .ok world ∧
      deliveries world.trace =
        [.stdout ⟨bytes "WARN: disk at 97%\n",
            [(⟨[], 0, byte 'd'⟩, [.int 97]), (⟨[], 0, byte '%'⟩, [])]⟩,
          .syslog .LOG_ERR ⟨bytes "Not a valid argument, got '%n%d'",
            [(⟨[], 0, byte 's'⟩, [.str ⟨bytes "%n%d", by decide⟩])]⟩,
          .syslog .LOG_CRIT ⟨bytes "bye", []⟩] := by
  obtain ⟨world, reached, -, delivered, -⟩ := run_delivers sampleRun sampleRun_proper
  exact ⟨world, reached, delivered.trans rfl⟩

/-- A nonempty format without conversions is due on stdout between the prefix and
the line feed. -/
theorem contributions_plain {format : CString} (plain : byte '%' ∉ format.bytes)
    (nonempty : format.bytes ≠ []) :
    contributions (fun sink call => (call.2.delivery? sink).toList)
        [((spareFrame, .log .info format []) : Frame × Call smallLibc)] ≠
      [.stdout ⟨bytes "INFO: \n", []⟩] := by
  have sink : selected ([] : List (Frame × Call smallLibc)) = .stdout := rfl
  have rendered := vprintf_plain smallLibc.convert plain []
  intro same
  simp only [contributions, List.zipIdx_singleton, List.flatMap_singleton, List.take_zero, sink,
    Call.delivery?, Call.message?, rendered, Option.bind_eq_bind, Option.bind_some,
    Option.toList_some, deliver, List.cons.injEq, Delivery.stdout.injEq, Rendering.mk.injEq]
    at same
  have lengths := congrArg List.length same.1.1
  simp [Level.tag, INFO, bytes] at lengths
  exact nonempty lengths

/-- The message of `2 ^ 32` letters never reaches stdout. -/
theorem run_longFormat_loses_message :
    ∃ world, run [((spareFrame, .log .info longFormat []) : Frame × Call smallLibc)] = .ok world ∧
      deliveries world.trace = [.stdout ⟨bytes "INFO: \n", []⟩] ∧
      deliveries world.trace ≠ contributions (fun sink call => (call.2.delivery? sink).toList)
        [((spareFrame, .log .info longFormat []) : Frame × Call smallLibc)] := by
  have shown : deliveries (Level.info.trace 0 (.empty : Rendering smallLibc.Arg)) =
      [.stdout ⟨bytes "INFO: \n", []⟩] := rfl
  refine ⟨⟨0, Level.info.trace 0 .empty, [Level.info.value smallLibc spareFrame 0 .empty]⟩,
    ?_, shown, ?_⟩
  · rw [run, List.foldlM_cons, Call.exec, logf_longFormat smallLibc .info []]
    rfl
  · rw [shown]
    exact (contributions_plain longFormat_plain longFormat_ne_nil).symm

end ApLabs.Logger
