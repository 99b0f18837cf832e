import ApLabs.Logger.FormatString

/-!
# The two sinks of one call

The four level functions are one function of a tag, a colour and a priority,
up to the size they request and the initial value of `done`.  The stdout sink
renders the buffer that `formatString` built and the syslog sink renders the
caller's format, so the two agree on the message exactly when the buffer holds
the whole format; the buffer does so exactly when its last index is an `int`.
-/

namespace ApLabs.Logger

open ApLabs.Foundation.CMemory
open ApLabs.Foundation.Printf

variable {libc : Libc} {Arg : Type}

/-! ## One function for all levels -/

/-- The escape sequence in front of a message on stdout. -/
def escape (colour : Nat) : Bytes :=
  0x1B :: bytes "[" ++ decimal RESET ++ bytes ";" ++ decimal (colour + 30) ++ bytes ";1m"

/-- The escape sequence behind a message on stdout. -/
def resetEscape : Bytes := 0x1B :: bytes "[" ++ decimal RESET ++ bytes ";0;0m"

def announcement (tag : CString) : Bytes :=
  bytes "Writting to syslog " ++ tag.bytes ++ bytes "...\n"

/-- The message of a call as it appears on stdout. -/
def line (tag : CString) (body : Rendering Arg) : Rendering Arg :=
  body.wrap (prefixOf tag) [byte '\n']

/-- What a call hands to the libraries, as a function of its tag, its colour and
its priority. -/
def template (tag : CString) (colour : Nat) (priority : Priority) (isLog : Int)
    (body : Rendering Arg) : List (Io Arg) :=
  if isLog ≠ 0 then
    [.printf (announcement tag), .openlog LOG_FILE LOG_PID LOG_USER, .vsyslog priority body,
      .closelog]
  else [.printf (escape colour), .vfprintf (line tag body), .printf resetEscape]

namespace Level

def tag : Level → CString
  | .info => INFO
  | .warn => WARN
  | .error => ERROR
  | .panic => PANIC

def colour : Level → Nat
  | .info => BLUE
  | .warn => YELLOW
  | .error => RED
  | .panic => MAGENTA

def priority : Level → Priority
  | .info => .LOG_INFO
  | .warn => .LOG_WARNING
  | .error => .LOG_ERR
  | .panic => .LOG_CRIT

/-- What a level requests beyond the format and its prefix. -/
def spare : Level → Nat
  | .info => 2
  | _ => 1

/-- Only the warning level initialises the value it returns. -/
def done : Level → Frame → Var
  | .warn, _ => .set 0
  | _, frame => .indeterminate frame.done

/-- The common body of the four functions. -/
def common (level : Level) (frame : Frame) (world : World libc) (format : CString)
    (arg : List libc.Arg) : Checked (World libc) := do
  let s := frame.malloc (strlen format + level.spare + (strlen level.tag + 2))
  let s ← formatString s format (toInt (strlen format)) level.tag
    (toInt (strlen level.tag + 2))
  if world.isLog ≠ 0 then
    let world := world.emit (.printf (announcement level.tag))
    let world := world.emit (.openlog LOG_FILE LOG_PID LOG_USER)
    let world ← vsyslog world level.priority format arg
    let world := world.emit .closelog
    .ok (world.ret (level.done frame))
  else
    let world ← setTerminalColor world RESET level.colour
    let (done, world) ← vfprintf world s arg
    let world ← resetTerminalColor world
    .ok (world.ret (.set done))

/-- Each of the four copies is the common body at its own parameters. -/
theorem logf_eq_common (level : Level) (frame : Frame) (world : World libc) (format : CString)
    (arg : List libc.Arg) :
    level.logf frame world format arg = level.common frame world format arg := by
  cases level <;> rfl

theorem strlen_tag_le (level : Level) : strlen level.tag ≤ 5 := by
  cases level <;> decide

theorem toInt_prefix (level : Level) :
    toInt (strlen level.tag + 2) = (strlen level.tag + 2 : Nat) := by
  have short := level.strlen_tag_le
  exact toInt_of_le (by unfold INT_MAX; omega)

theorem prefix_plain (level : Level) : byte '%' ∉ prefixOf level.tag := by
  cases level <;> decide

/-- The last index `formatString` uses for this level and format is an `int`. -/
def Fits (level : Level) (format : CString) : Prop :=
  (strlen format + (strlen level.tag + 2 : Nat) + 1 : Int) ≤ INT_MAX

instance (level : Level) (format : CString) : Decidable (level.Fits format) :=
  inferInstanceAs (Decidable (_ ≤ _))

def trace (level : Level) (isLog : Int) (body : Rendering Arg) : List (Io Arg) :=
  template level.tag level.colour level.priority isLog body

/-- What a call returns: on stdout the result of `vfprintf`. -/
def value (libc : Libc) (level : Level) (frame : Frame) (isLog : Int)
    (body : Rendering libc.Arg) : Var :=
  if isLog ≠ 0 then level.done frame else .set (libc.result (line level.tag body).out)

end Level

/-! ## Both branches -/

/-- Every block has at least one byte more than was requested. -/
def Frame.Roomy (frame : Frame) : Prop := ∀ size, size < (frame.malloc size).length

/-- The block of the call has one byte more than was requested, unless `infof` requested
that byte itself. -/
def Level.Room (level : Level) (frame : Frame) (format : CString) : Prop :=
  level = .info ∨ strlen format + level.spare + (strlen level.tag + 2) <
    (frame.malloc (strlen format + level.spare + (strlen level.tag + 2))).length

theorem Frame.Roomy.room {frame : Frame} (roomy : frame.Roomy) (level : Level)
    (format : CString) : level.Room frame format :=
  .inr (roomy _)

/-- Such a block has room for the whole message. -/
theorem Level.Room.block {level : Level} {frame : Frame} {format : CString}
    (room : level.Room frame format) :
    strlen format + (strlen level.tag + 2) + 2 ≤
      (frame.malloc (strlen format + level.spare + (strlen level.tag + 2))).length := by
  rcases room with rfl | room
  · have granted := frame.size_le (strlen format + Level.info.spare + (strlen Level.info.tag + 2))
    have spare : Level.info.spare = 2 := rfl
    omega
  · have spare : 1 ≤ level.spare := by cases level <;> decide
    omega

/-- In range, the buffer read back is the prefix, the format and a line feed. -/
theorem formatString_of_fits {s : Bytes} {level : Level} {format : CString}
    (room : strlen format + (strlen level.tag + 2) + 2 ≤ s.length) (fits : level.Fits format) :
    ∃ filled,
      formatString s format (toInt (strlen format)) level.tag (toInt (strlen level.tag + 2)) =
        .ok filled ∧
      readString filled = .ok (prefixOf level.tag ++ format.bytes ++ [byte '\n']) := by
  have narrow : toInt (strlen format) = strlen format := toInt_of_le (by
    unfold Level.Fits at fits
    omega)
  have built := formatString_eq rfl (Nat.le_refl _) room fits
  have whole : format.bytes.take (strlen format) = format.bytes := List.take_length
  rw [whole] at built
  rw [narrow, level.toInt_prefix]
  exact ⟨_, built, readString_splice (prefixOf_no_nul level.tag) format.no_nul⟩

theorem setTerminalColor_eq (world : World libc) (level : Level) :
    setTerminalColor world RESET level.colour =
      .ok (world.emit (.printf (escape level.colour))) := by
  cases level <;> rfl

theorem resetTerminalColor_eq (world : World libc) :
    resetTerminalColor world = .ok (world.emit (.printf resetEscape)) := rfl

/-- A call whose buffer is large enough does what its level's template says. -/
theorem logf_eq (level : Level) {frame : Frame} {world : World libc} {format : CString}
    {arg : List libc.Arg} {body : Rendering libc.Arg} (room : level.Room frame format)
    (fits : level.Fits format) (rendered : vprintf libc.convert format.bytes arg = some body) :
    level.logf frame world format arg = .ok
      { isLog := world.isLog
        trace := world.trace ++ level.trace world.isLog body
        returned := world.returned ++ [level.value libc frame world.isLog body] } := by
  obtain ⟨filled, built, read⟩ := formatString_of_fits room.block fits
  have printed := vprintf_wrap libc.convert level.prefix_plain (by decide : byte '%' ∉ [byte '\n'])
    rendered
  rw [Level.logf_eq_common, Level.common, built, ok_bind]
  by_cases syslog : world.isLog ≠ 0
  · rw [if_pos syslog]
    simp [vsyslog, rendered, World.emit, World.ret, Level.trace, template, Level.value, syslog]
  · rw [if_neg syslog, setTerminalColor_eq, ok_bind, vfprintf, read, ok_bind, printed]
    simp [resetTerminalColor_eq, World.emit, World.ret, Level.trace, template, Level.value, syslog,
      line]

/-! ## Agreement of the sinks -/

/-- The messages printed from a formatted buffer. -/
def stdoutMessages (trace : List (Io libc.Arg)) : List (Rendering libc.Arg) :=
  trace.filterMap fun io => match io with
    | .vfprintf printed => some printed
    | _ => none

def syslogMessages (trace : List (Io libc.Arg)) : List (Priority × Rendering libc.Arg) :=
  trace.filterMap fun io => match io with
    | .vsyslog priority logged => some (priority, logged)
    | _ => none

/-- In every frame with large enough blocks, stdout shows the tag and the body
that syslog receives, rendered from the same arguments in the same order. -/
def SinksAgree (libc : Libc) (level : Level) (format : CString) (arg : List libc.Arg)
    (body : Rendering libc.Arg) : Prop :=
  ∀ frame : Frame, frame.Roomy → ∀ world : World libc,
    (world.isLog = 0 → ∃ after, level.logf frame world format arg = .ok after ∧
      stdoutMessages after.trace = stdoutMessages world.trace ++
        [⟨level.tag.bytes ++ bytes ": " ++ body.out ++ bytes "\n", body.taken⟩]) ∧
    (world.isLog ≠ 0 → ∃ after, level.logf frame world format arg = .ok after ∧
      syslogMessages after.trace = syslogMessages world.trace ++ [(level.priority, body)])

/-- A frame with one spare byte in every block. -/
def spareFrame : Frame where
  malloc size := List.replicate (size + 1) 0
  size_le size := by simp
  done := 0

theorem spareFrame_roomy : spareFrame.Roomy := by
  intro size
  simp [spareFrame]

/-- What a call in the stdout branch printed was read from the filled buffer. -/
theorem stdout_printed {level : Level} {frame : Frame} {format : CString} {arg : List libc.Arg}
    {after : World libc} (done : level.logf frame World.initial format arg = .ok after) :
    ∃ filled text printed,
      formatString (frame.malloc (strlen format + level.spare + (strlen level.tag + 2))) format
        (toInt (strlen format)) level.tag (toInt (strlen level.tag + 2)) = .ok filled ∧
      readString filled = .ok text ∧ vprintf libc.convert text arg = some printed ∧
      stdoutMessages after.trace = [printed] := by
  rw [Level.logf_eq_common, Level.common] at done
  obtain ⟨filled, built, done⟩ := bind_eq_ok.mp done
  rw [if_neg (by simp [World.initial]), setTerminalColor_eq, ok_bind] at done
  obtain ⟨⟨result, printedWorld⟩, shown, done⟩ := bind_eq_ok.mp done
  obtain ⟨text, read, shown⟩ := bind_eq_ok.mp shown
  refine ⟨filled, text, ?_⟩
  cases rendered : vprintf libc.convert text arg with
  | none => simp [rendered] at shown
  | some printed =>
      simp only [rendered, Except.ok.injEq, Prod.mk.injEq] at shown
      obtain ⟨rfl, rfl⟩ := shown
      refine ⟨printed, built, read, rfl, ?_⟩
      simp only [resetTerminalColor_eq, ok_bind, Except.ok.injEq] at done
      rw [← done]
      rfl

/-- A buffer that ends inside the prefix is too short for any message. -/
theorem cutPrefix_ne_line {level : Level} {arg : List libc.Arg} {body : Rendering libc.Arg}
    {stop : Nat} (cut : stop < strlen level.tag + 2) :
    vprintf libc.convert ((prefixOf level.tag).take stop ++ [byte '\n']) arg ≠
      some (line level.tag body) := by
  intro printing
  have plain : byte '%' ∉ (prefixOf level.tag).take stop ++ [byte '\n'] := by
    have front : byte '%' ∉ (prefixOf level.tag).take stop := fun member =>
      level.prefix_plain (List.mem_of_mem_take member)
    have line_feed : byte '%' ≠ byte '\n' := by decide
    simp [front, line_feed]
  rw [vprintf_plain libc.convert plain] at printing
  have lengths := congrArg (fun line => line.out.length) (Option.some.inj printing)
  simp only [line, Rendering.wrap, List.length_append, List.length_take,
    length_prefixOf] at lengths
  omega

/-- A buffer that holds only the start of the format shows another message. -/
theorem cutFormat_ne_line {level : Level} {format : CString} {arg : List libc.Arg}
    {body : Rendering libc.Arg} {count : Nat}
    (rendered : vprintf libc.convert format.bytes arg = some body) (cut : count < strlen format) :
    vprintf libc.convert (prefixOf level.tag ++ format.bytes.take count ++ [byte '\n']) arg ≠
      some (line level.tag body) := by
  intro printing
  obtain ⟨part, shortened, wrapped⟩ := vprintf_line libc.convert level.prefix_plain printing
  have nonempty : format.bytes.drop count ≠ [] := by
    intro empty
    have all := List.drop_eq_nil_iff.mp empty
    simp only [strlen] at cut
    omega
  exact vprintf_cut libc.convert (by rw [List.take_append_drop]; exact rendered) shortened nonempty
    (Rendering.wrap_injective wrapped).symm

/-- Once the last index leaves `int`, stdout loses a part of the message: a
negative narrowed length cuts the prefix, any other one cuts the format. -/
theorem fits_of_stdout {level : Level} {format : CString} {arg : List libc.Arg}
    {body : Rendering libc.Arg} {after : World libc}
    (rendered : vprintf libc.convert format.bytes arg = some body)
    (done : level.logf spareFrame World.initial format arg = .ok after)
    (shown : stdoutMessages after.trace = [line level.tag body]) : level.Fits format := by
  obtain ⟨filled, text, printed, built, read, printing, messages⟩ := stdout_printed done
  obtain rfl : printed = line level.tag body := by
    rw [messages] at shown
    exact (List.cons.inj shown).1
  have room := (spareFrame_roomy.room level format).block
  have short := level.strlen_tag_le
  rw [level.toInt_prefix, formatString_eq_formatRest rfl (by omega)
    (by unfold INT_MAX; omega)] at built
  obtain ⟨upper, lower⟩ := formatRest_range built
  by_cases negative : toInt (strlen format) < 0
  · rw [formatRest_negative (length_prefixOf level.tag) (by omega) (prefixOf_no_nul level.tag)
      negative built, Except.ok.injEq] at read
    subst read
    exact absurd printing (cutPrefix_ne_line (by omega))
  · obtain ⟨count, narrowed⟩ : ∃ count : Nat, toInt (strlen format) = count :=
      ⟨(toInt (strlen format)).toNat, by omega⟩
    have readable : count ≤ strlen format := by
      have bound := toInt_le_self (strlen format) (by omega)
      omega
    rw [narrowed] at built upper
    rw [formatRest_eq (length_prefixOf level.tag) readable (by omega) upper,
      Except.ok.injEq] at built
    subst built
    rw [readString_splice (prefixOf_no_nul level.tag) (take_no_nul format.no_nul count),
      Except.ok.injEq] at read
    subst read
    by_cases cut : count < strlen format
    · exact absurd printing (cutFormat_ne_line rendered cut)
    · rw [Level.Fits, show strlen format = count by omega]
      exact upper

/-- The sinks agree on the message of a call exactly when the last index of its
buffer is an `int`. -/
theorem sinksAgree_iff_fits (libc : Libc) (level : Level) (format : CString) (arg : List libc.Arg)
    (body : Rendering libc.Arg) (rendered : vprintf libc.convert format.bytes arg = some body) :
    SinksAgree libc level format arg body ↔ level.Fits format := by
  constructor
  · intro agree
    obtain ⟨after, done, shown⟩ := (agree spareFrame spareFrame_roomy World.initial).1 rfl
    exact fits_of_stdout rendered done shown
  · intro fits frame roomy world
    have room := roomy.room level format
    refine ⟨fun stdout => ⟨_, logf_eq level room fits rendered, ?_⟩,
      fun syslog => ⟨_, logf_eq level room fits rendered, ?_⟩⟩
    · simp [stdoutMessages, Level.trace, template, stdout, line, Rendering.wrap, prefixOf, bytes]
    · simp [syslogMessages, Level.trace, template, syslog]

theorem sinksAgree_warn_percent :
    SinksAgree smallLibc .warn ⟨bytes "%s 100%%", by decide⟩
      [.str ⟨bytes "at", by decide⟩]
      ⟨bytes "at 100%", [(⟨[], 0, byte 's'⟩, [.str ⟨bytes "at", by decide⟩]),
        (⟨[], 0, byte '%'⟩, [])]⟩ :=
  (sinksAgree_iff_fits smallLibc .warn ⟨bytes "%s 100%%", by decide⟩
    [.str ⟨bytes "at", by decide⟩] _ rfl).mpr (by decide)

/-! ## A format of `2 ^ 32` bytes -/

/-- A format whose length narrows to zero. -/
def longFormat : CString where
  bytes := List.replicate 4294967296 (byte 'a')
  no_nul member := absurd (List.eq_of_mem_replicate member) (by decide)

theorem strlen_longFormat : strlen longFormat = 4294967296 := List.length_replicate

theorem longFormat_ne_nil : longFormat.bytes ≠ [] :=
  List.ne_nil_of_length_pos (by rw [← strlen, strlen_longFormat]; decide)

theorem longFormat_plain : byte '%' ∉ longFormat.bytes := fun member =>
  absurd (List.eq_of_mem_replicate member) (by decide)

theorem vprintf_longFormat (arg : List libc.Arg) :
    vprintf libc.convert longFormat.bytes arg = some ⟨longFormat.bytes, []⟩ :=
  vprintf_plain libc.convert longFormat_plain arg

/-- On stdout the long format prints what the empty format prints. -/
theorem logf_longFormat (libc : Libc) (level : Level) (arg : List libc.Arg) :
    level.logf spareFrame (World.initial : World libc) longFormat arg =
      .ok ⟨0, level.trace 0 .empty, [level.value libc spareFrame 0 .empty]⟩ := by
  have short := level.strlen_tag_le
  have room := (spareFrame_roomy.room level longFormat).block
  have narrowed : toInt (strlen longFormat) = (0 : Nat) := by
    rw [strlen_longFormat]
    decide
  have built := formatString_eq rfl (Nat.zero_le (strlen longFormat))
    (by omega : 0 + (strlen level.tag + 2) + 2 ≤ (spareFrame.malloc
      (strlen longFormat + level.spare + (strlen level.tag + 2))).length)
    (by unfold INT_MAX; omega)
  have plain : byte '%' ∉ prefixOf level.tag ++ [] ++ [byte '\n'] := by
    have line_feed : byte '%' ≠ byte '\n' := by decide
    simp [level.prefix_plain, line_feed]
  rw [List.take_zero] at built
  rw [Level.logf_eq_common, Level.common, narrowed, level.toInt_prefix, built, ok_bind,
    if_neg (by simp [World.initial]), setTerminalColor_eq, ok_bind, vfprintf,
    readString_splice (prefixOf_no_nul level.tag) List.not_mem_nil, ok_bind,
    vprintf_plain libc.convert plain]
  simp [resetTerminalColor_eq, World.emit, World.ret, World.initial, Level.trace, template,
    Level.value, line, Rendering.wrap, Rendering.empty]

/-- `infof` shows only its prefix for a format of `2 ^ 32` letters, all of which
syslog would receive. -/
theorem infof_longFormat_disagrees :
    (infof spareFrame (World.initial : World smallLibc) longFormat []).map
        (fun after => stdoutMessages after.trace) = .ok [⟨bytes "INFO: \n", []⟩] ∧
      vprintf smallLibc.convert longFormat.bytes [] = some ⟨longFormat.bytes, []⟩ ∧
      ¬ SinksAgree smallLibc .info longFormat [] ⟨longFormat.bytes, []⟩ := by
  have shown : infof spareFrame (World.initial : World smallLibc) longFormat [] = _ :=
    logf_longFormat smallLibc .info []
  refine ⟨?_, vprintf_longFormat [], ?_⟩
  · rw [shown]
    rfl
  · intro agree
    obtain ⟨after, done, printed⟩ := (agree spareFrame spareFrame_roomy World.initial).1 rfl
    have fits := fits_of_stdout (vprintf_longFormat []) done printed
    rw [Level.Fits, strlen_longFormat] at fits
    exact absurd fits (by decide)

end ApLabs.Logger
