import ApLabs.Logger.Runs

/-!
# What the level functions return

On stdout every level function returns the result of `vfprintf`.  On syslog only
`warnf` has assigned `done`; the other three return what the stack held.  The
levels therefore agree exactly where stdout is selected, and a run returns the
values that one function with a tag, a colour and a priority would return, whatever
the stack holds, exactly as long as no other level than that of `warnf` is called
while syslog is selected.
-/

namespace ApLabs.Logger

open ApLabs.Foundation.CMemory
open ApLabs.Foundation.Printf

variable {libc : Libc}

/-- In this world the four functions, called with one format and argument list, are one
function of tag, colour and priority, which returns an assigned value: on stdout the
result of `vfprintf`, on syslog one value common to all levels. -/
def LevelsAgree (world : World libc) (format : CString) (arg : List libc.Arg)
    (body : Rendering libc.Arg) (frames : Level → Frame) : Prop :=
  ∃ common : Int, ∀ level : Level,
    level.logf (frames level) world format arg = .ok
      { isLog := world.isLog
        trace := world.trace ++
          template level.tag level.colour level.priority world.isLog body
        returned := world.returned ++
          [.set (if world.isLog ≠ 0 then common else libc.result (line level.tag body).out)] }

/-- The levels agree in the stdout mode and in no other. -/
theorem levelsAgree_iff {world : World libc} {format : CString} {arg : List libc.Arg}
    {body : Rendering libc.Arg} {frames : Level → Frame}
    (rendered : vprintf libc.convert format.bytes arg = some body)
    (sound : ∀ level : Level, level.Fits format ∧ level.Room (frames level) format) :
    LevelsAgree world format arg body frames ↔ world.isLog = 0 := by
  constructor
  · rintro ⟨common, uniform⟩
    by_contra syslog
    have called := uniform .info
    rw [logf_eq .info (sound .info).2 (sound .info).1 rendered] at called
    simp [Level.value, syslog, Level.done, Var.indeterminate, Var.set] at called
  · intro stdout
    refine ⟨0, fun level => ?_⟩
    rw [logf_eq level (sound level).2 (sound level).1 rendered]
    simp [Level.value, Level.trace, stdout]

/-! ## Assigned values -/

/-- The value that one function of tag, colour and priority returns in place of the level
functions, `common` in the syslog mode. -/
def Call.due (common : Int) (sink : Sink) : Call libc → List Var
  | .initLogger _ => [.set 0]
  | .log level format arg =>
      match vprintf libc.convert format.bytes arg, sink with
      | some body, .stdout => [.set (libc.result (line level.tag body).out)]
      | some _, .syslog => [.set common]
      | none, _ => []

/-- The value of this call is assigned. -/
def Call.Assigns (sink : Sink) : Call libc → Prop
  | .initLogger _ => True
  | .log level _ _ => sink = .stdout ∨ level = .warn

instance (sink : Sink) (call : Call libc) : Decidable (call.Assigns sink) :=
  match call with
  | .initLogger _ => .isTrue trivial
  | .log _ _ _ => inferInstanceAs (Decidable (_ ∨ _))

/-- Every log call of the run is made while stdout is selected, or to `warnf`. -/
def Assigning (calls : List (Frame × Call libc)) : Prop :=
  ∀ entry ∈ calls.zipIdx, entry.1.2.Assigns (selected (calls.take entry.2))

instance (calls : List (Frame × Call libc)) : Decidable (Assigning calls) :=
  inferInstanceAs (Decidable (∀ entry ∈ calls.zipIdx, _))

theorem value_assigned_iff {level : Level} {frame : Frame} {sink : Sink}
    {body : Rendering libc.Arg} :
    (level.value libc frame sink.isLog body).assigned = true ↔ sink = .stdout ∨ level = .warn := by
  cases sink <;> cases level <;>
    simp [Level.value, Sink.isLog, Level.done, Var.set, Var.indeterminate]

theorem Call.Sound.returned_assigned_iff {call : Frame × Call libc} (sound : Call.Sound call)
    (sink : Sink) :
    (∀ value ∈ Call.returned sink call, value.assigned = true) ↔ call.2.Assigns sink := by
  obtain ⟨frame, call⟩ := call
  cases call with
  | initLogger logType => simp [Call.returned, Call.Assigns, Var.set]
  | log level format arg =>
      obtain ⟨-, -, body, rendered⟩ := sound level format arg rfl
      simp [Call.returned, Call.Assigns, rendered, value_assigned_iff]

theorem due_assigned (common : Int) (sink : Sink) (call : Call libc) :
    ∀ value ∈ call.due common sink, value.assigned = true := by
  cases call with
  | initLogger logType => simp [Call.due, Var.set]
  | log level format arg =>
      simp only [Call.due]
      split <;> simp [Var.set]

/-- An assigned value is the one due, with the 0 of `warnf` in the syslog mode. -/
theorem returned_eq_due {sink : Sink} {call : Frame × Call libc}
    (assigns : call.2.Assigns sink) : Call.returned sink call = call.2.due 0 sink := by
  obtain ⟨frame, call⟩ := call
  cases call with
  | initLogger logType => rfl
  | log level format arg =>
      simp only [Call.returned, Call.due]
      cases rendered : vprintf libc.convert format.bytes arg with
      | none => rfl
      | some body =>
          cases sink with
          | stdout => rfl
          | syslog =>
              obtain rfl : level = .warn := by simpa [Call.Assigns] using assigns
              rfl

/-! ## Two executions of one run -/

theorem selected_of_calls {first second : List (Frame × Call libc)}
    (same : first.map Prod.snd = second.map Prod.snd) : selected first = selected second := by
  have through : ∀ calls : List (Frame × Call libc),
      calls.filterMap (fun call => call.2.choice) =
        (calls.map Prod.snd).filterMap Call.choice := by
    intro calls
    rw [List.filterMap_map]
    rfl
  rw [selected, selected, through, through, same]

/-- Contributions that ignore the frames depend only on the calls. -/
theorem contributions_of_calls {α : Type} {part : Sink → Frame × Call libc → List α}
    {first second : List (Frame × Call libc)}
    (same : first.map Prod.snd = second.map Prod.snd)
    (ignores : ∀ sink frame frame' call, part sink (frame, call) = part sink (frame', call)) :
    contributions part first = contributions part second := by
  induction first using List.reverseRecOn generalizing second with
  | nil =>
      obtain rfl : second = [] := List.map_eq_nil_iff.mp same.symm
      rfl
  | append_singleton before call ih =>
      rw [List.map_append, List.map_singleton] at same
      obtain ⟨before', last, rfl, same_before, same_last⟩ := List.map_eq_append_iff.mp same.symm
      obtain ⟨call', rfl, same_call⟩ := List.map_eq_singleton_iff.mp same_last
      rw [contributions_concat, contributions_concat, ih same_before.symm,
        selected_of_calls same_before.symm]
      obtain ⟨frame, call⟩ := call
      obtain ⟨frame', call'⟩ := call'
      obtain rfl : call' = call := same_call
      rw [ignores _ frame frame']

theorem assigning_of_calls {first second : List (Frame × Call libc)}
    (same : first.map Prod.snd = second.map Prod.snd) : Assigning first ↔ Assigning second := by
  have through : ∀ calls : List (Frame × Call libc), Assigning calls ↔
      ∀ assigns ∈ contributions (fun sink call => [call.2.Assigns sink]) calls, assigns := by
    intro calls
    simp only [contributions, List.forall_mem_flatMap, List.forall_mem_singleton]
    rfl
  rw [through, through, contributions_of_calls same fun _ _ _ _ => rfl]

/-- The same frame with another value in the stack slot of `done`. -/
def Frame.shift (frame : Frame) : Frame := { frame with done := frame.done + 1 }

def Var.shift (value : Var) : Var :=
  if value.assigned then value else .indeterminate (value.value + 1)

theorem returned_shift (sink : Sink) (frame : Frame) (call : Call libc) :
    Call.returned sink (frame.shift, call) = (Call.returned sink (frame, call)).map Var.shift := by
  have level : ∀ level body, Level.value libc level frame.shift sink.isLog body =
      (level.value libc frame sink.isLog body).shift := by
    intro level body
    cases sink <;> cases level <;>
      simp [Level.value, Sink.isLog, Level.done, Var.shift, Var.set, Var.indeterminate, Frame.shift]
  cases call with
  | initLogger logType => rfl
  | log named format arg =>
      cases rendered : vprintf libc.convert format.bytes arg with
      | none => simp [Call.returned, rendered]
      | some body => simp [Call.returned, rendered, level]

theorem contributions_shift (calls : List (Frame × Call libc)) :
    contributions Call.returned (calls.map fun call => (call.1.shift, call.2)) =
      (contributions Call.returned calls).map Var.shift := by
  induction calls using List.reverseRecOn with
  | nil => rfl
  | append_singleton before call ih =>
      have shifted : selected (before.map fun call => (call.1.shift, call.2)) = selected before :=
        selected_of_calls (by simp)
      rw [List.map_append, List.map_singleton, contributions_concat, contributions_concat, ih,
        returned_shift, List.map_append, shifted]

/-! ## Whole runs -/

theorem assigned_iff_assigning {calls : List (Frame × Call libc)}
    (sound : ∀ call ∈ calls, Call.Sound call) :
    (∀ value ∈ contributions Call.returned calls, value.assigned = true) ↔ Assigning calls := by
  simp only [contributions, List.forall_mem_flatMap, Assigning]
  refine forall₂_congr fun entry member => ?_
  exact (sound entry.1 (List.fst_mem_of_mem_zipIdx member)).returned_assigned_iff _

/-- A run that assigns all its values returns those due. -/
theorem returned_of_assigning {calls : List (Frame × Call libc)} (assigning : Assigning calls) :
    contributions Call.returned calls =
      contributions (fun sink call => call.2.due 0 sink) calls :=
  List.flatMap_congr fun entry member => returned_eq_due (assigning entry member)

theorem returned_of_calls {first second : List (Frame × Call libc)}
    (same : first.map Prod.snd = second.map Prod.snd) (assigning : Assigning second) :
    contributions Call.returned first = contributions Call.returned second := by
  rw [returned_of_assigning assigning,
    returned_of_assigning ((assigning_of_calls same).mpr assigning)]
  exact contributions_of_calls same fun _ _ _ _ => rfl

theorem returned_due_iff {calls : List (Frame × Call libc)}
    (sound : ∀ call ∈ calls, Call.Sound call) :
    (∃ common, contributions Call.returned calls =
        contributions (fun sink call => call.2.due common sink) calls) ↔ Assigning calls := by
  constructor
  · rintro ⟨common, equal⟩
    rw [← assigned_iff_assigning sound, equal]
    simp only [contributions, List.forall_mem_flatMap]
    exact fun entry _ => due_assigned common _ entry.1.2
  · exact fun assigning => ⟨0, returned_of_assigning assigning⟩

/-- What a call meets apart from the stack. -/
def Call.offStack (call : Frame × Call libc) : (Nat → Bytes) × Call libc :=
  (call.1.malloc, call.2)

theorem Call.Sound.of_offStack {first second : Frame × Call libc}
    (same : Call.offStack second = Call.offStack first) (sound : Call.Sound first) :
    Call.Sound second := by
  obtain ⟨⟨malloc, size_le, done⟩, call⟩ := first
  obtain ⟨⟨malloc', size_le', done'⟩, call'⟩ := second
  cases same
  exact sound

section Stack

variable {first second : List (Frame × Call libc)}

theorem calls_of_offStack (same : second.map Call.offStack = first.map Call.offStack) :
    second.map Prod.snd = first.map Prod.snd := by
  have calls := congrArg (List.map Prod.snd) same
  rwa [List.map_map, List.map_map] at calls

/-- Replacing the contents of the stack leaves the calls of a run sound. -/
theorem sound_of_offStack (same : second.map Call.offStack = first.map Call.offStack)
    (sound : ∀ call ∈ first, Call.Sound call) : ∀ call ∈ second, Call.Sound call := by
  intro call member
  have among : Call.offStack call ∈ first.map Call.offStack :=
    same ▸ List.mem_map_of_mem member
  obtain ⟨other, member', equal⟩ := List.mem_map.mp among
  exact (sound other member').of_offStack equal.symm

end Stack

/-- The values of a run are the same for every content of the stack exactly when all of
them are assigned. -/
theorem independent_iff {calls : List (Frame × Call libc)}
    (sound : ∀ call ∈ calls, Call.Sound call) :
    (∀ others : List (Frame × Call libc), others.map Call.offStack = calls.map Call.offStack →
        ∃ world, run others = .ok world ∧
          world.returned = contributions Call.returned calls) ↔ Assigning calls := by
  constructor
  · intro independent
    have same : (calls.map fun call => (call.1.shift, call.2)).map Call.offStack =
        calls.map Call.offStack := by
      rw [List.map_map]
      rfl
    obtain ⟨world, reached, equal⟩ := independent _ same
    rw [run_eq (sound_of_offStack same sound), Except.ok.injEq] at reached
    subst reached
    rw [contributions_shift] at equal
    rw [← assigned_iff_assigning sound]
    intro value member
    have kept : value.shift = value :=
      List.map_inj_left.mp (equal.trans (List.map_id _).symm) value member
    by_contra unassigned
    have different := congrArg Var.value kept
    simp only [Var.shift, unassigned, if_false, Var.indeterminate] at different
    omega
  · intro assigning others same
    exact ⟨_, run_eq (sound_of_offStack same sound),
      returned_of_calls (calls_of_offStack same) assigning⟩

/-- For runs of sound calls: on each format that is sound at every level the levels agree in
the state a run reaches exactly when stdout is selected there; and the values of the run are
all assigned, are those due, and are the same for every content of the stack, exactly when
each log call is made while stdout is selected or to `warnf`. -/
theorem run_returns_iff (calls : List (Frame × Call libc))
    (sound : ∀ call ∈ calls, Call.Sound call) :
    ∃ world, run calls = .ok world ∧
      (∀ format arg body frames, vprintf libc.convert format.bytes arg = some body →
        (∀ level : Level, level.Fits format ∧ level.Room (frames level) format) →
        (LevelsAgree world format arg body frames ↔ selected calls = .stdout)) ∧
      ((∀ value ∈ world.returned, value.assigned = true) ↔ Assigning calls) ∧
      ((∃ common, world.returned =
          contributions (fun sink call => call.2.due common sink) calls) ↔ Assigning calls) ∧
      ((∀ others : List (Frame × Call libc),
          others.map Call.offStack = calls.map Call.offStack →
          ∃ world', run others = .ok world' ∧ world'.returned = world.returned) ↔
        Assigning calls) := by
  refine ⟨_, run_eq sound, ?_, assigned_iff_assigning sound, returned_due_iff sound,
    independent_iff sound⟩
  intro format arg body frames rendered levels
  rw [levelsAgree_iff rendered levels]
  cases selected calls <;> simp [Sink.isLog]

theorem sampleRun_levels_disagree :
    ∃ world, run sampleRun = .ok world ∧
      ¬ LevelsAgree world ⟨bytes "x", by decide⟩ [] ⟨bytes "x", []⟩ (fun _ => spareFrame) ∧
      ¬ ∀ value ∈ world.returned, value.assigned = true := by
  obtain ⟨world, reached, agree, assigned, -⟩ := run_returns_iff sampleRun fun call member =>
    (sampleRun_proper call member).sound
  refine ⟨world, reached, fun uniform => ?_, mt assigned.mp (by decide)⟩
  have fits : ∀ level : Level, level.Fits ⟨bytes "x", by decide⟩ := by
    intro level
    cases level <;> decide
  have stdout := (agree _ _ _ _ rfl fun level =>
    ⟨fits level, spareFrame_roomy.room level _⟩).mp uniform
  exact absurd stdout (by decide)

/-- The first two calls of the repository's syslog test. -/
def syslogTest (garbage : Int) : List (Frame × Call smallLibc) :=
  [({ spareFrame with done := garbage }, .initLogger syslogType),
    ({ spareFrame with done := garbage },
      .log .info ⟨bytes "INFO Message %d", by decide⟩ [.int 1])]

theorem syslogTest_sound (garbage : Int) : ∀ call ∈ syslogTest garbage, Call.Sound call := by
  have roomy : Frame.Roomy { spareFrame with done := garbage } := spareFrame_roomy
  simp only [syslogTest, List.forall_mem_cons]
  refine ⟨?_, ?_, fun call member => absurd member List.not_mem_nil⟩
  · exact (Call.Proper.of_initLogger roomy _).sound
  · exact (Call.Proper.of_log roomy ⟨_, rfl⟩ (by decide)).sound

/-- There `infof` returns whatever its stack slot held. -/
theorem syslogTest_returns_garbage :
    (run (syslogTest 0)).map World.returned = .ok [⟨0, true⟩, ⟨0, false⟩] ∧
      (run (syslogTest 7)).map World.returned = .ok [⟨0, true⟩, ⟨7, false⟩] := by
  rw [run_eq (syslogTest_sound 0), run_eq (syslogTest_sound 7)]
  exact ⟨rfl, rfl⟩

end ApLabs.Logger
