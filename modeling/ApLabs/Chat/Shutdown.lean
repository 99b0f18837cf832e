import ApLabs.Chat.Control

/-!
# What is written before a connection is closed

The handler closes its connection without waiting for its writer.  By then the
channel is closed, so the writer receives nothing more, but the message it received
last may still be in its hands.
-/

namespace ApLabs.Chat

open ApLabs.Foundation.CMemory
open ApLabs.Foundation.Transition
open ApLabs.Foundation.Transition.System

/-- The message whose `Fprintln` has not returned. -/
def Writer.inHand : Writer → List Message
  | .write msg => [msg]
  | .unborn | .start | .receive | .done => []

/-- Every message received is written, dropped or in the writer's hands, and at most
one of them escapes the close. -/
structure Session.Accounted (session : Session) : Prop where
  received : session.received = session.written ++ session.dropped ++ session.writer.inHand
  opened : session.closed = false → session.dropped = []
  shut : session.closed = true → (session.dropped ++ session.writer.inHand).length ≤ 1
  closed : session.closed = true → session.handler = .done

/-- A returned write leaves the writer's hands for what is written or dropped. -/
theorem Session.Accounted.fprintln {session : Session} {msg : Message}
    (accounted : session.Accounted) (writes : session.writer = .write msg) :
    (session.fprintln msg).Accounted := by
  obtain ⟨received, opened, shut, closed⟩ := accounted
  rw [writes, Writer.inHand] at received shut
  unfold Session.fprintln
  split
  next closing =>
    refine ⟨?_, ?_, ?_, closed⟩
    · simpa [Writer.inHand] using received
    · exact fun running => absurd (running.symm.trans closing) nofun
    · simpa [Writer.inHand] using shut
  next running =>
    refine ⟨?_, opened, fun closing => absurd closing running, closed⟩
    simpa [Writer.inHand, opened (Bool.not_eq_true _ ▸ running)] using received

variable {s : Server}

def Accounted (s : Server) : Prop :=
  ∀ c, (s.sessions c).Accounted

namespace Accounted

theorem update {after : Server} {c : Conn} {session : Session} (accounted : Accounted s)
    (sessions : after.sessions = Function.update s.sessions c session)
    (own : session.Accounted) : Accounted after := by
  unfold Accounted
  rw [sessions]
  apply (Function.forall_update_iff s.sessions fun _ session => session.Accounted).mpr
  constructor
  · exact own
  · exact fun d other => accounted d

/-- A session is open until its handler is done. -/
theorem opened {c : Conn} (accounted : Accounted s) (busy : (s.sessions c).handler ≠ .done) :
    (s.sessions c).closed = false := by
  rw [← Bool.not_eq_true]
  exact fun closed => busy ((accounted c).closed closed)

/-- A step that leaves the messages and the writer's hands as they are. -/
theorem move {after : Server} {c : Conn} {handler : Handler} {ch : Channel} {writer : Writer}
    {input : List Bytes} (accounted : Accounted s)
    (sessions : after.sessions = Function.update s.sessions c
      { s.sessions c with handler := handler, ch := ch, writer := writer, input := input })
    (hand : writer.inHand = (s.sessions c).writer.inHand)
    (done : (s.sessions c).handler = .done → handler = .done) : Accounted after := by
  obtain ⟨received, opened, shut, closed⟩ := accounted c
  rw [← hand] at received shut
  exact accounted.update sessions ⟨received, opened, shut, fun closing => done (closed closing)⟩

/-- A message that an open session receives goes to its writer's hands. -/
theorem receive {after : Server} {c : Conn} {handler : Handler} {msg : Message}
    (accounted : Accounted s)
    (sessions : after.sessions = Function.update s.sessions c
      { s.sessions c with
        handler := handler
        writer := .write msg
        received := (s.sessions c).received ++ [msg] })
    (waits : (s.sessions c).writer = .receive) (busy : (s.sessions c).handler ≠ .done) :
    Accounted after := by
  have running := accounted.opened busy
  obtain ⟨received, opened, shut, closed⟩ := accounted c
  rw [waits, Writer.inHand, List.append_nil] at received
  refine accounted.update sessions ⟨?_, opened, ?_, ?_⟩
  · rw [received]
    rfl
  · intro closing
    exact absurd (running.symm.trans closing) nofun
  · intro closing
    exact absurd (running.symm.trans closing) nofun

theorem set {c : Conn} {session : Session} (accounted : Accounted s)
    (own : session.Accounted) : Accounted (s.set c session) :=
  accounted.update rfl own

theorem next {label : Label} (control : Control s) (accounted : Accounted s)
    (enabled : s.Enabled label) : Accounted (s.next label) := by
  obtain ⟨running, ready⟩ := enabled
  cases label with
  | accept addr =>
      exact accounted.update rfl ⟨rfl, fun _ => rfl, nofun, nofun⟩
  | acceptError => exact accounted
  | spawn c =>
      obtain ⟨handler, writer⟩ := control.session c
      have starting : (s.sessions c).handler = .start := ready
      rw [starting] at handler
      refine accounted.move rfl ?_ fun done => absurd (starting.symm.trans done) nofun
      cases point : (s.sessions c).writer with
      | write msg =>
          rw [point] at writer
          exact absurd handler.2.2.2 writer.1
      | unborn | start | receive | done => rfl
  | greet c => exact accounted.receive rfl ready.2.2 (ready.1.trans_ne nofun)
  | post c notice =>
      exact accounted.move rfl rfl fun done => absurd done (Handler.busy_of_notice ready.2)
  | enter c => exact accounted.move rfl rfl fun done => absurd (ready.2.symm.trans done) nofun
  | scanLine c text => exact accounted.move rfl rfl fun done => absurd (ready.symm.trans done) nofun
  | scanEnd c => exact accounted.move rfl rfl fun done => absurd (ready.symm.trans done) nofun
  | leave c => exact accounted.move rfl rfl fun done => absurd (ready.2.symm.trans done) nofun
  | connClose c =>
      have running := accounted.opened (Eq.trans_ne ready nofun)
      obtain ⟨received, opened, shut, closed⟩ := accounted c
      refine accounted.set ⟨received, fun _ => opened running, ?_, fun _ => rfl⟩
      intro closing
      rw [opened running, List.nil_append]
      cases (s.sessions c).writer <;> simp [Writer.inHand]
  | pick msg cli rest => exact accounted
  | deliver msg cli rest =>
      exact accounted.receive rfl ready.2.2 (control.busy (control.sending ready.1).1)
  | rangeDone msg => exact accounted
  | closeChan cli => exact accounted.move rfl rfl id
  | writerStart c =>
      have starting : (s.sessions c).writer = .start := ready
      exact accounted.move rfl (by rw [starting]; rfl) id
  | write c msg => exact accounted.set ((accounted c).fprintln ready)
  | writerDone c => exact accounted.move rfl (by rw [ready.1]; rfl) id
  | greetPanic c => exact accounted
  | deliverPanic msg cli rest => exact accounted
  | closePanic cli => exact accounted

end Accounted

theorem accounted_of_reachable (reachable : server.Reachable s) : Accounted s :=
  reachable.induct_known (fun _ => control_of_reachable)
    (fun _ => ⟨rfl, fun _ => rfl, nofun, nofun⟩)
    fun _ _ control accounted enabled => accounted.next control enabled

/-! ## After the close -/

/-- The session that a step of another one, or of the writer alone, leaves behind. -/
structure Session.Kept (before after : Session) : Prop where
  closed : after.closed = before.closed
  received : after.received = before.received
  written : after.written = before.written

/-- A step after the close neither receives nor writes. -/
theorem Accounted.closed_next {label : Label} {c : Conn} (accounted : Accounted s)
    (control : Control s) (closed : (s.sessions c).closed = true) (enabled : s.Enabled label) :
    (s.sessions c).Kept ((s.next label).sessions c) := by
  have done := (accounted c).closed closed
  have others : ∀ {after : Server} {d : Conn} {session : Session},
      after.sessions = Function.update s.sessions d session → d ≠ c →
      (s.sessions c).Kept (after.sessions c) := by
    intro after d session sessions other
    rw [sessions, Function.update_of_ne other.symm]
    exact ⟨rfl, rfl, rfl⟩
  have elsewhere : ∀ {d : Conn} {handler : Handler}, (s.sessions d).handler = handler →
      handler ≠ .done → d ≠ c := by
    rintro d handler point busy rfl
    exact busy (point.symm.trans done)
  obtain ⟨running, ready⟩ := enabled
  cases label with
  | accept addr => exact others rfl (elsewhere control.fresh nofun)
  | spawn d => exact others rfl (elsewhere ready nofun)
  | greet d => exact others rfl (elsewhere ready.1 nofun)
  | post d notice =>
      exact others rfl (elsewhere rfl (Handler.busy_of_notice ready.2))
  | enter d => exact others rfl (elsewhere ready.2 nofun)
  | scanLine d text => exact others rfl (elsewhere ready nofun)
  | scanEnd d => exact others rfl (elsewhere ready nofun)
  | leave d => exact others rfl (elsewhere ready.2 nofun)
  | connClose d => exact others rfl (elsewhere ready nofun)
  | deliver msg cli rest =>
      exact others rfl (elsewhere rfl (control.busy (control.sending ready.1).1))
  | write d msg =>
      rcases eq_or_ne d c with rfl | other
      · have wrote : (s.next (.write d msg)).sessions d = (s.sessions d).fprintln msg :=
          Function.update_self ..
        rw [wrote, Session.fprintln, if_pos closed]
        exact ⟨rfl, rfl, rfl⟩
      · exact others rfl other
  | closeChan d | writerStart d | writerDone d =>
      rcases eq_or_ne d c with rfl | other
      · constructor <;> simp [Server.next]
      · exact others rfl other
  | acceptError | pick _ _ _ | rangeDone _ => exact ⟨rfl, rfl, rfl⟩
  | greetPanic _ | deliverPanic _ _ _ | closePanic _ => exact ⟨rfl, rfl, rfl⟩

/-- Until a connection is closed nothing sent to it is dropped.  When it is closed,
every message received is written but possibly the last one; from then on nothing
more is received or written, and at most that message is dropped. -/
theorem reachable_written (reachable : server.Reachable s) (c : Conn) :
    ((s.sessions c).closed = false → (s.sessions c).dropped = []) ∧
    ((s.sessions c).closed = true →
      ((s.sessions c).received = (s.sessions c).written ∨
        ∃ last, (s.sessions c).received = (s.sessions c).written ++ [last]) ∧
      ∀ after, server.Leads s after →
        (after.sessions c).received = (s.sessions c).received ∧
          (after.sessions c).written = (s.sessions c).written ∧
          (s.sessions c).written ++ (after.sessions c).dropped <+: (s.sessions c).received) := by
  have accounted := accounted_of_reachable reachable
  refine ⟨(accounted c).opened, fun closed => ⟨?_, ?_⟩⟩
  · obtain ⟨received, opened, shut, done⟩ := accounted c
    rw [List.append_assoc] at received
    cases rest : (s.sessions c).dropped ++ (s.sessions c).writer.inHand with
    | nil =>
        rw [rest, List.append_nil] at received
        exact Or.inl received
    | cons last others =>
        have single := shut closed
        rw [rest, List.length_cons, Nat.succ_le_succ_iff, Nat.le_zero, List.length_eq_zero_iff]
          at single
        rw [rest, single] at received
        exact Or.inr ⟨last, received⟩
  · intro after leads
    have kept : (s.sessions c).Kept (after.sessions c) := by
      refine leads.induct_known reachable (fun state => (s.sessions c).Kept (state.sessions c))
        (fun _ reachable => And.intro (control_of_reachable reachable)
          (accounted_of_reachable reachable)) ⟨rfl, rfl, rfl⟩ ?_
      intro state label known kept enabled
      have step := known.2.closed_next known.1 (kept.closed.trans closed) enabled
      exact ⟨step.closed.trans kept.closed, step.received.trans kept.received,
        step.written.trans kept.written⟩
    refine ⟨kept.received, kept.written, ?_⟩
    have received := (accounted_of_reachable (reachable.leads leads) c).received
    rw [kept.received, kept.written] at received
    exact ⟨_, received.symm⟩

/-- A client that says goodbye, closes its sending side and goes on reading. -/
def goodbyeRun : List Label :=
  let arrived := Message.post 0 ⟨0, bytes "alice", .arrived⟩
  let bye := Message.post 2 ⟨0, bytes "alice", .line (bytes "bye")⟩
  [.accept (bytes "alice"), .spawn 0, .writerStart 0, .greet 0,
    .write 0 (.greeting (bytes "alice")), .post 0 .arrived, .rangeDone arrived, .enter 0,
    .scanLine 0 (bytes "bye"), .post 0 (.line (bytes "bye")), .pick bye 0 {0}, .deliver bye 0 ∅,
    .rangeDone bye, .scanEnd 0, .leave 0, .closeChan 0, .post 0 .left,
    .rangeDone (.post 4 ⟨0, bytes "alice", .left⟩), .connClose 0]

/-- The write of its echoed line, which the writer still has in its hands. -/
def lateWrite : List Label :=
  [.write 0 (.post 2 ⟨0, bytes "alice", .line (bytes "bye")⟩)]

def goodbyeState : Server := server.after .initial goodbyeRun

theorem goodbyeState_written :
    ((server.after goodbyeState lateWrite).sessions 0).written =
      (goodbyeState.sessions 0).written :=
  (((reachable_written (s := goodbyeState) (Runs.leads (by decide)) 0).2 (by decide)).2
    (server.after goodbyeState lateWrite) (Runs.leads (by decide))).2.1

/-- The echo is received before the close and written after it. -/
theorem goodbyeState_drops_last_line :
    server.Runs .initial (goodbyeRun ++ lateWrite) ∧
      (goodbyeState.sessions 0).closed = true ∧
      (goodbyeState.sessions 0).received =
        [.greeting (bytes "alice"), .post 2 ⟨0, bytes "alice", .line (bytes "bye")⟩] ∧
      (goodbyeState.sessions 0).written = [.greeting (bytes "alice")] ∧
      ((server.after goodbyeState lateWrite).sessions 0).dropped =
        [.post 2 ⟨0, bytes "alice", .line (bytes "bye")⟩] := by
  decide

end ApLabs.Chat
