import ApLabs.Chat.Control

/-!
# What the broadcaster processed

The events of one connection reach the broadcaster in the order of its handler's
sends.  Together with the control points this determines who is registered at each
position of the log, hence which posts are addressed to whom.
-/

namespace ApLabs.Chat

open ApLabs.Foundation.CMemory
open ApLabs.Foundation.SessionLog
open ApLabs.Foundation.Transition
open ApLabs.Foundation.Transition.System

/-! ## The script of a connection -/

/-- What the lines scanned so far are at each point of a handler. -/
def Handler.Reads (input : List Bytes) : Handler → Prop
  | .absent | .start | .greet | .arrive | .enter => input = []
  | .say text => input.getLast? = some text
  | .scan | .leave | .depart | .close | .done => True

namespace Session

def post (c : Conn) (session : Session) (notice : Notice) : Event Conn Post :=
  .post ⟨c, session.who, notice⟩

def entered (c : Conn) (session : Session) (input : List Bytes) : List (Event Conn Post) :=
  session.post c .arrived :: .join c :: input.map fun text => session.post c (.line text)

/-- All that a connection does, if the lines scanned so far are all its input. -/
def script (c : Conn) (session : Session) : List (Event Conn Post) :=
  session.entered c session.input ++ [.leave c, session.post c .left]

/-- The part of the script that lies behind the handler's point. -/
def processed (c : Conn) (session : Session) : List (Event Conn Post) :=
  match session.handler with
  | .absent | .start | .greet | .arrive => []
  | .enter => [session.post c .arrived]
  | .scan | .leave => session.entered c session.input
  | .say _ => session.entered c session.input.dropLast
  | .depart => session.entered c session.input ++ [.leave c]
  | .close | .done => session.script c

/-- The log and the lines scanned agree with the handler's point. -/
structure Scripted (c : Conn) (log : List (Event Conn Post)) (session : Session) : Prop where
  events : eventsOf Post.origin c log = session.processed c
  reads : session.handler.Reads session.input

theorem entered_mono (c : Conn) (session : Session) {first input : List Bytes}
    (earlier : first <+: input) : session.entered c first <+: session.entered c input := by
  obtain ⟨rest, rfl⟩ := earlier
  rw [entered, entered, List.map_append]
  exact ⟨_, rfl⟩

theorem entered_concat (c : Conn) (session : Session) (input : List Bytes) (text : Bytes) :
    session.entered c (input ++ [text]) =
      session.entered c input ++ [session.post c (.line text)] := by
  simp [entered]

theorem script_extends (c : Conn) (session : Session) :
    session.processed c <+: session.script c := by
  unfold processed
  cases session.handler with
  | absent | start | greet | arrive => exact List.nil_prefix
  | enter => exact ⟨_, rfl⟩
  | scan | leave => exact List.prefix_append _ _
  | say text =>
      apply List.IsPrefix.trans _ (List.prefix_append _ _)
      exact session.entered_mono c (List.dropLast_prefix session.input)
  | depart => exact ⟨[session.post c .left], by simp [script]⟩
  | close | done => exact List.prefix_rfl

theorem present_entered (c : Conn) (session : Session) (input : List Bytes) :
    Present c (session.entered c input) := by
  simp [Present, entered, post]

/-- A handler is registered while it scans, sends a line and prepares to leave. -/
theorem present_processed (c : Conn) (session : Session) :
    Present c (session.processed c) ↔
      session.handler = .scan ∨ (∃ text, session.handler = .say text) ∨
        session.handler = .leave := by
  unfold processed
  cases session.handler with
  | absent | start | greet | arrive | enter => simp [Present, post]
  | scan | say text | leave => simp [present_entered]
  | depart | close | done => simp [Present, script]

/-- The notice that a handler waits to send comes next in its script. -/
theorem Scripted.resume {c : Conn} {log : List (Event Conn Post)} {session : Session}
    {notice : Notice} (scripted : session.Scripted c log)
    (waits : session.handler.notice? = some notice) :
    ({ session with handler := notice.resume } : Session).processed c =
        session.processed c ++ [session.post c notice] ∧
      notice.resume.Reads session.input := by
  have point := Handler.point_of_notice waits
  have reads := scripted.reads
  rw [point] at reads
  cases notice with
  | arrived =>
      constructor
      · simp [processed, point, Notice.point, Notice.resume, post]
      · exact reads
  | line text =>
      have input := List.dropLast_append_getLast? text reads
      constructor
      · simp only [processed, point, Notice.point, Notice.resume]
        rw [← entered_concat, input]
        rfl
      · trivial
  | left =>
      constructor
      · simp [processed, point, Notice.point, Notice.resume, post, script, entered]
      · trivial

end Session

variable {s : Server}

/-! ## Every connection follows its script -/

def Scripts (s : Server) : Prop :=
  ∀ c, (s.sessions c).Scripted c s.log

namespace Scripts

theorem set {c : Conn} {session : Session} (scripts : Scripts s)
    (own : session.Scripted c s.log) : Scripts (s.set c session) := by
  apply (Function.forall_update_iff s.sessions fun d session => session.Scripted d s.log).mpr
  constructor
  · exact own
  · exact fun d other => scripts d

/-- A step that leaves the handler where it is leaves the script where it is. -/
theorem keep {c : Conn} {session : Session} (scripts : Scripts s)
    (who : session.who = (s.sessions c).who) (handler : session.handler = (s.sessions c).handler)
    (input : session.input = (s.sessions c).input) : Scripts (s.set c session) := by
  apply scripts.set
  obtain ⟨events, reads⟩ := scripts c
  constructor
  · rw [events]
    unfold Session.processed Session.script Session.entered Session.post
    rw [who, handler, input]
  · rw [handler, input]
    exact reads

/-- A step of the handler alone leaves the log, and what is processed, as they are. -/
theorem move {c : Conn} {session : Session} (scripts : Scripts s)
    (events : session.processed c = (s.sessions c).processed c)
    (reads : session.handler.Reads session.input) : Scripts (s.set c session) :=
  scripts.set ⟨(scripts c).events.trans events.symm, reads⟩

/-- A step that the broadcaster takes with one handler extends the log by an event of
that handler. -/
theorem record (scripts : Scripts s) (c : Conn) {event : Event Conn Post} {session : Session}
    {after : Server} (own : event.by Post.origin = c) (log : after.log = s.log ++ [event])
    (sessions : after.sessions = Function.update s.sessions c session)
    (events : session.processed c = (s.sessions c).processed c ++ [event])
    (reads : session.handler.Reads session.input) : Scripts after := by
  intro d
  rw [sessions, log]
  rcases eq_or_ne d c with rfl | other
  · rw [Function.update_self]
    refine ⟨?_, reads⟩
    rw [eventsOf_concat, if_pos own, (scripts d).events, events]
  · rw [Function.update_of_ne other]
    obtain ⟨earlier, reads⟩ := scripts d
    refine ⟨?_, reads⟩
    rw [eventsOf_concat, if_neg (own.trans_ne other.symm), List.append_nil, earlier]

theorem next {label : Label} (control : Control s) (scripts : Scripts s)
    (enabled : s.Enabled label) : Scripts (s.next label) := by
  obtain ⟨running, ready⟩ := enabled
  cases label with
  | accept addr =>
      refine scripts.move ?_ rfl
      simp only [Session.processed, control.fresh]
  | acceptError => exact scripts
  | spawn c =>
      have reads := (scripts c).reads
      rw [ready] at reads
      refine scripts.move ?_ reads
      simp only [Session.processed, show (s.sessions c).handler = .start from ready]
  | greet c =>
      have reads := (scripts c).reads
      rw [ready.1] at reads
      refine scripts.move ?_ reads
      simp only [Session.processed, ready.1]
  | post c notice =>
      obtain ⟨events, reads⟩ := (scripts c).resume ready.2
      exact scripts.record c rfl rfl rfl events reads
  | enter c =>
      have reads := (scripts c).reads
      rw [ready.2] at reads
      have unread : (s.sessions c).input = [] := reads
      refine scripts.record c rfl rfl rfl ?_ trivial
      simp [Session.processed, ready.2, Session.entered, Session.post, unread]
  | scanLine c text =>
      have scanning : (s.sessions c).handler = .scan := ready
      refine scripts.move ?_ List.getLast?_concat
      simp only [Session.processed, scanning, List.dropLast_concat]
      rfl
  | scanEnd c =>
      have scanning : (s.sessions c).handler = .scan := ready
      refine scripts.move ?_ trivial
      simp only [Session.processed, scanning]
      rfl
  | leave c =>
      refine scripts.record c rfl rfl rfl ?_ trivial
      simp only [Session.processed, ready.2]
      rfl
  | connClose c =>
      have closing : (s.sessions c).handler = .close := ready
      refine scripts.move ?_ trivial
      simp only [Session.processed, closing]
      rfl
  | pick msg cli rest => exact scripts
  | deliver msg cli rest => exact scripts.keep rfl rfl rfl
  | rangeDone msg => exact scripts
  | closeChan cli => exact scripts.keep rfl rfl rfl
  | writerStart c => exact scripts.keep rfl rfl rfl
  | write c msg =>
      obtain ⟨written, dropped, wrote⟩ := (s.sessions c).fprintln_eq msg
      rw [Server.next, wrote]
      exact scripts.keep rfl rfl rfl
  | writerDone c => exact scripts.keep rfl rfl rfl
  | greetPanic c => exact scripts
  | deliverPanic msg cli rest => exact scripts
  | closePanic cli => exact scripts

end Scripts

theorem scripts_of_reachable (reachable : server.Reachable s) : Scripts s :=
  reachable.induct_known (fun _ => control_of_reachable) (fun _ => ⟨rfl, rfl⟩)
    fun _ _ control scripts enabled => scripts.next control enabled

end ApLabs.Chat
