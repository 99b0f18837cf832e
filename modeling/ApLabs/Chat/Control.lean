import ApLabs.Chat.Server

/-!
# The control points of the chat server

One invariant ties the point of every handler to its channel, to the clients map
and to its writer.  It holds in every reachable state, excludes the channel panics
and names an enabled step whenever a goroutine of the protocol waits.
-/

namespace ApLabs.Chat

open ApLabs.Foundation.CMemory
open ApLabs.Foundation.SessionLog
open ApLabs.Foundation.Transition
open ApLabs.Foundation.Transition.System

/-! ## The invariant -/

/-- What holds of a handler's channel and registration at each of its points. -/
@[simp] def Handler.Fits (ch : Channel) (fresh registered closing : Prop) : Handler → Prop
  | .absent => fresh ∧ ¬ registered ∧ ¬ closing ∧ ch = .unmade
  | .start => ¬ fresh ∧ ¬ registered ∧ ¬ closing ∧ ch = .unmade
  | .greet | .arrive | .enter => ¬ fresh ∧ ¬ registered ∧ ¬ closing ∧ ch = .opened
  | .scan | .say _ | .leave => ¬ fresh ∧ registered ∧ ¬ closing ∧ ch = .opened
  | .depart => ¬ fresh ∧ ¬ registered ∧ (closing ∧ ch = .opened ∨ ¬ closing ∧ ch = .closed)
  | .close | .done => ¬ fresh ∧ ¬ registered ∧ ¬ closing ∧ ch = .closed

/-- What holds of a writer's channel and handler at each of its points. -/
@[simp] def Writer.Fits (ch : Channel) (handler : Handler) : Writer → Prop
  | .unborn => ch = .unmade
  | .start => handler = .greet
  | .receive => ch ≠ .unmade
  | .write _ => ch ≠ .unmade ∧ handler ≠ .greet
  | .done => ch = .closed

/-- The clients that a broadcast has still to reach are registered. -/
@[simp] def Broadcaster.Fits (clients : Finset Conn) : Broadcaster → Prop
  | .select | .closing _ => True
  | .range _ rest => rest ⊆ clients
  | .send _ cli rest => cli ∈ clients ∧ cli ∉ rest ∧ rest ⊆ clients

structure Session.Fits (session : Session) (fresh registered closing : Prop) : Prop where
  handler : session.handler.Fits session.ch fresh registered closing
  writer : session.writer.Fits session.ch session.handler

structure Control (s : Server) : Prop where
  running : s.panicked = false
  session : ∀ c, (s.sessions c).Fits (s.accepted ≤ c) (c ∈ s.clients) (s.broadcaster = .closing c)
  broadcaster : s.broadcaster.Fits s.clients

theorem control_initial : Control .initial := by
  refine ⟨rfl, fun c => ⟨?_, rfl⟩, trivial⟩
  simp [Server.initial, Session.unused]

variable {s : Server}

/-! ## Steps -/

/-- A step that touches one session keeps the invariant of all others. -/
theorem Control.update {after : Server} (control : Control s) (c : Conn)
    (running : after.panicked = false)
    (others : ∀ d, d ≠ c → after.sessions d = s.sessions d ∧
      (after.accepted ≤ d ↔ s.accepted ≤ d) ∧ (d ∈ after.clients ↔ d ∈ s.clients) ∧
      (after.broadcaster = .closing d ↔ s.broadcaster = .closing d))
    (own : (after.sessions c).Fits (after.accepted ≤ c) (c ∈ after.clients)
      (after.broadcaster = .closing c))
    (broadcaster : after.broadcaster.Fits after.clients) : Control after := by
  refine ⟨running, ?_, broadcaster⟩
  intro d
  rcases eq_or_ne d c with rfl | other
  · exact own
  · obtain ⟨session, fresh, registered, closing⟩ := others d other
    rw [session, fresh, registered, closing]
    exact control.session d

theorem Control.set {c : Conn} {session : Session} (control : Control s)
    (own : session.Fits (s.accepted ≤ c) (c ∈ s.clients) (s.broadcaster = .closing c)) :
    Control (s.set c session) := by
  refine control.update c control.running ?_ ?_ control.broadcaster
  · intro d other
    simp [other]
  · simpa using own

/-- Beyond the greeting a writer's point does not depend on its handler's. -/
theorem Writer.Fits.moved {ch : Channel} {handler after : Handler} {writer : Writer}
    (fits : writer.Fits ch handler) (greeted : handler ≠ .greet) (still : after ≠ .greet) :
    writer.Fits ch after := by
  cases writer with
  | start => exact absurd fits greeted
  | write msg => exact ⟨fits.1, still⟩
  | unborn | receive | done => exact fits

/-- A notice is taken at one of three points, and its handler goes on. -/
theorem Control.post_fits {c : Conn} {notice : Notice} (control : Control s)
    (select : s.broadcaster = .select)
    (waits : (s.sessions c).handler.notice? = some notice) :
    ({ s.sessions c with handler := notice.resume } : Session).Fits (s.accepted ≤ c)
      (c ∈ s.clients) False := by
  obtain ⟨handler, writer⟩ := control.session c
  rw [Handler.point_of_notice waits] at handler writer
  cases notice with
  | arrived | line text =>
      constructor
      · exact ⟨handler.1, handler.2.1, not_false, handler.2.2.2⟩
      · exact writer.moved nofun nofun
  | left =>
      constructor
      · simpa [Notice.resume, Notice.point, select] using handler
      · exact writer.moved nofun nofun

/-- A registered client's channel is open and its writer lives. -/
theorem Control.registered {c : Conn} (control : Control s) (member : c ∈ s.clients) :
    (s.sessions c).ch = .opened ∧
      ((s.sessions c).writer = .receive ∨ ∃ msg, (s.sessions c).writer = .write msg) := by
  obtain ⟨handler, writer⟩ := control.session c
  cases point : (s.sessions c).handler <;> rw [point] at handler writer <;> simp [member] at handler
  case scan | say | leave =>
    refine ⟨handler.2.2, ?_⟩
    cases at_ : (s.sessions c).writer with
    | receive => exact Or.inl rfl
    | write msg => exact Or.inr ⟨msg, rfl⟩
    | unborn | start | done =>
        rw [at_] at writer
        simp [handler.2.2] at writer

theorem Control.greeted {c : Conn} (control : Control s) (member : c ∈ s.clients) :
    (s.sessions c).handler ≠ .greet := by
  intro point
  have handler := (control.session c).handler
  rw [point] at handler
  exact handler.2.1 member

theorem Control.busy {c : Conn} (control : Control s) (member : c ∈ s.clients) :
    (s.sessions c).handler ≠ .done := by
  intro point
  have handler := (control.session c).handler
  rw [point] at handler
  exact handler.2.1 member

/-- A broadcast sends to a registered client, and only once. -/
theorem Control.sending {msg : Message} {cli : Conn} {rest : Finset Conn} (control : Control s)
    (sending : s.broadcaster = .send msg cli rest) :
    cli ∈ s.clients ∧ cli ∉ rest ∧ rest ⊆ s.clients := by
  have within := control.broadcaster
  rw [sending] at within
  exact within

/-- Only a departing handler's channel is being closed, and it is open until then. -/
theorem Control.closing {c : Conn} (control : Control s) (closing : s.broadcaster = .closing c) :
    (s.sessions c).handler = .depart ∧ (s.sessions c).ch = .opened ∧ c ∉ s.clients := by
  have handler := (control.session c).handler
  cases point : (s.sessions c).handler <;> rw [point] at handler <;> simp [closing] at handler
  case depart => exact ⟨rfl, handler.2.2, handler.2.1⟩

/-- The next connection's session has not been used. -/
theorem Control.fresh (control : Control s) : (s.sessions s.accepted).handler = .absent := by
  have handler := (control.session s.accepted).handler
  cases point : (s.sessions s.accepted).handler with
  | absent => rfl
  | _ =>
      rw [point] at handler
      exact absurd (Nat.le_refl _) handler.1

theorem Control.next {label : Label} (control : Control s) (enabled : s.Enabled label) :
    Control (s.next label) := by
  obtain ⟨running, ready⟩ := enabled
  cases label with
  | accept addr =>
      obtain ⟨handler, writer⟩ := control.session s.accepted
      refine control.update s.accepted running ?_ ⟨?_, ?_⟩ control.broadcaster
      · intro d other
        refine ⟨by simp [Server.next, other], ?_, Iff.rfl, Iff.rfl⟩
        exact Nat.succ_le_iff.trans (Nat.le_iff_lt_or_eq.trans (by simp [other.symm])).symm
      · rw [control.fresh] at handler
        simpa [Server.next, Session.unused] using And.intro handler.2.1 handler.2.2.1
      · simp [Server.next, Session.unused]
  | acceptError => exact control
  | spawn c =>
      obtain ⟨handler, writer⟩ := control.session c
      rw [ready] at handler
      apply control.set
      constructor
      · exact ⟨handler.1, handler.2.1, handler.2.2.1, rfl⟩
      · rfl
  | greet c =>
      obtain ⟨handler, writer⟩ := control.session c
      obtain ⟨point, opened, receives⟩ := ready
      rw [point] at handler
      apply control.set
      constructor
      · exact handler
      · simp [opened]
  | post c notice =>
      obtain ⟨select, waits⟩ := ready
      refine control.update c running ?_ ?_ (Finset.Subset.refl _)
      · intro d other
        simp [Server.next, other, select]
      · simpa [Server.next] using control.post_fits select waits
  | enter c =>
      obtain ⟨handler, writer⟩ := control.session c
      obtain ⟨select, point⟩ := ready
      rw [point] at handler writer
      have moved : (s.sessions c).writer.Fits (s.sessions c).ch .scan := writer.moved nofun nofun
      refine control.update c running ?_ ⟨?_, ?_⟩ ?_
      · intro d other
        simp [Server.next, other]
      · simpa [Server.next, select] using And.intro handler.1 handler.2.2.2
      · simpa [Server.next] using moved
      · simp [Server.next, select]
  | scanLine c text =>
      obtain ⟨handler, writer⟩ := control.session c
      rw [ready] at handler writer
      exact control.set ⟨handler, writer.moved nofun nofun⟩
  | scanEnd c =>
      obtain ⟨handler, writer⟩ := control.session c
      rw [ready] at handler writer
      exact control.set ⟨handler, writer.moved nofun nofun⟩
  | leave c =>
      obtain ⟨handler, writer⟩ := control.session c
      obtain ⟨select, point⟩ := ready
      rw [point] at handler writer
      have moved : (s.sessions c).writer.Fits (s.sessions c).ch .depart :=
        writer.moved nofun nofun
      refine control.update c running ?_ ⟨?_, ?_⟩ trivial
      · intro d other
        simp [Server.next, other, other.symm, select]
      · simpa [Server.next] using And.intro handler.1 handler.2.2.2
      · simpa [Server.next] using moved
  | connClose c =>
      obtain ⟨handler, writer⟩ := control.session c
      rw [ready] at handler writer
      exact control.set ⟨handler, writer.moved nofun nofun⟩
  | pick msg cli rest =>
      obtain ⟨ranging, member⟩ := ready
      have within := control.broadcaster
      rw [ranging] at within
      refine ⟨running, ?_, within member, by simp, ?_⟩
      · intro c
        simpa [Server.next, ranging] using control.session c
      · exact (Finset.erase_subset cli rest).trans within
  | deliver msg cli rest =>
      obtain ⟨sending, opened, receives⟩ := ready
      obtain ⟨member, once, within⟩ := control.sending sending
      have handler := (control.session cli).handler
      refine control.update cli running ?_ ⟨?_, ?_⟩ within
      · intro d other
        simp [Server.next, other, sending]
      · simpa [Server.next, sending] using handler
      · simpa [Server.next, opened] using control.greeted member
  | rangeDone msg =>
      refine ⟨running, ?_, trivial⟩
      intro c
      have ranging : s.broadcaster = .range msg ∅ := ready
      simpa [Server.next, ranging] using control.session c
  | closeChan cli =>
      obtain ⟨closing, opened⟩ := ready
      obtain ⟨handler, writer⟩ := control.session cli
      obtain ⟨point, -, absent⟩ := control.closing closing
      rw [point] at handler writer
      refine control.update cli running ?_ ⟨?_, ?_⟩ trivial
      · intro d other
        simp [Server.next, other, other.symm, closing]
      · simpa [Server.next, point] using And.intro handler.1 absent
      · cases at_ : (s.sessions cli).writer <;> rw [at_] at writer <;> simp_all [Server.next]
  | writerStart c =>
      obtain ⟨handler, writer⟩ := control.session c
      rw [ready] at writer
      refine control.set ⟨handler, ?_⟩
      rw [writer] at handler
      simp [handler.2.2.2]
  | write c msg =>
      obtain ⟨handler, writer⟩ := control.session c
      obtain ⟨written, dropped, wrote⟩ := (s.sessions c).fprintln_eq msg
      rw [ready] at writer
      apply control.set
      rw [wrote]
      exact ⟨handler, writer.1⟩
  | writerDone c =>
      obtain ⟨handler, writer⟩ := control.session c
      exact control.set ⟨handler, ready.2⟩
  | greetPanic c =>
      obtain ⟨handler, writer⟩ := control.session c
      rw [ready.1] at handler
      exact absurd (handler.2.2.2.symm.trans ready.2) nofun
  | deliverPanic msg cli rest =>
      have opened := (control.registered (control.sending ready.1).1).1
      exact absurd (opened.symm.trans ready.2) nofun
  | closePanic cli =>
      exact absurd ((control.closing ready.1).2.1.symm.trans ready.2) nofun

theorem control_of_reachable (reachable : server.Reachable s) : Control s :=
  reachable.induct control_initial fun _ _ control enabled => control.next enabled

/-! ## No channel panic -/

/-- Every registered channel is open, and neither a send nor a close ever meets a
closed channel. -/
theorem reachable_channels_safe (reachable : server.Reachable s) :
    s.panicked = false ∧
      (∀ c ∈ s.clients, (s.sessions c).ch = .opened) ∧
      (∀ c, (s.sessions c).handler = .greet → (s.sessions c).ch = .opened) ∧
      (∀ msg cli rest, s.broadcaster = .send msg cli rest → (s.sessions cli).ch = .opened) ∧
      (∀ cli, s.broadcaster = .closing cli → (s.sessions cli).ch = .opened) := by
  have control := control_of_reachable reachable
  refine ⟨control.running, fun c member => (control.registered member).1, ?_, ?_, ?_⟩
  · intro c point
    have handler := (control.session c).handler
    rw [point] at handler
    exact handler.2.2.2
  · intro msg cli rest sending
    exact (control.registered (control.sending sending).1).1
  · intro cli closing
    exact (control.closing closing).2.1

/-- Bob's first line on its way to him, Alice having received it. -/
def sampleRun : List Label :=
  let greeting := Message.greeting
  let bob := fun notice => Post.mk 1 (bytes "bob") notice
  let arrived := Message.post 2 (bob .arrived)
  let hi := Message.post 4 (bob (.line (bytes "hi")))
  [.accept (bytes "alice"), .spawn 0, .writerStart 0, .greet 0,
    .write 0 (greeting (bytes "alice")), .post 0 .arrived,
    .rangeDone (.post 0 ⟨0, bytes "alice", .arrived⟩), .enter 0,
    .accept (bytes "bob"), .spawn 1, .writerStart 1, .greet 1, .post 1 .arrived,
    .pick arrived 0 {0}, .deliver arrived 0 ∅, .rangeDone arrived, .write 0 arrived, .enter 1,
    .write 1 (greeting (bytes "bob")), .scanLine 1 (bytes "hi"), .post 1 (.line (bytes "hi")),
    .pick hi 0 {1, 0}, .deliver hi 0 {1}, .pick hi 1 {1}]

def sampleState : Server := server.after .initial sampleRun

theorem sampleState_reachable : server.Reachable sampleState :=
  Runs.leads (by decide)

theorem sampleState_channels_safe : (sampleState.sessions 1).ch = .opened :=
  (reachable_channels_safe sampleState_reachable).2.1 1 (by decide)

end ApLabs.Chat
