import ApLabs.Chat.Delivery

/-!
# A client that does not read

The channels are unbuffered, so a write that does not return keeps its writer from
receiving, and the broadcaster from going past that client.  Until the write returns or
the client leaves, one more message is taken at most, from all clients together.
-/

namespace ApLabs.Chat

open ApLabs.Foundation.CMemory
open ApLabs.Foundation.SessionLog
open ApLabs.Foundation.Transition
open ApLabs.Foundation.Transition.System

/-- The steps with which the client's write returns or the client leaves. -/
def Label.releases (c : Conn) : Label → Bool
  | .write d _ | .leave d => d = c
  | _ => false

def Label.Without (c : Conn) (label : Label) : Prop :=
  label.releases c = false

instance (c : Conn) (label : Label) : Decidable (label.Without c) :=
  inferInstanceAs (Decidable (_ = false))

instance (s first : Server) (c : Conn) (label : Label) :
    Decidable ((server.restricted first (Label.Without c)).Enabled s label) :=
  inferInstanceAs (Decidable (_ ∧ _))

/-- The broadcasts that can still begin: one, unless one is on its way to the client. -/
def Server.room (s : Server) (c : Conn) : Nat :=
  if s.broadcaster.pending c = [] then 1 else 0

/-- The client is registered, its writer is at the write, and the posts taken are bounded. -/
structure Stalled (c : Conn) (msg : Message) (bound : Nat) (s : Server) : Prop where
  member : c ∈ s.clients
  writer : (s.sessions c).writer = .write msg
  few : (posts s.log).length + s.room c ≤ bound

variable {s : Server} {c : Conn} {msg : Message} {bound : Nat}

namespace Stalled

/-- Another goroutine's step that takes no post. -/
theorem keep {after : Server} (stalled : Stalled c msg bound s) (member : c ∈ after.clients)
    (writer : (after.sessions c).writer = (s.sessions c).writer)
    (log : posts after.log = posts s.log)
    (pending : after.broadcaster.pending c = s.broadcaster.pending c) :
    Stalled c msg bound after := by
  refine ⟨member, writer.trans stalled.writer, ?_⟩
  rw [log, Server.room, pending]
  exact stalled.few

/-- A step of a session that the writer is not part of. -/
theorem set {d : Conn} {session : Session} (stalled : Stalled c msg bound s)
    (writer : d = c → session.writer = (s.sessions d).writer) :
    Stalled c msg bound (s.set d session) := by
  refine stalled.keep stalled.member ?_ rfl rfl
  rcases eq_or_ne c d with rfl | other
  · rw [Server.set_sessions, Function.update_self, writer rfl]
  · rw [Server.set_sessions, Function.update_of_ne other]

/-- Whoever is not at that write is another connection. -/
theorem other {d : Conn} {writer : Writer} (stalled : Stalled c msg bound s)
    (point : (s.sessions d).writer = writer) (differs : writer ≠ .write msg) : d ≠ c := by
  rintro rfl
  exact differs (point.symm.trans stalled.writer)

/-- A post is taken at the `select` only, and then is on its way to the client. -/
theorem post {d : Conn} {notice : Notice} (stalled : Stalled c msg bound s)
    (select : s.broadcaster = .select) : Stalled c msg bound (s.next (.post d notice)) := by
  have few := stalled.few
  have idle : s.room c = 1 := by rw [Server.room, select]; rfl
  have ahead : (s.next (.post d notice)).broadcaster.pending c =
      [.post s.log.length (s.taken d notice)] := if_pos stalled.member
  have busy : (s.next (.post d notice)).room c = 0 := by
    rw [Server.room, ahead]
    rfl
  have more : (posts (s.next (.post d notice)).log).length = (posts s.log).length + 1 := by
    simp [Server.next, posts_concat, Event.content?]
  refine ⟨stalled.member, ?_, by omega⟩
  rw [← stalled.writer]
  apply Server.update_keeps Session.writer
  rfl

theorem next {label : Label} (control : Control s) (stalled : Stalled c msg bound s)
    (without : label.Without c) (enabled : s.Enabled label) :
    Stalled c msg bound (s.next label) := by
  obtain ⟨running, ready⟩ := enabled
  have begun : ∀ {d : Conn} {handler : Handler}, (s.sessions d).handler = handler →
      handler = .absent ∨ handler = .start → d ≠ c := by
    rintro d handler point early rfl
    have fits := (control.session d).handler
    rw [point] at fits
    rcases early with rfl | rfl
    · exact fits.2.1 stalled.member
    · exact fits.2.1 stalled.member
  cases label with
  | accept addr =>
      refine stalled.keep stalled.member ?_ rfl rfl
      have other := begun control.fresh (Or.inl rfl)
      simp only [Server.next, Server.set_sessions, Function.update_of_ne other.symm]
  | acceptError => exact stalled
  | spawn d => exact stalled.set fun same => absurd same (begun ready (Or.inr rfl))
  | greet d => exact stalled.set fun same => absurd same (stalled.other ready.2.2 (by simp))
  | post d notice => exact stalled.post ready.1
  | enter d =>
      refine stalled.keep (Finset.mem_insert_of_mem stalled.member) ?_ ?_ rfl
      · apply Server.update_keeps Session.writer
        rfl
      · simp [Server.next, posts_concat, Event.content?]
  | scanLine d text => exact stalled.set fun _ => rfl
  | scanEnd d => exact stalled.set fun _ => rfl
  | leave d =>
      have other : d ≠ c := of_decide_eq_false without
      refine stalled.keep (Finset.mem_erase_of_ne_of_mem other.symm stalled.member) ?_ ?_ ?_
      · apply Server.update_keeps Session.writer
        rfl
      · simp [Server.next, posts_concat, Event.content?]
      · rw [ready.1]
        rfl
  | connClose d => exact stalled.set fun _ => rfl
  | pick content cli rest =>
      refine stalled.keep stalled.member rfl rfl ?_
      have same : c = cli ∨ c ∈ rest.erase cli ↔ c ∈ rest := by
        rcases eq_or_ne c cli with rfl | other
        · simp [ready.2]
        · simp [other]
      rw [ready.1]
      exact if_congr same rfl rfl
  | deliver content cli rest =>
      obtain ⟨sending, opened, receives⟩ := ready
      have other := stalled.other receives (by simp)
      refine stalled.keep stalled.member ?_ rfl ?_
      · simp only [Server.next, Server.set_sessions, Function.update_of_ne other.symm]
      · rw [sending]
        exact if_congr (by simp [other.symm]) rfl rfl
  | rangeDone content =>
      refine stalled.keep stalled.member rfl rfl ?_
      have ranging : s.broadcaster = .range content ∅ := ready
      rw [ranging]
      rfl
  | closeChan cli =>
      refine stalled.keep stalled.member ?_ rfl ?_
      · apply Server.update_keeps Session.writer
        rfl
      · rw [ready.1]
        rfl
  | writerStart d => exact stalled.set fun same => absurd same (stalled.other ready (by simp))
  | write d content => exact stalled.set fun same => absurd same (of_decide_eq_false without)
  | writerDone d => exact stalled.set fun same => absurd same (stalled.other ready.1 (by simp))
  | greetPanic d => exact stalled.keep stalled.member rfl rfl rfl
  | deliverPanic content cli rest => exact stalled.keep stalled.member rfl rfl rfl
  | closePanic cli => exact stalled.keep stalled.member rfl rfl rfl

end Stalled

/-- As long as a client's write does not return and the client does not leave, the server
takes one more post at most, and none if one is on its way to that client. -/
theorem reachable_stalled (reachable : server.Reachable s) (member : c ∈ s.clients)
    (writes : (s.sessions c).writer = .write msg) {last : Server}
    (leads : (server.restricted s (Label.Without c)).Leads s last) :
    (posts last.log).length ≤ (posts s.log).length + s.room c := by
  have reached : (server.restricted s (Label.Without c)).Reachable s := Leads.refl s
  have stalled : Stalled c msg ((posts s.log).length + s.room c) last :=
    leads.induct_known reached _
      (fun _ reached => control_of_reachable (reachable.leads (Leads.unrestricted reached)))
      ⟨member, writes, Nat.le_refl _⟩
      fun _ _ control stalled enabled => stalled.next control enabled.1 enabled.2
  exact (Nat.le_add_right _ _).trans stalled.few

/-- Alice's writer is at the write of Bob's arrival when he says hello to her. -/
def stalledState : Server := server.after .initial (sampleRun.take 16)

def stalledRun : List Label :=
  let hi := Message.post 4 ⟨1, bytes "bob", .line (bytes "hi")⟩
  [.enter 1, .write 1 (.greeting (bytes "bob")), .scanLine 1 (bytes "hi"),
    .post 1 (.line (bytes "hi")), .pick hi 1 {1, 0}, .deliver hi 1 {0}, .write 1 hi,
    .pick hi 0 {0}]

theorem stalledState_takes_one :
    (posts (server.after stalledState stalledRun).log).length ≤
      (posts stalledState.log).length + stalledState.room 0 :=
  reachable_stalled (Runs.leads (by decide)) (by decide)
    (by decide : (stalledState.sessions 0).writer =
      .write (.post 2 ⟨1, bytes "bob", .arrived⟩))
    (Runs.leads (by decide) :
      (server.restricted stalledState (Label.Without 0)).Leads stalledState
        ((server.restricted stalledState (Label.Without 0)).after stalledState stalledRun))

end ApLabs.Chat
