import ApLabs.Chat.Audience
import ApLabs.Chat.Progress
import ApLabs.Chat.Shutdown
import Mathlib.Algebra.BigOperators.Group.Finset.Basic
import Mathlib.Algebra.GroupWithZero.Nat
import Mathlib.Data.Finset.Card
import Mathlib.Order.Nat

/-!
# The chat server comes to rest

Without new connections and new lines, and with clients that read, every run of the server
ends.  A handler has a bounded number of notices left to send, and each of them costs the
broadcaster a bounded number of steps.  Every write to a connection is assumed to return: a
state with a writer at its `Fprintln` is not at rest.  At rest everything that was said has been written to everyone who was to
hear it, and when all clients have hung up no goroutine is left.
-/

namespace ApLabs.Chat

open ApLabs.Foundation.CMemory
open ApLabs.Foundation.SessionLog
open ApLabs.Foundation.Transition
open ApLabs.Foundation.Transition.System

/-- The steps that neither the listener nor a client causes; a write that returns is one. -/
def Label.Internal : Label → Prop
  | .accept _ | .acceptError | .scanLine _ _ | .scanEnd _ => False
  | _ => True

/-- The steps that are left when no client connects or says anything. -/
def Label.Closing : Label → Prop
  | .accept _ | .acceptError | .scanLine _ _ => False
  | _ => True

theorem Label.Internal.closing {label : Label} (internal : label.Internal) : label.Closing := by
  cases label with
  | accept addr | acceptError | scanLine c text | scanEnd c => exact internal.elim
  | _ => trivial

theorem Label.Protocol.internal {label : Label} (protocol : label.Protocol) :
    label.Internal := by
  cases label with
  | accept addr | acceptError | scanLine c text | scanEnd c => exact protocol.elim
  | _ => trivial

/-! ## Steps left -/

/-- What is left of a broadcast: to be picked, to be sent to and to write, for each client. -/
def Broadcaster.steps : Broadcaster → Nat
  | .select => 0
  | .range _ rest => 3 * rest.card + 1
  | .send _ _ rest => 3 * rest.card + 3
  | .closing _ => 1

def Writer.steps : Writer → Nat
  | .unborn | .done => 0
  | .receive => 1
  | .start | .write _ => 2

/-- What is left of a handler, when a notice costs `cost` steps. -/
def Handler.steps (cost : Nat) : Handler → Nat
  | .absent | .done => 0
  | .close => 1
  | .depart => cost + 1
  | .leave => cost + 3
  | .scan => cost + 4
  | .enter => cost + 5
  | .say _ => 2 * cost + 4
  | .arrive => 2 * cost + 5
  | .greet => 2 * cost + 7
  | .start => 2 * cost + 10

def Session.steps (cost : Nat) (session : Session) : Nat :=
  session.handler.steps cost + session.writer.steps

/-- The cost of a notice when every connection is registered. -/
def Server.cost (s : Server) : Nat := 3 * s.accepted + 2

def Server.steps (s : Server) : Nat :=
  s.broadcaster.steps + ∑ c ∈ Finset.range s.accepted, (s.sessions c).steps s.cost

variable {s : Server}

theorem Notice.steps_point (cost : Nat) (notice : Notice) :
    notice.point.steps cost = notice.resume.steps cost + cost := by
  cases notice <;> simp only [Notice.point, Notice.resume, Handler.steps] <;> omega

/-- A step of one session changes the sum by what it does to that session. -/
theorem sum_update (sessions : Conn → Session) {c n : Nat} (inside : c < n) (session : Session)
    (f : Session → Nat) :
    ∑ d ∈ Finset.range n, f (Function.update sessions c session d) + f (sessions c) =
      ∑ d ∈ Finset.range n, f (sessions d) + f session := by
  have member : c ∈ Finset.range n := Finset.mem_range.mpr inside
  rw [← Finset.add_sum_erase _ _ member, ← Finset.add_sum_erase _ _ member,
    Function.update_self]
  have others : ∑ d ∈ (Finset.range n).erase c, f (Function.update sessions c session d) =
      ∑ d ∈ (Finset.range n).erase c, f (sessions d) := by
    apply Finset.sum_congr rfl
    intro d among
    rw [Function.update_of_ne (Finset.ne_of_mem_erase among)]
  omega

theorem Control.card_clients (control : Control s) : s.clients.card ≤ s.accepted := by
  have inside : s.clients ⊆ Finset.range s.accepted := by
    intro c member
    by_contra outside
    have fresh : s.accepted ≤ c := Nat.le_of_not_lt fun less => outside (Finset.mem_range.mpr less)
    have handler := (control.session c).handler
    cases point : (s.sessions c).handler <;> rw [point] at handler <;>
      simp [member, fresh] at handler
  simpa using Finset.card_le_card inside

/-- A session beyond the accepted ones has not begun. -/
theorem Control.inside {c : Conn} (control : Control s)
    (begun : (s.sessions c).handler ≠ .absent ∨ (s.sessions c).writer ≠ .unborn) :
    c < s.accepted := by
  by_contra outside
  obtain ⟨handler, writer⟩ := control.session c
  have fresh : s.accepted ≤ c := Nat.le_of_not_lt outside
  have absent : (s.sessions c).handler = .absent := by
    cases point : (s.sessions c).handler <;> rw [point] at handler <;> simp [fresh] at handler
  rw [absent] at handler writer
  rcases begun with begun | begun
  · exact begun absent
  · cases point : (s.sessions c).writer <;> rw [point] at writer <;>
      simp_all [Handler.Fits, Writer.Fits]

theorem Server.steps_lt {after : Server} {c : Conn} {session : Session}
    (accepted : after.accepted = s.accepted)
    (sessions : after.sessions = Function.update s.sessions c session)
    (inside : c < s.accepted)
    (less : after.broadcaster.steps + session.steps s.cost <
      s.broadcaster.steps + (s.sessions c).steps s.cost) : after.steps < s.steps := by
  have moved := sum_update s.sessions inside session (Session.steps s.cost)
  have cost : after.cost = s.cost := by rw [Server.cost, accepted, Server.cost]
  rw [Server.steps, Server.steps, accepted, sessions, cost]
  omega

/-- A step of one session leaves less to do when that session has less to do. -/
theorem Server.steps_set {c : Conn} {session : Session} (inside : c < s.accepted)
    (less : session.steps s.cost < (s.sessions c).steps s.cost) :
    (s.set c session).steps < s.steps :=
  Server.steps_lt rfl rfl inside (Nat.add_lt_add_left less _)

theorem Control.steps_next {label : Label} (control : Control s) (closing : label.Closing)
    (enabled : s.Enabled label) : (s.next label).steps < s.steps := by
  obtain ⟨running, ready⟩ := enabled
  cases label with
  | accept addr | acceptError | scanLine c text => exact closing.elim
  | spawn c =>
      have point : (s.sessions c).handler = .start := ready
      apply Server.steps_set (control.inside (Or.inl (by simp [point])))
      simp only [Session.steps, Handler.steps, Writer.steps, point]
      omega
  | greet c =>
      obtain ⟨point, opened, receives⟩ := ready
      apply Server.steps_set (control.inside (Or.inl (by simp [point])))
      simp only [Session.steps, Handler.steps, Writer.steps, point, receives]
      omega
  | post c notice =>
      obtain ⟨select, waits⟩ := ready
      have few := control.card_clients
      have point := Handler.point_of_notice waits
      have begun : (s.sessions c).handler ≠ .absent := by
        rw [point]
        cases notice <;> simp [Notice.point]
      refine Server.steps_lt rfl rfl (control.inside (Or.inl begun)) ?_
      simp only [Server.next, Broadcaster.steps, Session.steps, select, point,
        Notice.steps_point, Server.cost]
      omega
  | enter c =>
      obtain ⟨select, point⟩ := ready
      refine Server.steps_lt rfl rfl (control.inside (Or.inl (by simp [point]))) ?_
      simp only [Server.next, Server.set_broadcaster, Session.steps, Handler.steps, point]
      omega
  | scanEnd c =>
      have point : (s.sessions c).handler = .scan := ready
      apply Server.steps_set (control.inside (Or.inl (by simp [point])))
      simp only [Session.steps, Handler.steps, point]
      omega
  | leave c =>
      obtain ⟨select, point⟩ := ready
      refine Server.steps_lt rfl rfl (control.inside (Or.inl (by simp [point]))) ?_
      simp only [Server.next, Broadcaster.steps, Session.steps, Handler.steps, select, point]
      omega
  | connClose c =>
      have point : (s.sessions c).handler = .close := ready
      apply Server.steps_set (control.inside (Or.inl (by simp [point])))
      simp only [Session.steps, Handler.steps, point]
      omega
  | pick msg cli rest =>
      obtain ⟨ranging, member⟩ := ready
      have fewer := Finset.card_erase_add_one member
      simp only [Server.steps, Server.next, Broadcaster.steps, ranging, Server.cost]
      omega
  | deliver msg cli rest =>
      obtain ⟨sending, opened, receives⟩ := ready
      refine Server.steps_lt rfl rfl (control.inside (Or.inr (by simp [receives]))) ?_
      simp only [Server.next, Broadcaster.steps, Session.steps, Writer.steps, sending, receives]
      omega
  | rangeDone msg =>
      have ranging : s.broadcaster = .range msg ∅ := ready
      simp only [Server.steps, Server.next, Broadcaster.steps, ranging, Server.cost]
      omega
  | closeChan cli =>
      obtain ⟨closes, opened⟩ := ready
      have point := (control.closing closes).1
      refine Server.steps_lt rfl rfl (control.inside (Or.inl (by simp [point]))) ?_
      simp only [Server.next, Broadcaster.steps, Session.steps, closes]
      omega
  | writerStart c =>
      have point : (s.sessions c).writer = .start := ready
      apply Server.steps_set (control.inside (Or.inr (by simp [point])))
      simp only [Session.steps, Writer.steps, point]
      omega
  | write c msg =>
      have point : (s.sessions c).writer = .write msg := ready
      obtain ⟨written, dropped, wrote⟩ := (s.sessions c).fprintln_eq msg
      apply Server.steps_set (control.inside (Or.inr (by simp [point])))
      rw [wrote]
      simp only [Session.steps, Writer.steps, point]
      omega
  | writerDone c =>
      obtain ⟨point, closed⟩ := ready
      apply Server.steps_set (control.inside (Or.inr (by simp [point])))
      simp only [Session.steps, Writer.steps, point]
      omega
  | greetPanic c =>
      have handler := (control.session c).handler
      rw [ready.1] at handler
      cases handler.2.2.2.symm.trans ready.2
  | deliverPanic msg cli rest =>
      have opened := (control.registered (control.sending ready.1).1).1
      cases opened.symm.trans ready.2
  | closePanic cli =>
      cases (control.closing ready.1).2.1.symm.trans ready.2

/-! ## At rest -/

/-- A connection that waits for its client's next line. -/
structure Session.Listening (c : Conn) (log : List (Event Conn Post)) (session : Session) :
    Prop where
  handler : session.handler = .scan
  writer : session.writer = .receive
  posted : eventsOf Post.origin c log = session.entered c session.input
  written : session.written = .greeting session.who :: (heard c log).map asMessage

/-- A connection whose two goroutines have returned. -/
structure Session.Gone (c : Conn) (log : List (Event Conn Post)) (session : Session) :
    Prop where
  handler : session.handler = .done
  writer : session.writer = .done
  posted : eventsOf Post.origin c log = session.script c
  written : session.written ++ session.dropped =
    .greeting session.who :: (heard c log).map asMessage
  dropped : session.dropped.length ≤ 1

def Settled (s : Server) : Prop :=
  s.broadcaster = .select ∧ ∀ c < s.accepted,
    (s.sessions c).Listening c s.log ∨ (s.sessions c).Gone c s.log

def Drained (s : Server) : Prop :=
  s.broadcaster = .select ∧ s.clients = ∅ ∧ ∀ c < s.accepted, (s.sessions c).Gone c s.log

theorem Control.select_of_rest (control : Control s)
    (rests : ∀ label, label.Internal → ¬ s.Enabled label) : s.broadcaster = .select := by
  by_contra busy
  obtain ⟨label, protocol, enabled⟩ := control.busy_enabled busy
  exact rests label protocol.internal enabled

/-- Where no internal step is left, a connection waits for a line or is over. -/
theorem Control.rest {c : Conn} (control : Control s)
    (rests : ∀ label, label.Internal → ¬ s.Enabled label) (accepted : c < s.accepted) :
    (s.sessions c).handler = .scan ∧ (s.sessions c).writer = .receive ∨
      (s.sessions c).handler = .done ∧ (s.sessions c).writer = .done := by
  have running := control.running
  have select := control.select_of_rest rests
  obtain ⟨handler, writer⟩ := control.session c
  have idle : ∀ msg, (s.sessions c).writer ≠ .write msg :=
    fun msg writes => rests (.write c msg) trivial ⟨running, writes⟩
  have served : ¬ (s.sessions c).handler.Waits := by
    intro waits
    obtain ⟨label, protocol, enabled⟩ := control.waiting_enabled select waits
    exact rests label protocol.internal enabled
  cases point : (s.sessions c).handler with
  | absent =>
      rw [point] at handler
      exact absurd accepted (Nat.not_lt_of_le handler.1)
  | start => exact absurd ⟨running, point⟩ (rests (.spawn c) trivial)
  | greet | arrive | enter | say text | leave | depart =>
      rw [point] at served
      exact absurd trivial served
  | close => exact absurd ⟨running, point⟩ (rests (.connClose c) trivial)
  | scan =>
      rw [point] at handler
      rcases (control.registered handler.2.1).2 with receives | ⟨msg, writes⟩
      · exact Or.inl ⟨rfl, receives⟩
      · exact absurd writes (idle msg)
  | done =>
      rw [point] at handler writer
      cases at_ : (s.sessions c).writer with
      | unborn =>
          rw [at_] at writer
          cases handler.2.2.2.symm.trans writer
      | start =>
          rw [at_] at writer
          cases writer
      | receive =>
          exact absurd ⟨running, at_, handler.2.2.2⟩ (rests (.writerDone c) trivial)
      | write msg => exact absurd at_ (idle msg)
      | done => exact Or.inr ⟨rfl, rfl⟩

/-- At the `select` everything addressed to a client has been received. -/
theorem received_of_select {c : Conn} (reachable : server.Reachable s)
    (select : s.broadcaster = .select)
    (opened : (s.sessions c).opening = [.greeting (s.sessions c).who]) :
    (s.sessions c).received = .greeting (s.sessions c).who :: (heard c s.log).map asMessage := by
  have addressed := deliveries_of_reachable reachable c
  rw [Server.addressed, select, opened, Broadcaster.pending, List.append_nil] at addressed
  exact addressed

theorem rest_cases {c : Conn} (reachable : server.Reachable s)
    (rests : ∀ label, label.Internal → ¬ s.Enabled label) (accepted : c < s.accepted) :
    (s.sessions c).Listening c s.log ∨ (s.sessions c).Gone c s.log := by
  have control := control_of_reachable reachable
  have events := (scripts_of_reachable reachable c).events
  have accounted := accounted_of_reachable reachable
  have select := control.select_of_rest rests
  have received := accounted c |>.received
  rcases control.rest rests accepted with ⟨point, receives⟩ | ⟨point, ended⟩
  · have opened : (s.sessions c).opening = [.greeting (s.sessions c).who] := by
      rw [Session.opening, point]
    have kept : (s.sessions c).dropped = [] :=
      (accounted c).opened (accounted.opened (by simp [point]))
    rw [received_of_select reachable select opened, kept, receives, Writer.inHand,
      List.append_nil, List.append_nil] at received
    rw [Session.processed, point] at events
    exact Or.inl ⟨point, receives, events, received.symm⟩
  · have opened : (s.sessions c).opening = [.greeting (s.sessions c).who] := by
      rw [Session.opening, point]
    rw [received_of_select reachable select opened, ended, Writer.inHand, List.append_nil]
      at received
    rw [Session.processed, point] at events
    refine Or.inr ⟨point, ended, events, received.symm, ?_⟩
    cases closed : (s.sessions c).closed with
    | false => simp [(accounted c).opened closed]
    | true =>
        have single := (accounted c).shut closed
        rwa [ended, Writer.inHand, List.append_nil] at single

/-- Left alone, and with writes that return, the server comes to rest: every line said is
posted, and everyone who was registered then has been written it. -/
theorem reachable_settles (reachable : server.Reachable s) :
    (server.restricted s Label.Internal).EndsIn s Settled := by
  apply reachable.restricted_ends Server.steps
  · intro state label reached internal enabled
    exact (control_of_reachable reached).steps_next internal.closing enabled
  · intro last reached rests
    exact ⟨(control_of_reachable reached).select_of_rest rests,
      fun c accepted => rest_cases reached rests accepted⟩

theorem sampleState_settles :
    (server.restricted sampleState Label.Internal).EndsIn sampleState Settled :=
  reachable_settles sampleState_reachable

/-- Once all clients hang up, all goroutines of their connections return if their writes do. -/
theorem reachable_drains (reachable : server.Reachable s) :
    (server.restricted s Label.Closing).EndsIn s Drained := by
  apply reachable.restricted_ends Server.steps
  · intro state label reached closing enabled
    exact (control_of_reachable reached).steps_next closing enabled
  · intro last reached stuck
    have rests : ∀ label, label.Internal → ¬ last.Enabled label :=
      fun label internal => stuck label internal.closing
    have control := control_of_reachable reached
    have gone : ∀ c < last.accepted, (last.sessions c).Gone c last.log := by
      intro c accepted
      rcases rest_cases reached rests accepted with listening | gone
      · exact absurd ⟨control.running, listening.handler⟩ (stuck (.scanEnd c) trivial)
      · exact gone
    refine ⟨control.select_of_rest rests, ?_, gone⟩
    apply Finset.eq_empty_of_forall_notMem
    intro c member
    have busy := control.busy member
    apply busy
    apply (gone c (control.inside (Or.inl ?_))).handler
    intro absent
    have handler := (control.session c).handler
    rw [absent] at handler
    exact handler.2.1 member

theorem sampleState_drains :
    (server.restricted sampleState Label.Closing).EndsIn sampleState Drained :=
  reachable_drains sampleState_reachable

end ApLabs.Chat
