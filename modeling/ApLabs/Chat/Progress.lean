import ApLabs.Chat.Control

/-!
# Progress of the chat server

While the broadcaster is away from its `select`, it or the writer it waits for can
take a step.  While it is at its `select`, every handler that waits at a send can
take one, the first of them once its writer has started.  Neither needs a new
connection or further input.
-/

namespace ApLabs.Chat

open ApLabs.Foundation.Transition

/-- The handlers whose next operation is a channel send. -/
def Handler.Waits : Handler → Prop
  | .greet | .arrive | .enter | .say _ | .leave | .depart => True
  | .absent | .start | .scan | .close | .done => False

/-- The steps of the broadcaster, of the writers and of the waiting handlers. -/
def Label.Protocol : Label → Prop
  | .greet _ | .post _ _ | .enter _ | .leave _ => True
  | .pick _ _ _ | .deliver _ _ _ | .rangeDone _ | .closeChan _ => True
  | .writerStart _ | .write _ _ | .writerDone _ => True
  | .accept _ | .acceptError | .spawn _ | .scanLine _ _ | .scanEnd _ | .connClose _ => False
  | .greetPanic _ | .deliverPanic _ _ _ | .closePanic _ => False

variable {s : Server}

/-- A broadcast or a close in progress goes on. -/
theorem Control.busy_enabled (control : Control s) (busy : s.broadcaster ≠ .select) :
    ∃ label, label.Protocol ∧ s.Enabled label := by
  have running := control.running
  cases point : s.broadcaster with
  | select => exact absurd point busy
  | range msg rest =>
      rcases rest.eq_empty_or_nonempty with empty | ⟨cli, member⟩
      · rw [empty] at point
        exact ⟨.rangeDone msg, trivial, running, point⟩
      · exact ⟨.pick msg cli rest, trivial, running, point, member⟩
  | send msg cli rest =>
      obtain ⟨opened, receives | ⟨earlier, writes⟩⟩ :=
        control.registered (control.sending point).1
      · exact ⟨.deliver msg cli rest, trivial, running, point, opened, receives⟩
      · exact ⟨.write cli earlier, trivial, running, writes⟩
  | closing cli =>
      exact ⟨.closeChan cli, trivial, running, point, (control.closing point).2.1⟩

/-- At its `select` the broadcaster serves every waiting handler but the one that
greets, which waits for its own writer. -/
theorem Control.waiting_enabled {c : Conn} (control : Control s)
    (select : s.broadcaster = .select) (waits : (s.sessions c).handler.Waits) :
    ∃ label, label.Protocol ∧ s.Enabled label := by
  have running := control.running
  obtain ⟨handler, writer⟩ := control.session c
  cases point : (s.sessions c).handler with
  | greet =>
      rw [point] at handler writer
      cases at_ : (s.sessions c).writer with
      | start => exact ⟨.writerStart c, trivial, running, at_⟩
      | receive => exact ⟨.greet c, trivial, running, point, handler.2.2.2, at_⟩
      | unborn | write msg | done => simp [at_, handler.2.2.2] at writer
  | arrive => exact ⟨.post c .arrived, trivial, running, select, by rw [point]; rfl⟩
  | enter => exact ⟨.enter c, trivial, running, select, point⟩
  | say text => exact ⟨.post c (.line text), trivial, running, select, by rw [point]; rfl⟩
  | leave => exact ⟨.leave c, trivial, running, select, point⟩
  | depart => exact ⟨.post c .left, trivial, running, select, by rw [point]; rfl⟩
  | absent | start | scan | close | done =>
      rw [point] at waits
      exact waits.elim

/-- No reachable state is stuck while a handler waits at a send or the broadcaster is
busy, and a client that the broadcaster is sending to has a live writer. -/
theorem reachable_not_deadlocked (reachable : server.Reachable s) :
    ((∃ c, (s.sessions c).handler.Waits) ∨ s.broadcaster ≠ .select →
        ∃ label, label.Protocol ∧ server.Enabled s label) ∧
      ∀ msg cli rest, s.broadcaster = .send msg cli rest →
        (s.sessions cli).writer = .start ∨ (s.sessions cli).writer = .receive ∨
          ∃ earlier, (s.sessions cli).writer = .write earlier := by
  have control := control_of_reachable reachable
  constructor
  · intro waiting
    rcases eq_or_ne s.broadcaster .select with select | busy
    · rcases waiting with ⟨c, waits⟩ | busy
      · exact control.waiting_enabled select waits
      · exact absurd select busy
    · exact control.busy_enabled busy
  · intro msg cli rest sending
    exact Or.inr (control.registered (control.sending sending).1).2

theorem sampleState_not_deadlocked :
    ∃ label, label.Protocol ∧ server.Enabled sampleState label :=
  (reachable_not_deadlocked sampleState_reachable).1 (Or.inr (by decide))

end ApLabs.Chat
