import ApLabs.Foundation.CMemory
import ApLabs.Foundation.Copying
import ApLabs.Foundation.Transition

/-!
# The chat client

`main` copies its standard input to the connection, and a goroutine copies the connection
to the standard output.  When its input ends, `main` closes the connection and waits for
the goroutine, which then finds the connection closed.
-/

namespace ApLabs.Chat

open ApLabs.Foundation.CMemory
open ApLabs.Foundation.Copying
open ApLabs.Foundation.Transition

namespace Client

/-- The point of `main` whose operation comes next; `mustCopy` is the call with its loop. -/
inductive Main where
  | dial
  | mustCopy
  | close
  | wait
  | done
  | fatal
  deriving DecidableEq, Repr

/-- The point of the goroutine whose operation comes next. -/
inductive Background where
  | unborn
  | copy
  | println
  | send
  | done
  deriving DecidableEq, Repr

inductive Label where
  | dial (err : Bool)
  | outgoing (step : Step UInt8)
  | copied (err : Bool)
  | close
  | incoming (step : Step UInt8)
  | ended (err : Bool)
  | println
  | receive
  deriving DecidableEq, Repr

end Client

open Client

/-- `outgoing` copies from the standard input to the connection, `incoming` from the
connection to the standard output. -/
structure Client where
  main : Main
  background : Background
  closed : Bool
  outgoing : Flow UInt8
  incoming : Flow UInt8
  deriving DecidableEq, Repr

namespace Client

def initial : Client := ⟨.dial, .unborn, false, .initial, .initial⟩

/-- A read on a closed connection returns an error and nothing else. -/
def Readable (closed : Bool) : Step UInt8 → Prop
  | .read chunk stop => closed = true → chunk = [] ∧ stop = some true
  | _ => True

instance (closed : Bool) (step : Step UInt8) : Decidable (Readable closed step) := by
  cases step <;> unfold Readable <;> infer_instance

@[reducible] def Ready (s : Client) : Label → Prop
  | .dial _ => s.main = .dial
  | .outgoing step => s.main = .mustCopy ∧ s.outgoing.Ready step
  | .copied err => s.main = .mustCopy ∧ s.outgoing.copy = .returned err
  | .close => s.main = .close
  | .incoming step => s.background = .copy ∧ s.incoming.Ready step ∧ Readable s.closed step
  | .ended err => s.background = .copy ∧ s.incoming.copy = .returned err
  | .println => s.background = .println
  | .receive => s.main = .wait ∧ s.background = .send

/-- The process ends with `main`, or by `log.Fatal`. -/
def Enabled (s : Client) (label : Label) : Prop :=
  (s.main ≠ .done ∧ s.main ≠ .fatal) ∧ s.Ready label

instance (s : Client) (label : Label) : Decidable (s.Enabled label) :=
  have : Decidable (s.Ready label) := by cases label <;> infer_instance
  inferInstanceAs (Decidable (_ ∧ _))

/-- `log.Fatal` follows an error of `Dial` and of `mustCopy`, and no other one. -/
def next (s : Client) : Label → Client
  | .dial err =>
      if err then { s with main := .fatal } else { s with main := .mustCopy, background := .copy }
  | .outgoing step => { s with outgoing := s.outgoing.next step }
  | .copied err => { s with main := if err then .fatal else .close }
  | .close => { s with main := .wait, closed := true }
  | .incoming step => { s with incoming := s.incoming.next step }
  | .ended _ => { s with background := .println }
  | .println => { s with background := .send }
  | .receive => { s with main := .done, background := .done }

end Client

def client : System Client Client.Label := ⟨.initial, Client.Enabled, Client.next⟩

instance (s : Client) (label : Client.Label) : Decidable (client.Enabled s label) :=
  inferInstanceAs (Decidable (s.Enabled label))

namespace Client

/-! ## The invariant -/

/-- The goroutine has begun and not returned. -/
def Background.Runs : Background → Prop
  | .copy | .println | .send => True
  | .unborn | .done => False

/-- What holds at each point of `main`. -/
def Main.Fits (background : Background) (closed : Bool) (outgoing : Flow UInt8) : Main → Prop
  | .dial => background = .unborn ∧ closed = false
  | .mustCopy => background.Runs ∧ closed = false
  | .close => background.Runs ∧ closed = false ∧ outgoing.source = outgoing.sink
  | .wait => background.Runs ∧ closed = true ∧ outgoing.source = outgoing.sink
  | .done => background = .done ∧ closed = true ∧ outgoing.source = outgoing.sink
  | .fatal => True

/-- The points of `main` do not tell the points of a running goroutine apart. -/
theorem Main.Fits.moved {main : Main} {before after : Background} {closed : Bool}
    {outgoing : Flow UInt8} (fits : main.Fits before closed outgoing) (runs : before.Runs)
    (goes : after.Runs) : main.Fits after closed outgoing := by
  cases main with
  | dial =>
      rw [fits.1] at runs
      exact runs.elim
  | mustCopy | close | wait => exact ⟨goes, fits.2⟩
  | done =>
      rw [fits.1] at runs
      exact runs.elim
  | fatal => trivial

/-- What holds at each point of the goroutine. -/
def Background.Fits (incoming : Flow UInt8) : Background → Prop
  | .unborn => incoming = .initial
  | .copy => True
  | .println | .send | .done => ∃ err, incoming.copy = .returned err

structure Fits (s : Client) : Prop where
  main : s.main.Fits s.background s.closed s.outgoing
  background : s.background.Fits s.incoming
  outgoing : s.outgoing.Fits
  incoming : s.incoming.Fits

variable {s : Client}

theorem initial_fits : Fits .initial :=
  ⟨⟨rfl, rfl⟩, rfl, Flow.initial_fits, Flow.initial_fits⟩

theorem Fits.next {label : Label} (fits : s.Fits) (enabled : s.Enabled label) :
    (s.next label).Fits := by
  obtain ⟨running, ready⟩ := enabled
  obtain ⟨main, background, outgoing, incoming⟩ := fits
  cases label with
  | dial err =>
      have point : s.main = .dial := ready
      rw [point] at main
      rw [Client.next]
      split
      · exact ⟨trivial, background, outgoing, incoming⟩
      · exact ⟨⟨trivial, main.2⟩, trivial, outgoing, incoming⟩
  | outgoing step =>
      obtain ⟨point, ready⟩ := ready
      rw [point] at main
      refine ⟨?_, background, outgoing.next ready, incoming⟩
      simp only [Client.next, point]
      exact main
  | copied err =>
      obtain ⟨point, returned⟩ := ready
      rw [point] at main
      refine ⟨?_, background, outgoing, incoming⟩
      cases err with
      | true => trivial
      | false => exact ⟨main.1, main.2, outgoing.whole returned (outgoing.unbroken returned)⟩
  | close =>
      have point : s.main = .close := ready
      rw [point] at main
      exact ⟨⟨main.1, rfl, main.2.2⟩, background, outgoing, incoming⟩
  | incoming step =>
      obtain ⟨point, ready, -⟩ := ready
      refine ⟨main, ?_, outgoing, incoming.next ready⟩
      simp only [Client.next, point]
      trivial
  | ended err =>
      obtain ⟨point, returned⟩ := ready
      rw [point] at main
      exact ⟨main.moved trivial trivial, ⟨err, returned⟩, outgoing, incoming⟩
  | println =>
      have point : s.background = .println := ready
      rw [point] at main background
      exact ⟨main.moved trivial trivial, background, outgoing, incoming⟩
  | receive =>
      obtain ⟨point, sends⟩ := ready
      rw [point] at main
      rw [sends] at background
      exact ⟨⟨rfl, main.2⟩, background, outgoing, incoming⟩

theorem fits_of_reachable (reachable : client.Reachable s) : s.Fits :=
  reachable.induct initial_fits fun _ _ fits enabled => fits.next enabled

/-! ## Ends -/

/-- The steps in which neither the keyboard nor the connection brings anything new. -/
def Label.Quiet : Label → Prop
  | .outgoing step | .incoming step => step.Quiet
  | _ => True

def Main.steps : Main → Nat
  | .dial => 4
  | .mustCopy => 3
  | .close => 2
  | .wait => 1
  | .done | .fatal => 0

def Background.steps : Background → Nat
  | .unborn => 3
  | .copy => 2
  | .println => 1
  | .send | .done => 0

def steps (s : Client) : Nat :=
  s.main.steps + s.background.steps + s.outgoing.copy.steps + s.incoming.copy.steps

theorem steps_next {label : Label} (fits : s.Fits) (quiet : label.Quiet)
    (enabled : s.Enabled label) : (s.next label).steps < s.steps := by
  obtain ⟨running, ready⟩ := enabled
  cases label with
  | dial err =>
      have point : s.main = .dial := ready
      have unborn := fits.main
      rw [point] at unborn
      cases err <;> simp [Client.next, steps, point, unborn.1, Main.steps, Background.steps]
  | outgoing step =>
      have less := Flow.steps_next quiet ready.2
      simp only [Client.next, steps]
      omega
  | copied err =>
      simp only [Client.next, steps, ready.1]
      cases err <;> simp [Main.steps]
  | close =>
      have point : s.main = .close := ready
      simp only [Client.next, steps, point, Main.steps]
      omega
  | incoming step =>
      have less := Flow.steps_next quiet ready.2.1
      simp only [Client.next, steps]
      omega
  | ended err =>
      simp only [Client.next, steps, ready.1, Background.steps]
      omega
  | println =>
      have point : s.background = .println := ready
      simp only [Client.next, steps, point, Background.steps]
      omega
  | receive =>
      simp only [Client.next, steps, ready.1, ready.2, Main.steps, Background.steps]
      omega

/-- A loop that is still running can stop, whatever has become of the connection. -/
theorem flow_enabled {flow : Flow UInt8} (closed : Bool)
    (running : ∀ err, flow.copy ≠ .returned err) :
    ∃ step, Step.Quiet step ∧ flow.Ready step ∧ Readable closed step := by
  cases point : flow.copy with
  | read => exact ⟨.read [] (some true), rfl, ⟨point, Or.inr nofun⟩, fun _ => ⟨rfl, rfl⟩⟩
  | write chunk stop => exact ⟨.write chunk stop, trivial, point, trivial⟩
  | returned err => exact absurd point (running err)

theorem Fits.enabled (fits : s.Fits) (running : s.main ≠ .done ∧ s.main ≠ .fatal) :
    ∃ label : Label, label.Quiet ∧ s.Enabled label := by
  cases point : s.main with
  | dial => exact ⟨.dial true, trivial, running, point⟩
  | mustCopy =>
      by_cases returned : ∃ err, s.outgoing.copy = .returned err
      · obtain ⟨err, returned⟩ := returned
        exact ⟨.copied err, trivial, running, point, returned⟩
      · obtain ⟨step, quiet, ready, -⟩ := flow_enabled s.closed (not_exists.mp returned)
        exact ⟨.outgoing step, quiet, running, point, ready⟩
  | close => exact ⟨.close, trivial, running, point⟩
  | wait =>
      have goes := fits.main
      rw [point] at goes
      cases at_ : s.background with
      | unborn | done =>
          rw [at_] at goes
          exact goes.1.elim
      | copy =>
          by_cases returned : ∃ err, s.incoming.copy = .returned err
          · obtain ⟨err, returned⟩ := returned
            exact ⟨.ended err, trivial, running, at_, returned⟩
          · obtain ⟨step, quiet, ready, readable⟩ :=
              flow_enabled s.closed (not_exists.mp returned)
            exact ⟨.incoming step, quiet, running, at_, ready, readable⟩
      | println => exact ⟨.println, trivial, running, at_⟩
      | send => exact ⟨.receive, trivial, running, point, at_⟩
  | done => exact absurd point running.1
  | fatal => exact absurd point running.2

end Client

end ApLabs.Chat
