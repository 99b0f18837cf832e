import Mathlib.Data.List.Basic
import Mathlib.Data.List.Infix

/-!
# Copying a stream

The loop of `io.Copy` reads a chunk and writes it until a read stops or a write fails.  A
read may return a chunk together with the error that stops the loop, the end of the stream
among them.  What has been written is a prefix of what has been read, and all of it when
the loop has returned without a failed write.
-/

namespace ApLabs.Foundation.Copying

variable {α : Type}

/-- The point of the loop whose operation comes next.  `stop` is the error of the read,
`some false` at the end of the stream. -/
inductive Copy (α : Type) where
  | read
  | write (chunk : List α) (stop : Option Bool)
  | returned (err : Bool)
  deriving DecidableEq, Repr

/-- A loop with all that it has read and written; `broken` tells that a write failed. -/
structure Flow (α : Type) where
  copy : Copy α
  source : List α
  sink : List α
  broken : Bool
  deriving DecidableEq, Repr

inductive Step (α : Type) where
  | read (chunk : List α) (stop : Option Bool)
  | write (chunk : List α) (stop : Option Bool)
  | writeError (chunk : List α) (stop : Option Bool) (count : Nat)
  deriving DecidableEq, Repr

/-- The loop goes on after a chunk, or returns. -/
def Copy.stopped : Option Bool → Copy α
  | none => .read
  | some err => .returned err

namespace Flow

def initial : Flow α := ⟨.read, [], [], false⟩

/-- A read returns something or an error, a failed write puts only a part. -/
@[reducible] def Ready (flow : Flow α) : Step α → Prop
  | .read chunk stop => flow.copy = .read ∧ (chunk ≠ [] ∨ stop ≠ none)
  | .write chunk stop => flow.copy = .write chunk stop
  | .writeError chunk stop count => flow.copy = .write chunk stop ∧ count ≤ chunk.length

instance [DecidableEq α] (flow : Flow α) (step : Step α) : Decidable (flow.Ready step) := by
  cases step <;> infer_instance

def next (flow : Flow α) : Step α → Flow α
  | .read chunk stop =>
      { flow with
        copy := if chunk.isEmpty then .stopped stop else .write chunk stop
        source := flow.source ++ chunk }
  | .write chunk stop => { flow with copy := .stopped stop, sink := flow.sink ++ chunk }
  | .writeError chunk _ count =>
      { flow with copy := .returned true, sink := flow.sink ++ chunk.take count, broken := true }

/-- What is written at each point of the loop. -/
def Fits : Flow α → Prop
  | ⟨.read, source, sink, broken⟩ => source = sink ∧ broken = false
  | ⟨.write chunk _, source, sink, broken⟩ => source = sink ++ chunk ∧ broken = false
  | ⟨.returned err, source, sink, broken⟩ =>
      sink <+: source ∧ (broken = false → source = sink) ∧ (err = false → broken = false)

variable {flow : Flow α} {step : Step α}

theorem initial_fits : (initial : Flow α).Fits := ⟨rfl, rfl⟩

theorem stopped_fits (stop : Option Bool) {source : List α} :
    Fits ⟨.stopped stop, source, source, false⟩ := by
  cases stop with
  | none => exact ⟨rfl, rfl⟩
  | some err => exact ⟨List.prefix_rfl, fun _ => rfl, fun _ => rfl⟩

theorem Fits.next (fits : flow.Fits) (ready : flow.Ready step) : (flow.next step).Fits := by
  obtain ⟨copy, source, sink, broken⟩ := flow
  cases step with
  | read chunk stop =>
      obtain ⟨rfl, -⟩ := ready
      obtain ⟨rfl, rfl⟩ := fits
      cases chunk with
      | nil =>
          simp only [Flow.next, List.append_nil]
          exact stopped_fits stop
      | cons first rest => exact ⟨rfl, rfl⟩
  | write chunk stop =>
      obtain rfl := ready
      obtain ⟨rfl, rfl⟩ := fits
      exact stopped_fits stop
  | writeError chunk stop count =>
      obtain ⟨rfl, -⟩ := ready
      obtain ⟨rfl, rfl⟩ := fits
      refine ⟨?_, nofun, nofun⟩
      exact (List.prefix_append_right_inj sink).mpr (List.take_prefix count chunk)

/-- What is written is a prefix of what is read. -/
theorem Fits.sink_begins (fits : flow.Fits) : flow.sink <+: flow.source := by
  obtain ⟨copy, source, sink, broken⟩ := flow
  cases copy with
  | read =>
      obtain ⟨rfl, -⟩ := fits
      exact List.prefix_rfl
  | write chunk stop =>
      obtain ⟨rfl, -⟩ := fits
      exact List.prefix_append sink chunk
  | returned err => exact fits.1

/-- A loop that has returned without a failed write has written everything. -/
theorem Fits.whole {err : Bool} (fits : flow.Fits) (returned : flow.copy = .returned err)
    (unbroken : flow.broken = false) : flow.source = flow.sink := by
  obtain ⟨copy, source, sink, broken⟩ := flow
  obtain rfl := returned
  exact fits.2.1 unbroken

theorem Fits.unbroken (fits : flow.Fits) (returned : flow.copy = .returned false) :
    flow.broken = false := by
  obtain ⟨copy, source, sink, broken⟩ := flow
  obtain rfl := returned
  exact fits.2.2 rfl

theorem source_next (flow : Flow α) (step : Step α) : flow.source <+: (flow.next step).source := by
  cases step with
  | read chunk stop => exact List.prefix_append _ _
  | write chunk stop | writeError chunk stop count => exact List.prefix_rfl

theorem sink_next (flow : Flow α) (step : Step α) : flow.sink <+: (flow.next step).sink := by
  cases step with
  | read chunk stop => exact List.prefix_rfl
  | write chunk stop | writeError chunk stop count => exact List.prefix_append _ _

end Flow

/-! ## Loops without errors -/

/-- The steps that meet no error and not the end of the stream. -/
def Step.Smooth : Step α → Prop
  | .read _ stop => stop = none
  | .write _ _ => True
  | .writeError _ _ _ => False

/-- The loop has met neither an error nor the end of the stream. -/
def Flow.Going (flow : Flow α) : Prop :=
  flow.copy = .read ∨ ∃ chunk, flow.copy = .write chunk none

theorem Flow.Going.next {flow : Flow α} {step : Step α} (going : flow.Going)
    (smooth : step.Smooth) (ready : flow.Ready step) : (flow.next step).Going := by
  cases step with
  | read chunk stop =>
      obtain rfl : stop = none := smooth
      cases chunk with
      | nil => exact Or.inl rfl
      | cons first rest => exact Or.inr ⟨_, rfl⟩
  | write chunk stop =>
      have point : flow.copy = .write chunk stop := ready
      rcases going with reads | ⟨whole, writes⟩
      · cases point.symm.trans reads
      · cases point.symm.trans writes
        exact Or.inl rfl
  | writeError chunk stop count => exact smooth.elim

theorem Flow.Going.running {flow : Flow α} (going : flow.Going) (err : Bool) :
    flow.copy ≠ .returned err := by
  rcases going with reads | ⟨chunk, writes⟩
  · rw [reads]
    nofun
  · rw [writes]
    nofun

/-- A loop with nothing left to write has written all that it has read. -/
theorem Flow.Going.idle {flow : Flow α} (going : flow.Going) (fits : flow.Fits)
    (written : ∀ chunk, flow.copy ≠ .write chunk none) :
    flow.copy = .read ∧ flow.source = flow.sink := by
  obtain ⟨copy, source, sink, broken⟩ := flow
  rcases going with rfl | ⟨chunk, writes⟩
  · exact ⟨rfl, fits.1⟩
  · exact absurd writes (written chunk)

/-! ## Steps left -/

/-- The reads that bring nothing new. -/
def Step.Quiet : Step α → Prop
  | .read chunk _ => chunk = []
  | _ => True

theorem Flow.source_quiet {step : Step α} (quiet : step.Quiet) (flow : Flow α) :
    (flow.next step).source = flow.source := by
  cases step with
  | read chunk stop =>
      obtain rfl : chunk = [] := quiet
      exact List.append_nil _
  | write chunk stop | writeError chunk stop count => rfl

/-- The steps of a loop until it returns, when its source brings nothing new. -/
def Copy.steps : Copy α → Nat
  | .read => 1
  | .write _ _ => 2
  | .returned _ => 0

theorem Copy.steps_stopped_le (stop : Option Bool) : (stopped stop : Copy α).steps ≤ 1 := by
  cases stop with
  | none => exact Nat.le_refl 1
  | some err => exact Nat.zero_le 1

theorem Flow.steps_next {flow : Flow α} {step : Step α} (quiet : step.Quiet)
    (ready : flow.Ready step) : (flow.next step).copy.steps < flow.copy.steps := by
  cases step with
  | read chunk stop =>
      obtain ⟨point, something⟩ := ready
      obtain rfl : chunk = [] := quiet
      cases stop with
      | none => simp at something
      | some err =>
          rw [point]
          exact Nat.zero_lt_one
  | write chunk stop =>
      have point : flow.copy = .write chunk stop := ready
      rw [point]
      exact Nat.lt_succ_of_le (Copy.steps_stopped_le stop)
  | writeError chunk stop count =>
      rw [ready.1]
      exact Nat.zero_lt_two

end ApLabs.Foundation.Copying
