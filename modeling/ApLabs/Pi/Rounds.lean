import ApLabs.Foundation.Pool
import ApLabs.Foundation.Slices
import ApLabs.Pi.Program
import Mathlib.Algebra.BigOperators.Ring.Finset
import Mathlib.Tactic.Ring

/-!
# The rounds of the parallel program

The slices of a team make up the whole sum, whatever its size.  But the loop behind the
region adds up as many entries as threads were requested; with a smaller team the last
of them has never been assigned.
-/

namespace ApLabs.Pi

open Finset
open ApLabs.Foundation
open ApLabs.Foundation.Slices
open ApLabs.Foundation.Transition

/-! ## Sums -/

/-- What the step with number `k` adds, counted from 0. -/
def height (num_steps k : Nat) : ℚ :=
  let x := (k + 1 / 2) * step num_steps
  4 / (1 + x * x)

variable {num_steps : Nat}

theorem serialStep_succ (sum : ℚ) (k : Nat) :
    serialStep num_steps sum (1 + k) = sum + height num_steps k := by
  have shift : ((1 + k : Nat) - 1 / 2 : ℚ) = k + 1 / 2 := by
    push_cast
    ring
  rw [serialStep, height, shift]

theorem serial_eq_sum (num_steps : Nat) :
    serial num_steps = step num_steps * ∑ k ∈ range num_steps, height num_steps k := by
  have loop : ∀ n : Nat, (List.range' 1 n).foldl (serialStep num_steps) 0 =
      ∑ k ∈ range n, height num_steps k := by
    intro n
    induction n with
    | zero => rfl
    | succ n ih =>
        rw [List.range'_1_concat, List.foldl_append, ih, sum_range_succ]
        exact serialStep_succ _ n
  rw [serial, loop]

variable {sum : Nat → Option ℚ}

theorem fullSum_succ (sum : Nat → Option ℚ) (j : Nat) :
    fullSum sum (j + 1) = (fullSum sum j).bind fun full_sum => (sum j).map (full_sum + ·) := by
  rw [fullSum, List.range_succ, List.foldlM_append]
  simp only [List.foldlM_cons, List.foldlM_nil, bind_pure]
  rfl

theorem fullSum_assigned {j : Nat} {part : Nat → ℚ} (assigned : ∀ i < j, sum i = some (part i)) :
    fullSum sum j = some (∑ i ∈ range j, part i) := by
  induction j with
  | zero => rfl
  | succ j ih =>
      rw [fullSum_succ, ih fun i below => assigned i (Nat.lt_succ_of_lt below),
        assigned j (Nat.lt_succ_self j), sum_range_succ]
      rfl

theorem fullSum_unassigned {j : Nat} (positive : 1 ≤ j) (unassigned : sum (j - 1) = none) :
    fullSum sum j = none := by
  obtain ⟨k, rfl⟩ := Nat.exists_eq_add_of_le' positive
  rw [fullSum_succ, show sum k = none from unassigned]
  cases fullSum sum k <;> rfl

/-! ## Threads -/

/-- What a thread of a team has assigned to its entry when it is at a point. -/
def Point.Fits (num_steps workers id : Nat) (entry : Option ℚ) : Point → Prop
  | .init => True
  | .announce => entry = some 0
  | .test i =>
      i % workers = id ∧ entry = some (added (height num_steps) workers num_steps id i)
  | .compute i =>
      i % workers = id ∧ i < num_steps ∧
        entry = some (added (height num_steps) workers num_steps id i)
  | .load i x =>
      i % workers = id ∧ i < num_steps ∧ x = (i + 1 / 2) * step num_steps ∧
        entry = some (added (height num_steps) workers num_steps id i)
  | .store i value =>
      i % workers = id ∧ i < num_steps ∧
        value = some (added (height num_steps) workers num_steps id (i + workers))
  | .done => entry = some (share (height num_steps) workers num_steps id)

/-- The value of a round with a team smaller than requested is undefined. -/
structure Consistent (num_steps : Nat) (s : State) : Prop where
  positive : 1 ≤ s.j
  team : s.pool.length ≤ s.j
  threads : ∀ (id : Nat) (point : Point), s.pool[id]? = some point →
    point.Fits num_steps s.pool.length id (s.sum id)
  unassigned : ∀ i, s.pool.length ≤ i → s.j ≤ i + 1 → s.sum i = none
  counted : s.rounds.length + 1 = s.j
  values : ∀ (k : Nat) (round : Round), s.rounds[k]? = some round → round.requested = k + 1 ∧
    round.pi = if round.numthreads = k + 1 then some (serial num_steps) else none

variable {s : State}

theorem consistent_initial (num_steps : Nat) : Consistent num_steps initial :=
  ⟨Nat.le_refl 1, Nat.zero_le 1, nofun, fun _ _ _ => rfl, rfl, nofun⟩

namespace Consistent

/-- A thread that goes on, with its own entry assigned or not. -/
theorem go {id : Nat} {before after : Point} (consistent : Consistent num_steps s)
    (here : s.pool[id]? = some before) (value : Option ℚ) (printed : List Nat)
    (fits : after.Fits num_steps s.pool.length id value) :
    Consistent num_steps { (s.assign id value).go id after with printed := printed } := by
  have within : id < s.pool.length := Pool.within here
  have length : (s.pool.set id after).length = s.pool.length := List.length_set
  refine ⟨consistent.positive, length.trans_le consistent.team, ?_, ?_, consistent.counted,
    consistent.values⟩
  · intro other point there
    simp only [State.go, State.assign, length] at there ⊢
    rcases Pool.get_set here there with ⟨rfl, rfl⟩ | ⟨different, old⟩
    · rw [Function.update_self]
      exact fits
    · rw [Function.update_of_ne different]
      exact consistent.threads other point old
  · intro i outside last
    simp only [State.go, State.assign, length] at outside ⊢
    rw [Function.update_of_ne (by omega)]
    exact consistent.unassigned i outside last

/-- A thread that leaves the array as it is. -/
theorem keep {id : Nat} {before after : Point} (consistent : Consistent num_steps s)
    (here : s.pool[id]? = some before) (printed : List Nat)
    (fits : after.Fits num_steps s.pool.length id (s.sum id)) :
    Consistent num_steps { s.go id after with printed := printed } := by
  have moved := consistent.go here (s.sum id) printed fits
  rw [State.assign, Function.update_eq_self] at moved
  exact moved

theorem perform {id : Nat} {point : Point} (consistent : Consistent num_steps s)
    (here : s.pool[id]? = some point) :
    Consistent num_steps (s.perform num_steps id point) := by
  have within : id < s.pool.length := Pool.within here
  have fits := consistent.threads id point here
  cases point with
  | init => exact consistent.go here (some 0) s.printed rfl
  | announce =>
      have start : (Point.test id).Fits num_steps s.pool.length id (s.sum id) := by
        refine ⟨Nat.mod_eq_of_lt within, ?_⟩
        rw [added_start]
        exact fits
      exact consistent.keep here _ start
  | test i =>
      obtain ⟨own, entry⟩ := fits
      apply consistent.keep here s.printed
      split
      next inside => exact ⟨own, inside, entry⟩
      next past =>
        rw [added_all (Nat.le_of_not_lt past)] at entry
        exact entry
  | compute i =>
      obtain ⟨own, inside, entry⟩ := fits
      exact consistent.keep here s.printed ⟨own, inside, rfl, entry⟩
  | load i x =>
      obtain ⟨own, inside, rfl, entry⟩ := fits
      apply consistent.keep here s.printed
      refine ⟨own, inside, ?_⟩
      rw [entry, added_next own inside (Nat.zero_lt_of_lt within)]
      rfl
  | store i value =>
      obtain ⟨own, inside, rfl⟩ := fits
      exact consistent.go here _ s.printed ⟨(Nat.add_mod_right ..).trans own, rfl⟩
  | done => exact consistent

theorem thread {id : Nat} {point : Point} (consistent : Consistent num_steps s)
    (here : s.pool[id]? = some point) :
    Consistent num_steps (s.next num_steps (.thread id)) := by
  have performed := consistent.perform here
  rw [State.next, here]
  exact performed

/-- A new team starts from whatever the array holds. -/
theorem fork {numthreads : Nat} (consistent : Consistent num_steps s) (outside : s.pool = [])
    (granted : numthreads ≤ s.j) :
    Consistent num_steps (s.next num_steps (.fork numthreads)) := by
  have length : (List.replicate numthreads Point.init).length = numthreads :=
    List.length_replicate
  refine ⟨consistent.positive, length.trans_le granted, ?_, ?_, consistent.counted,
    consistent.values⟩
  · intro id point here
    obtain rfl := List.eq_of_mem_replicate (Pool.mem here)
    trivial
  · intro i _ last
    apply consistent.unassigned i _ last
    rw [outside]
    exact Nat.zero_le i

/-- At the end of the region every entry of the team holds its thread's share. -/
theorem assigned (consistent : Consistent num_steps s)
    (ended : s.pool.any Point.running = false) {id : Nat} (member : id < s.pool.length) :
    s.sum id = some (share (height num_steps) s.pool.length num_steps id) := by
  have here := List.getElem?_eq_getElem member
  have fits := consistent.threads id _ here
  have still := List.any_eq_false.mp ended _ (Pool.mem here)
  cases point : s.pool[id] with
  | done =>
      rw [point] at fits
      exact fits
  | _ =>
      rw [point] at still
      exact absurd rfl still

/-- The sum behind the region has a value exactly when the team is complete. -/
theorem fullSum_eq (consistent : Consistent num_steps s) (some_thread : s.pool ≠ [])
    (ended : s.pool.any Point.running = false) :
    fullSum s.sum s.j = if s.pool.length = s.j
      then some (∑ k ∈ range num_steps, height num_steps k) else none := by
  split
  next complete =>
    have shares := fullSum_assigned fun (id : Nat) (member : id < s.pool.length) =>
      consistent.assigned ended member
    rw [← complete, shares, sum_share (List.length_pos_iff.mpr some_thread)]
  next smaller =>
    have team := consistent.team
    have positive := consistent.positive
    exact fullSum_unassigned positive (consistent.unassigned _ (by omega) (by omega))

theorem join (consistent : Consistent num_steps s) (some_thread : s.pool ≠ [])
    (ended : s.pool.any Point.running = false) :
    Consistent num_steps (s.next num_steps .join) := by
  have counted := consistent.counted
  have team := consistent.team
  refine ⟨Nat.le_succ_of_le consistent.positive, Nat.zero_le _, nofun, ?_, ?_, ?_⟩
  · intro i _ last
    simp only [State.next] at last
    exact consistent.unassigned i (by omega) (by omega)
  · rw [State.next, List.length_append]
    exact congrArg (· + 1) counted
  · intro k round stored
    rw [State.next] at stored
    rcases Nat.lt_or_ge k s.rounds.length with earlier | latest
    · rw [List.getElem?_append_left earlier] at stored
      exact consistent.values k round stored
    · rw [List.getElem?_append_right latest] at stored
      obtain ⟨last, rfl⟩ := List.getElem?_eq_some_iff.mp stored
      rw [List.length_singleton] at last
      have asked : s.j = k + 1 := by omega
      refine ⟨?_, ?_⟩
      · simpa using asked
      · simp only [List.getElem_singleton]
        rw [consistent.fullSum_eq some_thread ended, serial_eq_sum, asked]
        split <;> rfl

end Consistent

/-- In every order of the threads' steps. -/
theorem consistent {max_threads : Nat} (reachable : (parallel num_steps max_threads).Reachable s) :
    Consistent num_steps s := by
  apply reachable.induct (consistent_initial num_steps)
  intro s label consistent enabled
  cases label with
  | fork numthreads => exact consistent.fork enabled.1 enabled.2.2.2
  | thread id =>
      obtain ⟨point, here, -⟩ := (Option.any_eq_true ..).mp enabled
      exact consistent.thread here
  | join => exact consistent.join enabled.1 enabled.2

end ApLabs.Pi
