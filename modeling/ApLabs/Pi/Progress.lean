import ApLabs.Pi.Rounds

/-!
# The end of the parallel program

Every step brings the team nearer to the end of its region or the program nearer to its
last round, and until then some step is enabled.  So every run is finite and computes
all its rounds.
-/

namespace ApLabs.Pi

open ApLabs.Foundation
open ApLabs.Foundation.Transition

variable {num_steps max_threads : Nat} {s : State}

/-! ## The array -/

/-- The region is entered for the rounds of the first loop only. -/
structure State.Within (max_threads : Nat) (s : State) : Prop where
  last : s.j ≤ max_threads + 1
  region : s.pool ≠ [] → s.j ≤ max_threads

theorem State.perform_j (num_steps : Nat) (s : State) (id : Nat) (point : Point) :
    (s.perform num_steps id point).j = s.j := by
  cases point <;> rfl

theorem within (reachable : (parallel num_steps max_threads).Reachable s) :
    s.Within max_threads := by
  have start : initial.Within max_threads :=
    ⟨Nat.succ_le_succ (Nat.zero_le max_threads), fun some_thread => absurd rfl some_thread⟩
  apply reachable.induct start
  intro s label within enabled
  cases label with
  | fork numthreads => exact ⟨within.last, fun _ => enabled.2.1⟩
  | thread id =>
      obtain ⟨point, here, -⟩ := (Option.any_eq_true ..).mp enabled
      have asked := within.region (List.ne_nil_of_mem (Pool.mem here))
      rw [← s.perform_j num_steps id point] at asked
      simp only [parallel, State.next, here]
      exact ⟨Nat.le_succ_of_le asked, fun _ => asked⟩
  | join =>
      exact ⟨Nat.succ_le_succ (within.region enabled.1), fun some_thread => absurd rfl some_thread⟩

/-- No index of a team, and none of the loop behind it, leaves the array. -/
theorem reachable_indices (reachable : (parallel num_steps max_threads).Reachable s)
    (some_thread : s.pool ≠ []) : s.pool.length ≤ s.j ∧ s.j ≤ max_threads :=
  ⟨(consistent reachable).team, (within reachable).region some_thread⟩

/-! ## The measure -/

/-- A bound on the operations that a thread has still to perform. -/
def Point.remaining (num_steps : Nat) : Point → Nat
  | .init => 4 * num_steps + 3
  | .announce => 4 * num_steps + 2
  | .test i => 4 * (num_steps - i) + 1
  | .compute i => 4 * (num_steps - i)
  | .load i _ => 4 * (num_steps - i) - 1
  | .store i _ => 4 * (num_steps - i) - 2
  | .done => 0

/-- The rounds to come, counted twice to tell their region from the code in front of it,
and the operations that are left to the team. -/
def State.remaining (num_steps max_threads : Nat) (s : State) : Nat × Nat :=
  (2 * (max_threads + 1 - s.j) + if s.pool = [] then 1 else 0,
    (s.pool.map (Point.remaining num_steps)).sum)

namespace Consistent

/-- A thread goes to a point with less to do. -/
theorem perform_pool {id : Nat} {point : Point} (consistent : Consistent num_steps s)
    (here : s.pool[id]? = some point) (running : point.running = true) :
    ∃ after : Point, (s.perform num_steps id point).pool = s.pool.set id after ∧
      after.remaining num_steps < point.remaining num_steps := by
  have within := Pool.within here
  have fits := consistent.threads id point here
  cases point with
  | init => exact ⟨.announce, rfl, Nat.lt_succ_self _⟩
  | announce =>
      refine ⟨.test id, rfl, ?_⟩
      simp only [Point.remaining]
      omega
  | test i =>
      refine ⟨_, rfl, ?_⟩
      split
      next inside => exact Nat.lt_succ_self _
      next past => exact Nat.succ_pos _
  | compute i =>
      obtain ⟨own, inside, entry⟩ := fits
      refine ⟨_, rfl, ?_⟩
      simp only [Point.remaining]
      omega
  | load i x =>
      obtain ⟨own, inside, position, entry⟩ := fits
      refine ⟨_, rfl, ?_⟩
      simp only [Point.remaining]
      omega
  | store i value =>
      obtain ⟨own, inside, entry⟩ := fits
      refine ⟨_, rfl, ?_⟩
      simp only [Point.remaining]
      omega
  | done => cases running

theorem perform_remaining {id : Nat} {point : Point} (consistent : Consistent num_steps s)
    (here : s.pool[id]? = some point) (running : point.running = true) :
    Prod.Lex (· < ·) (· < ·) ((s.perform num_steps id point).remaining num_steps max_threads)
      (s.remaining num_steps max_threads) := by
  obtain ⟨after, moved, less⟩ := consistent.perform_pool here running
  have changed := Pool.sum_set (Point.remaining num_steps) here after
  have inhabited : s.pool ≠ [] := List.ne_nil_of_mem (Pool.mem here)
  have still : s.pool.set id after ≠ [] := by simpa using inhabited
  rw [State.remaining, State.remaining, s.perform_j, moved, if_neg inhabited, if_neg still]
  apply Prod.Lex.right
  omega

end Consistent

theorem remaining_decreases (reachable : (parallel num_steps max_threads).Reachable s)
    {label : Label} (enabled : (parallel num_steps max_threads).Enabled s label) :
    Prod.Lex (· < ·) (· < ·) ((s.next num_steps label).remaining num_steps max_threads)
      (s.remaining num_steps max_threads) := by
  cases label with
  | fork numthreads =>
      obtain ⟨outside, asked, positive, granted⟩ := enabled
      have inhabited : (s.next num_steps (.fork numthreads)).pool ≠ [] := by
        rw [State.next, Ne, List.replicate_eq_nil_iff]
        omega
      apply Prod.Lex.left
      rw [if_neg inhabited, if_pos outside]
      simp only [State.next]
      omega
  | thread id =>
      obtain ⟨point, here, running⟩ := (Option.any_eq_true ..).mp enabled
      rw [State.next, here]
      exact (consistent reachable).perform_remaining here running
  | join =>
      have asked := (within reachable).region enabled.1
      apply Prod.Lex.left
      simp only [State.next, if_neg enabled.1, if_true]
      omega

/-- Until the last round is over some step is enabled. -/
theorem Consistent.enabled (consistent : Consistent num_steps s)
    (more : s.rounds.length < max_threads) : ∃ label, s.Enabled max_threads label := by
  have counted := consistent.counted
  by_cases outside : s.pool = []
  · exact ⟨.fork 1, outside, by omega, Nat.le_refl 1, consistent.positive⟩
  · cases running : s.pool.any Point.running with
    | false => exact ⟨.join, outside, running⟩
    | true =>
        obtain ⟨point, member, runs⟩ := List.any_eq_true.mp running
        obtain ⟨id, here⟩ := List.mem_iff_getElem?.mp member
        exact ⟨.thread id, (Option.any_eq_true ..).mpr ⟨point, here, runs⟩⟩

/-! ## All rounds -/

/-- Every run ends, with all rounds computed, and each round computes what the serial
program does exactly when it gets as many threads as it asks for. -/
theorem rounds_agree_iff (reachable : (parallel num_steps max_threads).Reachable s) :
    (∀ (k : Nat) (round : Round), s.rounds[k]? = some round → round.requested = k + 1 ∧
      (round.pi = some (serial num_steps) ↔ round.numthreads = round.requested)) ∧
    ((∀ label, ¬ (parallel num_steps max_threads).Enabled s label) →
      s.rounds.length = max_threads) ∧
    (parallel num_steps max_threads).Terminates s := by
  have consistent := consistent reachable
  refine ⟨?_, ?_, ?_⟩
  · intro k round stored
    obtain ⟨requested, value⟩ := consistent.values k round stored
    refine ⟨requested, ?_⟩
    rw [value, requested]
    split
    next complete => exact iff_of_true rfl complete
    next smaller => exact iff_of_false nofun smaller
  · intro stuck
    have counted := consistent.counted
    have last := (within reachable).last
    by_contra unfinished
    have more : s.rounds.length < max_threads := by omega
    obtain ⟨label, enabled⟩ := consistent.enabled more
    exact stuck label enabled
  · exact reachable.terminates (State.remaining num_steps max_threads)
      fun s label known enabled => remaining_decreases known enabled

/-- A round with one thread, where there is one step to add. -/
def alone : List Label := .fork 1 :: List.replicate 7 (.thread 0) ++ [.join]

/-- A round with two, whose second thread comes first and has nothing to add. -/
def together : List Label :=
  .fork 2 :: List.replicate 3 (.thread 1) ++ List.replicate 7 (.thread 0) ++ [.join]

def afterTogether : State := (parallel 1 2).after initial (alone ++ together)

theorem afterTogether_agrees :
    afterTogether.rounds[1]?.map Round.pi = some (some (serial 1)) := by
  have granted : afterTogether.rounds[1]?.map Round.numthreads = some 2 := by decide
  have runs : (parallel 1 2).Runs initial (alone ++ together) := by decide
  obtain ⟨round, stored, complete⟩ := Option.map_eq_some_iff.mp granted
  obtain ⟨requested, agrees⟩ := (rounds_agree_iff runs.leads).1 1 round stored
  rw [stored, Option.map_some, agrees.mpr (complete.trans requested.symm)]

def afterAlone : State := (parallel 1 2).after initial (alone ++ alone)

/-- The second round gets one thread, and `sum[1]` has never been assigned. -/
theorem afterAlone_disagrees :
    (parallel 1 2).Reachable afterAlone ∧ afterAlone.rounds[1]? = some ⟨2, 1, none⟩ ∧
    none ≠ some (serial 1) := by
  have runs : (parallel 1 2).Runs initial (alone ++ alone) := by decide
  exact ⟨runs.leads, by decide, nofun⟩

end ApLabs.Pi
