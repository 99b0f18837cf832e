import ApLabs.Foundation.Transition
import Mathlib.Algebra.Field.Rat
import Mathlib.Logic.Function.Basic

/-!
# The two programs for pi

`serial` transcribes `labs/openmp/pi.c`, the system `parallel` transcribes
`labs/openmp/solutions/pi_spmd_simple.c`.  Both compute with exact rationals and with
counters that do not overflow.  In a round of the parallel program the runtime grants a
team of at most the requested size, and the threads of the team take their steps in any
order.
-/

namespace ApLabs.Pi

open ApLabs.Foundation.Transition

def step (num_steps : Nat) : ℚ := 1 / num_steps

/-! ## The serial program -/

/-- The body of the loop adds to `sum`. -/
def serialStep (num_steps : Nat) (sum : ℚ) (i : Nat) : ℚ :=
  let x := (i - 1 / 2) * step num_steps
  sum + 4 / (1 + x * x)

/-- The loop goes from 1 to `num_steps`. -/
def serial (num_steps : Nat) : ℚ :=
  step num_steps * (List.range' 1 num_steps).foldl (serialStep num_steps) 0

/-! ## The parallel program -/

/-- The operation of a thread that comes next.  The addition to `sum[id]` is a load and
a store, the latter followed by the step of `i`. -/
inductive Point where
  | init
  | announce
  | test (i : Nat)
  | compute (i : Nat)
  | load (i : Nat) (x : ℚ)
  | store (i : Nat) (value : Option ℚ)
  | done

def Point.running : Point → Bool
  | .done => false
  | _ => true

/-- What a round leaves behind: the `j` it asked for, the size of the team it got and
the value printed. -/
structure Round where
  requested : Nat
  numthreads : Nat
  pi : Option ℚ
  deriving DecidableEq

/-- An entry of `sum` that has never been assigned is `none`.  The pool holds the team,
and is empty outside the parallel region. -/
structure State where
  j : Nat
  sum : Nat → Option ℚ
  pool : List Point
  printed : List Nat
  rounds : List Round

def initial : State where
  j := 1
  sum _ := none
  pool := []
  printed := []
  rounds := []

/-- `fork` is the runtime's answer to `omp_set_num_threads(j)` and the pragma, `join` the
end of the region with the serial part behind it. -/
inductive Label where
  | fork (numthreads : Nat)
  | thread (id : Nat)
  | join

/-- The sum of the first `j` entries, without a value when one of them has none. -/
def fullSum (sum : Nat → Option ℚ) (j : Nat) : Option ℚ :=
  (List.range j).foldlM (fun full_sum i => (sum i).map (full_sum + ·)) 0

namespace State

def Enabled (max_threads : Nat) (s : State) : Label → Prop
  | .fork numthreads => s.pool = [] ∧ s.j ≤ max_threads ∧ 1 ≤ numthreads ∧ numthreads ≤ s.j
  | .thread id => s.pool[id]?.any Point.running = true
  | .join => s.pool ≠ [] ∧ s.pool.any Point.running = false

instance (max_threads : Nat) (s : State) (label : Label) :
    Decidable (s.Enabled max_threads label) :=
  match label with
  | .fork numthreads =>
      have : Decidable (s.pool = []) := decidable_of_iff _ List.isEmpty_iff
      inferInstanceAs (Decidable (_ ∧ s.j ≤ max_threads ∧ 1 ≤ numthreads ∧ numthreads ≤ s.j))
  | .thread id => inferInstanceAs (Decidable (s.pool[id]?.any Point.running = true))
  | .join =>
      have : Decidable (s.pool = []) := decidable_of_iff _ List.isEmpty_iff
      inferInstanceAs (Decidable (¬ s.pool = [] ∧ s.pool.any Point.running = false))

def go (s : State) (id : Nat) (point : Point) : State :=
  { s with pool := s.pool.set id point }

def assign (s : State) (id : Nat) (value : Option ℚ) : State :=
  { s with sum := Function.update s.sum id value }

/-- The next operation of a thread; `numthreads` is the size of the team. -/
def perform (num_steps : Nat) (s : State) (id : Nat) : Point → State
  | .init => (s.assign id (some 0)).go id .announce
  | .announce =>
      { s.go id (.test id) with
        printed := if id = 0 then s.printed ++ [s.pool.length] else s.printed }
  | .test i => s.go id (if i < num_steps then .compute i else .done)
  | .compute i => s.go id (.load i ((i + 1 / 2) * step num_steps))
  | .load i x => s.go id (.store i ((s.sum id).map (· + 4 / (1 + x * x))))
  | .store i value => (s.assign id value).go id (.test (i + s.pool.length))
  | .done => s

def next (num_steps : Nat) (s : State) : Label → State
  | .fork numthreads => { s with pool := List.replicate numthreads .init }
  | .thread id =>
      match s.pool[id]? with
      | some point => s.perform num_steps id point
      | none => s
  | .join =>
      let pi := (fullSum s.sum s.j).map (step num_steps * ·)
      { s with
        j := s.j + 1
        pool := []
        rounds := s.rounds ++ [⟨s.j, s.pool.length, pi⟩] }

end State

def parallel (num_steps max_threads : Nat) : System State Label :=
  ⟨initial, State.Enabled max_threads, State.next num_steps⟩

instance (num_steps max_threads : Nat) (s : State) (label : Label) :
    Decidable ((parallel num_steps max_threads).Enabled s label) :=
  inferInstanceAs (Decidable (s.Enabled max_threads label))

end ApLabs.Pi
