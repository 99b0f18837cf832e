import ApLabs.Foundation.CMemory
import ApLabs.Foundation.Completion
import ApLabs.Foundation.Slices
import Mathlib.Algebra.BigOperators.Intervals
import Mathlib.Algebra.BigOperators.Ring.Finset
import Mathlib.Algebra.Order.BigOperators.Group.Finset
import Mathlib.Algebra.Order.BigOperators.Group.List
import Mathlib.Algebra.Order.Ring.Int
import Mathlib.Algebra.Ring.Int.Defs

/-!
# Sums over slices

The programs `dotprod_mutex.c` and `arrayloops.c` of `labs/mutexes-and-conditional-vars`.
Every thread sums up the terms of its slice and adds the result to the global sum under
the mutex.  The programs differ in their slices and in what they sum up.  The numbers are
elements of a ring: the doubles of the programs hold integers only, on which their
operations are exact up to `2 ^ 53`.  What the threads print is left out.
-/

namespace ApLabs.Threads.Reduction

open ApLabs.Foundation
open ApLabs.Foundation.CMemory
open ApLabs.Foundation.Pthreads
open ApLabs.Foundation.Slices
open ApLabs.Foundation.Transition.System
open Finset

/-- `start` and `stop` are the bounds of the loop of a thread, which visits the index `i`
and adds `term i` to its own sum. -/
structure Job (σ R : Type) where
  NUMTHRDS : Nat
  start : Nat → Nat
  stop : Nat → Nat
  visit : Nat → σ → σ
  term : Nat → R
  data : σ

structure Shared (σ R : Type) where
  data : σ
  sum : R

inductive Point (R : Type) where
  | loop (offset i : Nat) (mysum : R)
  | lock (offset : Nat) (mysum : R)
  | load (offset : Nat) (mysum : R)
  | store (offset : Nat) (mysum sum : R)
  | unlock (offset : Nat)
  | exit (offset : Nat)

variable {σ R : Type} [Ring R] (c : Job σ R)

namespace Job

def code : Point R → Op (Shared σ R) (Point R)
  | .loop offset i mysum =>
      if i < c.stop offset then
        .access fun shared =>
          ({ shared with data := c.visit i shared.data },
            .loop offset (i + 1) (mysum + c.term i))
      else
        .run (.lock offset mysum)
  | .lock offset mysum => .lock (.load offset mysum)
  | .load offset mysum => .access fun shared => (shared, .store offset mysum shared.sum)
  | .store offset mysum sum =>
      .access fun shared => ({ shared with sum := sum + mysum }, .unlock offset)
  | .unlock offset => .unlock (.exit offset)
  | .exit _ => .exit

/-- `main` creates the threads and joins them in the order of their offsets. -/
def program : Program (Shared σ R) (Point R) where
  code := c.code
  shared := ⟨c.data, 0⟩
  creates := (List.range c.NUMTHRDS).map fun offset => .loop offset (c.start offset) 0
  joins := List.range c.NUMTHRDS

/-- What one thread has to add. -/
def slice (offset : Nat) : R :=
  ∑ i ∈ Ico (c.start offset) (c.stop offset), c.term i

end Job

variable {c} {s : State (Shared σ R) (Point R)}

/-! ## The mutex -/

def Point.holds : Point R → Bool
  | .load .. | .store .. | .unlock _ => true
  | .loop .. | .lock .. | .exit _ => false

theorem disciplined (c : Job σ R) : Disciplined c.program Point.holds := by
  constructor
  · intro here created
    obtain ⟨offset, -, rfl⟩ := List.mem_map.mp created
    rfl
  · intro here
    cases here with
    | loop offset i mysum =>
        show Op.Disciplined _ _ (if i < c.stop offset then _ else _)
        split
        · exact fun _ => rfl
        · rfl
    | load | store => exact fun _ => rfl
    | lock | unlock => exact ⟨rfl, rfl⟩
    | exit => rfl

def Point.Knows (here : Point R) (shared : Shared σ R) : Prop :=
  match here with
  | .store _ _ sum => sum = shared.sum
  | _ => True

theorem outlined (c : Job σ R) :
    Outlined c.program Point.holds (fun _ _ => True)
      fun here shared _ => here.Knows shared := by
  refine ⟨trivial, fun _ _ _ _ => id, fun _ _ _ _ _ => id, ?_⟩
  rintro ⟨shared, owner, pool, created, joined⟩ id here - -
  cases here with
  | loop offset i mysum =>
      show Op.Outlined _ _ _ _ _ _ (if i < c.stop offset then _ else _)
      split
      · -- the data are not what the other threads know of
        refine ⟨fun _ => trivial, ?_⟩
        intro there knows
        cases there with
        | store => exact knows
        | _ => trivial
      · intro has
        cases has
  | load | lock => exact fun _ => by trivial
  | store | unlock => exact fun _ => trivial
  | exit => trivial

/-! ## The sum -/

/-- What the sum of a thread holds. -/
def Job.Summed (c : Job σ R) : Point R → Prop
  | .loop offset i mysum =>
      mysum = ∑ j ∈ Ico (c.start offset) i, c.term j ∧ c.start offset ≤ i ∧
        (i ≤ c.stop offset ∨ i = c.start offset)
  | .lock offset mysum | .load offset mysum | .store offset mysum _ => mysum = c.slice offset
  | .unlock _ | .exit _ => True

theorem summed (reachable : c.program.system.Reachable s) :
    ∀ thread ∈ s.pool, c.Summed thread.here := by
  apply locals reachable
  · intro here created
    obtain ⟨offset, -, rfl⟩ := List.mem_map.mp created
    exact ⟨by simp, Nat.le_refl _, Or.inr rfl⟩
  · intro here shared next fits goes
    cases here with
    | loop offset i mysum =>
        obtain ⟨value, lower, upper⟩ := fits
        change (if i < c.stop offset then _ else _ : Op _ _).Goes shared next at goes
        split at goes
        next within =>
          cases goes
          refine ⟨?_, Nat.le_succ_of_le lower, Or.inl within⟩
          rw [sum_Ico_succ_top lower, value]
        next past =>
          cases goes
          show mysum = c.slice offset
          rcases upper with most | begins
          · rw [value, Job.slice, Nat.le_antisymm most (Nat.le_of_not_lt past)]
          · rw [value, Job.slice, begins, Ico_self, Ico_eq_empty (begins ▸ past)]
    | lock offset mysum | load offset mysum =>
        cases goes
        exact fits
    | store offset mysum sum | unlock offset =>
        cases goes
        trivial
    | exit offset => cases goes

/-- What a thread has added to the global sum. -/
def Job.part (c : Job σ R) : Point R → R
  | .loop .. | .lock .. | .load .. | .store .. => 0
  | .unlock offset | .exit offset => c.slice offset

theorem sum_eq (reachable : c.program.system.Reachable s) :
    s.shared.sum = (s.points.map c.part).sum := by
  apply totals reachable Shared.sum c.part
  · show (0 : R) = ((List.map _ _).map c.part).sum
    rw [List.map_map]
    simp [Function.comp_def, Job.part]
  · intro s id here reachable there
    cases here with
    | loop offset i mysum =>
        show Op.Adds _ _ _ _ (if i < c.stop offset then _ else _)
        split <;> rfl
    | store offset mysum sum =>
        have same : sum = s.shared.sum :=
          ((outlined c).described (disciplined c) reachable).known there rfl
        have value : mysum = c.slice offset := summed reachable _ (Pool.mem there)
        show sum + mysum + 0 = s.shared.sum + c.slice offset
        rw [same, value, add_zero]
    | lock | load | unlock => rfl
    | exit => trivial

/-! ## Every run ends -/

def Job.weight (c : Job σ R) : Point R → Nat
  | .loop offset i _ => c.stop offset - i + 5
  | .lock .. => 4
  | .load .. => 3
  | .store .. => 2
  | .unlock _ => 1
  | .exit _ => 0

theorem weighted (c : Job σ R) (here : Point R) :
    (c.program.code here).Weighted c.weight (fun _ => 0) here := by
  cases here with
  | loop offset i mysum =>
      show Op.Weighted _ _ _ (if i < c.stop offset then _ else _)
      split
      next within =>
        intro shared
        simp only [Job.weight]
        omega
      next past => exact ⟨by simp only [Job.weight]; omega, Nat.le_refl 0⟩
  | lock | unlock => exact ⟨Nat.lt_succ_self _, Nat.le_refl 0⟩
  | load | store => exact fun _ => ⟨Nat.lt_succ_self _, Nat.le_refl 0⟩
  | exit => trivial

theorem never_waits (here next : Point R) : c.program.code here ≠ .wait next := by
  cases here with
  | loop offset i mysum =>
      show (if i < c.stop offset then _ else _ : Op _ _) ≠ _
      split <;> exact nofun
  | _ => exact nofun

def Point.offset : Point R → Nat
  | .loop offset _ _ | .lock offset _ | .load offset _ | .store offset _ _ | .unlock offset
  | .exit offset => offset

theorem pool_offsets (reachable : c.program.system.Reachable s) :
    s.points.map Point.offset = List.range c.NUMTHRDS := by
  rw [roles reachable Point.offset]
  · show (List.map _ _).map Point.offset = _
    rw [List.map_map]
    exact List.map_id _
  · intro here shared next goes
    cases here with
    | loop offset i mysum =>
        change (if i < c.stop offset then _ else _ : Op _ _).Goes shared next at goes
        split at goes <;> cases goes <;> rfl
    | exit => cases goes
    | _ =>
        cases goes
        rfl

theorem part_of_exit {here : Point R} (exits : c.program.code here = .exit) :
    c.part here = c.slice here.offset := by
  cases here with
  | loop offset i mysum =>
      change (if i < c.stop offset then _ else _ : Op _ _) = _ at exits
      split at exits <;> cases exits
  | exit => rfl
  | _ => cases exits

/-- In whatever order the threads add their sums, the global sum becomes that of all
slices. -/
theorem reachable_ends_sum (reachable : c.program.system.Reachable s) :
    c.program.system.EndsIn s fun last => c.program.Complete last ∧
      last.shared.sum = ∑ offset ∈ range c.NUMTHRDS, c.slice offset := by
  have length : c.program.creates.length = c.NUMTHRDS := by
    rw [Job.program, List.length_map, List.length_range]
  have inside : ∀ id ∈ c.program.joins, id < c.program.creates.length := by
    rw [length]
    exact fun id => List.mem_range.mp
  have every : ∀ id < c.program.creates.length, id ∈ c.program.joins := by
    rw [length]
    exact fun id => List.mem_range.mpr
  have ends := ends_complete (disciplined c) (weighted c) inside never_waits reachable
  refine ⟨ends.1, ?_⟩
  intro last leads ended
  have complete := ends.2 last leads ended
  have reached := reachable.leads leads
  have parts : ∀ here ∈ last.points, c.part here = c.slice here.offset :=
    List.forall_mem_map.mpr fun thread member =>
      part_of_exit (ended_of_complete reached complete every thread member).2
  refine ⟨complete, ?_⟩
  calc last.shared.sum = (last.points.map c.part).sum := sum_eq reached
    _ = ((last.points.map Point.offset).map c.slice).sum := by
        rw [List.map_congr_left parts, List.map_map]
        rfl
    _ = ∑ offset ∈ range c.NUMTHRDS, c.slice offset := by
        rw [pool_offsets reached]
        rfl

/-! ## The indices -/

theorem offset_lt (reachable : c.program.system.Reachable s) {here : Point R}
    (member : here ∈ s.points) : here.offset < c.NUMTHRDS := by
  rw [← List.mem_range, ← pool_offsets reachable]
  exact List.mem_map_of_mem member

theorem summed_points (reachable : c.program.system.Reachable s) :
    ∀ here ∈ s.points, c.Summed here :=
  List.forall_mem_map.mpr (summed reachable)

/-- The bounds of the loop of a thread, and the index at which it is, are `int` values. -/
def Job.Indexed (c : Job σ R) : Point R → Prop
  | .loop offset i _ => IsInt (c.start offset) ∧ IsInt (c.stop offset) ∧ IsInt i
  | .lock .. | .load .. | .store .. | .unlock _ | .exit _ => True

theorem indexed (ints : ∀ offset < c.NUMTHRDS, IsInt (c.start offset) ∧ IsInt (c.stop offset))
    (reachable : c.program.system.Reachable s) : ∀ here ∈ s.points, c.Indexed here := by
  intro here member
  cases here with
  | loop offset i mysum =>
      obtain ⟨-, -, upper⟩ := summed_points reachable _ member
      obtain ⟨begins, ends⟩ := ints offset (offset_lt reachable member)
      refine ⟨begins, ends, ?_⟩
      rcases upper with most | first
      · exact isInt_of_le most ends.2
      · rwa [first]
  | _ => trivial

/-! ## The dot product -/

structure DOTDATA (R : Type) where
  a : Nat → R
  b : Nat → R
  sum : R
  veclen : Nat

/-- The `dotprod` of `dotprod_serial.c`. -/
def dotprod (dotstr : DOTDATA R) : DOTDATA R :=
  { dotstr with
    sum := (List.range dotstr.veclen).foldl
      (fun mysum i => mysum + dotstr.a i * dotstr.b i) 0 }

theorem dotprod_sum (dotstr : DOTDATA R) :
    (dotprod dotstr).sum = ∑ i ∈ range dotstr.veclen, dotstr.a i * dotstr.b i := by
  obtain ⟨a, b, sum, veclen⟩ := dotstr
  simp only [dotprod]
  induction veclen with
  | zero => rfl
  | succ veclen ih => rw [List.range_succ, List.foldl_concat, ih, sum_range_succ]

/-- `dotprod_mutex.c`: here `veclen` is the length of a slice.  The threads change nothing
of `dotstr` but the sum. -/
def dotprod_mutex (NUMTHRDS : Nat) (dotstr : DOTDATA R) : Job Unit R where
  NUMTHRDS := NUMTHRDS
  start offset := offset * dotstr.veclen
  stop offset := offset * dotstr.veclen + dotstr.veclen
  visit _ := id
  term i := dotstr.a i * dotstr.b i
  data := ()

/-- The threads compute what the serial program computes on the whole vectors, at indices
that are `int` values if the length of the vectors is one. -/
theorem dotprod_mutex_ends (NUMTHRDS : Nat) (dotstr : DOTDATA R)
    {s : State (Shared Unit R) (Point R)}
    (reachable : (dotprod_mutex NUMTHRDS dotstr).program.system.Reachable s) :
    ((dotprod_mutex NUMTHRDS dotstr).program.system.EndsIn s fun last =>
      (dotprod_mutex NUMTHRDS dotstr).program.Complete last ∧
        last.shared.sum =
          (dotprod { dotstr with veclen := NUMTHRDS * dotstr.veclen }).sum) ∧
      (((NUMTHRDS * dotstr.veclen : Nat) : Int) ≤ INT_MAX →
        ∀ here ∈ s.points, (dotprod_mutex NUMTHRDS dotstr).Indexed here) := by
  constructor
  · apply (reachable_ends_sum reachable).mono
    rintro last ⟨complete, sum⟩
    refine ⟨complete, ?_⟩
    rw [sum, dotprod_sum, ← sum_blocks]
    rfl
  · intro small
    refine indexed (fun offset inside => ?_) reachable
    have room := Nat.mul_le_mul_right dotstr.veclen (Nat.succ_le_of_lt inside)
    rw [Nat.succ_mul] at room
    exact ⟨isInt_of_le ((Nat.le_add_right _ _).trans room) small, isInt_of_le room small⟩

theorem dotprod_mutex_ends_small :
    (dotprod_mutex 2 ⟨fun i => (i : Int), fun _ => 1, 0, 3⟩).program.system.EndsIn
      (dotprod_mutex 2 ⟨fun i => (i : Int), fun _ => 1, 0, 3⟩).program.initial fun last =>
        (dotprod_mutex 2 ⟨fun i => (i : Int), fun _ => 1, 0, 3⟩).program.Complete last ∧
          last.shared.sum = 15 := by
  apply (dotprod_mutex_ends 2 ⟨fun i => (i : Int), fun _ => 1, 0, 3⟩ (Leads.refl _)).1.mono
  rintro last ⟨complete, sum⟩
  exact ⟨complete, sum.trans (by decide)⟩

/-! ## The array loops -/

/-- `arrayloops.c`.  The macro `ITERATIONS` has no parentheses, so that the start of a slice
is `tid * ARRAYSIZE / NTHREADS`. -/
def arrayloops (NTHREADS ARRAYSIZE : Nat) : Job (Nat → Int) Int where
  NUMTHRDS := NTHREADS
  start tid := tid * ARRAYSIZE / NTHREADS
  stop tid := tid * ARRAYSIZE / NTHREADS + ARRAYSIZE / NTHREADS
  visit i a := Function.update a i i
  term i := i
  data _ := 0

/-- The loop of `main` that computes the check sum. -/
def check (ARRAYSIZE : Nat) (a : Nat → Int) : (Nat → Int) × Int :=
  (List.range ARRAYSIZE).foldl
    (fun state i =>
      (Function.update state.1 i i, state.2 + Function.update state.1 i (i : Int) i)) (a, 0)

theorem check_sum (ARRAYSIZE : Nat) (a : Nat → Int) :
    (check ARRAYSIZE a).2 = ∑ i ∈ range ARRAYSIZE, (i : Int) := by
  unfold check
  induction ARRAYSIZE with
  | zero => rfl
  | succ n ih => rw [List.range_succ, List.foldl_concat, ih, sum_range_succ,
      Function.update_self]

/-- The constants are such that the indices of the program are `int` values and its sums
are integers that a `double` represents. -/
structure Sizes (NTHREADS ARRAYSIZE : Nat) : Prop where
  threads : (NTHREADS : Int) ≤ INT_MAX
  size : (ARRAYSIZE : Int) ≤ INT_MAX
  start : (((NTHREADS - 1) * ARRAYSIZE : Nat) : Int) ≤ INT_MAX
  sum : ARRAYSIZE * (ARRAYSIZE - 1) / 2 ≤ 2 ^ 53

/-- Up to this size every integer is a `double`. -/
def Exact (value : Int) : Prop := value.natAbs ≤ 2 ^ 53

def Point.mysum : Point Int → Int
  | .loop _ _ mysum | .lock _ mysum | .load _ mysum | .store _ mysum _ => mysum
  | .unlock _ | .exit _ => 0

/-- All that has been computed up to this state is in range; `main` comes to the partial
sums of its check later. -/
structure InRange (NTHREADS ARRAYSIZE : Nat) (s : State (Shared (Nat → Int) Int) (Point Int)) :
    Prop where
  start : ∀ here ∈ s.points, IsInt here.offset ∧ IsInt ((here.offset * ARRAYSIZE : Nat) : Int)
  index : ∀ here ∈ s.points, (arrayloops NTHREADS ARRAYSIZE).Indexed here
  mysum : ∀ here ∈ s.points, Exact here.mysum
  sum : Exact s.shared.sum
  check : ∀ size ≤ ARRAYSIZE, Exact (check size s.shared.data).2

section Sizes

variable {NTHREADS ARRAYSIZE : Nat} {s : State (Shared (Nat → Int) Int) (Point Int)}

/-- The sum of some indices of the array. -/
theorem Sizes.exact (sizes : Sizes NTHREADS ARRAYSIZE) {indices : Finset Nat}
    (within : indices ⊆ range ARRAYSIZE) : Exact (∑ i ∈ indices, (i : Int)) := by
  have most : ∑ i ∈ indices, i ≤ ∑ i ∈ range ARRAYSIZE, i :=
    sum_le_sum_of_subset within
  rw [sum_range_id] at most
  rw [Exact, ← Nat.cast_sum, Int.natAbs_natCast]
  exact most.trans sizes.sum

theorem stop_le (ARRAYSIZE : Nat) {tid : Nat} (inside : tid < NTHREADS) :
    (arrayloops NTHREADS ARRAYSIZE).stop tid ≤ ARRAYSIZE :=
  rounded_le ARRAYSIZE inside

theorem Sizes.indices (sizes : Sizes NTHREADS ARRAYSIZE) {tid : Nat} (inside : tid < NTHREADS) :
    IsInt ((arrayloops NTHREADS ARRAYSIZE).start tid) ∧
      IsInt ((arrayloops NTHREADS ARRAYSIZE).stop tid) := by
  have ends := stop_le ARRAYSIZE inside
  exact ⟨isInt_of_le ((Nat.le_add_right _ _).trans ends) sizes.size, isInt_of_le ends sizes.size⟩

/-- What a thread has summed up are indices of the array. -/
theorem Sizes.exact_mysum (sizes : Sizes NTHREADS ARRAYSIZE)
    (reachable : (arrayloops NTHREADS ARRAYSIZE).program.system.Reachable s) :
    ∀ here ∈ s.points, Exact here.mysum := by
  intro here member
  have summed := summed_points reachable here member
  have ends := stop_le ARRAYSIZE (offset_lt reachable member)
  have inside : ∀ first last : Nat, last ≤ ARRAYSIZE ∨ last = first →
      Ico first last ⊆ range ARRAYSIZE := by
    rintro first last (most | rfl)
    · exact fun i between => mem_range.mpr ((mem_Ico.mp between).2.trans_le most)
    · rw [Ico_self]
      exact empty_subset _
  cases here with
  | loop offset i mysum =>
      obtain ⟨value, -, upper⟩ := summed
      rw [Point.mysum, value]
      exact sizes.exact (inside _ _ (upper.imp_left ends.trans'))
  | lock offset mysum | load offset mysum | store offset mysum sum =>
      rw [Point.mysum, show mysum = _ from summed]
      exact sizes.exact (inside _ _ (Or.inl ends))
  | unlock offset | exit offset => exact Nat.zero_le _

theorem slice_nonneg (tid : Nat) : 0 ≤ (arrayloops NTHREADS ARRAYSIZE).slice tid :=
  sum_nonneg fun i _ => Int.natCast_nonneg i

/-- The slices are disjoint. -/
theorem slices_sum_le {size : Nat}
    (within : ∀ tid < NTHREADS, rounded NTHREADS ARRAYSIZE tid ⊆ range size) :
    ∑ tid ∈ range NTHREADS, (arrayloops NTHREADS ARRAYSIZE).slice tid ≤
      ∑ i ∈ range size, (i : Int) := by
  have parts : (range NTHREADS).biUnion (rounded NTHREADS ARRAYSIZE) ⊆ range size :=
    biUnion_subset.mpr fun tid inside => within tid (mem_range.mp inside)
  have most : ∑ i ∈ (range NTHREADS).biUnion (rounded NTHREADS ARRAYSIZE), (i : Int) ≤
      ∑ i ∈ range size, (i : Int) :=
    sum_le_sum_of_subset_of_nonneg parts fun i _ _ => Int.natCast_nonneg i
  rwa [sum_biUnion (rounded_disjoint NTHREADS ARRAYSIZE)] at most

theorem Sizes.exact_sum (sizes : Sizes NTHREADS ARRAYSIZE)
    (reachable : (arrayloops NTHREADS ARRAYSIZE).program.system.Reachable s) :
    Exact s.shared.sum := by
  have part : ∀ here : Point Int, 0 ≤ (arrayloops NTHREADS ARRAYSIZE).part here ∧
      (arrayloops NTHREADS ARRAYSIZE).part here ≤
        (arrayloops NTHREADS ARRAYSIZE).slice here.offset := by
    intro here
    cases here with
    | unlock offset | exit offset => exact ⟨slice_nonneg offset, Int.le_refl _⟩
    | _ => exact ⟨Int.le_refl 0, slice_nonneg _⟩
  have least : 0 ≤ s.shared.sum := by
    rw [sum_eq reachable]
    exact List.sum_nonneg (List.forall_mem_map.mpr fun here _ => (part here).1)
  have most : s.shared.sum ≤ ∑ i ∈ range ARRAYSIZE, (i : Int) := by
    calc s.shared.sum = (s.points.map (arrayloops NTHREADS ARRAYSIZE).part).sum :=
          sum_eq reachable
      _ ≤ (s.points.map fun here => (arrayloops NTHREADS ARRAYSIZE).slice here.offset).sum :=
          List.sum_le_sum fun here _ => (part here).2
      _ = ((s.points.map Point.offset).map (arrayloops NTHREADS ARRAYSIZE).slice).sum := by
          rw [List.map_map]
          rfl
      _ = ∑ tid ∈ range NTHREADS, (arrayloops NTHREADS ARRAYSIZE).slice tid := by
          rw [pool_offsets reachable]
          rfl
      _ ≤ ∑ i ∈ range ARRAYSIZE, (i : Int) := slices_sum_le fun tid inside i member =>
          mem_range.mpr ((mem_Ico.mp member).2.trans_le (rounded_le ARRAYSIZE inside))
  have whole : Exact (∑ i ∈ range ARRAYSIZE, (i : Int)) := sizes.exact (Subset.refl _)
  simp only [Exact] at whole ⊢
  omega

theorem Sizes.inRange (sizes : Sizes NTHREADS ARRAYSIZE)
    (reachable : (arrayloops NTHREADS ARRAYSIZE).program.system.Reachable s) :
    InRange NTHREADS ARRAYSIZE s where
  start := by
    intro here member
    have inside := offset_lt reachable member
    have most := Nat.mul_le_mul_right ARRAYSIZE (Nat.le_sub_one_of_lt inside)
    exact ⟨isInt_of_le inside.le sizes.threads, isInt_of_le most sizes.start⟩
  index := indexed (fun _ => sizes.indices) reachable
  mysum := sizes.exact_mysum reachable
  sum := sizes.exact_sum reachable
  check := by
    intro size part
    rw [check_sum]
    exact sizes.exact (range_subset_range.mpr part)

end Sizes

theorem slices_sum_iff (NTHREADS ARRAYSIZE : Nat) :
    ∑ tid ∈ range NTHREADS, (arrayloops NTHREADS ARRAYSIZE).slice tid =
        ∑ i ∈ range ARRAYSIZE, (i : Int) ↔
      NTHREADS ∣ ARRAYSIZE ∨ ARRAYSIZE ≤ 1 := by
  by_cases divides : NTHREADS ∣ ARRAYSIZE
  · exact iff_of_true (sum_rounded _ divides) (Or.inl divides)
  · have most := slices_sum_le fun _ => rounded_subset divides
    cases ARRAYSIZE with
    | zero => exact absurd (Nat.dvd_zero NTHREADS) divides
    | succ n =>
        rw [sum_range_succ, or_iff_right divides]
        rw [Nat.add_sub_cancel] at most
        constructor
        · intro equal
          omega
        · intro small
          obtain rfl : n = 0 := by omega
          have nonnegative : 0 ≤ ∑ tid ∈ range NTHREADS,
              (arrayloops NTHREADS (0 + 1)).slice tid := sum_nonneg fun tid _ => slice_nonneg tid
          simp only [range_zero, sum_empty] at most ⊢
          omega

/-- Within the range of its types, the program sums up what its check does exactly where no
slice was rounded. -/
theorem arrayloops_ends_iff {NTHREADS ARRAYSIZE : Nat} (sizes : Sizes NTHREADS ARRAYSIZE)
    {s : State (Shared (Nat → Int) Int) (Point Int)}
    (reachable : (arrayloops NTHREADS ARRAYSIZE).program.system.Reachable s) :
    InRange NTHREADS ARRAYSIZE s ∧
      (arrayloops NTHREADS ARRAYSIZE).program.system.EndsIn s fun last =>
        (arrayloops NTHREADS ARRAYSIZE).program.Complete last ∧
          (last.shared.sum = (check ARRAYSIZE last.shared.data).2 ↔
            NTHREADS ∣ ARRAYSIZE ∨ ARRAYSIZE ≤ 1) := by
  refine ⟨sizes.inRange reachable, (reachable_ends_sum reachable).mono ?_⟩
  rintro last ⟨complete, sum⟩
  refine ⟨complete, ?_⟩
  rw [sum, check_sum]
  exact slices_sum_iff NTHREADS ARRAYSIZE

theorem sizes_million {NTHREADS : Nat} (few : NTHREADS ≤ 4) : Sizes NTHREADS 1000000 where
  threads := by
    rw [INT_MAX]
    omega
  size := by decide
  start := by
    rw [INT_MAX]
    omega
  sum := by decide

/-- The sums agree for the constants of the program, and would not for three threads. -/
theorem arrayloops_ends_sizes :
    ((arrayloops 4 1000000).program.system.EndsIn (arrayloops 4 1000000).program.initial
      fun last => last.shared.sum = (check 1000000 last.shared.data).2) ∧
    (arrayloops 3 1000000).program.system.EndsIn (arrayloops 3 1000000).program.initial
      fun last => last.shared.sum ≠ (check 1000000 last.shared.data).2 := by
  constructor
  · apply (arrayloops_ends_iff (sizes_million (Nat.le_refl 4)) (Leads.refl _)).2.mono
    exact fun last ended => ended.2.mpr (by decide)
  · apply (arrayloops_ends_iff (sizes_million (by decide : 3 ≤ 4)) (Leads.refl _)).2.mono
    exact fun last ended => mt ended.2.mp (by decide)

end ApLabs.Threads.Reduction
