import ApLabs.Foundation.CMemory
import ApLabs.Foundation.Completion
import ApLabs.Foundation.Slices
import Mathlib.Algebra.Order.BigOperators.Group.Finset
import Mathlib.Algebra.Ring.Int.Defs
import Mathlib.Algebra.Order.Ring.Int
import Mathlib.Tactic.Ring

/-!
# A shared sum

The programs `bug6.c` and `bug6fix.c` of `labs/mutexes-and-conditional-vars`.  The threads
add every product of their slice to the global sum, the first program without the mutex.
The addition loads the sum and stores it, and other threads may do the same in between;
none is made twice, so that the sum is always one over some of the indices.  The integers
are unbounded here, and `Params.Fits` is enough for the program's to stay in range.
What the threads print is left out; the sum that they print is loaded without the mutex.
-/

namespace ApLabs.Threads.SharedSum

open ApLabs.Foundation
open ApLabs.Foundation.CMemory
open ApLabs.Foundation.Pthreads
open ApLabs.Foundation.Slices
open ApLabs.Foundation.Transition.System
open Finset

structure Params where
  NUMTHRDS : Nat
  VECLEN : Nat
  a : Nat → Int
  b : Nat → Int
  mutex : Bool

inductive Point where
  | loop (offset i : Nat)
  | lock (offset i : Nat)
  | load (offset i : Nat)
  | store (offset i : Nat) (sum : Int)
  | unlock (offset i : Nat)
  | print (offset : Nat)
  | exit (offset : Nat)
  deriving DecidableEq, Repr

namespace Params

variable (c : Params)

/-- The calls of the mutex, which the first program does not have. -/
def mutexLock (next : Point) : Op Int Point :=
  if c.mutex then .lock next else .run next

def mutexUnlock (next : Point) : Op Int Point :=
  if c.mutex then .unlock next else .run next

def dotprod : Point → Op Int Point
  | .loop offset i =>
      .run (if i < offset * c.VECLEN + c.VECLEN then .lock offset i else .print offset)
  | .lock offset i => c.mutexLock (.load offset i)
  | .load offset i => .access fun sum => (sum, .store offset i sum)
  | .store offset i sum => .access fun _ => (sum + c.a i * c.b i, .unlock offset i)
  | .unlock offset i => c.mutexUnlock (.loop offset (i + 1))
  | .print offset => .access fun sum => (sum, .exit offset)
  | .exit _ => .exit

/-- `main` creates the threads and joins them in the order of their offsets. -/
def program : Program Int Point where
  code := c.dotprod
  shared := 0
  creates := (List.range c.NUMTHRDS).map fun offset => .loop offset (offset * c.VECLEN)
  joins := List.range c.NUMTHRDS

end Params

/-- Both programs set all elements to one. -/
def bug6 (NUMTHRDS VECLEN : Nat) : Params :=
  ⟨NUMTHRDS, VECLEN, fun _ => 1, fun _ => 1, false⟩

def bug6fix (NUMTHRDS VECLEN : Nat) : Params :=
  ⟨NUMTHRDS, VECLEN, fun _ => 1, fun _ => 1, true⟩

variable {c : Params} {s : State Int Point}

/-! ## The slices -/

def Point.offset : Point → Nat
  | .loop offset _ | .lock offset _ | .load offset _ | .store offset _ _ | .unlock offset _
  | .print offset | .exit offset => offset

/-- Where a thread goes next, and the sum after that. -/
inductive Turn (c : Params) (sum : Int) : Point → Point → Int → Prop where
  | more {offset i : Nat} (within : i < offset * c.VECLEN + c.VECLEN) :
      Turn c sum (.loop offset i) (.lock offset i) sum
  | last {offset i : Nat} (past : ¬ i < offset * c.VECLEN + c.VECLEN) :
      Turn c sum (.loop offset i) (.print offset) sum
  | lock {offset i : Nat} : Turn c sum (.lock offset i) (.load offset i) sum
  | load {offset i : Nat} : Turn c sum (.load offset i) (.store offset i sum) sum
  | store {offset i : Nat} {value : Int} :
      Turn c sum (.store offset i value) (.unlock offset i) (value + c.a i * c.b i)
  | unlock {offset i : Nat} : Turn c sum (.unlock offset i) (.loop offset (i + 1)) sum
  | print {offset : Nat} : Turn c sum (.print offset) (.exit offset) sum

theorem turn {here next : Point} {sum : Int} (goes : (c.program.code here).Goes sum next) :
    Turn c sum here next ((c.program.code here).effect sum) := by
  cases here with
  | loop offset i =>
      obtain rfl : next = if i < offset * c.VECLEN + c.VECLEN then .lock offset i
        else .print offset := goes
      split
      next within => exact .more within
      next past => exact .last past
  | lock offset i =>
      change (c.mutexLock (.load offset i)).Goes sum next at goes
      show Turn c sum _ _ ((c.mutexLock (.load offset i)).effect sum)
      revert goes
      unfold Params.mutexLock
      cases c.mutex <;> rintro rfl <;> exact .lock
  | unlock offset i =>
      change (c.mutexUnlock (.loop offset (i + 1))).Goes sum next at goes
      show Turn c sum _ _ ((c.mutexUnlock (.loop offset (i + 1))).effect sum)
      revert goes
      unfold Params.mutexUnlock
      cases c.mutex <;> rintro rfl <;> exact .unlock
  | load offset i =>
      cases goes
      exact .load
  | store offset i value =>
      cases goes
      exact .store
  | print offset =>
      cases goes
      exact .print
  | exit offset => cases goes

theorem points_offset (reachable : c.program.system.Reachable s) :
    s.points.map Point.offset = List.range c.NUMTHRDS := by
  rw [roles reachable Point.offset]
  · show (List.map _ _).map Point.offset = _
    rw [List.map_map]
    exact List.map_id _
  · intro here shared next goes
    have turn := turn goes
    generalize (c.program.code here).effect shared = after at turn
    cases turn <;> rfl

/-- The index up to which a thread has stored its products. -/
def Params.index (c : Params) : Point → Nat
  | .loop _ i | .lock _ i | .load _ i | .store _ i _ => i
  | .unlock _ i => i + 1
  | .print offset | .exit offset => offset * c.VECLEN + c.VECLEN

/-- A thread stays within its slice. -/
def Params.Within (c : Params) (here : Point) : Prop :=
  here.offset * c.VECLEN ≤ c.index here ∧
    c.index here ≤ here.offset * c.VECLEN + c.VECLEN ∧
    match here with
    | .lock offset i | .load offset i | .store offset i _ => i < offset * c.VECLEN + c.VECLEN
    | _ => True

theorem within (reachable : c.program.system.Reachable s) :
    ∀ thread ∈ s.pool, c.Within thread.here := by
  apply locals reachable
  · intro here created
    obtain ⟨offset, -, rfl⟩ := List.mem_map.mp created
    exact ⟨Nat.le_refl _, Nat.le_add_right _ _, trivial⟩
  · intro here shared next fits goes
    have turn := turn goes
    generalize (c.program.code here).effect shared = after at turn
    obtain ⟨lower, upper, inside⟩ := fits
    cases turn with
    | more within => exact ⟨lower, upper, within⟩
    | last past => exact ⟨Nat.le_add_right _ _, Nat.le_refl _, trivial⟩
    | lock | load => exact ⟨lower, upper, inside⟩
    | store => exact ⟨Nat.le_succ_of_le lower, inside, trivial⟩
    | unlock => exact ⟨lower, upper, trivial⟩
    | print => exact ⟨lower, upper, trivial⟩

/-! ## The sum is one over distinct indices -/

section Partial

variable {points : List Point} {id : Nat} {here next : Point} {sum result : Int}

/-- The product that is added at an index. -/
def Params.term (c : Params) (i : Nat) : Int := c.a i * c.b i

/-- The thread of this index has been there. -/
def Params.Stored (c : Params) (points : List Point) (j : Nat) : Prop :=
  ∃ here ∈ points, here.offset = j / c.VECLEN ∧ j < c.index here

def Params.Partial (c : Params) (points : List Point) (value : Int) : Prop :=
  ∃ indices : Finset Nat, (∀ j ∈ indices, c.Stored points j) ∧ value = ∑ j ∈ indices, c.term j

theorem Turn.offset (turn : Turn c sum here next result) : next.offset = here.offset := by
  cases turn <;> rfl

/-- Only a store moves a thread on. -/
theorem Turn.index (turn : Turn c sum here next result) (within : c.Within here) :
    c.index next = c.index here ∧ result = sum ∨
      ∃ offset i value, here = .store offset i value ∧ next = .unlock offset i ∧
        result = value + c.term i := by
  cases turn with
  | last past => exact Or.inl ⟨Nat.le_antisymm (Nat.le_of_not_lt past) within.2.1, rfl⟩
  | store => exact Or.inr ⟨_, _, _, rfl, rfl, rfl⟩
  | more | lock | load | unlock | print => exact Or.inl ⟨rfl, rfl⟩

theorem Turn.index_le (turn : Turn c sum here next result) (within : c.Within here) :
    c.index here ≤ c.index next := by
  rcases turn.index within with ⟨same, -⟩ | ⟨offset, i, value, rfl, rfl, -⟩
  · exact same.ge
  · exact Nat.le_succ i

theorem stored_set (turn : Turn c sum here next result) (within : c.Within here)
    (there : points[id]? = some here) {j : Nat} (stored : c.Stored points j) :
    c.Stored (points.set id next) j := by
  obtain ⟨other, member, slice, past⟩ := stored
  obtain ⟨k, found⟩ := List.mem_iff_getElem?.mp member
  by_cases same : id = k
  · subst same
    obtain rfl := Option.some.inj (there.symm.trans found)
    have now : (points.set id next)[id]? = some next :=
      List.getElem?_set_self (Pool.within there)
    exact ⟨next, Pool.mem now, turn.offset.trans slice, past.trans_le (turn.index_le within)⟩
  · have still : (points.set id next)[k]? = some other :=
      (List.getElem?_set_ne same).trans found
    exact ⟨other, Pool.mem still, slice, past⟩

theorem partial_set (turn : Turn c sum here next result) (within : c.Within here)
    (there : points[id]? = some here) {value : Int} (part : c.Partial points value) :
    c.Partial (points.set id next) value := by
  obtain ⟨indices, stored, equal⟩ := part
  exact ⟨indices, fun j member => stored_set turn within there (stored j member), equal⟩

/-- An index lies in the slice of one thread. -/
theorem slice_of_within {offset i : Nat} (lower : offset * c.VECLEN ≤ i)
    (upper : i < offset * c.VECLEN + c.VECLEN) : offset = i / c.VECLEN := by
  symm
  rw [Nat.div_eq_iff (by omega)]
  omega

/-- A thread about to store has not been at its index. -/
theorem not_stored (reachable : c.program.system.Reachable s) {offset i : Nat} {value : Int}
    (member : .store offset i value ∈ s.points) (within : c.Within (.store offset i value)) :
    ¬ c.Stored s.points i := by
  rintro ⟨other, among, slice, past⟩
  have distinct : (s.points.map Point.offset).Nodup := by
    rw [points_offset reachable]
    exact List.nodup_range
  have own : offset = i / c.VECLEN := slice_of_within within.1 within.2.2
  obtain rfl := List.inj_on_of_nodup_map distinct among member (slice.trans own.symm)
  exact Nat.lt_irrefl i past

/-- A product that has not been added can be added to a sum. -/
theorem partial_add {i : Nat} {value : Int} (part : c.Partial points value)
    (fresh : ¬ c.Stored points i) :
    ∃ indices : Finset Nat, (∀ j ∈ indices, j = i ∨ c.Stored points j) ∧
      value + c.term i = ∑ j ∈ indices, c.term j := by
  obtain ⟨indices, stored, equal⟩ := part
  refine ⟨insert i indices, ?_, ?_⟩
  · exact fun j member => (mem_insert.mp member).imp_right (stored j)
  · rw [sum_insert fun member => fresh (stored i member), equal, add_comm]

theorem partial_of_reachable (reachable : c.program.system.Reachable s) :
    c.Partial s.points s.shared ∧
      ∀ here ∈ s.points, ∀ offset i value, here = .store offset i value →
        c.Partial s.points value := by
  apply induct_points reachable (fun sum points => c.Partial points sum ∧
    ∀ here ∈ points, ∀ offset i value, here = .store offset i value → c.Partial points value)
  · refine ⟨⟨∅, by simp, by simp [Params.program]⟩, ?_⟩
    intro here created offset i value store
    obtain ⟨_, -, rfl⟩ := List.mem_map.mp created
    cases store
  · rintro s id here next reachable ⟨whole, reads⟩ there goes
    have found := points_at there
    have inside := within reachable _ (Pool.mem there)
    have turn := turn goes
    generalize (c.program.code here).effect s.shared = result at turn
    have still : ∀ here ∈ s.points, ∀ offset i value, here = .store offset i value →
        c.Partial (s.points.set id next) value := fun here member offset i value store =>
      partial_set turn inside found (reads here member offset i value store)
    rcases turn.index inside with ⟨-, rfl⟩ | ⟨offset, i, value, rfl, rfl, rfl⟩
    · refine ⟨partial_set turn inside found whole, Pool.forall_set still ?_⟩
      rintro offset i value rfl
      cases turn
      exact partial_set .load inside found whole
    · refine ⟨?_, Pool.forall_set still (by simp)⟩
      obtain ⟨indices, stored, equal⟩ := partial_add (reads _ (Pool.mem found) offset i value rfl)
        (not_stored reachable (Pool.mem found) inside)
      refine ⟨indices, ?_, equal⟩
      intro j member
      rcases stored j member with rfl | old
      · have now : (s.points.set id (.unlock offset j))[id]? = some (.unlock offset j) :=
          List.getElem?_set_self (Pool.within found)
        exact ⟨_, Pool.mem now, slice_of_within inside.1 inside.2.2, Nat.lt_succ_self j⟩
      · exact stored_set turn inside found old

theorem offset_lt (reachable : c.program.system.Reachable s) {here : Point}
    (member : here ∈ s.points) : here.offset < c.NUMTHRDS := by
  rw [← List.mem_range, ← points_offset reachable]
  exact List.mem_map_of_mem member

theorem stop_le (reachable : c.program.system.Reachable s) {here : Point}
    (member : here ∈ s.points) :
    here.offset * c.VECLEN + c.VECLEN ≤ c.NUMTHRDS * c.VECLEN := by
  rw [← Nat.succ_mul]
  exact Nat.mul_le_mul_right c.VECLEN (offset_lt reachable member)

theorem within_points (reachable : c.program.system.Reachable s) :
    ∀ here ∈ s.points, c.Within here :=
  List.forall_mem_map.mpr (within reachable)

theorem stored_lt (reachable : c.program.system.Reachable s) {j : Nat}
    (stored : c.Stored s.points j) : j < c.NUMTHRDS * c.VECLEN := by
  obtain ⟨here, member, -, past⟩ := stored
  exact (past.trans_le (within_points reachable here member).2.1).trans_le
    (stop_le reachable member)

/-- Additions are lost, and none is made twice. -/
theorem shared_subset (reachable : c.program.system.Reachable s) :
    ∃ indices ⊆ range (c.NUMTHRDS * c.VECLEN), s.shared = ∑ i ∈ indices, c.term i := by
  obtain ⟨⟨indices, stored, equal⟩, -⟩ := partial_of_reachable reachable
  exact ⟨indices, fun j member => mem_range.mpr (stored_lt reachable (stored j member)), equal⟩

end Partial

/-! ## The range of the integers -/

/-- The vectors hold `int` values, and so are their products and their length. -/
structure Params.Fits (c : Params) : Prop where
  threads : (c.NUMTHRDS : Int) ≤ INT_MAX
  size : ((c.NUMTHRDS * c.VECLEN : Nat) : Int) ≤ INT_MAX
  elements : ∀ i < c.NUMTHRDS * c.VECLEN, IsInt (c.a i) ∧ IsInt (c.b i)
  products : ∀ i < c.NUMTHRDS * c.VECLEN, IsInt (c.a i * c.b i)

/-- What a thread computes here, or has computed, is in the range of its type. -/
structure Params.InRange (c : Params) (here : Point) : Prop where
  offset : IsInt here.offset
  start : IsInt ((here.offset * c.VECLEN : Nat) : Int)
  stop : IsInt ((here.offset * c.VECLEN + c.VECLEN : Nat) : Int)
  index : IsInt (c.index here)
  store : ∀ offset i sum, here = .store offset i sum →
    IsInt (c.a i) ∧ IsInt (c.b i) ∧ IsInt (c.a i * c.b i) ∧ IsLong (sum + c.a i * c.b i)

def Params.Defined (c : Params) (s : State Int Point) : Prop :=
  IsLong s.shared ∧ ∀ here ∈ s.points, c.InRange here

/-- So few `int` values have a sum that is a `long`. -/
theorem sum_isLong {n : Nat} (few : (n : Int) ≤ INT_MAX) {f : Nat → Int} {indices : Finset Nat}
    (inside : indices ⊆ range n) (ints : ∀ i < n, IsInt (f i)) :
    IsLong (∑ i ∈ indices, f i) := by
  have each : ∀ i ∈ indices, IsInt (f i) := fun i member => ints i (mem_range.mp (inside member))
  have count := card_le_card inside
  rw [card_range] at count
  have lower : indices.card • INT_MIN ≤ ∑ i ∈ indices, f i :=
    card_nsmul_le_sum indices f INT_MIN fun i member => (each i member).1
  have upper : ∑ i ∈ indices, f i ≤ indices.card • INT_MAX :=
    sum_le_card_nsmul indices f INT_MAX fun i member => (each i member).2
  rw [nsmul_eq_mul, INT_MIN] at lower
  rw [nsmul_eq_mul, INT_MAX] at upper
  rw [INT_MAX] at few
  rw [IsLong, LONG_MIN, LONG_MAX]
  omega

theorem Params.Fits.defined (fits : c.Fits) (reachable : c.program.system.Reachable s) :
    c.Defined s := by
  constructor
  · obtain ⟨indices, inside, equal⟩ := shared_subset reachable
    rw [equal]
    exact sum_isLong fits.size inside fits.products
  intro here member
  have room := stop_le reachable member
  have within := within_points reachable here member
  have small : ∀ number ≤ here.offset * c.VECLEN + c.VECLEN, IsInt (number : Nat) :=
    fun number most => isInt_of_le (most.trans room) fits.size
  refine ⟨?_, small _ (Nat.le_add_right _ _), small _ (Nat.le_refl _), small _ within.2.1, ?_⟩
  · exact isInt_of_le (offset_lt reachable member).le fits.threads
  · rintro offset i sum rfl
    have inside : i < c.NUMTHRDS * c.VECLEN := within.2.2.trans_le room
    obtain ⟨indices, stored, equal⟩ := partial_add
      ((partial_of_reachable reachable).2 _ member offset i sum rfl)
      (not_stored reachable member within)
    have subset : indices ⊆ range (c.NUMTHRDS * c.VECLEN) := by
      intro j among
      rcases stored j among with rfl | before
      · exact mem_range.mpr inside
      · exact mem_range.mpr (stored_lt reachable before)
    refine ⟨(fits.elements i inside).1, (fits.elements i inside).2, fits.products i inside, ?_⟩
    show IsLong (sum + c.term i)
    rw [equal]
    exact sum_isLong fits.size subset fits.products

theorem fits_ones {NUMTHRDS VECLEN : Nat} (mutex : Bool) (threads : (NUMTHRDS : Int) ≤ INT_MAX)
    (size : ((NUMTHRDS * VECLEN : Nat) : Int) ≤ INT_MAX) :
    Params.Fits ⟨NUMTHRDS, VECLEN, fun _ => 1, fun _ => 1, mutex⟩ := by
  have one : IsInt 1 := by decide
  exact ⟨threads, size, fun _ _ => ⟨one, one⟩, fun _ _ => one⟩

/-! ## Every run ends -/

def Params.holds (c : Params) : Point → Bool
  | .load .. | .store .. | .unlock .. => c.mutex
  | .loop .. | .lock .. | .print _ | .exit _ => false

theorem disciplined (c : Params) : Disciplined c.program c.holds := by
  constructor
  · intro here created
    obtain ⟨offset, -, rfl⟩ := List.mem_map.mp created
    rfl
  · intro here
    cases here with
    | loop offset i =>
        show c.holds (if i < offset * c.VECLEN + c.VECLEN then .lock offset i else .print offset) =
          false
        split <;> rfl
    | lock offset i =>
        show (c.mutexLock (.load offset i)).Disciplined c.holds _
        cases mutex : c.mutex <;> simp [Params.mutexLock, mutex, Op.Disciplined, Params.holds]
    | unlock offset i =>
        show (c.mutexUnlock (.loop offset (i + 1))).Disciplined c.holds _
        cases mutex : c.mutex <;> simp [Params.mutexUnlock, mutex, Op.Disciplined, Params.holds]
    | load | store | print => exact fun _ => rfl
    | exit => rfl

/-- The steps that a thread has still to make. -/
def Params.weight (c : Params) : Point → Nat
  | .loop offset i => 5 * (offset * c.VECLEN + c.VECLEN - i) + 2
  | .lock offset i => 5 * (offset * c.VECLEN + c.VECLEN - (i + 1)) + 6
  | .load offset i => 5 * (offset * c.VECLEN + c.VECLEN - (i + 1)) + 5
  | .store offset i _ => 5 * (offset * c.VECLEN + c.VECLEN - (i + 1)) + 4
  | .unlock offset i => 5 * (offset * c.VECLEN + c.VECLEN - (i + 1)) + 3
  | .print _ => 1
  | .exit _ => 0

theorem weighted (c : Params) (here : Point) :
    (c.program.code here).Weighted c.weight (fun _ => 0) here := by
  cases here with
  | loop offset i =>
      show c.weight (if i < offset * c.VECLEN + c.VECLEN then .lock offset i
        else .print offset) < c.weight (.loop offset i) ∧ 0 ≤ 0
      split
      next within =>
        simp only [Params.weight]
        omega
      next past =>
        simp only [Params.weight]
        omega
  | lock offset i =>
      have less : c.weight (.load offset i) < c.weight (.lock offset i) := Nat.lt_succ_self _
      show (c.mutexLock (.load offset i)).Weighted c.weight _ _
      unfold Params.mutexLock
      split <;> exact ⟨less, Nat.le_refl 0⟩
  | unlock offset i =>
      have less : c.weight (.loop offset (i + 1)) < c.weight (.unlock offset i) :=
        Nat.lt_succ_self _
      show (c.mutexUnlock (.loop offset (i + 1))).Weighted c.weight _ _
      unfold Params.mutexUnlock
      split <;> exact ⟨less, Nat.le_refl 0⟩
  | load | store | print => exact fun _ => ⟨Nat.lt_succ_self _, Nat.le_refl 0⟩
  | exit => trivial

theorem never_waits (here next : Point) : c.program.code here ≠ .wait next := by
  cases here with
  | lock offset i =>
      show c.mutexLock (.load offset i) ≠ _
      unfold Params.mutexLock
      split <;> exact nofun
  | unlock offset i =>
      show c.mutexUnlock (.loop offset (i + 1)) ≠ _
      unfold Params.mutexUnlock
      split <;> exact nofun
  | _ => exact nofun

theorem creates_length (c : Params) : c.program.creates.length = c.NUMTHRDS := by
  rw [Params.program, List.length_map, List.length_range]

theorem reachable_ends (reachable : c.program.system.Reachable s) :
    c.program.system.EndsIn s c.program.Complete := by
  apply ends_complete (disciplined c) (weighted c) ?_ never_waits reachable
  rw [creates_length]
  exact fun id => List.mem_range.mp

/-- When `main` has joined all threads they have all got to their end. -/
theorem exits_of_complete (reachable : c.program.system.Reachable s)
    (complete : c.program.Complete s) :
    ∀ here ∈ s.points, here = .exit here.offset := by
  have every : ∀ id < c.program.creates.length, id ∈ c.program.joins := by
    rw [creates_length]
    exact fun id => List.mem_range.mpr
  rw [State.points, List.forall_mem_map]
  intro thread member
  have exits := (ended_of_complete reachable complete every thread member).2
  cases here : thread.here with
  | lock offset i =>
      rw [here] at exits
      change c.mutexLock (.load offset i) = .exit at exits
      unfold Params.mutexLock at exits
      split at exits <;> cases exits
  | unlock offset i =>
      rw [here] at exits
      change c.mutexUnlock (.loop offset (i + 1)) = .exit at exits
      unfold Params.mutexUnlock at exits
      split at exits <;> cases exits
  | exit offset => rfl
  | _ =>
      rw [here] at exits
      cases exits

/-! ## With the mutex -/

/-- What a thread with the mutex knows of the sum. -/
def Point.Knows (here : Point) (sum : Int) : Prop :=
  match here with
  | .store _ _ value => value = sum
  | _ => True

theorem outlined (mutex : c.mutex = true) :
    Outlined c.program c.holds (fun _ _ => True) fun here sum _ => here.Knows sum := by
  refine ⟨trivial, fun _ _ _ _ => id, fun _ _ _ _ _ => id, ?_⟩
  rintro ⟨sum, owner, pool, created, joined⟩ id here - -
  have held : ∀ offset i, c.holds (.load offset i) = true := fun _ _ => mutex
  have inside : ∀ offset i value, c.holds (.store offset i value) = true := fun _ _ _ => mutex
  cases here with
  | loop offset i =>
      intro has
      cases has
  | lock offset i =>
      show Op.Outlined _ _ _ _ _ _ (c.mutexLock (.load offset i))
      rw [Params.mutexLock, if_pos mutex]
      exact fun _ => trivial
  | unlock offset i =>
      show Op.Outlined _ _ _ _ _ _ (c.mutexUnlock (.loop offset (i + 1)))
      rw [Params.mutexUnlock, if_pos mutex]
      exact fun _ => trivial
  | load offset i =>
      show Op.Outlined _ _ _ _ _ _ (.access _)
      rw [Op.Outlined, if_pos (held offset i)]
      exact fun _ => rfl
  | store offset i value =>
      show Op.Outlined _ _ _ _ _ _ (.access _)
      rw [Op.Outlined, if_pos (inside offset i value)]
      exact fun _ => trivial
  | print offset => exact ⟨fun _ => trivial, fun there knows => knows⟩
  | exit offset => trivial

/-- What a thread has added to the sum. -/
def Params.part (c : Params) (here : Point) : Int :=
  ∑ j ∈ Ico (here.offset * c.VECLEN) (c.index here), c.term j

theorem sum_eq (mutex : c.mutex = true) (reachable : c.program.system.Reachable s) :
    s.shared = (s.points.map c.part).sum := by
  apply totals reachable id c.part
  · show (0 : Int) = ((List.map _ _).map c.part).sum
    rw [List.map_map]
    simp [Function.comp_def, Params.part, Params.index, Point.offset]
  · intro s id here reachable there
    have within := within reachable _ (Pool.mem there)
    cases here with
    | loop offset i =>
        show c.part (if i < offset * c.VECLEN + c.VECLEN then .lock offset i
          else .print offset) = c.part (.loop offset i)
        split
        next more => rfl
        next past =>
          have last : i = offset * c.VECLEN + c.VECLEN :=
            Nat.le_antisymm within.2.1 (Nat.le_of_not_lt past)
          rw [last]
          rfl
    | store offset i value =>
        have same : value = s.shared :=
          ((outlined mutex).described (disciplined c) reachable).known there mutex
        show value + c.term i + c.part (.store offset i value) =
          s.shared + c.part (.unlock offset i)
        have next : c.part (.unlock offset i) = c.part (.store offset i value) + c.term i :=
          sum_Ico_succ_top within.1 c.term
        rw [next, same]
        ring
    | lock offset i =>
        show Op.Adds _ _ _ _ (c.mutexLock (.load offset i))
        unfold Params.mutexLock
        split <;> rfl
    | unlock offset i =>
        show Op.Adds _ _ _ _ (c.mutexUnlock (.loop offset (i + 1)))
        unfold Params.mutexUnlock
        split <;> rfl
    | load offset i => rfl
    | print offset => rfl
    | exit offset => trivial

/-- With the mutex no addition is lost, and none overflows. -/
theorem locked_ends_sum (fits : c.Fits) (mutex : c.mutex = true)
    (reachable : c.program.system.Reachable s) :
    c.Defined s ∧ c.program.system.EndsIn s fun last => c.program.Complete last ∧
      last.shared = ∑ i ∈ range (c.NUMTHRDS * c.VECLEN), c.a i * c.b i := by
  refine ⟨fits.defined reachable, (reachable_ends reachable).1, ?_⟩
  intro last leads ended
  have complete := (reachable_ends reachable).2 last leads ended
  have reached := reachable.leads leads
  have parts : ∀ here ∈ last.points, c.part here = c.part (.exit here.offset) :=
    fun here member => congrArg c.part (exits_of_complete reached complete here member)
  refine ⟨complete, ?_⟩
  calc last.shared = (last.points.map c.part).sum := sum_eq mutex reached
    _ = ((last.points.map Point.offset).map fun offset => c.part (.exit offset)).sum := by
        rw [List.map_congr_left parts, List.map_map]
        rfl
    _ = ∑ offset ∈ range c.NUMTHRDS, c.part (.exit offset) := by
        rw [points_offset reached]
        rfl
    _ = ∑ i ∈ range (c.NUMTHRDS * c.VECLEN), c.a i * c.b i := sum_blocks c.term _ _

theorem bug6fix_ends_sum :
    (bug6fix 8 100000).program.system.EndsIn (bug6fix 8 100000).program.initial fun last =>
      (bug6fix 8 100000).program.Complete last ∧ last.shared = 800000 := by
  have fits : (bug6fix 8 100000).Fits := fits_ones true (by decide) (by decide)
  apply (locked_ends_sum fits rfl (Leads.refl (bug6fix 8 100000).program.initial)).2.mono
  rintro last ⟨complete, sum⟩
  refine ⟨complete, sum.trans ?_⟩
  show ∑ i ∈ range (8 * 100000), (1 : Int) * 1 = 800000
  simp

end ApLabs.Threads.SharedSum
