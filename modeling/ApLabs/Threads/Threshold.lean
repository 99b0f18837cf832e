import ApLabs.Foundation.CMemory
import ApLabs.Foundation.Completion
import Mathlib.Algebra.Order.BigOperators.Group.List
import Mathlib.Data.List.Basic
import Mathlib.Tactic.Ring

/-!
# Counting to a threshold

The programs `condvar.c`, `bug1.c`, `bug1fix.c`, `bug4.c` and `bug4fix.c` of
`labs/mutexes-and-conditional-vars`.  Some threads count under the mutex and one of them
notifies the waiting threads when the count equals the threshold.  The programs differ
in their constants, in how they notify, and in whether the waiting threads test the
count.  What the threads print, and for how long they sleep, is left out.
-/

namespace ApLabs.Threads.Threshold

open ApLabs.Foundation
open ApLabs.Foundation.CMemory
open ApLabs.Foundation.Pthreads

inductive Notify where
  | signal
  | broadcast
  deriving DecidableEq, Repr

/-- `update` is what a waiting thread adds to the count in the end, if it does. -/
structure Params where
  TCOUNT : Nat
  COUNT_LIMIT : Nat
  notify : Notify
  guarded : Bool
  update : Option Nat

/-- The points of `inc_count` (`sub2`) and of `watch_count` (`sub1`). -/
inductive Point where
  | incTest (i : Nat)
  | incLock (i : Nat)
  | incLoad (i : Nat)
  | incStore (i : Nat) (count : Nat)
  | incCheck (i : Nat)
  | incNotify (i : Nat)
  | incUnlock (i : Nat)
  | watchLock
  | watchTest
  | watchWait
  | watchLoad
  | watchStore (count : Nat)
  | watchUnlock
  | incExit
  | watchExit
  deriving DecidableEq, Repr

def Notify.op (next : Point) : Notify → Op Nat Point
  | .signal => .signal next
  | .broadcast => .broadcast next

namespace Params

variable (c : Params)

/-- Where a waiting thread goes once it need not wait any more. -/
def past : Point :=
  match c.update with
  | some _ => .watchLoad
  | none => .watchUnlock

/-- The data shared by the threads is the count. -/
def inc_count : Point → Op Nat Point
  | .incTest i => .run (if i < c.TCOUNT then .incLock i else .incExit)
  | .incLock i => .lock (.incLoad i)
  | .incLoad i => .access fun count => (count, .incStore i count)
  | .incStore i value => .access fun _ => (value + 1, .incCheck i)
  | .incCheck i =>
      .access fun count => (count, if count = c.COUNT_LIMIT then .incNotify i else .incUnlock i)
  | .incNotify i => c.notify.op (.incUnlock i)
  | .incUnlock i => .unlock (.incTest (i + 1))
  | _ => .exit

/-- Without the guard it waits once, whatever the count. -/
def watch_count : Point → Op Nat Point
  | .watchLock => .lock (if c.guarded then .watchTest else .watchWait)
  | .watchTest =>
      .access fun count => (count, if count < c.COUNT_LIMIT then .watchWait else c.past)
  | .watchWait => .wait (if c.guarded then .watchTest else c.past)
  | .watchLoad => .access fun count => (count, .watchStore count)
  | .watchStore value => .access fun _ => (value + c.update.getD 0, .watchUnlock)
  | .watchUnlock => .unlock .watchExit
  | _ => .exit

def code (here : Point) : Op Nat Point :=
  match here with
  | .incTest _ | .incLock _ | .incLoad _ | .incStore .. | .incCheck _ | .incNotify _
  | .incUnlock _ | .incExit => c.inc_count here
  | .watchLock | .watchTest | .watchWait | .watchLoad | .watchStore _ | .watchUnlock
  | .watchExit => c.watch_count here

end Params

inductive Role where
  | inc_count
  | watch_count
  deriving DecidableEq, Repr

def Role.start : Role → Point
  | .inc_count => .incTest 0
  | .watch_count => .watchLock

/-- The threads in the order of their creation, and the order in which `main` joins
them. -/
structure Setup extends Params where
  creates : List Role
  joins : List Nat

def Setup.program (c : Setup) : Program Nat Point where
  code := c.code
  shared := 0
  creates := c.creates.map Role.start
  joins := c.joins

/-! ## The programs -/

def condvar : Setup where
  TCOUNT := 10
  COUNT_LIMIT := 12
  notify := .signal
  guarded := true
  update := some 125
  creates := [.watch_count, .inc_count, .inc_count]
  joins := [0, 1, 2]

/-- The array of the threads begins with those that count, which are created last. -/
def bug1 : Setup where
  TCOUNT := 10
  COUNT_LIMIT := 12
  notify := .signal
  guarded := true
  update := none
  creates := [.watch_count, .watch_count, .watch_count, .watch_count, .inc_count, .inc_count]
  joins := [4, 5, 0, 1, 2, 3]

def bug1fix : Setup where
  TCOUNT := 10
  COUNT_LIMIT := 12
  notify := .broadcast
  guarded := true
  update := none
  creates := [.watch_count, .watch_count, .watch_count, .watch_count, .inc_count, .inc_count]
  joins := [4, 5, 0, 1, 2, 3]

def bug4fix : Setup where
  TCOUNT := 10
  COUNT_LIMIT := 12
  notify := .signal
  guarded := true
  update := some 1
  creates := [.watch_count, .inc_count, .inc_count]
  joins := [0, 1, 2]

def bug4 : Setup where
  TCOUNT := 10
  COUNT_LIMIT := 12
  notify := .signal
  guarded := false
  update := some 1
  creates := [.watch_count, .inc_count, .inc_count]
  joins := [0, 1, 2]

/-! ## The mutex -/

variable {c : Setup} {s : State Nat Point}

/-- The points between `pthread_mutex_lock` and `pthread_mutex_unlock`. -/
def Point.holds : Point → Bool
  | .incLoad _ | .incStore .. | .incCheck _ | .incNotify _ | .incUnlock _ | .watchTest
  | .watchWait | .watchLoad | .watchStore _ | .watchUnlock => true
  | .incTest _ | .incLock _ | .incExit | .watchLock | .watchExit => false

theorem past_holds (c : Params) : c.past.holds = true := by
  unfold Params.past
  split <;> rfl

theorem disciplined (c : Setup) : Disciplined c.program Point.holds := by
  constructor
  · intro here created
    obtain ⟨role, -, rfl⟩ := List.mem_map.mp created
    cases role <;> rfl
  · intro here
    have past := past_holds c.toParams
    cases here with
    | incTest i =>
        show Point.holds (if i < c.TCOUNT then .incLock i else .incExit) = _
        split <;> rfl
    | incCheck i =>
        intro count
        show Point.holds (if count = c.COUNT_LIMIT then .incNotify i else .incUnlock i) = _
        split <;> rfl
    | incNotify i =>
        show Op.Disciplined _ _ (c.notify.op (.incUnlock i))
        cases c.notify <;> rfl
    | watchLock =>
        refine ⟨rfl, ?_⟩
        show Point.holds (if c.guarded = true then .watchTest else .watchWait) = true
        split <;> rfl
    | watchTest =>
        intro count
        show Point.holds (if count < c.COUNT_LIMIT then .watchWait else c.past) = _
        split
        · rfl
        · exact past
    | watchWait =>
        refine ⟨rfl, ?_⟩
        show Point.holds (if c.guarded = true then .watchTest else c.past) = true
        split
        · rfl
        · exact past
    | incLock | watchUnlock | incUnlock => exact ⟨rfl, rfl⟩
    | incLoad | incStore | watchLoad | watchStore => exact fun _ => rfl
    | incExit | watchExit => rfl

/-! ## The count -/

/-- What a thread with the mutex knows of the count. -/
def Params.Knows (c : Params) (here : Point) (count : Nat) : Prop :=
  match here with
  | .incStore _ value | .watchStore value => value = count
  | .incNotify _ => count = c.COUNT_LIMIT
  | .watchWait => c.guarded = true → count < c.COUNT_LIMIT
  | _ => True

theorem past_known (c : Params) (count : Nat) : c.Knows c.past count := by
  unfold Params.past
  split <;> trivial

theorem outlined (c : Setup) :
    Outlined c.program Point.holds (fun _ _ => True) fun here count _ => c.Knows here count := by
  refine ⟨trivial, fun _ _ _ _ => id, fun _ _ _ _ _ => id, ?_⟩
  rintro ⟨count, owner, pool, created, joined⟩ id here - -
  have past := past_known c.toParams
  cases here with
  | incTest i =>
      intro has
      cases has
  | incCheck i =>
      intro _
      show c.Knows (if count = c.COUNT_LIMIT then .incNotify i else .incUnlock i) count
      split
      next reached => exact reached
      next other => trivial
  | incNotify i =>
      show Op.Outlined _ _ _ _ _ _ (c.notify.op (.incUnlock i))
      cases c.notify <;> exact fun _ _ => trivial
  | watchLock =>
      intro _
      show c.Knows (if c.guarded = true then .watchTest else .watchWait) count
      split
      next guarded => trivial
      next other => exact fun guarded => absurd guarded other
  | watchTest =>
      intro _
      show c.Knows (if count < c.COUNT_LIMIT then .watchWait else c.past) count
      split
      next below => exact fun _ => below
      next reached => exact past count
  | watchWait =>
      refine ⟨fun _ => trivial, ?_⟩
      intro later _ _
      show c.Knows (if c.guarded = true then .watchTest else c.past) later
      split
      · trivial
      · exact past later
  | incLoad i | watchLoad => exact fun _ => rfl
  | incStore i value | watchStore value => exact fun _ => trivial
  | incLock i | incUnlock i | watchUnlock => exact fun _ => trivial
  | incExit | watchExit => trivial

/-- A thread counts at most `TCOUNT` times. -/
def Params.Bounded (c : Params) : Point → Prop
  | .incTest i => i ≤ c.TCOUNT
  | .incLock i | .incLoad i | .incStore i _ | .incCheck i | .incNotify i | .incUnlock i =>
      i < c.TCOUNT
  | _ => True

theorem past_bounded (c : Params) : c.Bounded c.past := by
  unfold Params.past
  split <;> trivial

theorem bounded (reachable : c.program.system.Reachable s) :
    ∀ thread ∈ s.pool, c.Bounded thread.here := by
  apply locals reachable
  · intro here created
    obtain ⟨role, -, rfl⟩ := List.mem_map.mp created
    cases role with
    | inc_count => exact Nat.zero_le _
    | watch_count => trivial
  · intro here count next fits goes
    have past := past_bounded c.toParams
    cases here with
    | incTest i =>
        obtain rfl : next = if i < c.TCOUNT then .incLock i else .incExit := goes
        split
        next more => exact more
        next last => trivial
    | incCheck i =>
        obtain rfl : next = if count = c.COUNT_LIMIT then .incNotify i else .incUnlock i := goes
        split <;> exact fits
    | incNotify i =>
        have target : next = .incUnlock i := by
          change (c.notify.op (.incUnlock i)).Goes count next at goes
          cases notify : c.notify <;> rw [notify] at goes <;> exact goes
        rw [target]
        exact fits
    | watchLock =>
        obtain rfl : next = if c.guarded = true then .watchTest else .watchWait := goes
        split <;> trivial
    | watchTest =>
        obtain rfl : next = if count < c.COUNT_LIMIT then .watchWait else c.past := goes
        split
        · trivial
        · exact past
    | watchWait =>
        obtain rfl : next = if c.guarded = true then .watchTest else c.past := goes
        split
        · trivial
        · exact past
    | incLock i | incLoad i | incStore i value =>
        cases goes
        exact fits
    | incUnlock i =>
        cases goes
        exact Nat.succ_le_of_lt fits
    | watchLoad | watchStore value | watchUnlock =>
        cases goes
        trivial
    | incExit | watchExit => cases goes

/-- What a thread has added to the count. -/
def Params.part (c : Params) : Point → Nat
  | .incTest i | .incLock i | .incLoad i | .incStore i _ => i
  | .incCheck i | .incNotify i | .incUnlock i => i + 1
  | .incExit => c.TCOUNT
  | .watchLock | .watchTest | .watchWait | .watchLoad | .watchStore _ => 0
  | .watchUnlock | .watchExit => c.update.getD 0

theorem past_part (c : Params) : c.part c.past = 0 := by
  unfold Params.past
  split
  · rfl
  next none => simp [Params.part, none]

theorem known (reachable : c.program.system.Reachable s) {id : Nat} {here : Point}
    (there : s.pool[id]? = some ⟨.ready, here⟩) (has : here.holds = true) :
    c.Knows here s.shared :=
  ((outlined c).described (disciplined c) reachable).known there has

/-- No increment is lost, whatever the order of the steps. -/
theorem count_eq (reachable : c.program.system.Reachable s) :
    s.shared = (s.points.map c.part).sum := by
  have nothing : ∀ role : Role, c.part role.start = 0 := by
    intro role
    cases role <;> rfl
  apply totals reachable id c.part
  · show 0 = ((c.creates.map Role.start).map c.part).sum
    rw [List.map_map]
    simp [Function.comp_def, nothing]
  · intro s id here reachable there
    have fits := bounded reachable _ (Pool.mem there)
    have past := past_part c.toParams
    cases here with
    | incTest i =>
        show c.part (if i < c.TCOUNT then .incLock i else .incExit) = i
        split
        next more => rfl
        next last => exact (Nat.le_antisymm fits (Nat.le_of_not_lt last)).symm
    | incStore i value =>
        have same : value = s.shared := known reachable there rfl
        show value + 1 + i = s.shared + (i + 1)
        omega
    | incCheck i =>
        show s.shared + (i + 1) = s.shared +
          c.part (if s.shared = c.COUNT_LIMIT then .incNotify i else .incUnlock i)
        split <;> rfl
    | incNotify i =>
        show Op.Adds _ _ _ _ (c.notify.op (.incUnlock i))
        cases c.notify <;> rfl
    | watchLock =>
        show c.part (if c.guarded = true then .watchTest else .watchWait) = 0
        split <;> rfl
    | watchTest =>
        show s.shared + 0 =
          s.shared + c.part (if s.shared < c.COUNT_LIMIT then .watchWait else c.past)
        split
        · rfl
        · rw [past]
    | watchWait =>
        show c.part (if c.guarded = true then .watchTest else c.past) = 0
        split
        · rfl
        · exact past
    | watchStore value =>
        have same : value = s.shared := known reachable there rfl
        show value + c.update.getD 0 + 0 = s.shared + c.update.getD 0
        omega
    | incLock i | incLoad i | incUnlock i | watchLoad | watchUnlock => rfl
    | incExit | watchExit => trivial

/-! ## The final count -/

def Point.role : Point → Role
  | .incTest _ | .incLock _ | .incLoad _ | .incStore .. | .incCheck _ | .incNotify _
  | .incUnlock _ | .incExit => .inc_count
  | .watchLock | .watchTest | .watchWait | .watchLoad | .watchStore _ | .watchUnlock
  | .watchExit => .watch_count

theorem past_role (c : Params) : c.past.role = .watch_count := by
  unfold Params.past
  split <;> rfl

/-- Each thread stays in the function with which it was created. -/
theorem role_goes (c : Setup) (here : Point) (count : Nat) (next : Point)
    (goes : (c.program.code here).Goes count next) : next.role = here.role := by
  have past := past_role c.toParams
  cases here with
  | incTest i =>
      obtain rfl : next = if i < c.TCOUNT then .incLock i else .incExit := goes
      split <;> rfl
  | incCheck i =>
      obtain rfl : next = if count = c.COUNT_LIMIT then .incNotify i else .incUnlock i := goes
      split <;> rfl
  | incNotify i =>
      change (c.notify.op (.incUnlock i)).Goes count next at goes
      cases notify : c.notify <;> rw [notify] at goes <;> cases goes <;> rfl
  | watchLock =>
      obtain rfl : next = if c.guarded = true then .watchTest else .watchWait := goes
      split <;> rfl
  | watchTest =>
      obtain rfl : next = if count < c.COUNT_LIMIT then .watchWait else c.past := goes
      split
      · rfl
      · exact past
  | watchWait =>
      obtain rfl : next = if c.guarded = true then .watchTest else c.past := goes
      split
      · rfl
      · exact past
  | incLock i | incLoad i | incStore i value | incUnlock i =>
      cases goes
      rfl
  | watchLoad | watchStore value | watchUnlock =>
      cases goes
      rfl
  | incExit | watchExit => cases goes

theorem pool_roles (reachable : c.program.system.Reachable s) :
    s.points.map Point.role = c.creates := by
  have start : Point.role ∘ Role.start = id := by
    funext role
    cases role <;> rfl
  rw [roles reachable Point.role (role_goes c)]
  show (c.creates.map Role.start).map Point.role = c.creates
  rw [List.map_map, start, List.map_id]

/-- What a thread adds to the count in all. -/
def Params.share (c : Params) : Role → Nat
  | .inc_count => c.TCOUNT
  | .watch_count => c.update.getD 0

theorem sum_share (c : Params) (creates : List Role) :
    (creates.map c.share).sum =
      creates.count .inc_count * c.TCOUNT + creates.count .watch_count * c.update.getD 0 := by
  induction creates with
  | nil => simp
  | cons role rest ih =>
      cases role <;> simp [ih, Params.share] <;> ring

/-- A thread that has ended has added its share. -/
theorem part_of_exit {here : Point} (exits : c.program.code here = .exit) :
    c.part here = c.share here.role := by
  cases here with
  | incExit | watchExit => rfl
  | incNotify i =>
      change c.notify.op (.incUnlock i) = .exit at exits
      cases notify : c.notify <;> rw [notify] at exits <;> cases exits
  | _ => cases exits

/-- What all threads add to the count. -/
def Setup.total (c : Setup) : Nat :=
  c.creates.count .inc_count * c.TCOUNT + c.creates.count .watch_count * c.update.getD 0

theorem part_le_share {here : Point} (fits : c.Bounded here) : c.part here ≤ c.share here.role := by
  cases here with
  | incTest i => exact fits
  | incLock i | incLoad i | incStore i value => exact Nat.le_of_lt fits
  | incCheck i | incNotify i | incUnlock i => exact fits
  | incExit | watchUnlock | watchExit => exact Nat.le_refl _
  | watchLock | watchTest | watchWait | watchLoad | watchStore => exact Nat.zero_le _

/-- The count never exceeds what all threads add to it. -/
theorem count_le (reachable : c.program.system.Reachable s) : s.shared ≤ c.total := by
  have parts : ∀ here ∈ s.points, c.part here ≤ c.share here.role :=
    List.forall_mem_map.mpr fun thread member => part_le_share (bounded reachable thread member)
  calc s.shared = (s.points.map c.part).sum := count_eq reachable
    _ ≤ (s.points.map fun here => c.share here.role).sum := List.sum_le_sum parts
    _ = ((s.points.map Point.role).map c.share).sum := by
        rw [List.map_map]
        rfl
    _ = c.total := by
        rw [pool_roles reachable, sum_share]
        rfl

/-- If that is an `int`, so is every count that is stored later. -/
theorem isInt_count (reachable : c.program.system.Reachable s) (small : (c.total : Int) ≤ INT_MAX) :
    ∀ later, c.program.system.Leads s later → IsInt later.shared := by
  exact fun later leads => isInt_of_le (count_le (reachable.leads leads)) small

/-- `main` prints the same count after every run; no count was greater. -/
theorem reachable_final_count (reachable : c.program.system.Reachable s)
    (complete : c.program.Complete s) (every : ∀ id < c.creates.length, id ∈ c.joins) :
    s.shared = c.creates.count .inc_count * c.TCOUNT +
      c.creates.count .watch_count * c.update.getD 0 ∧
    ((c.total : Int) ≤ INT_MAX → ∀ earlier, c.program.system.Reachable earlier →
      IsInt earlier.shared) := by
  refine ⟨?_, fun small earlier => isInt_count (Transition.System.Leads.refl _) small earlier⟩
  have created : ∀ id < c.program.creates.length, id ∈ c.program.joins := by
    intro id within
    apply every id
    rwa [Setup.program, List.length_map] at within
  have ended := ended_of_complete reachable complete created
  have parts : ∀ here ∈ s.points, c.part here = c.share here.role :=
    List.forall_mem_map.mpr fun thread member => part_of_exit (ended thread member).2
  calc s.shared = (s.points.map c.part).sum := count_eq reachable
    _ = ((s.points.map Point.role).map c.share).sum := by
        rw [List.map_congr_left parts, List.map_map]
        rfl
    _ = (c.creates.map c.share).sum := by rw [pool_roles reachable]
    _ = _ := sum_share c.toParams c.creates

/-- The waiting thread of `condvar.c` falls asleep first, and ends last. -/
def condvarRun : List Label :=
  List.replicate 3 .create ++ List.replicate 3 (.step 0) ++ List.replicate 61 (.step 1) ++
    List.replicate 11 (.step 2) ++ [.signal 2 (some 0)] ++ List.replicate 50 (.step 2) ++
    [.resume 0] ++ List.replicate 4 (.step 0) ++ List.replicate 3 .join

theorem condvar_final_count :
    (condvar.program.system.after condvar.program.initial condvarRun).shared =
      condvar.creates.count .inc_count * condvar.TCOUNT +
        condvar.creates.count .watch_count * condvar.update.getD 0 := by
  have runs : condvar.program.system.Runs condvar.program.initial condvarRun := by
    decide +kernel
  exact (reachable_final_count (Transition.System.Runs.leads runs) (by decide +kernel)
    (by decide)).1

end ApLabs.Threads.Threshold
