import ApLabs.Threads.Threshold
import Mathlib.Algebra.Order.BigOperators.Group.List

/-!
# Lost wake-ups

A waiting thread can be left asleep for ever, since the threads that count notify only
when the count equals the threshold.  With the guard no thread falls asleep after that,
so one notification is enough if it reaches all that sleep.  In general the threads that
are asleep, or have still to wait, when the notification is sent decide whether `main`
will join all threads.
-/

namespace ApLabs.Threads.Threshold

open ApLabs.Foundation
open ApLabs.Foundation.CMemory
open ApLabs.Foundation.Pthreads
open ApLabs.Foundation.Transition.System

variable {c : Setup} {s : State Nat Point}

/-! ## Sleeping threads -/

/-- Where a thread goes on that has been woken. -/
def Params.rests (c : Params) (here : Point) : Prop :=
  here = if c.guarded then .watchTest else c.past

theorem rests_role {here : Point} (rests : c.rests here) : here.role = .watch_count := by
  rw [rests]
  split
  · rfl
  · exact past_role c.toParams

theorem code_wait {here next : Point} (code : c.program.code here = .wait next) :
    here = .watchWait ∧ c.rests next := by
  cases here with
  | watchWait =>
      change Op.wait (if c.guarded then .watchTest else c.past) = _ at code
      cases code
      exact ⟨rfl, rfl⟩
  | incNotify i =>
      change c.notify.op (.incUnlock i) = _ at code
      cases notify : c.notify <;> rw [notify] at code <;> cases code
  | _ => cases code

theorem code_broadcast {here next : Point} (code : c.program.code here = .broadcast next) :
    ∃ i, here = .incNotify i ∧ next = .incUnlock i ∧ c.notify = .broadcast := by
  cases here with
  | incNotify i =>
      change c.notify.op (.incUnlock i) = _ at code
      cases notify : c.notify <;> rw [notify] at code <;> cases code
      exact ⟨i, rfl, rfl, rfl⟩
  | _ => cases code

theorem code_signal {here next : Point} (code : c.program.code here = .signal next) :
    ∃ i, here = .incNotify i ∧ next = .incUnlock i ∧ c.notify = .signal := by
  cases here with
  | incNotify i =>
      change c.notify.op (.incUnlock i) = _ at code
      cases notify : c.notify <;> rw [notify] at code <;> cases code
      exact ⟨i, rfl, rfl, rfl⟩
  | _ => cases code

theorem rested (reachable : c.program.system.Reachable s) :
    ∀ thread ∈ s.pool, thread.status = .asleep ∨ thread.status = .woken →
      c.rests thread.here := by
  apply sleepers reachable
  exact fun here next code => (code_wait code).2

theorem asleep_le_watchers (reachable : c.program.system.Reachable s) :
    asleep s.pool ≤ c.creates.count .watch_count := by
  have watching : ∀ thread ∈ s.pool, decide (thread.status = .asleep) = true →
      (thread.here.role == .watch_count) = true := by
    intro thread member sleeps
    rw [rests_role (rested reachable thread member (Or.inl (of_decide_eq_true sleeps)))]
    rfl
  calc asleep s.pool ≤ s.pool.countP fun thread => thread.here.role == .watch_count :=
        List.countP_mono_left watching
    _ = (s.points.map Point.role).count .watch_count := by
        rw [State.points, List.map_map, List.count_eq_countP, List.countP_map]
        rfl
    _ = c.creates.count .watch_count := by rw [pool_roles reachable]

/-! ## Careful programs -/

/-- What a thread with the mutex knows of the sleeping threads. -/
def Params.Alert (c : Params) (here : Point) (count sleepers : Nat) : Prop :=
  match here with
  | .incCheck _ => sleepers = 0 ∨ count ≤ c.COUNT_LIMIT
  | .incNotify _ => True
  | .watchWait => count < c.COUNT_LIMIT
  | .watchLoad | .watchStore _ | .watchUnlock => sleepers = 0
  | _ => sleepers = 0 ∨ count < c.COUNT_LIMIT

theorem past_alert (c : Params) (count : Nat) : c.Alert c.past count 0 := by
  unfold Params.past
  split <;> rfl

/-- Every waiting thread tests the count, one notification reaches all that sleep, and
the threshold is reached. -/
structure Setup.Careful (c : Setup) : Prop where
  guarded : c.guarded = true
  reaches : c.notify = .broadcast ∨ c.creates.count .watch_count ≤ 1
  enough : c.COUNT_LIMIT ≤ c.creates.count .inc_count * c.TCOUNT
  inside : ∀ id ∈ c.joins, id < c.creates.length

theorem alert (careful : c.Careful) :
    Outlined c.program Point.holds
      (fun count sleepers => sleepers = 0 ∨ count < c.COUNT_LIMIT) c.Alert := by
  have guarded := careful.guarded
  constructor
  · exact Or.inl rfl
  · intro count sleepers fewer less
    exact Or.imp_left fun none => Nat.le_zero.mp (none ▸ less)
  · intro here count sleepers fewer less
    have none : sleepers = 0 → fewer = 0 := fun none => Nat.le_zero.mp (none ▸ less)
    cases here with
    | incNotify | watchWait => exact id
    | watchLoad | watchStore | watchUnlock => exact none
    | _ => exact Or.imp_left none
  · intro s id here reachable there
    have few := asleep_le_watchers reachable
    cases here with
    | incTest i =>
        intro has
        cases has
    | incLock i | incLoad i | incUnlock i => exact fun alert => alert
    | incStore i value =>
        have same : value = s.shared := known reachable there rfl
        rintro (nobody | below)
        · exact Or.inl nobody
        · exact Or.inr (same ▸ below)
    | incCheck i =>
        intro alert
        show c.Alert (if s.shared = c.COUNT_LIMIT then .incNotify i else .incUnlock i) _ _
        split
        next reached => trivial
        next other => exact alert.imp_right fun most => Nat.lt_of_le_of_ne most other
    | incNotify i =>
        show Op.Outlined _ _ _ _ _ _ (c.notify.op (.incUnlock i))
        rcases careful.reaches with notify | single
        · rw [notify]
          exact fun _ _ => Or.inl rfl
        · have one : asleep s.pool - 1 = 0 := by omega
          cases c.notify with
          | signal => exact fun _ _ => Or.inl one
          | broadcast => exact fun _ _ => Or.inl rfl
    | watchLock =>
        intro free
        show c.Alert (if c.guarded = true then .watchTest else .watchWait) _ _
        rw [if_pos guarded]
        exact free
    | watchTest =>
        intro alert
        show c.Alert (if s.shared < c.COUNT_LIMIT then .watchWait else c.past) _ _
        split
        next below => exact below
        next reached =>
          rw [alert.resolve_right reached]
          exact past_alert c.toParams s.shared
    | watchWait =>
        refine ⟨Or.inr, ?_⟩
        intro later others free
        show c.Alert (if c.guarded = true then .watchTest else c.past) _ _
        rw [if_pos guarded]
        exact free
    | watchLoad | watchStore => exact fun alert => alert
    | watchUnlock => exact Or.inl
    | incExit | watchExit => trivial

/-! ## Runs end -/

/-- The steps that a thread has still to make if it need not wait. -/
def Params.weight (c : Params) : Point → Nat
  | .incTest i => 8 * (c.TCOUNT - i) + 1
  | .incLock i => 8 * (c.TCOUNT - (i + 1)) + 8
  | .incLoad i => 8 * (c.TCOUNT - (i + 1)) + 7
  | .incStore i _ => 8 * (c.TCOUNT - (i + 1)) + 6
  | .incCheck i => 8 * (c.TCOUNT - (i + 1)) + 5
  | .incNotify i => 8 * (c.TCOUNT - (i + 1)) + 4
  | .incUnlock i => 8 * (c.TCOUNT - (i + 1)) + 3
  | .watchLock => 6
  | .watchTest => 5
  | .watchWait => 4
  | .watchLoad => 3
  | .watchStore _ => 2
  | .watchUnlock => 1
  | .incExit | .watchExit => 0

/-- A bound on the notifications that a thread may still send. -/
def Params.calls (c : Params) : Point → Nat
  | .incTest i => c.TCOUNT - i
  | .incLock i | .incLoad i | .incStore i _ | .incCheck i | .incNotify i =>
      c.TCOUNT - (i + 1) + 1
  | .incUnlock i => c.TCOUNT - (i + 1)
  | .watchLock | .watchTest | .watchWait | .watchLoad | .watchStore _ | .watchUnlock
  | .incExit | .watchExit => 0

theorem past_weight (c : Params) : c.weight c.past ≤ 3 ∧ c.calls c.past = 0 := by
  unfold Params.past
  split <;> simp [Params.weight, Params.calls]

theorem weighted (c : Setup) (here : Point) :
    (c.program.code here).Weighted c.weight c.calls here := by
  obtain ⟨light, silent⟩ := past_weight c.toParams
  cases here with
  | incTest i =>
      show c.weight (if i < c.TCOUNT then .incLock i else .incExit) < 8 * (c.TCOUNT - i) + 1 ∧
        c.calls (if i < c.TCOUNT then .incLock i else .incExit) ≤ c.TCOUNT - i
      split
      next more =>
        simp only [Params.weight, Params.calls]
        omega
      next last => exact ⟨Nat.succ_pos _, Nat.zero_le _⟩
  | incCheck i =>
      intro count
      show c.weight (if count = c.COUNT_LIMIT then .incNotify i else .incUnlock i) <
          8 * (c.TCOUNT - (i + 1)) + 5 ∧
        c.calls (if count = c.COUNT_LIMIT then .incNotify i else .incUnlock i) ≤
          c.TCOUNT - (i + 1) + 1
      split
      · simp only [Params.weight, Params.calls]
        omega
      · simp only [Params.weight, Params.calls]
        omega
  | incNotify i =>
      show Op.Weighted _ _ _ (c.notify.op (.incUnlock i))
      cases c.notify <;> exact Nat.lt_succ_self _
  | watchLock =>
      show c.weight (if c.guarded = true then .watchTest else .watchWait) < 6 ∧
        c.calls (if c.guarded = true then .watchTest else .watchWait) ≤ 0
      split <;> simp [Params.weight, Params.calls]
  | watchTest =>
      intro count
      show c.weight (if count < c.COUNT_LIMIT then .watchWait else c.past) < 5 ∧
        c.calls (if count < c.COUNT_LIMIT then .watchWait else c.past) ≤ 0
      split
      · exact ⟨Nat.lt_succ_self 4, Nat.le_refl 0⟩
      · omega
  | watchWait =>
      show 0 < 4 ∧ c.calls (if c.guarded = true then .watchTest else c.past) ≤ 0
      split
      · exact ⟨Nat.succ_pos 3, Nat.le_refl 0⟩
      · omega
  | incLock i | incUnlock i | watchUnlock =>
      simp only [Setup.program, Params.code, Params.inc_count, Params.watch_count, Op.Weighted,
        Params.weight, Params.calls]
      omega
  | incLoad i | incStore i value | watchLoad | watchStore value =>
      intro count
      simp only [Params.weight, Params.calls]
      omega
  | incExit | watchExit => trivial

/-- When all threads have ended or sleep, those that count have counted. -/
theorem counted (reachable : c.program.system.Reachable s)
    (threads : ∀ thread ∈ s.pool, thread.status = .asleep ∨
      thread.status = .ready ∧ c.program.code thread.here = .exit) :
    c.creates.count .inc_count * c.TCOUNT ≤ s.shared := by
  let silent : Params := { c.toParams with update := none }
  have parts : ∀ here ∈ s.points, silent.share here.role ≤ c.part here := by
    rw [State.points, List.forall_mem_map]
    intro thread member
    rcases threads thread member with sleeps | ⟨-, exits⟩
    · rw [rests_role (rested reachable thread member (Or.inl sleeps))]
      exact Nat.zero_le _
    · rw [part_of_exit exits]
      cases thread.here.role with
      | inc_count => exact Nat.le_refl _
      | watch_count => exact Nat.zero_le _
  calc c.creates.count .inc_count * c.TCOUNT = (c.creates.map silent.share).sum := by
        rw [sum_share]
        rfl
    _ = (s.points.map fun here => silent.share here.role).sum := by
        rw [← pool_roles reachable, List.map_map]
        rfl
    _ ≤ (s.points.map c.part).sum := List.sum_le_sum parts
    _ = s.shared := (count_eq reachable).symm

/-- Wherever a careful program is, its runs without further spurious wake-ups end with all
threads joined, and each count is an `int` if the final one is. -/
theorem reachable_ends_complete (careful : c.Careful)
    (reachable : c.program.system.Reachable s) :
    c.program.strict.EndsIn s c.program.Complete ∧
      ((c.total : Int) ≤ INT_MAX →
        ∀ later, c.program.system.Leads s later → IsInt later.shared) := by
  refine ⟨⟨strict_terminates (weighted c) s, ?_⟩, isInt_count reachable⟩
  intro last leads ended
  have reached := reachable.leads (leads_of_strict leads)
  have inside : ∀ id ∈ c.program.joins, id < c.program.creates.length := by
    intro id joined
    rw [Setup.program, List.length_map]
    exact careful.inside id joined
  apply complete_of_stuck (disciplined c) reached inside ended
  obtain ⟨-, free, threads⟩ := stuck_threads (disciplined c) reached ended
  have described := (alert careful).described (disciplined c) reached
  have above := careful.enough.trans (counted reached threads)
  exact asleep_eq_zero.mp ((described.free free).resolve_right (Nat.not_lt.mpr above))

theorem condvar_careful : condvar.Careful :=
  ⟨rfl, Or.inr (by decide), by decide, by decide⟩

theorem bug1fix_careful : bug1fix.Careful :=
  ⟨rfl, Or.inl rfl, by decide, by decide⟩

theorem bug4fix_careful : bug4fix.Careful :=
  ⟨rfl, Or.inr (by decide), by decide, by decide⟩

theorem fixes_end_complete :
    condvar.program.strict.EndsIn condvar.program.initial condvar.program.Complete ∧
      bug1fix.program.strict.EndsIn bug1fix.program.initial bug1fix.program.Complete ∧
      bug4fix.program.strict.EndsIn bug4fix.program.initial bug4fix.program.Complete :=
  ⟨(reachable_ends_complete condvar_careful (Leads.refl _)).1,
    (reachable_ends_complete bug1fix_careful (Leads.refl _)).1,
    (reachable_ends_complete bug4fix_careful (Leads.refl _)).1⟩

/-! ## After the notification -/

/-- A thread here will wait whatever the count is. -/
def Params.waits (c : Params) (here : Point) : Bool :=
  !c.guarded && (here = .watchLock || here = .watchWait)

/-- The threads that have still to wait. -/
def Params.late (c : Params) (pool : List (Thread Point)) : Nat :=
  pool.countP fun thread => c.waits thread.here

/-- What holds at every point once the count is past the threshold and nobody is about to
notify. -/
def Params.Passed (c : Params) (count : Nat) (here : Point) : Prop :=
  match here with
  | .incCheck _ => c.COUNT_LIMIT < count
  | .incNotify _ => False
  | .watchWait => c.guarded = false
  | _ => True

structure Settled (c : Setup) (s : State Nat Point) : Prop where
  count : c.COUNT_LIMIT ≤ s.shared
  points : ∀ thread ∈ s.pool, c.Passed s.shared thread.here

theorem late_same {pool : List (Thread Point)} {id : Nat} {before : Status}
    {here next : Point} (there : pool[id]? = some ⟨before, here⟩) (after : Status)
    (same : c.waits next = c.waits here) : c.late (pool.set id ⟨after, next⟩) = c.late pool :=
  Pool.countP_same _ there same

theorem late_wake (pool : List (Thread Point)) : c.late (pool.map Thread.wake) = c.late pool := by
  rw [Params.late, List.countP_map]
  rfl

theorem past_waits (c : Params) : c.waits c.past = false := by
  unfold Params.past Params.waits
  split <;> simp

theorem past_passed (c : Params) (count : Nat) : c.Passed count c.past := by
  unfold Params.past
  split <;> trivial

/-- Past the threshold no operation leads to a notification or, with the guard, to a wait. -/
theorem Settled.goes (settled : Settled c s) (reachable : c.program.system.Reachable s)
    {id : Nat} {here next : Point} (there : s.pool[id]? = some ⟨.ready, here⟩)
    (target : (c.program.code here).Goes s.shared next) :
    c.Passed ((c.program.code here).effect s.shared) next := by
  have passed := settled.points _ (Pool.mem there)
  have past := past_passed c.toParams
  cases here with
  | incTest i =>
      obtain rfl : next = if i < c.TCOUNT then .incLock i else .incExit := target
      split <;> trivial
  | incStore i value =>
      have same : value = s.shared := known reachable there rfl
      obtain rfl : next = .incCheck i := target
      exact Nat.lt_succ_of_le (same ▸ settled.count)
  | incCheck i =>
      have above : c.COUNT_LIMIT < s.shared := passed
      obtain rfl : next = if s.shared = c.COUNT_LIMIT then .incNotify i else .incUnlock i := target
      rw [if_neg above.ne']
      trivial
  | incNotify i => exact absurd passed not_false
  | watchLock =>
      obtain rfl : next = if c.guarded = true then .watchTest else .watchWait := target
      split
      next guarded => trivial
      next unguarded => exact Bool.eq_false_iff.mpr unguarded
  | watchTest =>
      obtain rfl : next = if s.shared < c.COUNT_LIMIT then .watchWait else c.past := target
      rw [if_neg (Nat.not_lt.mpr settled.count)]
      exact past s.shared
  | watchWait =>
      obtain rfl : next = if c.guarded = true then .watchTest else c.past := target
      split
      · trivial
      · exact past s.shared
  | incLock i | incLoad i | incUnlock i =>
      cases target
      trivial
  | watchLoad | watchStore value | watchUnlock =>
      cases target
      trivial
  | incExit | watchExit => cases target

/-- The count does not fall. -/
theorem count_le_effect (reachable : c.program.system.Reachable s) {id : Nat} {here : Point}
    (there : s.pool[id]? = some ⟨.ready, here⟩) :
    s.shared ≤ (c.program.code here).effect s.shared := by
  cases here with
  | incStore i value =>
      have same : value = s.shared := known reachable there rfl
      show s.shared ≤ value + 1
      omega
  | watchStore value =>
      have same : value = s.shared := known reachable there rfl
      show s.shared ≤ value + c.update.getD 0
      omega
  | incNotify i =>
      show s.shared ≤ (c.notify.op (.incUnlock i)).effect s.shared
      cases c.notify <;> exact Nat.le_refl _
  | _ => exact Nat.le_refl _

theorem Passed.mono {count more : Nat} {here : Point} (passed : c.Passed count here)
    (up : count ≤ more) : c.Passed more here := by
  cases here with
  | incCheck i => exact Nat.lt_of_lt_of_le passed up
  | _ => exact passed

theorem Settled.move (settled : Settled c s) (reachable : c.program.system.Reachable s)
    {label : Label} {after : State Nat Point} (moved : Move c.program s label after) :
    Settled c after := by
  have points := moved.locals c.Passed settled.points
    (fun id here next there => settled.goes reachable there)
    (fun id here there at_ passed => Passed.mono passed (count_le_effect reachable at_))
  refine ⟨?_, points⟩
  cases moved with
  | access there code =>
      have up := count_le_effect reachable there
      rw [code] at up
      exact settled.count.trans up
  | _ => exact settled.count

/-- Only a thread that is about to wait changes by it from one that is late to one that is
not. -/
theorem Settled.waits_goes (settled : Settled c s) {id : Nat} {here next : Point}
    (there : s.pool[id]? = some ⟨.ready, here⟩)
    (target : (c.program.code here).Goes s.shared next) (other : here ≠ .watchWait) :
    c.waits next = c.waits here := by
  have passed := settled.points _ (Pool.mem there)
  cases here with
  | incTest i =>
      obtain rfl : next = if i < c.TCOUNT then .incLock i else .incExit := target
      split <;> rfl
  | incCheck i =>
      obtain rfl : next = if s.shared = c.COUNT_LIMIT then .incNotify i else .incUnlock i := target
      split <;> rfl
  | incNotify i => exact absurd passed not_false
  | watchLock =>
      obtain rfl : next = if c.guarded = true then .watchTest else .watchWait := target
      split
      next guarded => simp [Params.waits, guarded]
      next unguarded => simp [Params.waits]
  | watchTest =>
      obtain rfl : next = if s.shared < c.COUNT_LIMIT then .watchWait else c.past := target
      rw [if_neg (Nat.not_lt.mpr settled.count), past_waits]
      simp [Params.waits]
  | watchWait => exact absurd rfl other
  | incLock i | incLoad i | incStore i value | incUnlock i =>
      cases target
      simp [Params.waits]
  | watchLoad | watchStore value | watchUnlock =>
      cases target
      simp [Params.waits]
  | incExit | watchExit => cases target

/-- The threads that sleep and the threads that will fall asleep are as many as before. -/
theorem Settled.doomed (settled : Settled c s) {label : Label} {after : State Nat Point}
    (moved : Move c.program s label after) (strict : ¬ label.Spurious) :
    asleep after.pool + c.late after.pool = asleep s.pool + c.late s.pool := by
  have goes : ∀ {id : Nat} {here next : Point} {op : Op Nat Point},
      s.pool[id]? = some ⟨.ready, here⟩ → c.program.code here = op → op.Goes s.shared next →
      (∀ later, op ≠ .wait later) →
      asleep (s.pool.set id ⟨.ready, next⟩) + c.late (s.pool.set id ⟨.ready, next⟩) =
        asleep s.pool + c.late s.pool := by
    intro id here next op there code target other
    have awake : here ≠ .watchWait := by
      rintro rfl
      exact other _ code.symm
    rw [asleep_ready there (by simp),
      late_same there .ready (settled.waits_goes there (code ▸ target) awake)]
  cases moved with
  | @create here first =>
      rw [State.put, asleep_ready first (by simp), late_same first .ready rfl]
  | run there code => exact goes there code rfl (by simp)
  | access there code => exact goes there code rfl (by simp)
  | lock there code free => exact goes there code rfl (by simp)
  | unlock there code => exact goes there code rfl (by simp)
  | @wait id here next there code =>
      obtain ⟨rfl, rests⟩ := code_wait code
      have unguarded : c.guarded = false := settled.points _ (Pool.mem there)
      have waits : c.waits .watchWait = true := by simp [Params.waits, unguarded]
      have passed : c.waits next = false := by
        rw [rests, unguarded, if_neg Bool.false_ne_true, past_waits]
      have fewer : c.late (s.pool.set id ⟨.asleep, next⟩) + 1 = c.late s.pool :=
        Pool.countP_exit _ there waits passed
      have more := asleep_enter there next
      show asleep (s.pool.set id _) + c.late (s.pool.set id _) = _
      omega
  | broadcast there code =>
      obtain ⟨i, rfl, -⟩ := code_broadcast code
      exact absurd (settled.points _ (Pool.mem there)) not_false
  | signal there code nobody => exact goes there code rfl (by simp)
  | wakeOne there code sleeps =>
      obtain ⟨i, rfl, -⟩ := code_signal code
      exact absurd (settled.points _ (Pool.mem there)) not_false
  | resume free there => rw [State.put, asleep_ready there (by simp), late_same there .ready rfl]
  | spurious there => exact absurd trivial strict
  | join all turn there code => rfl

/-! ## The notification -/

theorem passed_outside {count : Nat} {here : Point} (outside : here.holds = false) :
    c.Passed count here := by
  cases here with
  | incCheck i | incNotify i | watchWait => cases outside
  | _ => trivial

/-- While one thread is about to notify, no other is inside its critical section. -/
theorem others_passed (reachable : c.program.system.Reachable s) {id i : Nat}
    (there : s.pool[id]? = some ⟨.ready, .incNotify i⟩) {other : Nat} {thread : Thread Point}
    (found : s.pool[other]? = some thread) (different : other ≠ id) :
    c.Passed s.shared thread.here := by
  have exclusive := (disciplined c).exclusive reachable
  have fits := exclusive.fits other thread found
  have rests := rested reachable thread (Pool.mem found)
  have awake : c.rests thread.here → c.Passed s.shared thread.here := by
    intro rests
    rw [rests]
    split
    · trivial
    · exact past_passed c.toParams s.shared
  obtain ⟨status, here⟩ := thread
  cases status with
  | fresh => exact passed_outside fits.1
  | ready =>
      apply passed_outside
      by_contra inside
      exact different (exclusive.unique found (Bool.eq_true_of_not_eq_false inside) there rfl)
  | asleep => exact awake (rests (Or.inl rfl))
  | woken => exact awake (rests (Or.inr rfl))

theorem notified_settled (reachable : c.program.system.Reachable s) {id i : Nat}
    (there : s.pool[id]? = some ⟨.ready, .incNotify i⟩) {after : State Nat Point}
    (shared : after.shared = s.shared)
    (points : after.pool.map Thread.here = (s.pool.map Thread.here).set id (.incUnlock i)) :
    Settled c after := by
  have reached : s.shared = c.COUNT_LIMIT := known reachable there rfl
  constructor
  · exact (shared.trans reached).ge
  · intro thread member
    have moved : thread.here ∈ (s.pool.map Thread.here).set id (.incUnlock i) := by
      rw [← points]
      exact List.mem_map_of_mem member
    obtain ⟨other, found⟩ := List.mem_iff_getElem?.mp moved
    have before : (s.pool.map Thread.here)[id]? = some (.incNotify i) := by
      rw [List.getElem?_map, there]
      rfl
    rcases Pool.get_set before found with ⟨-, unlock⟩ | ⟨different, old⟩
    · rw [unlock]
      trivial
    · rw [List.getElem?_map, Option.map_eq_some_iff] at old
      obtain ⟨others, elsewhere, same⟩ := old
      rw [← same, shared]
      exact others_passed reachable there elsewhere different

theorem code_run {here next : Point} (code : c.program.code here = .run next) :
    ∃ i, here = .incTest i ∧ c.waits next = c.waits here := by
  cases here with
  | incTest i =>
      change Op.run (if i < c.TCOUNT then Point.incLock i else Point.incExit) = _ at code
      cases code
      refine ⟨i, rfl, ?_⟩
      split <;> simp [Params.waits]
  | incNotify i =>
      change c.notify.op (.incUnlock i) = _ at code
      cases notify : c.notify <;> rw [notify] at code <;> cases code
  | _ => cases code

theorem access_holds {here : Point} {effect : Nat → Nat × Point}
    (code : c.program.code here = .access effect) : here.holds = true := by
  cases here with
  | incTest | incLock | incExit | watchLock | watchExit => cases code
  | _ => rfl

theorem notify_ne {i : Nat} {op : Op Nat Point} (signal : ∀ next, op ≠ .signal next)
    (broadcast : ∀ next, op ≠ .broadcast next) : c.program.code (.incNotify i) ≠ op := by
  change c.notify.op (.incUnlock i) ≠ op
  cases c.notify with
  | signal => exact (signal _).symm
  | broadcast => exact (broadcast _).symm

/-- The threads that the notification leaves to wait for another one. -/
def Params.remain (c : Params) (pool : List (Thread Point)) : Nat :=
  c.late pool +
    match c.notify with
    | .signal => asleep pool - 1
    | .broadcast => 0

/-- The state in which a thread is about to notify lasts until it does. -/
theorem notify_move (reachable : c.program.system.Reachable s) {id i : Nat}
    (there : s.pool[id]? = some ⟨.ready, .incNotify i⟩) {label : Label}
    {after : State Nat Point} (moved : Move c.program s label after)
    (strict : ¬ label.Spurious) :
    after.pool[id]? = some ⟨.ready, .incNotify i⟩ ∧ c.remain after.pool = c.remain s.pool ∨
      Settled c after ∧ asleep after.pool + c.late after.pool = c.remain s.pool := by
  have exclusive := (disciplined c).exclusive reachable
  have owns := exclusive.owner_of_holds there rfl
  have held : s.owner ≠ none := by
    rw [owns]
    exact Option.some_ne_none id
  -- a thread that goes on outside the critical section
  have outside : ∀ {other : Nat} {before : Status} {here next : Point},
      s.pool[other]? = some ⟨before, here⟩ → before ≠ .asleep → other ≠ id →
      c.waits next = c.waits here →
      (s.pool.set other ⟨.ready, next⟩)[id]? = some ⟨.ready, .incNotify i⟩ ∧
        c.remain (s.pool.set other ⟨.ready, next⟩) = c.remain s.pool := by
    intro other before here next found awake different same
    constructor
    · rw [List.getElem?_set_ne different]
      exact there
    · rw [Params.remain, Params.remain, late_same found .ready same,
        asleep_ready found awake]
  -- no other thread has the mutex
  have mine : ∀ {other : Nat} {here : Point}, s.pool[other]? = some ⟨.ready, here⟩ →
      here.holds = true → here = .incNotify i := by
    intro other here found has
    obtain rfl := exclusive.unique found has there rfl
    rw [there] at found
    cases found
    rfl
  cases moved with
  | create first =>
      refine Or.inl (outside first nofun ?_ rfl)
      rintro rfl
      rw [there] at first
      cases first
  | @run other here next found code =>
      obtain ⟨j, rfl, same⟩ := code_run code
      refine Or.inl (outside found nofun ?_ same)
      rintro rfl
      rw [there] at found
      cases found
  | access found code =>
      obtain rfl := mine found (access_holds code)
      exact absurd code (notify_ne nofun nofun)
  | lock found code free => exact absurd free held
  | unlock found code =>
      obtain rfl := mine found ((disciplined c).op code).1
      exact absurd code (notify_ne nofun nofun)
  | wait found code =>
      obtain rfl := mine found ((disciplined c).op code).1
      exact absurd code (notify_ne nofun nofun)
  | @broadcast other here next found code =>
      obtain ⟨j, rfl, rfl, notify⟩ := code_broadcast code
      obtain rfl := exclusive.unique found rfl there rfl
      cases mine found rfl
      have points : ((s.pool.map Thread.wake).set other ⟨.ready, .incUnlock i⟩).map Thread.here =
          (s.pool.map Thread.here).set other (.incUnlock i) := by
        rw [List.map_set, List.map_map]
        rfl
      refine Or.inr ⟨notified_settled reachable there rfl points, ?_⟩
      rw [Params.remain, notify, asleep_ready (ready_wake found) nofun, asleep_wake,
        late_same (ready_wake found) .ready (by rfl), late_wake]
      exact Nat.add_comm _ _
  | @signal other here next found code nobody =>
      obtain ⟨j, rfl, rfl, notify⟩ := code_signal code
      obtain rfl := exclusive.unique found rfl there rfl
      cases mine found rfl
      have points := List.map_set (l := s.pool) (f := Thread.here) (i := other)
        (a := ⟨.ready, .incUnlock i⟩)
      refine Or.inr ⟨notified_settled reachable there rfl points, ?_⟩
      rw [State.put, Params.remain, notify, asleep_ready found nofun,
        late_same found .ready (by rfl), asleep_eq_zero.mpr nobody]
      exact Nat.add_comm _ _
  | @wakeOne other sleeper here next goal found code sleeps =>
      obtain ⟨j, rfl, rfl, notify⟩ := code_signal code
      obtain rfl := exclusive.unique found rfl there rfl
      cases mine found rfl
      have still := asleep_still found sleeps ⟨.ready, .incUnlock i⟩
      have points : (((s.pool.set other ⟨.ready, .incUnlock i⟩).set sleeper
          ⟨.woken, goal⟩).map Thread.here) = (s.pool.map Thread.here).set other (.incUnlock i) := by
        rw [Pool.map_set Thread.here still (by rfl), List.map_set]
      refine Or.inr ⟨notified_settled reachable there rfl points, ?_⟩
      have fewer := asleep_leave still goal
      have late := late_same (c := c) still .woken (by rfl)
      rw [late_same found .ready (by rfl)] at late
      rw [asleep_ready found nofun] at fewer
      rw [State.put, State.put, Params.remain, notify, late]
      simp only
      omega
  | resume free found => exact absurd free held
  | spurious found => exact absurd trivial strict
  | join all turn found code => exact Or.inl ⟨there, rfl⟩

theorem leads_remain (reachable : c.program.system.Reachable s) {id i : Nat}
    (there : s.pool[id]? = some ⟨.ready, .incNotify i⟩) {last : State Nat Point}
    (leads : c.program.strict.Leads s last) :
    last.pool[id]? = some ⟨.ready, .incNotify i⟩ ∧ c.remain last.pool = c.remain s.pool ∨
      Settled c last ∧ asleep last.pool + c.late last.pool = c.remain s.pool := by
  induction leads with
  | refl => exact Or.inl ⟨there, rfl⟩
  | tail before step ih =>
      have reached := reachable.leads (leads_of_strict before)
      obtain ⟨label, ⟨enabled, strict⟩, rfl⟩ := step
      have moved := move enabled
      rcases ih with ⟨notifying, same⟩ | ⟨settled, same⟩
      · rw [← same]
        exact notify_move reached notifying moved strict
      · exact Or.inr ⟨settled.move reached moved, (settled.doomed moved strict).trans same⟩

theorem remain_eq_zero {pool : List (Thread Point)} :
    c.remain pool = 0 ↔ c.late pool = 0 ∧ (c.notify = .broadcast ∨ asleep pool ≤ 1) := by
  unfold Params.remain
  cases notify : c.notify with
  | signal =>
      simp only [reduceCtorEq, false_or]
      omega
  | broadcast => simp

/-- Once all threads have ended or sleep, no thread has still to wait. -/
theorem late_of_stuck (reachable : c.program.system.Reachable s)
    (threads : ∀ thread ∈ s.pool, thread.status = .asleep ∨
      thread.status = .ready ∧ c.program.code thread.here = .exit) : c.late s.pool = 0 := by
  rw [Params.late, List.countP_eq_zero]
  intro thread member
  rcases threads thread member with sleeps | ⟨-, exits⟩
  · rw [rested reachable thread member (Or.inl sleeps)]
    split
    · simp [Params.waits]
    · rw [past_waits]
      exact Bool.false_ne_true
  · cases here : thread.here with
    | watchLock | watchWait =>
        rw [here] at exits
        cases exits
    | _ => simp [Params.waits]

/-- When the notification is about to be sent it is settled how every run ends that has no
spurious wake-ups; again each count is an `int` if the final one is. -/
theorem notified_outcome (reachable : c.program.system.Reachable s) {id i : Nat}
    (there : s.pool[id]? = some ⟨.ready, .incNotify i⟩)
    (inside : ∀ id ∈ c.joins, id < c.creates.length)
    (every : ∀ id < c.creates.length, id ∈ c.joins) :
    (c.program.strict.EndsIn s fun last => c.program.Complete last ↔
      c.late s.pool = 0 ∧ (c.notify = .broadcast ∨ asleep s.pool ≤ 1)) ∧
      ((c.total : Int) ≤ INT_MAX →
        ∀ later, c.program.system.Leads s later → IsInt later.shared) := by
  refine ⟨⟨strict_terminates (weighted c) s, ?_⟩, isInt_count reachable⟩
  intro last leads ended
  have reached := reachable.leads (leads_of_strict leads)
  obtain ⟨-, -, threads⟩ := stuck_threads (disciplined c) reached ended
  have created : c.program.creates.length = c.creates.length := List.length_map ..
  rw [← created] at inside every
  rw [← remain_eq_zero]
  rcases leads_remain reachable there leads with ⟨notifying, -⟩ | ⟨-, same⟩
  · obtain ⟨label, enabled⟩ := op_enabled notifying (notify_ne nofun nofun)
      fun next code => absurd code (notify_ne nofun nofun)
    exact absurd enabled (ended label)
  · rw [← same, late_of_stuck reached threads, Nat.add_zero, asleep_eq_zero]
    constructor
    · intro complete thread member asleep
      have ready := (ended_of_complete reached complete every thread member).1
      exact absurd (ready.symm.trans asleep) nofun
    · exact complete_of_stuck (disciplined c) reached inside ended

/-- Two of the four threads sleep when the count of `bug1.c` gets to the threshold. -/
def bug1Run : List Label :=
  List.replicate 6 .create ++ List.replicate 3 (.step 0) ++ List.replicate 3 (.step 1) ++
    List.replicate 60 (.step 4) ++ List.replicate 11 (.step 5)

/-- The count of `bug4.c` gets there before `sub1` has started. -/
def bug4Run : List Label :=
  List.replicate 3 .create ++ List.replicate 60 (.step 1) ++ List.replicate 11 (.step 2)

theorem bugs_end_incomplete :
    (bug1.program.strict.EndsIn (bug1.program.system.after bug1.program.initial bug1Run)
      fun last => ¬ bug1.program.Complete last) ∧
    bug4.program.strict.EndsIn (bug4.program.system.after bug4.program.initial bug4Run)
      fun last => ¬ bug4.program.Complete last := by
  have first : bug1.program.system.Runs bug1.program.initial bug1Run := by decide +kernel
  have second : bug4.program.system.Runs bug4.program.initial bug4Run := by decide +kernel
  constructor
  · have notifies : (bug1.program.system.after bug1.program.initial bug1Run).pool[5]? =
        some ⟨.ready, .incNotify 1⟩ := by decide +kernel
    apply (notified_outcome (Runs.leads first) notifies (by decide) (by decide)).1.mono
    intro last outcome complete
    exact absurd (outcome.mp complete) (by decide +kernel)
  · have notifies : (bug4.program.system.after bug4.program.initial bug4Run).pool[2]? =
        some ⟨.ready, .incNotify 1⟩ := by decide +kernel
    apply (notified_outcome (Runs.leads second) notifies (by decide) (by decide)).1.mono
    intro last outcome complete
    exact absurd (outcome.mp complete) (by decide +kernel)

end ApLabs.Threads.Threshold
