import ApLabs.Foundation.Mutex
import Mathlib.Algebra.GroupWithZero.Nat
import Mathlib.Order.Nat

/-!
# Runs that cannot go on

With one mutex a disciplined program can be stuck in one way only: all threads that have
not ended are asleep on the condition variable.  Without spurious wake-ups its runs are
finite when the operations of a thread, and the signals it still sends, run out.
-/

namespace ApLabs.Foundation.Pthreads

open ApLabs.Foundation.Transition
open ApLabs.Foundation.Transition.System

variable {σ α : Type} {p : Program σ α} {s : State σ α} {holds : α → Bool}

/-! ## Creation and joining -/

/-- The threads are created in turn, and a joined thread has ended. -/
structure Started (p : Program σ α) (created joined : Nat) (pool : List (Thread α)) : Prop where
  length : pool.length = p.creates.length
  count : created ≤ pool.length
  fresh : ∀ (id : Nat) (thread : Thread α), pool[id]? = some thread →
    (thread.status = .fresh ↔ created ≤ id)
  turns : joined ≤ p.joins.length
  exited : ∀ k id : Nat, k < joined → p.joins[k]? = some id →
    ∃ here, pool[id]? = some ⟨.ready, here⟩ ∧ p.code here = .exit

variable {created joined : Nat} {pool : List (Thread α)} {id : Nat} {before after : Thread α}

namespace Started

/-- A thread goes on that has begun and has not ended. -/
theorem put (started : Started p created joined pool) (there : pool[id]? = some before)
    (begun : before.status ≠ .fresh) (still : after.status ≠ .fresh)
    (running : before.status = .ready → p.code before.here ≠ .exit) :
    Started p created joined (pool.set id after) := by
  have past : ¬ created ≤ id := fun early => begun ((started.fresh id before there).mpr early)
  have length : (pool.set id after).length = pool.length := List.length_set
  refine ⟨length.trans started.length, started.count.trans length.ge, ?_, started.turns, ?_⟩
  · intro other thread found
    rcases Pool.get_set there found with ⟨rfl, rfl⟩ | ⟨different, old⟩
    · exact iff_of_false still past
    · exact started.fresh other thread old
  · intro k other earlier turn
    obtain ⟨here, ended, exits⟩ := started.exited k other earlier turn
    refine ⟨here, ?_, exits⟩
    have different : id ≠ other := by
      rintro rfl
      obtain rfl := Option.some.inj (there.symm.trans ended)
      exact running rfl exits
    rw [List.getElem?_set_ne different]
    exact ended

theorem wakeAll (started : Started p created joined pool) :
    Started p created joined (pool.map Thread.wake) := by
  have length : (pool.map Thread.wake).length = pool.length := List.length_map ..
  refine ⟨length.trans started.length, started.count.trans length.ge, ?_, started.turns, ?_⟩
  · intro other thread found
    rw [List.getElem?_map, Option.map_eq_some_iff] at found
    obtain ⟨⟨status, here⟩, old, rfl⟩ := found
    have fresh := started.fresh other _ old
    cases status with
    | asleep => exact iff_of_false nofun fun early => absurd (fresh.mpr early) nofun
    | fresh | ready | woken => exact fresh
  · intro k other earlier turn
    obtain ⟨here, ended, exits⟩ := started.exited k other earlier turn
    exact ⟨here, ready_wake ended, exits⟩

theorem initial (p : Program σ α) :
    Started p p.initial.created p.initial.joined p.initial.pool := by
  refine ⟨List.length_map .., Nat.zero_le _, ?_, Nat.zero_le _, nofun⟩
  intro id thread found
  simp only [Program.initial, List.getElem?_map, Option.map_eq_some_iff] at found
  obtain ⟨here, -, rfl⟩ := found
  exact iff_of_true rfl (Nat.zero_le id)

theorem move {label : Label} {after : State σ α}
    (started : Started p s.created s.joined s.pool) (moved : Move p s label after) :
    Started p after.created after.joined after.pool := by
  have goes : ∀ {id : Nat} {here next : α} {op : Op σ α} {status : Status},
      s.pool[id]? = some ⟨.ready, here⟩ → p.code here = op → op ≠ .exit → status ≠ .fresh →
      Started p s.created s.joined (s.pool.set id ⟨status, next⟩) :=
    fun there code other still => started.put there nofun still fun _ exits =>
      other (code.symm.trans exits)
  cases moved with
  | @create here first =>
      have within := Pool.within first
      refine ⟨List.length_set.trans started.length, ?_, ?_, started.turns, ?_⟩
      · exact (Nat.succ_le_of_lt within).trans List.length_set.ge
      · intro other thread found
        rcases Pool.get_set first found with ⟨rfl, rfl⟩ | ⟨different, old⟩
        · exact iff_of_false nofun (Nat.not_succ_le_self _)
        · rw [started.fresh other thread old]
          show s.created ≤ other ↔ s.created + 1 ≤ other
          omega
      · intro k other earlier turn
        obtain ⟨there, ended, exits⟩ := started.exited k other earlier turn
        refine ⟨there, ?_, exits⟩
        have different : s.created ≠ other := by
          rintro rfl
          rw [first] at ended
          cases ended
        show (s.pool.set s.created _)[other]? = _
        rw [List.getElem?_set_ne different]
        exact ended
  | run there code => exact goes there code nofun nofun
  | access there code => exact goes there code nofun nofun
  | lock there code free => exact goes there code nofun nofun
  | unlock there code => exact goes there code nofun nofun
  | wait there code => exact goes there code nofun nofun
  | broadcast there code =>
      exact started.wakeAll.put (ready_wake there) nofun nofun fun _ exits =>
        absurd (code.symm.trans exits) nofun
  | signal there code nobody => exact goes there code nofun nofun
  | @wakeOne id other here next goal there code sleeps =>
      have moved : Started p s.created s.joined (s.pool.set id ⟨.ready, next⟩) :=
        goes there code nofun nofun
      exact moved.put (asleep_still there sleeps _) nofun nofun nofun
  | resume free there => exact started.put there nofun nofun nofun
  | spurious there => exact started.put there nofun nofun nofun
  | @join id here all turn there code =>
      obtain ⟨within, -⟩ := List.getElem?_eq_some_iff.mp turn
      refine ⟨started.length, started.count, started.fresh, within, ?_⟩
      intro k other earlier next
      rcases Nat.lt_succ_iff_lt_or_eq.mp earlier with before | rfl
      · exact started.exited k other before next
      · obtain rfl := Option.some.inj (turn.symm.trans next)
        exact ⟨here, there, code⟩

end Started

theorem started (reachable : p.system.Reachable s) : Started p s.created s.joined s.pool :=
  induct_moves reachable (fun s => Started p s.created s.joined s.pool) (Started.initial p)
    fun _ _ _ _ started moved => started.move moved

theorem Started.begun (started : Started p created joined pool) (all : created = pool.length)
    (there : pool[id]? = some before) : before.status ≠ .fresh := by
  intro fresh
  have early := (started.fresh id before there).mp fresh
  have within := Pool.within there
  omega

/-! ## Progress -/

/-- A thread that has not ended can perform its next operation, if it is not one that
waits for the mutex. -/
theorem op_enabled {here : α} (there : s.pool[id]? = some ⟨.ready, here⟩)
    (running : p.code here ≠ .exit)
    (free : ∀ next, p.code here = .lock next → s.owner = none) :
    ∃ label, p.strict.Enabled s label := by
  have step : (p.code here).Ready s.owner → ∃ label, p.strict.Enabled s label :=
    fun ready => ⟨.step id, ⟨_, there, rfl, ready⟩, nofun⟩
  cases code : p.code here with
  | exit => exact absurd code running
  | lock next =>
      apply step
      rw [code]
      exact free next code
  | signal next =>
      have signals : ∃ thread ∈ s.pool[id]?, thread.status = .ready ∧
          (p.code thread.here).Signals := by
        refine ⟨_, there, rfl, ?_⟩
        simp only [code]
        trivial
      by_cases sleeps : ∃ thread ∈ s.pool, thread.status = .asleep
      · obtain ⟨thread, member, asleep⟩ := sleeps
        obtain ⟨other, found⟩ := List.mem_iff_getElem?.mp member
        exact ⟨.signal id (some other), ⟨signals, thread, found, asleep⟩, nofun⟩
      · refine ⟨.signal id none, ⟨signals, ?_⟩, nofun⟩
        exact fun thread member asleep => sleeps ⟨thread, member, asleep⟩
  | _ =>
      apply step
      rw [code]
      trivial

/-- The owner of the mutex is never stuck. -/
theorem owner_enabled (disciplined : Disciplined p holds)
    (exclusive : Exclusive holds s.owner s.pool) (owns : s.owner = some id) :
    ∃ label, p.strict.Enabled s label := by
  obtain ⟨here, there, has⟩ := exclusive.owner_ready owns
  apply op_enabled there
  · intro exits
    have outside : holds here = false := disciplined.op exits
    exact absurd (outside.symm.trans has) nofun
  · intro next code
    have outside : holds here = false := (disciplined.op code).1
    exact absurd (outside.symm.trans has) nofun

/-- Where no step is enabled the mutex is free and every thread has ended or sleeps. -/
theorem stuck_threads (disciplined : Disciplined p holds) (reachable : p.system.Reachable s)
    (stuck : ∀ label, ¬ p.strict.Enabled s label) :
    s.created = s.pool.length ∧ s.owner = none ∧ ∀ thread ∈ s.pool,
      thread.status = .asleep ∨ thread.status = .ready ∧ p.code thread.here = .exit := by
  have started := started reachable
  have all : s.created = s.pool.length := by
    by_contra other
    have within : s.created < s.pool.length := Nat.lt_of_le_of_ne started.count other
    have found := List.getElem?_eq_getElem within
    have fresh := (started.fresh _ _ found).mpr (Nat.le_refl _)
    exact stuck .create ⟨⟨_, found, fresh⟩, nofun⟩
  have free : s.owner = none := by
    cases owner : s.owner with
    | none => rfl
    | some id =>
        obtain ⟨label, enabled⟩ :=
          owner_enabled disciplined (disciplined.exclusive reachable) owner
        exact absurd enabled (stuck label)
  refine ⟨all, free, ?_⟩
  intro thread member
  obtain ⟨id, there⟩ := List.mem_iff_getElem?.mp member
  obtain ⟨status, here⟩ := thread
  cases status with
  | fresh => exact absurd rfl (started.begun all there)
  | asleep => exact Or.inl rfl
  | woken => exact absurd ⟨⟨free, _, there, rfl⟩, nofun⟩ (stuck (.resume id))
  | ready =>
      by_contra running
      rw [not_or, not_and] at running
      obtain ⟨label, enabled⟩ := op_enabled there (running.2 rfl) fun _ _ => free
      exact stuck label enabled

/-- If nobody sleeps, the program is complete. -/
theorem complete_of_stuck (disciplined : Disciplined p holds) (reachable : p.system.Reachable s)
    (inside : ∀ id ∈ p.joins, id < p.creates.length)
    (stuck : ∀ label, ¬ p.strict.Enabled s label)
    (nobody : ∀ thread ∈ s.pool, thread.status ≠ .asleep) : p.Complete s := by
  obtain ⟨all, -, threads⟩ := stuck_threads disciplined reachable stuck
  have started := started reachable
  by_contra incomplete
  have within : s.joined < p.joins.length := Nat.lt_of_le_of_ne started.turns incomplete
  have turn := List.getElem?_eq_getElem within
  have created := inside _ (List.getElem_mem within)
  rw [← started.length] at created
  have found := List.getElem?_eq_getElem created
  obtain ⟨ready, exits⟩ := (threads _ (List.getElem_mem created)).resolve_left
    (nobody _ (List.getElem_mem created))
  refine stuck .join ⟨⟨all, _, turn, _, found, ready, ?_⟩, nofun⟩
  rw [exits]
  trivial

/-- When `main` has joined every thread, all have ended. -/
theorem ended_of_complete (reachable : p.system.Reachable s) (complete : p.Complete s)
    (every : ∀ id < p.creates.length, id ∈ p.joins) :
    ∀ thread ∈ s.pool, thread.status = .ready ∧ p.code thread.here = .exit := by
  have started := started reachable
  intro thread member
  obtain ⟨id, there⟩ := List.mem_iff_getElem?.mp member
  have created := Pool.within there
  rw [started.length] at created
  obtain ⟨k, turn⟩ := List.mem_iff_getElem?.mp (every id created)
  have earlier : k < s.joined := by
    rw [complete]
    exact (List.getElem?_eq_some_iff.mp turn).1
  obtain ⟨here, ended, exits⟩ := started.exited k id earlier turn
  obtain rfl := Option.some.inj (there.symm.trans ended)
  exact ⟨rfl, exits⟩

/-! ## Termination -/

/-- Every operation brings a thread nearer to its end, apart from waiting; a signal uses
up one of the calls that the thread may still make. -/
def Op.Weighted (weight calls : α → Nat) (here : α) : Op σ α → Prop
  | .run next | .lock next | .unlock next => weight next < weight here ∧ calls next ≤ calls here
  | .access effect =>
      ∀ shared, weight (effect shared).2 < weight here ∧ calls (effect shared).2 ≤ calls here
  | .wait next => 0 < weight here ∧ calls next ≤ calls here
  | .signal next | .broadcast next => calls next < calls here
  | .exit => True

/-- A sleeping thread does nothing until another thread uses up a call. -/
def Thread.weight (weight : α → Nat) (thread : Thread α) : Nat :=
  match thread.status with
  | .asleep => 0
  | .ready => weight thread.here
  | .fresh | .woken => weight thread.here + 1

def Program.measure (p : Program σ α) (weight calls : α → Nat) (s : State σ α) : Nat × Nat :=
  ((s.pool.map fun thread => calls thread.here).sum,
    (s.pool.map (Thread.weight weight)).sum + (p.joins.length - s.joined))

variable {weight calls : α → Nat}

/-- A thread goes on without a call. -/
theorem measure_put {before : Status} {here next : α}
    (there : s.pool[id]? = some ⟨before, here⟩) (after : Status)
    (less : Thread.weight weight ⟨after, next⟩ < Thread.weight weight ⟨before, here⟩)
    (same : calls next ≤ calls here) {result : State σ α}
    (pool : result.pool = s.pool.set id ⟨after, next⟩) (joined : result.joined = s.joined) :
    Prod.Lex (· < ·) (· < ·) (p.measure weight calls result) (p.measure weight calls s) := by
  have calling := Pool.sum_set (fun thread : Thread α => calls thread.here) there ⟨after, next⟩
  have weighing := Pool.sum_set (Thread.weight weight) there ⟨after, next⟩
  rw [Program.measure, Program.measure, pool, joined]
  rw [Prod.lex_def]
  simp only at calling ⊢
  omega

theorem sum_calls_wake (pool : List (Thread α)) :
    ((pool.map Thread.wake).map fun thread => calls thread.here).sum =
      (pool.map fun thread => calls thread.here).sum := by
  rw [List.map_map]
  rfl

/-- Without spurious wake-ups every step decreases the measure. -/
theorem measure_decreases (weighted : ∀ here, (p.code here).Weighted weight calls here)
    {label : Label} (enabled : p.strict.Enabled s label) :
    Prod.Lex (· < ·) (· < ·) (p.measure weight calls (p.next s label))
      (p.measure weight calls s) := by
  have op : ∀ {here : α} {op : Op σ α}, p.code here = op → op.Weighted weight calls here :=
    fun code => code ▸ weighted _
  have moved := move enabled.1
  generalize p.next s label = result at moved
  cases moved with
  | create first => exact measure_put first .ready (Nat.lt_succ_self _) (Nat.le_refl _) rfl rfl
  | run there code => exact measure_put there .ready (op code).1 (op code).2 rfl rfl
  | access there code =>
      exact measure_put there .ready (op code s.shared).1 (op code s.shared).2 rfl rfl
  | lock there code free => exact measure_put there .ready (op code).1 (op code).2 rfl rfl
  | unlock there code => exact measure_put there .ready (op code).1 (op code).2 rfl rfl
  | wait there code => exact measure_put there .asleep (op code).1 (op code).2 rfl rfl
  | @broadcast id here next there code =>
      have calling := Pool.sum_set (fun thread : Thread α => calls thread.here)
        (ready_wake there) ⟨.ready, next⟩
      rw [sum_calls_wake] at calling
      have fewer := op code
      apply Prod.Lex.left
      simp only [Op.Weighted] at calling fewer ⊢
      omega
  | @signal id here next there code nobody =>
      have calling := Pool.sum_set (fun thread : Thread α => calls thread.here) there
        ⟨.ready, next⟩
      have fewer := op code
      apply Prod.Lex.left
      simp only [Op.Weighted, State.put] at calling fewer ⊢
      omega
  | @wakeOne id other here next goal there code sleeps =>
      have calling := Pool.sum_set (fun thread : Thread α => calls thread.here) there
        ⟨.ready, next⟩
      have waking := Pool.sum_set (fun thread : Thread α => calls thread.here)
        (asleep_still there sleeps ⟨.ready, next⟩) ⟨.woken, goal⟩
      have fewer := op code
      apply Prod.Lex.left
      simp only [Op.Weighted, State.put] at calling waking fewer ⊢
      omega
  | resume free there => exact measure_put there .ready (Nat.lt_succ_self _) (Nat.le_refl _) rfl rfl
  | spurious there => exact absurd trivial enabled.2
  | join all turn there code =>
      have within := (List.getElem?_eq_some_iff.mp turn).1
      have fewer : p.joins.length - (s.joined + 1) < p.joins.length - s.joined := by omega
      exact Prod.Lex.right _ (Nat.add_lt_add_left fewer _)

theorem strict_terminates (weighted : ∀ here, (p.code here).Weighted weight calls here)
    (s : State σ α) : p.strict.Terminates s :=
  terminates_of_measure (p.measure weight calls)
    (fun _ _ enabled => measure_decreases weighted enabled) s

/-! ## Programs that never wait -/

theorem awake (never : ∀ here next, p.code here ≠ .wait next)
    (reachable : p.system.Reachable s) : ∀ thread ∈ s.pool, thread.status ≠ .asleep := by
  intro thread member asleep
  apply sleepers reachable (fun _ => False) ?_ thread member (Or.inl asleep)
  exact fun here next code => never here next code

theorem strict_of_awake (nobody : ∀ thread ∈ s.pool, thread.status ≠ .asleep) {label : Label}
    (enabled : p.system.Enabled s label) : p.strict.Enabled s label := by
  refine ⟨enabled, ?_⟩
  intro spurious
  cases label with
  | spurious id =>
      obtain ⟨thread, there, asleep⟩ := enabled
      exact nobody thread (Pool.mem there) asleep
  | create | step | signal | resume | join => cases spurious

/-- A disciplined program that never waits is complete wherever it ends, and ends. -/
theorem ends_complete (disciplined : Disciplined p holds)
    (weighted : ∀ here, (p.code here).Weighted weight calls here)
    (inside : ∀ id ∈ p.joins, id < p.creates.length)
    (never : ∀ here next, p.code here ≠ .wait next) (reachable : p.system.Reachable s) :
    p.system.EndsIn s p.Complete := by
  constructor
  · apply reachable.terminates (p.measure weight calls)
    intro s label reachable enabled
    exact measure_decreases weighted (strict_of_awake (awake never reachable) enabled)
  · intro last leads ended
    have reached := reachable.leads leads
    exact complete_of_stuck disciplined reached inside
      (fun label enabled => ended label enabled.1) (awake never reached)

/-! ## Runs -/

/-- The state in which `main` has created some of the threads, and none has gone on. -/
def Program.begun (p : Program σ α) (created : Nat) : State σ α :=
  { p.initial with
    pool := (p.creates.take created).map (fun here => ⟨.ready, here⟩) ++
      (p.creates.drop created).map fun here => ⟨.fresh, here⟩
    created := created }

theorem begun_create (p : Program σ α) {created : Nat} (within : created < p.creates.length) :
    p.system.Enabled (p.begun created) .create ∧
      p.system.next (p.begun created) .create = p.begun (created + 1) := by
  have next := List.drop_eq_getElem_cons within
  have length : ((p.creates.take created).map
      fun here => (⟨.ready, here⟩ : Thread α)).length = created := by
    rw [List.length_map, List.length_take, Nat.min_eq_left within.le]
  have first : (p.begun created).pool[created]? = some ⟨.fresh, p.creates[created]⟩ := by
    simp only [Program.begun, next, List.map_cons]
    rw [List.getElem?_append_right length.le, length, Nat.sub_self]
    rfl
  refine ⟨⟨_, first, rfl⟩, ?_⟩
  show { (p.begun created).mark created .ready with created := created + 1 } = _
  rw [State.mark_eq first]
  simp only [State.put, Program.begun, next, List.map_cons]
  rw [List.set_append_right _ _ length.le, length, Nat.sub_self, List.set_cons_zero,
    List.take_succ_eq_append_getElem within, List.map_append, List.append_assoc]
  rfl

/-- `main` can create all threads before any of them goes on. -/
theorem leads_begun (p : Program σ α) :
    p.system.Leads p.initial (p.begun p.creates.length) := by
  have most : ∀ created ≤ p.creates.length, p.system.Leads p.initial (p.begun created) := by
    intro created
    induction created with
    | zero => exact fun _ => Leads.refl _
    | succ created ih =>
        intro within
        obtain ⟨enabled, next⟩ := begun_create p (Nat.lt_of_succ_le within)
        rw [← next]
        exact (ih (Nat.le_of_succ_le within)).step enabled
  exact most p.creates.length (Nat.le_refl _)

/-- `main` can join threads that have ended. -/
theorem leads_joined (all : s.created = s.pool.length)
    (ended : ∀ id ∈ p.joins, ∃ thread ∈ s.pool[id]?, thread.status = .ready ∧
      (p.code thread.here).Exits) (turns : s.joined ≤ p.joins.length) :
    p.system.Leads s { s with joined := p.joins.length } := by
  have most : ∀ more, s.joined + more ≤ p.joins.length →
      p.system.Leads s { s with joined := s.joined + more } := by
    intro more
    induction more with
    | zero => exact fun _ => Leads.refl _
    | succ more ih =>
        intro within
        have turn := List.getElem?_eq_getElem (Nat.lt_of_succ_le within)
        have enabled : p.system.Enabled { s with joined := s.joined + more } .join :=
          ⟨all, _, turn, ended _ (List.getElem_mem _)⟩
        exact (ih (Nat.le_of_succ_le within)).step enabled
  have last := most (p.joins.length - s.joined) (Nat.add_sub_of_le turns).le
  rwa [Nat.add_sub_of_le turns] at last

end ApLabs.Foundation.Pthreads
