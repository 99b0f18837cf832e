import ApLabs.Foundation.Pthreads
import Mathlib.Algebra.Group.Defs

/-!
# The rules of the mutex

A program is disciplined when its code says at which local states a thread has the
mutex.  Then at most one thread is at such a state.  An invariant of the shared data
that every thread restores before it releases the mutex holds whenever the mutex is
free, and what a thread knows of the data while it has the mutex stays true.
-/

namespace ApLabs.Foundation.Pthreads

open ApLabs.Foundation.Transition

variable {σ α : Type} {p : Program σ α} {s : State σ α} {holds : α → Bool}

/-! ## Mutual exclusion -/

/-- The local states before and after the operation tell who has the mutex. -/
def Op.Disciplined (holds : α → Bool) (here : α) : Op σ α → Prop
  | .run next | .signal next | .broadcast next => holds next = holds here
  | .access effect => ∀ shared, holds (effect shared).2 = holds here
  | .lock next => holds here = false ∧ holds next = true
  | .unlock next => holds here = true ∧ holds next = false
  | .wait next => holds here = true ∧ holds next = true
  | .exit => holds here = false

structure Disciplined (p : Program σ α) (holds : α → Bool) : Prop where
  creates : ∀ here ∈ p.creates, holds here = false
  code : ∀ here, (p.code here).Disciplined holds here

/-- A thread that waits goes on with the mutex, but does not have it. -/
def Thread.Fits (holds : α → Bool) (owner : Option Nat) (id : Nat) (thread : Thread α) : Prop :=
  match thread.status with
  | .fresh => holds thread.here = false ∧ owner ≠ some id
  | .ready => holds thread.here = true ↔ owner = some id
  | .asleep | .woken => holds thread.here = true ∧ owner ≠ some id

structure Exclusive (holds : α → Bool) (owner : Option Nat) (pool : List (Thread α)) : Prop where
  fits : ∀ (id : Nat) (thread : Thread α), pool[id]? = some thread → thread.Fits holds owner id
  owned : ∀ id, owner = some id → id < pool.length

variable {owner : Option Nat} {pool : List (Thread α)} {id : Nat} {before after : Thread α}

theorem Thread.Fits.congr {other : Option Nat} (fits : before.Fits holds owner id)
    (same : other = some id ↔ owner = some id) : before.Fits holds other id := by
  unfold Thread.Fits at fits ⊢
  rw [Ne, same]
  exact fits

theorem Thread.Fits.wake (fits : before.Fits holds owner id) :
    before.wake.Fits holds owner id := by
  obtain ⟨status, here⟩ := before
  cases status <;> exact fits

namespace Exclusive

/-- One thread goes on, and takes or releases the mutex as it does. -/
theorem put {next : Option Nat} (exclusive : Exclusive holds owner pool)
    (there : pool[id]? = some before) (fits : after.Fits holds next id)
    (others : ∀ other, other ≠ id → (next = some other ↔ owner = some other)) :
    Exclusive holds next (pool.set id after) := by
  constructor
  · intro other thread found
    rcases Pool.get_set there found with ⟨rfl, rfl⟩ | ⟨different, old⟩
    · exact fits
    · exact (exclusive.fits other thread old).congr (others other different)
  · intro other owns
    rw [List.length_set]
    by_cases same : other = id
    · rw [same]
      exact Pool.within there
    · exact exclusive.owned other ((others other same).mp owns)

theorem keep (exclusive : Exclusive holds owner pool) (there : pool[id]? = some before)
    (fits : after.Fits holds owner id) : Exclusive holds owner (pool.set id after) :=
  exclusive.put there fits fun _ _ => Iff.rfl

/-- A thread takes the free mutex. -/
theorem take (exclusive : Exclusive holds owner pool) (there : pool[id]? = some before)
    (free : owner = none) (has : holds after.here = true) (ready : after.status = .ready) :
    Exclusive holds (some id) (pool.set id after) := by
  have fits : after.Fits holds (some id) id := by
    rw [Thread.Fits, ready]
    exact iff_of_true has rfl
  refine exclusive.put there fits ?_
  intro other different
  rw [free]
  exact iff_of_false (fun same => different (Option.some.inj same).symm) nofun

/-- Its owner releases it. -/
theorem release (exclusive : Exclusive holds owner pool) (there : pool[id]? = some before)
    (owns : owner = some id) (fits : after.Fits holds none id) :
    Exclusive holds none (pool.set id after) := by
  refine exclusive.put there fits ?_
  intro other different
  rw [owns]
  exact iff_of_false nofun fun same => different (Option.some.inj same).symm

theorem wakeAll (exclusive : Exclusive holds owner pool) :
    Exclusive holds owner (pool.map Thread.wake) := by
  constructor
  · intro other thread found
    rw [List.getElem?_map, Option.map_eq_some_iff] at found
    obtain ⟨old, there, rfl⟩ := found
    exact (exclusive.fits other old there).wake
  · rw [List.length_map]
    exact exclusive.owned

variable {here : α}

theorem owner_of_holds (exclusive : Exclusive holds owner pool)
    (there : pool[id]? = some ⟨.ready, here⟩) (has : holds here = true) : owner = some id :=
  (exclusive.fits id _ there).mp has

/-- The owner of the mutex is at one of its states. -/
theorem owner_ready (exclusive : Exclusive holds owner pool) (owns : owner = some id) :
    ∃ here, pool[id]? = some ⟨.ready, here⟩ ∧ holds here = true := by
  have within := exclusive.owned id owns
  have found := List.getElem?_eq_getElem within
  have fits := exclusive.fits id _ found
  cases thread : pool[id] with
  | mk status here =>
      rw [thread] at found fits
      cases status with
      | ready => exact ⟨here, found, fits.mpr owns⟩
      | fresh | asleep | woken => exact absurd owns fits.2

/-- Two threads that have the mutex are one thread. -/
theorem unique (exclusive : Exclusive holds owner pool) {other : Nat} {there : α}
    (first : pool[id]? = some ⟨.ready, here⟩) (has : holds here = true)
    (second : pool[other]? = some ⟨.ready, there⟩) (too : holds there = true) : id = other :=
  Option.some.inj
    ((exclusive.owner_of_holds first has).symm.trans (exclusive.owner_of_holds second too))

end Exclusive

theorem Disciplined.initial (disciplined : Disciplined p holds) :
    Exclusive holds p.initial.owner p.initial.pool := by
  constructor
  · intro id thread found
    simp only [Program.initial, List.getElem?_map, Option.map_eq_some_iff] at found
    obtain ⟨here, created, rfl⟩ := found
    exact ⟨disciplined.creates here (Pool.mem created), (Option.some_ne_none id).symm⟩
  · exact fun id owns => absurd owns (Option.some_ne_none id).symm

theorem Disciplined.op (disciplined : Disciplined p holds) {here : α} {op : Op σ α}
    (code : p.code here = op) : op.Disciplined holds here :=
  code ▸ disciplined.code here

/-- A step that keeps the mutex leads to a state that says so. -/
theorem Exclusive.same (exclusive : Exclusive holds s.owner s.pool) {here next : α}
    (there : s.pool[id]? = some ⟨.ready, here⟩) (same : holds next = holds here) :
    Thread.Fits holds s.owner id ⟨.ready, next⟩ :=
  (Bool.eq_iff_iff.mp same).trans (exclusive.fits id _ there)

theorem Disciplined.move (disciplined : Disciplined p holds) {label : Label} {after : State σ α}
    (exclusive : Exclusive holds s.owner s.pool) (move : Move p s label after) :
    Exclusive holds after.owner after.pool := by
  cases move with
  | create first =>
      obtain ⟨outside, other⟩ := exclusive.fits _ _ first
      exact exclusive.keep first (iff_of_false (by simp [outside]) other)
  | run there code => exact exclusive.keep there (exclusive.same there (disciplined.op code))
  | access there code =>
      exact exclusive.keep there (exclusive.same there (disciplined.op code s.shared))
  | lock there code free => exact exclusive.take there free (disciplined.op code).2 rfl
  | unlock there code =>
      obtain ⟨has, released⟩ := disciplined.op code
      have owns := exclusive.owner_of_holds there has
      exact exclusive.release there owns (iff_of_false (by simp [released]) nofun)
  | wait there code =>
      obtain ⟨has, again⟩ := disciplined.op code
      exact exclusive.release there (exclusive.owner_of_holds there has) ⟨again, nofun⟩
  | broadcast there code =>
      exact exclusive.wakeAll.keep (ready_wake there) (exclusive.same there (disciplined.op code))
  | signal there code nobody =>
      exact exclusive.keep there (exclusive.same there (disciplined.op code))
  | @wakeOne id other here next goal there code sleeps =>
      have moved := exclusive.keep there (exclusive.same there (disciplined.op code))
      have fits : Thread.Fits holds s.owner other ⟨.asleep, goal⟩ := exclusive.fits _ _ sleeps
      exact moved.keep (asleep_still there sleeps _) fits
  | resume free there => exact exclusive.take there free (exclusive.fits _ _ there).1 rfl
  | @spurious id here there =>
      have fits : Thread.Fits holds s.owner id ⟨.asleep, here⟩ := exclusive.fits _ _ there
      exact exclusive.keep there fits
  | join all turn there code => exact exclusive

theorem Disciplined.exclusive (disciplined : Disciplined p holds)
    (reachable : p.system.Reachable s) : Exclusive holds s.owner s.pool :=
  induct_moves reachable (fun s => Exclusive holds s.owner s.pool) disciplined.initial
    fun _ _ _ _ exclusive move => disciplined.move exclusive move

/-! ## Outlines -/

/-- An operation of an outline: from what a thread with the mutex knows of the data, and of
the number of sleeping threads, it comes to what it knows next.  When it takes the mutex it
knows the invariant, and it has to restore it before it releases the mutex.  Without the
mutex it disturbs nobody. -/
def Op.Outlined (holds : α → Bool) (invariant : σ → Nat → Prop) (knows : α → σ → Nat → Prop)
    (here : α) (shared : σ) (sleepers : Nat) : Op σ α → Prop
  | .run next => holds here = true → knows here shared sleepers → knows next shared sleepers
  | .signal next =>
      holds here = true → knows here shared sleepers → knows next shared (sleepers - 1)
  | .broadcast next => holds here = true → knows here shared sleepers → knows next shared 0
  | .access effect =>
      if holds here = true then
        knows here shared sleepers → knows (effect shared).2 (effect shared).1 sleepers
      else
        (invariant shared sleepers → invariant (effect shared).1 sleepers) ∧
          ∀ there, knows there shared sleepers → knows there (effect shared).1 sleepers
  | .lock next => invariant shared sleepers → knows next shared sleepers
  | .unlock _ => knows here shared sleepers → invariant shared sleepers
  | .wait next => (knows here shared sleepers → invariant shared (sleepers + 1)) ∧
      ∀ later others, invariant later others → knows next later others
  | .exit => True

/-- What is known stays true when a thread wakes up. -/
structure Outlined (p : Program σ α) (holds : α → Bool) (invariant : σ → Nat → Prop)
    (knows : α → σ → Nat → Prop) : Prop where
  start : invariant p.shared 0
  wakes : ∀ shared sleepers fewer, fewer ≤ sleepers → invariant shared sleepers →
    invariant shared fewer
  learns : ∀ here shared sleepers fewer, fewer ≤ sleepers → knows here shared sleepers →
    knows here shared fewer
  code : ∀ (s : State σ α) (id : Nat) (here : α), p.system.Reachable s →
    s.pool[id]? = some ⟨.ready, here⟩ →
    (p.code here).Outlined holds invariant knows here s.shared (asleep s.pool)

/-- A thread that waits is sure of what it will know once it has the mutex back. -/
def Thread.Knows (holds : α → Bool) (invariant : σ → Nat → Prop) (knows : α → σ → Nat → Prop)
    (shared : σ) (sleepers : Nat) (thread : Thread α) : Prop :=
  match thread.status with
  | .fresh => True
  | .ready => holds thread.here = true → knows thread.here shared sleepers
  | .asleep | .woken => ∀ later others, invariant later others → knows thread.here later others

/-- The outline describes a state. -/
structure Described (holds : α → Bool) (invariant : σ → Nat → Prop)
    (knows : α → σ → Nat → Prop) (owner : Option Nat) (shared : σ) (sleepers : Nat)
    (pool : List (Thread α)) : Prop where
  free : owner = none → invariant shared sleepers
  threads : ∀ (id : Nat) (thread : Thread α), pool[id]? = some thread →
    thread.Knows holds invariant knows shared sleepers

variable {invariant : σ → Nat → Prop} {knows : α → σ → Nat → Prop} {shared : σ}
  {sleepers : Nat}

theorem Thread.Knows.wake (knowing : before.Knows holds invariant knows shared sleepers) :
    before.wake.Knows holds invariant knows shared sleepers := by
  obtain ⟨status, here⟩ := before
  cases status <;> exact knowing

theorem Outlined.op (outlined : Outlined p holds invariant knows)
    (reachable : p.system.Reachable s) {here : α} {op : Op σ α}
    (there : s.pool[id]? = some ⟨.ready, here⟩) (code : p.code here = op) :
    op.Outlined holds invariant knows here s.shared (asleep s.pool) :=
  code ▸ outlined.code s id here reachable there

namespace Described

variable {next : Option Nat}

theorem known {here : α} (described : Described holds invariant knows owner shared sleepers pool)
    (there : pool[id]? = some ⟨.ready, here⟩) (has : holds here = true) :
    knows here shared sleepers :=
  described.threads id _ there has

/-- A thread goes on and the data stay. -/
theorem put (described : Described holds invariant knows owner shared sleepers pool)
    (there : pool[id]? = some before)
    (knowing : after.Knows holds invariant knows shared sleepers)
    (free : next = none → invariant shared sleepers) :
    Described holds invariant knows next shared sleepers (pool.set id after) := by
  refine ⟨free, ?_⟩
  intro other thread found
  rcases Pool.get_set there found with ⟨rfl, rfl⟩ | ⟨different, old⟩
  · exact knowing
  · exact described.threads other thread old

/-- The owner of the mutex acts on the data, of which the others know nothing yet. -/
theorem act (described : Described holds invariant knows owner shared sleepers pool)
    (exclusive : Exclusive holds owner pool) {here : α} {result : σ} {others : Nat}
    (there : pool[id]? = some ⟨.ready, here⟩) (has : holds here = true)
    (knowing : after.Knows holds invariant knows result others)
    (free : next = none → invariant result others) :
    Described holds invariant knows next result others (pool.set id after) := by
  refine ⟨free, ?_⟩
  intro other thread found
  rcases Pool.get_set there found with ⟨rfl, rfl⟩ | ⟨different, old⟩
  · exact knowing
  · have known := described.threads other thread old
    obtain ⟨status, elsewhere⟩ := thread
    cases status with
    | ready => exact fun too => absurd (exclusive.unique old too there has) different
    | fresh | asleep | woken => exact known

/-- What a thread knows at its next point, if its step keeps the mutex as it is. -/
theorem onward (described : Described holds invariant knows owner shared sleepers pool)
    {here next : α} {others : Nat} (there : pool[id]? = some ⟨.ready, here⟩)
    (same : holds next = holds here)
    (goes : holds here = true → knows here shared sleepers → knows next shared others) :
    Thread.Knows holds invariant knows shared others ⟨.ready, next⟩ := by
  intro has
  have before := same.symm.trans has
  exact goes before (described.known there before)

/-- A thread acts on the data, with the mutex or without it. -/
theorem access (described : Described holds invariant knows owner shared sleepers pool)
    (exclusive : Exclusive holds owner pool) {here : α} {effect : σ → σ × α}
    (there : pool[id]? = some ⟨.ready, here⟩) (same : holds (effect shared).2 = holds here)
    (outline : (Op.access effect).Outlined holds invariant knows here shared sleepers) :
    Described holds invariant knows owner (effect shared).1 sleepers
      (pool.set id ⟨.ready, (effect shared).2⟩) := by
  cases has : holds here with
  | true =>
      simp only [Op.Outlined, has, if_true] at outline
      refine described.act exclusive there has (fun _ => outline (described.known there has)) ?_
      intro free
      exact absurd (free.symm.trans (exclusive.owner_of_holds there has)) nofun
  | false =>
      simp only [Op.Outlined, has, Bool.false_eq_true, if_false] at outline
      refine ⟨fun free => outline.1 (described.free free), ?_⟩
      intro other thread found
      rcases Pool.get_set there found with ⟨rfl, rfl⟩ | ⟨different, old⟩
      · exact fun too => absurd ((same.trans has).symm.trans too) nofun
      · have known := described.threads other thread old
        obtain ⟨status, elsewhere⟩ := thread
        cases status with
        | ready => exact fun too => outline.2 _ (known too)
        | fresh | asleep | woken => exact known

/-- Threads wake up. -/
theorem fewer (described : Described holds invariant knows owner shared sleepers pool)
    (outlined : Outlined p holds invariant knows) {others : Nat} (less : others ≤ sleepers) :
    Described holds invariant knows owner shared others pool := by
  refine ⟨fun free => outlined.wakes shared sleepers others less (described.free free), ?_⟩
  intro other thread found
  have known := described.threads other thread found
  obtain ⟨status, elsewhere⟩ := thread
  cases status with
  | ready => exact fun has => outlined.learns elsewhere shared sleepers others less (known has)
  | fresh | asleep | woken => exact known

theorem wakeAll (described : Described holds invariant knows owner shared sleepers pool) :
    Described holds invariant knows owner shared sleepers (pool.map Thread.wake) := by
  refine ⟨described.free, ?_⟩
  intro other thread found
  rw [List.getElem?_map, Option.map_eq_some_iff] at found
  obtain ⟨old, there, rfl⟩ := found
  exact (described.threads other old there).wake

end Described

theorem Outlined.initial (outlined : Outlined p holds invariant knows) :
    Described holds invariant knows p.initial.owner p.initial.shared (asleep p.initial.pool)
      p.initial.pool := by
  have nobody : asleep p.initial.pool = 0 := by
    rw [asleep_eq_zero]
    intro thread member
    obtain ⟨here, created, rfl⟩ := List.mem_map.mp member
    exact nofun
  rw [nobody]
  refine ⟨fun _ => outlined.start, ?_⟩
  intro id thread found
  simp only [Program.initial, List.getElem?_map, Option.map_eq_some_iff] at found
  obtain ⟨here, created, rfl⟩ := found
  trivial

theorem Outlined.move (outlined : Outlined p holds invariant knows)
    (disciplined : Disciplined p holds) (reachable : p.system.Reachable s)
    (exclusive : Exclusive holds s.owner s.pool) {label : Label} {after : State σ α}
    (described : Described holds invariant knows s.owner s.shared (asleep s.pool) s.pool)
    (move : Move p s label after) :
    Described holds invariant knows after.owner after.shared (asleep after.pool) after.pool := by
  have op : ∀ {id : Nat} {here : α} {op : Op σ α}, s.pool[id]? = some ⟨.ready, here⟩ →
      p.code here = op → op.Outlined holds invariant knows here s.shared (asleep s.pool) :=
    fun there code => outlined.op reachable there code
  -- a sleeping thread that is woken
  have wakes : ∀ {id : Nat} {here : α}, s.pool[id]? = some ⟨.asleep, here⟩ →
      ∀ shared others, Thread.Knows holds invariant knows shared others ⟨.woken, here⟩ := by
    intro id here there shared others
    exact described.threads id _ there
  cases move with
  | @create here first =>
      obtain ⟨outside, -⟩ := exclusive.fits _ _ first
      rw [State.put, asleep_ready first nofun]
      refine described.put first ?_ described.free
      exact fun has => absurd (outside.symm.trans has) nofun
  | run there code =>
      rw [State.put, asleep_ready there nofun]
      exact described.put there (described.onward there (disciplined.op code) (op there code))
        described.free
  | access there code =>
      rw [State.put, asleep_ready there nofun]
      exact described.access exclusive there (disciplined.op code s.shared) (op there code)
  | lock there code free =>
      rw [State.put, asleep_ready there nofun]
      refine described.put there ?_ nofun
      exact fun _ => op there code (described.free free)
  | unlock there code =>
      obtain ⟨has, released⟩ := disciplined.op code
      rw [State.put, asleep_ready there nofun]
      refine described.put there ?_ fun _ => op there code (described.known there has)
      exact fun too => absurd (released.symm.trans too) nofun
  | wait there code =>
      obtain ⟨has, again⟩ := disciplined.op code
      obtain ⟨restores, learns⟩ := op there code
      rw [State.put, asleep_enter there]
      exact described.act exclusive there has learns fun _ =>
        restores (described.known there has)
  | broadcast there code =>
      have woken := (described.fewer outlined (Nat.zero_le _)).wakeAll
      rw [asleep_ready (ready_wake there) nofun, asleep_wake]
      exact woken.put (ready_wake there)
        (described.onward there (disciplined.op code) (op there code)) woken.free
  | signal there code nobody =>
      have none := asleep_eq_zero.mpr nobody
      have knowing := described.onward there (disciplined.op code) (op there code)
      rw [State.put, asleep_ready there nofun]
      rw [none] at knowing ⊢
      rw [none] at described
      exact described.put there knowing described.free
  | @wakeOne id other here next goal there code sleeps =>
      have still := asleep_still there sleeps ⟨.ready, next⟩
      have less := asleep_leave still goal
      rw [asleep_ready there nofun] at less
      have left := described.fewer outlined (Nat.sub_le (asleep s.pool) 1)
      have knowing := described.onward there (disciplined.op code) (op there code)
      have moved : Described holds invariant knows s.owner s.shared (asleep s.pool - 1)
          (s.pool.set id ⟨.ready, next⟩) := left.put there knowing left.free
      rw [State.put, State.put, Nat.eq_sub_of_add_eq less]
      exact moved.put still (wakes sleeps _ _) left.free
  | @resume id here free there =>
      have learns : Thread.Knows holds invariant knows s.shared (asleep s.pool)
        ⟨.woken, here⟩ := described.threads id _ there
      rw [State.put, asleep_ready there nofun]
      exact described.put there (fun _ => learns _ _ (described.free free)) nofun
  | @spurious id here there =>
      have less := asleep_leave there here
      have left := described.fewer outlined (Nat.sub_le (asleep s.pool) 1)
      rw [State.put, Nat.eq_sub_of_add_eq less]
      exact left.put there (wakes there _ _) left.free
  | join all turn there code => exact described

/-- The outline describes every state that is reached. -/
theorem Outlined.described (outlined : Outlined p holds invariant knows)
    (disciplined : Disciplined p holds) (reachable : p.system.Reachable s) :
    Described holds invariant knows s.owner s.shared (asleep s.pool) s.pool := by
  apply induct_moves reachable
    (fun s => Described holds invariant knows s.owner s.shared (asleep s.pool) s.pool)
    outlined.initial
  intro s label after known described moved
  exact outlined.move disciplined known (disciplined.exclusive known) described moved

/-! ## Totals -/

variable {M : Type} [AddCancelCommMonoid M] {value : σ → M} {part : α → M}

/-- What an operation adds to a value of the shared data it adds to the thread's part. -/
def Op.Adds (value : σ → M) (part : α → M) (here : α) (shared : σ) : Op σ α → Prop
  | .run next | .lock next | .unlock next | .wait next | .signal next | .broadcast next =>
      part next = part here
  | .access effect =>
      value (effect shared).1 + part here = value shared + part (effect shared).2
  | .exit => True

theorem Op.Adds.goes {value : σ → M} {part : α → M} {here next : α} {shared : σ} {op : Op σ α}
    (adds : op.Adds value part here shared) (goes : op.Goes shared next) :
    value (op.effect shared) + part here = value shared + part next := by
  cases op with
  | access effect =>
      rw [goes]
      exact adds
  | exit => cases goes
  | _ =>
      rw [goes, adds]
      rfl

/-- So the value is the sum of all parts, whatever the order of the steps. -/
theorem totals (reachable : p.system.Reachable s) (value : σ → M) (part : α → M)
    (start : value p.shared = (p.creates.map part).sum)
    (adds : ∀ (s : State σ α) (id : Nat) (here : α), p.system.Reachable s →
      s.pool[id]? = some ⟨.ready, here⟩ → (p.code here).Adds value part here s.shared) :
    value s.shared = (s.points.map part).sum := by
  apply induct_points reachable (fun shared points => value shared = (points.map part).sum) start
  intro s id here next known equal there goes
  have added := (adds s id here known there).goes goes
  have moves := Pool.sum_set part (points_at there) next
  rw [equal] at added
  exact add_right_cancel (added.trans moves.symm)

end ApLabs.Foundation.Pthreads
