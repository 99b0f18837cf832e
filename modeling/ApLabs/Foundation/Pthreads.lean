import ApLabs.Foundation.Pool
import ApLabs.Foundation.Transition

/-!
# Threads with a mutex and a condition variable

A program is the code of its threads, the threads that `main` creates, in turn, and the
order in which it joins them.  The code says for every local state of a thread what the
thread does next.  To wait on the condition variable releases the mutex and falls asleep
in one step; a thread that was woken goes on when it has got the mutex back.  A thread
may also be woken spuriously.
-/

namespace ApLabs.Foundation.Pthreads

open ApLabs.Foundation.Transition
open ApLabs.Foundation.Transition.System

/-- What a thread with local states `α` does next, on shared data `σ`. -/
inductive Op (σ α : Type) where
  | run (next : α)
  | access (effect : σ → σ × α)
  | lock (next : α)
  | unlock (next : α)
  | wait (next : α)
  | signal (next : α)
  | broadcast (next : α)
  | exit

structure Program (σ α : Type) where
  code : α → Op σ α
  shared : σ
  creates : List α
  joins : List Nat

inductive Status where
  | fresh
  | ready
  | asleep
  | woken
  deriving DecidableEq, Repr

structure Thread (α : Type) where
  status : Status
  here : α
  deriving DecidableEq, Repr

/-- `created` and `joined` count the calls that `main` has made. -/
structure State (σ α : Type) where
  shared : σ
  owner : Option Nat
  pool : List (Thread α)
  created : Nat
  joined : Nat

/-- A signal wakes one of the sleeping threads, if there is any. -/
inductive Label where
  | create
  | step (id : Nat)
  | signal (id : Nat) (target : Option Nat)
  | resume (id : Nat)
  | spurious (id : Nat)
  | join
  deriving DecidableEq, Repr

def Label.Spurious : Label → Prop
  | .spurious _ => True
  | .create | .step _ | .signal .. | .resume _ | .join => False

instance (label : Label) : Decidable label.Spurious :=
  match label with
  | .spurious _ => inferInstanceAs (Decidable True)
  | .create | .step _ | .signal .. | .resume _ | .join => inferInstanceAs (Decidable False)

variable {σ α : Type}

/-! ## Steps -/

/-- A thread can perform this operation on its own. -/
def Op.Ready (owner : Option Nat) : Op σ α → Prop
  | .lock _ => owner = none
  | .signal _ | .exit => False
  | .run _ | .access _ | .unlock _ | .wait _ | .broadcast _ => True

def Op.Signals : Op σ α → Prop
  | .signal _ => True
  | .run _ | .access _ | .lock _ | .unlock _ | .wait _ | .broadcast _ | .exit => False

def Op.Exits : Op σ α → Prop
  | .exit => True
  | .run _ | .access _ | .lock _ | .unlock _ | .wait _ | .signal _ | .broadcast _ => False

instance (owner : Option Nat) (op : Op σ α) : Decidable (op.Ready owner) :=
  match op with
  | .lock _ => inferInstanceAs (Decidable (owner = none))
  | .signal _ | .exit => inferInstanceAs (Decidable False)
  | .run _ | .access _ | .unlock _ | .wait _ | .broadcast _ => inferInstanceAs (Decidable True)

instance (op : Op σ α) : Decidable op.Signals :=
  match op with
  | .signal _ => inferInstanceAs (Decidable True)
  | .run _ | .access _ | .lock _ | .unlock _ | .wait _ | .broadcast _ | .exit =>
      inferInstanceAs (Decidable False)

instance (op : Op σ α) : Decidable op.Exits :=
  match op with
  | .exit => inferInstanceAs (Decidable True)
  | .run _ | .access _ | .lock _ | .unlock _ | .wait _ | .signal _ | .broadcast _ =>
      inferInstanceAs (Decidable False)

def Thread.wake (thread : Thread α) : Thread α :=
  { thread with status := if thread.status = .asleep then .woken else thread.status }

namespace State

def put (s : State σ α) (id : Nat) (thread : Thread α) : State σ α :=
  { s with pool := s.pool.set id thread }

def mark (s : State σ α) (id : Nat) (status : Status) : State σ α :=
  match s.pool[id]? with
  | some thread => s.put id ⟨status, thread.here⟩
  | none => s

/-- A signal also wakes another thread, which its label names. -/
def perform (s : State σ α) (id : Nat) : Op σ α → State σ α
  | .run next => s.put id ⟨.ready, next⟩
  | .access effect =>
      { s.put id ⟨.ready, (effect s.shared).2⟩ with shared := (effect s.shared).1 }
  | .lock next => { s.put id ⟨.ready, next⟩ with owner := some id }
  | .unlock next => { s.put id ⟨.ready, next⟩ with owner := none }
  | .wait next => { s.put id ⟨.asleep, next⟩ with owner := none }
  | .signal next => s.put id ⟨.ready, next⟩
  | .broadcast next => { s with pool := (s.pool.map Thread.wake).set id ⟨.ready, next⟩ }
  | .exit => s

end State

namespace Program

variable (p : Program σ α)

def initial : State σ α where
  shared := p.shared
  owner := none
  pool := p.creates.map fun here => ⟨.fresh, here⟩
  created := 0
  joined := 0

def act (s : State σ α) (id : Nat) : State σ α :=
  match s.pool[id]? with
  | some thread => s.perform id (p.code thread.here)
  | none => s

def Enabled (s : State σ α) : Label → Prop
  | .create => ∃ thread ∈ s.pool[s.created]?, thread.status = .fresh
  | .step id =>
      ∃ thread ∈ s.pool[id]?, thread.status = .ready ∧ (p.code thread.here).Ready s.owner
  | .signal id target =>
      (∃ thread ∈ s.pool[id]?, thread.status = .ready ∧ (p.code thread.here).Signals) ∧
        match target with
        | none => ∀ thread ∈ s.pool, thread.status ≠ .asleep
        | some other => ∃ thread ∈ s.pool[other]?, thread.status = .asleep
  | .resume id => s.owner = none ∧ ∃ thread ∈ s.pool[id]?, thread.status = .woken
  | .spurious id => ∃ thread ∈ s.pool[id]?, thread.status = .asleep
  | .join =>
      s.created = s.pool.length ∧ ∃ id ∈ p.joins[s.joined]?, ∃ thread ∈ s.pool[id]?,
        thread.status = .ready ∧ (p.code thread.here).Exits

instance decidableEnabled (s : State σ α) (label : Label) : Decidable (p.Enabled s label) :=
  match label with
  | .create => inferInstanceAs (Decidable (∃ thread ∈ s.pool[s.created]?, _))
  | .step id => inferInstanceAs (Decidable (∃ thread ∈ s.pool[id]?, _ ∧ _))
  | .signal id none =>
      inferInstanceAs (Decidable ((∃ thread ∈ s.pool[id]?, _ ∧ _) ∧ ∀ thread ∈ s.pool, _))
  | .signal id (some other) =>
      inferInstanceAs (Decidable
        ((∃ thread ∈ s.pool[id]?, _ ∧ _) ∧ ∃ thread ∈ s.pool[other]?, _))
  | .resume id => inferInstanceAs (Decidable (_ ∧ ∃ thread ∈ s.pool[id]?, _))
  | .spurious id => inferInstanceAs (Decidable (∃ thread ∈ s.pool[id]?, _))
  | .join =>
      inferInstanceAs (Decidable
        (_ ∧ ∃ id ∈ p.joins[s.joined]?, ∃ thread ∈ s.pool[id]?, _ ∧ _))

def next (s : State σ α) : Label → State σ α
  | .create => { s.mark s.created .ready with created := s.created + 1 }
  | .step id => p.act s id
  | .signal id none => p.act s id
  | .signal id (some other) => (p.act s id).mark other .woken
  | .resume id => { s.mark id .ready with owner := some id }
  | .spurious id => s.mark id .woken
  | .join => { s with joined := s.joined + 1 }

def system : System (State σ α) Label :=
  ⟨p.initial, p.Enabled, p.next⟩

instance (s : State σ α) (label : Label) : Decidable (p.system.Enabled s label) :=
  inferInstanceAs (Decidable (p.Enabled s label))

/-- The program without spurious wake-ups. -/
def strict : System (State σ α) Label :=
  ⟨p.initial, fun s label => p.Enabled s label ∧ ¬ label.Spurious, p.next⟩

instance (s : State σ α) (label : Label) : Decidable (p.strict.Enabled s label) :=
  inferInstanceAs (Decidable (p.Enabled s label ∧ ¬ label.Spurious))

/-- `main` has joined all threads. -/
def Complete (s : State σ α) : Prop := s.joined = p.joins.length

instance (s : State σ α) : Decidable (p.Complete s) :=
  inferInstanceAs (Decidable (_ = _))

end Program

/-! ## What a step can do -/

/-- One constructor for each kind of step, with all that is known of it. -/
inductive Move (p : Program σ α) (s : State σ α) : Label → State σ α → Prop where
  | create {here : α} (first : s.pool[s.created]? = some ⟨.fresh, here⟩) :
      Move p s .create { s.put s.created ⟨.ready, here⟩ with created := s.created + 1 }
  | run {id : Nat} {here next : α} (there : s.pool[id]? = some ⟨.ready, here⟩)
      (code : p.code here = .run next) : Move p s (.step id) (s.put id ⟨.ready, next⟩)
  | access {id : Nat} {here : α} {effect : σ → σ × α}
      (there : s.pool[id]? = some ⟨.ready, here⟩) (code : p.code here = .access effect) :
      Move p s (.step id)
        { s.put id ⟨.ready, (effect s.shared).2⟩ with shared := (effect s.shared).1 }
  | lock {id : Nat} {here next : α} (there : s.pool[id]? = some ⟨.ready, here⟩)
      (code : p.code here = .lock next) (free : s.owner = none) :
      Move p s (.step id) { s.put id ⟨.ready, next⟩ with owner := some id }
  | unlock {id : Nat} {here next : α} (there : s.pool[id]? = some ⟨.ready, here⟩)
      (code : p.code here = .unlock next) :
      Move p s (.step id) { s.put id ⟨.ready, next⟩ with owner := none }
  | wait {id : Nat} {here next : α} (there : s.pool[id]? = some ⟨.ready, here⟩)
      (code : p.code here = .wait next) :
      Move p s (.step id) { s.put id ⟨.asleep, next⟩ with owner := none }
  | broadcast {id : Nat} {here next : α} (there : s.pool[id]? = some ⟨.ready, here⟩)
      (code : p.code here = .broadcast next) :
      Move p s (.step id) { s with pool := (s.pool.map Thread.wake).set id ⟨.ready, next⟩ }
  | signal {id : Nat} {here next : α} (there : s.pool[id]? = some ⟨.ready, here⟩)
      (code : p.code here = .signal next)
      (nobody : ∀ thread ∈ s.pool, thread.status ≠ .asleep) :
      Move p s (.signal id none) (s.put id ⟨.ready, next⟩)
  | wakeOne {id other : Nat} {here next goal : α} (there : s.pool[id]? = some ⟨.ready, here⟩)
      (code : p.code here = .signal next) (sleeps : s.pool[other]? = some ⟨.asleep, goal⟩) :
      Move p s (.signal id (some other)) ((s.put id ⟨.ready, next⟩).put other ⟨.woken, goal⟩)
  | resume {id : Nat} {here : α} (free : s.owner = none)
      (there : s.pool[id]? = some ⟨.woken, here⟩) :
      Move p s (.resume id) { s.put id ⟨.ready, here⟩ with owner := some id }
  | spurious {id : Nat} {here : α} (there : s.pool[id]? = some ⟨.asleep, here⟩) :
      Move p s (.spurious id) (s.put id ⟨.woken, here⟩)
  | join {id : Nat} {here : α} (all : s.created = s.pool.length)
      (turn : p.joins[s.joined]? = some id) (there : s.pool[id]? = some ⟨.ready, here⟩)
      (code : p.code here = .exit) : Move p s .join { s with joined := s.joined + 1 }

variable {p : Program σ α} {s : State σ α}

theorem State.mark_eq {id : Nat} {status : Status} {here : α}
    (there : s.pool[id]? = some ⟨status, here⟩) (after : Status) :
    s.mark id after = s.put id ⟨after, here⟩ := by
  rw [State.mark, there]

theorem Program.act_eq {id : Nat} {status : Status} {here : α}
    (there : s.pool[id]? = some ⟨status, here⟩) : p.act s id = s.perform id (p.code here) := by
  rw [Program.act, there]

/-- A sleeping thread is not the one that goes on. -/
theorem asleep_still {pool : List (Thread α)} {id other : Nat} {here goal : α}
    (there : pool[id]? = some ⟨.ready, here⟩) (sleeps : pool[other]? = some ⟨.asleep, goal⟩)
    (after : Thread α) : (pool.set id after)[other]? = some ⟨.asleep, goal⟩ := by
  have different : id ≠ other := by
    rintro rfl
    rw [there] at sleeps
    cases sleeps
  rw [List.getElem?_set_ne different]
  exact sleeps

theorem ready_wake {pool : List (Thread α)} {id : Nat} {here : α}
    (there : pool[id]? = some ⟨.ready, here⟩) :
    (pool.map Thread.wake)[id]? = some ⟨.ready, here⟩ := by
  rw [List.getElem?_map, there]
  rfl

/-- Every enabled step is one of these moves. -/
theorem move {label : Label} (enabled : p.Enabled s label) : Move p s label (p.next s label) := by
  cases label with
  | create =>
      obtain ⟨⟨_, here⟩, first, rfl⟩ := enabled
      rw [Program.next, State.mark_eq first]
      exact .create first
  | step id =>
      obtain ⟨⟨_, here⟩, there, rfl, ready⟩ := enabled
      rw [Program.next, Program.act_eq there]
      simp only at ready
      cases code : p.code here with
      | run next => exact .run there code
      | access effect => exact .access there code
      | lock next =>
          rw [code] at ready
          exact .lock there code ready
      | unlock next => exact .unlock there code
      | wait next => exact .wait there code
      | broadcast next => exact .broadcast there code
      | signal next | exit =>
          rw [code] at ready
          cases ready
  | signal id target =>
      obtain ⟨⟨⟨_, here⟩, there, rfl, signals⟩, sleeps⟩ := enabled
      simp only at signals
      cases code : p.code here with
      | signal next =>
          cases target with
          | none =>
              rw [Program.next, Program.act_eq there, code]
              exact .signal there code sleeps
          | some other =>
              obtain ⟨⟨_, goal⟩, asleep, rfl⟩ := sleeps
              have still : (s.put id ⟨.ready, next⟩).pool[other]? = some ⟨.asleep, goal⟩ :=
                asleep_still there asleep _
              rw [Program.next, Program.act_eq there, code, State.perform, State.mark_eq still]
              exact .wakeOne there code asleep
      | _ =>
          rw [code] at signals
          cases signals
  | resume id =>
      obtain ⟨free, ⟨_, here⟩, there, rfl⟩ := enabled
      rw [Program.next, State.mark_eq there]
      exact .resume free there
  | spurious id =>
      obtain ⟨⟨_, here⟩, there, rfl⟩ := enabled
      rw [Program.next, State.mark_eq there]
      exact .spurious there
  | join =>
      obtain ⟨all, id, turn, ⟨_, here⟩, there, rfl, exits⟩ := enabled
      simp only at exits
      cases code : p.code here with
      | exit => exact .join all turn there code
      | _ =>
          rw [code] at exits
          cases exits

theorem leads_of_strict {last : State σ α} (leads : p.strict.Leads s last) :
    p.system.Leads s last :=
  Leads.mono leads rfl fun _ _ enabled => enabled.1

/-- What every move keeps holds in every state that is reached. -/
theorem induct_moves (reachable : p.system.Reachable s) (invariant : State σ α → Prop)
    (start : invariant p.initial)
    (keeps : ∀ s label after, p.system.Reachable s → invariant s → Move p s label after →
      invariant after) : invariant s := by
  apply reachable.induct_known (fun _ known => known) start
  intro s label known holds enabled
  exact keeps s label _ known holds (move enabled)

/-! ## Local states -/

/-- Where an operation on these data can take a thread. -/
def Op.Goes (shared : σ) (next : α) : Op σ α → Prop
  | .access effect => next = (effect shared).2
  | .run after | .lock after | .unlock after | .wait after | .signal after | .broadcast after =>
      next = after
  | .exit => False

/-- The shared data after an operation. -/
def Op.effect (shared : σ) : Op σ α → σ
  | .access effect => (effect shared).1
  | .run _ | .lock _ | .unlock _ | .wait _ | .signal _ | .broadcast _ | .exit => shared

def State.points (s : State σ α) : List α :=
  s.pool.map Thread.here

theorem initial_points (p : Program σ α) : p.initial.points = p.creates := by
  rw [State.points, Program.initial, List.map_map]
  exact List.map_id _

theorem points_at {id : Nat} {status : Status} {here : α}
    (there : s.pool[id]? = some ⟨status, here⟩) : s.points[id]? = some here := by
  rw [State.points, List.getElem?_map, there]
  rfl

theorem map_here_stay {pool : List (Thread α)} {id : Nat} {before after : Status} {here : α}
    (there : pool[id]? = some ⟨before, here⟩) :
    (pool.set id ⟨after, here⟩).map Thread.here = pool.map Thread.here :=
  Pool.map_set Thread.here there (by rfl)

theorem map_here_wake (pool : List (Thread α)) :
    (pool.map Thread.wake).map Thread.here = pool.map Thread.here := by
  rw [List.map_map]
  rfl

/-- A move changes the local state of one thread at most. -/
theorem Move.points {label : Label} {after : State σ α} (moved : Move p s label after) :
    after.points = s.points ∧ after.shared = s.shared ∨
      ∃ (id : Nat) (here next : α), s.pool[id]? = some ⟨.ready, here⟩ ∧
        (p.code here).Goes s.shared next ∧ after.shared = (p.code here).effect s.shared ∧
        after.points = s.points.set id next := by
  have steps : ∀ {id : Nat} {here next : α} {op : Op σ α} {result : State σ α},
      s.pool[id]? = some ⟨.ready, here⟩ → p.code here = op → op.Goes s.shared next →
      result.shared = op.effect s.shared → result.points = s.points.set id next →
      ∃ (id : Nat) (here next : α), s.pool[id]? = some ⟨.ready, here⟩ ∧
        (p.code here).Goes s.shared next ∧ result.shared = (p.code here).effect s.shared ∧
        result.points = s.points.set id next := by
    rintro id here next op result there rfl goes shared points
    exact ⟨id, here, next, there, goes, shared, points⟩
  cases moved with
  | create first => exact Or.inl ⟨map_here_stay first, rfl⟩
  | run there code => exact Or.inr (steps there code rfl rfl List.map_set)
  | access there code => exact Or.inr (steps there code rfl rfl List.map_set)
  | lock there code free => exact Or.inr (steps there code rfl rfl List.map_set)
  | unlock there code => exact Or.inr (steps there code rfl rfl List.map_set)
  | wait there code => exact Or.inr (steps there code rfl rfl List.map_set)
  | broadcast there code =>
      refine Or.inr (steps there code rfl rfl ?_)
      rw [State.points, List.map_set, map_here_wake]
      rfl
  | signal there code nobody => exact Or.inr (steps there code rfl rfl List.map_set)
  | wakeOne there code sleeps =>
      refine Or.inr (steps there code rfl rfl ?_)
      exact (map_here_stay (asleep_still there sleeps _)).trans List.map_set
  | resume free there => exact Or.inl ⟨map_here_stay there, rfl⟩
  | spurious there => exact Or.inl ⟨map_here_stay there, rfl⟩
  | join all turn there code => exact Or.inl ⟨rfl, rfl⟩

/-- What holds of all local states is kept by a move when it holds where the thread that
goes on comes to, and is not disturbed for the others. -/
theorem Move.locals {label : Label} {after : State σ α} (moved : Move p s label after)
    (fits : σ → α → Prop) (all : ∀ thread ∈ s.pool, fits s.shared thread.here)
    (goes : ∀ (id : Nat) (here next : α), s.pool[id]? = some ⟨.ready, here⟩ →
      (p.code here).Goes s.shared next → fits ((p.code here).effect s.shared) next)
    (frame : ∀ (id : Nat) (here there : α), s.pool[id]? = some ⟨.ready, here⟩ →
      fits s.shared there → fits ((p.code here).effect s.shared) there) :
    ∀ thread ∈ after.pool, fits after.shared thread.here := by
  have before : ∀ here ∈ s.points, fits s.shared here := List.forall_mem_map.mpr all
  have now : ∀ here ∈ after.points, fits after.shared here := by
    rcases moved.points with ⟨points, shared⟩ | ⟨id, here, next, there, target, shared, points⟩
    · rw [points, shared]
      exact before
    · rw [points, shared]
      apply Pool.forall_set _ (goes id here next there target)
      exact fun other member => frame id here other there (before other member)
  exact List.forall_mem_map.mp now

/-- What the steps of the threads keep of the shared data and the local states holds in
every state that is reached. -/
theorem induct_points (reachable : p.system.Reachable s) (invariant : σ → List α → Prop)
    (start : invariant p.shared p.creates)
    (keeps : ∀ (s : State σ α) (id : Nat) (here next : α), p.system.Reachable s →
      invariant s.shared s.points → s.pool[id]? = some ⟨.ready, here⟩ →
      (p.code here).Goes s.shared next →
      invariant ((p.code here).effect s.shared) (s.points.set id next)) :
    invariant s.shared s.points := by
  apply induct_moves reachable (fun s => invariant s.shared s.points)
  · rw [initial_points]
    exact start
  · intro s label after known holds moved
    rcases moved.points with ⟨points, shared⟩ | ⟨id, here, next, there, goes, shared, points⟩
    · rw [points, shared]
      exact holds
    · rw [points, shared]
      exact keeps s id here next known holds there goes

/-- What holds of the local states at the start and is kept by the code holds of all
threads. -/
theorem locals (reachable : p.system.Reachable s) (fits : α → Prop)
    (start : ∀ here ∈ p.creates, fits here)
    (keeps : ∀ here shared next, fits here → (p.code here).Goes shared next → fits next) :
    ∀ thread ∈ s.pool, fits thread.here := by
  have all : ∀ here ∈ s.points, fits here := by
    apply induct_points reachable (fun _ points => ∀ here ∈ points, fits here) start
    intro s id here next known all there goes
    have before := all here (Pool.mem (points_at there))
    exact Pool.forall_set all (keeps here s.shared next before goes)
  exact List.forall_mem_map.mp all

/-- Threads that keep to the part of the code where they start stay in the order in which
they were created. -/
theorem roles {κ : Type} (reachable : p.system.Reachable s) (role : α → κ)
    (keeps : ∀ here shared next, (p.code here).Goes shared next → role next = role here) :
    s.points.map role = p.creates.map role := by
  apply induct_points reachable (fun _ points => points.map role = p.creates.map role) rfl
  intro s id here next known same there goes
  rw [Pool.map_set role (points_at there) (keeps here s.shared next goes), same]

/-- A thread that has waited, and not yet gone on, is where its wait leads. -/
theorem sleepers (reachable : p.system.Reachable s) (rests : α → Prop)
    (waits : ∀ here next, p.code here = .wait next → rests next) :
    ∀ thread ∈ s.pool, thread.status = .asleep ∨ thread.status = .woken →
      rests thread.here := by
  apply induct_moves reachable (fun s => ∀ thread ∈ s.pool,
    thread.status = .asleep ∨ thread.status = .woken → rests thread.here)
  · intro thread member sleeps
    obtain ⟨here, created, rfl⟩ := List.mem_map.mp member
    rcases sleeps with asleep | woken
    · cases asleep
    · cases woken
  · intro s label after known all moved
    have awake : ∀ {id : Nat} {next : α}, ∀ thread ∈ s.pool.set id ⟨.ready, next⟩,
        thread.status = .asleep ∨ thread.status = .woken → rests thread.here := by
      intro id next
      apply Pool.forall_set all
      simp
    cases moved with
    | create | run | access | lock | unlock | signal | resume => exact awake
    | @wait id here next there code => exact Pool.forall_set all fun _ => waits here next code
    | broadcast there code =>
        apply Pool.forall_set
        · intro thread member sleeps
          obtain ⟨⟨status, there⟩, among, rfl⟩ := List.mem_map.mp member
          apply all _ among
          cases status with
          | asleep => exact Or.inl rfl
          | fresh | ready | woken => exact sleeps
        · simp
    | @wakeOne id other here next goal there code sleeps =>
        have rested : rests goal := all ⟨.asleep, goal⟩ (Pool.mem sleeps) (Or.inl rfl)
        exact Pool.forall_set awake fun _ => rested
    | @spurious id here there =>
        have rested : rests here := all ⟨.asleep, here⟩ (Pool.mem there) (Or.inl rfl)
        exact Pool.forall_set all fun _ => rested
    | join => exact all

/-! ## Sleeping threads -/

def asleep (pool : List (Thread α)) : Nat :=
  pool.countP fun thread => thread.status = .asleep

section

variable {pool : List (Thread α)} {id : Nat}

theorem asleep_ready {before : Status} {here : α} (there : pool[id]? = some ⟨before, here⟩)
    (awake : before ≠ .asleep) (next : α) :
    asleep (pool.set id ⟨.ready, next⟩) = asleep pool :=
  Pool.countP_same _ there (decide_eq_decide.mpr (iff_of_false nofun awake))

theorem asleep_enter {here : α} (there : pool[id]? = some ⟨.ready, here⟩) (next : α) :
    asleep (pool.set id ⟨.asleep, next⟩) = asleep pool + 1 :=
  Pool.countP_enter _ there rfl rfl

theorem asleep_leave {here : α} (there : pool[id]? = some ⟨.asleep, here⟩) (next : α) :
    asleep (pool.set id ⟨.woken, next⟩) + 1 = asleep pool :=
  Pool.countP_exit _ there rfl rfl

theorem asleep_eq_zero : asleep pool = 0 ↔ ∀ thread ∈ pool, thread.status ≠ .asleep := by
  rw [asleep, List.countP_eq_zero]
  simp

theorem asleep_wake (pool : List (Thread α)) : asleep (pool.map Thread.wake) = 0 := by
  rw [asleep_eq_zero]
  intro thread member
  obtain ⟨⟨status, here⟩, -, rfl⟩ := List.mem_map.mp member
  cases status <;> exact nofun

end

end ApLabs.Foundation.Pthreads
