import ApLabs.Threads.SharedSum
import Mathlib.Algebra.BigOperators.Intervals
import Mathlib.Algebra.Order.BigOperators.Group.Finset
import Mathlib.Data.Int.ConditionallyCompleteOrder

/-!
# Lost updates

What `bug6.c` can print.  Without the mutex additions are lost, but none is made twice.  With
vectors of ones, and at least two threads with two elements each, the final sum can be
every number from two up to the correct one.
-/

namespace ApLabs.Threads.SharedSum

open ApLabs.Foundation
open ApLabs.Foundation.CMemory
open ApLabs.Foundation.Pthreads
open ApLabs.Foundation.Transition.System
open Finset

variable {c : Params} {s : State Int Point} {here next : Point} {sum result : Int}

/-! ## Lost additions -/

/-- Whatever additions are lost, none is made twice and none overflows. -/
theorem reachable_subset (fits : c.Fits) (reachable : c.program.system.Reachable s) :
    c.Defined s ∧
      ∃ indices ⊆ range (c.NUMTHRDS * c.VECLEN), s.shared = ∑ i ∈ indices, c.a i * c.b i :=
  ⟨fits.defined reachable, shared_subset reachable⟩

/-- Two threads with one element each. -/
def pair : Params :=
  ⟨2, 1, fun i => if i = 0 then 2 else 3, fun i => if i = 0 then 5 else 7, false⟩

/-- Both load the sum before one stores. -/
def raceRun : List Label :=
  List.replicate 2 .create ++ List.replicate 3 (.step 0) ++ List.replicate 3 (.step 1) ++
    [.step 0, .step 1]

theorem pair_subset :
    ∃ indices ⊆ range (pair.NUMTHRDS * pair.VECLEN),
      (pair.program.system.after pair.program.initial raceRun).shared =
        ∑ i ∈ indices, pair.a i * pair.b i := by
  have fits : pair.Fits := ⟨by decide, by decide, by decide, by decide⟩
  have runs : pair.program.system.Runs pair.program.initial raceRun := by decide
  exact (reachable_subset fits (Runs.leads runs)).2

/-! ## The least sum -/

/-- With ones only, a thread that has been at an index has made the sum positive, and from
its second index on it adds to a positive sum. -/
structure Params.Counts (c : Params) (sum : Int) (points : List Point) : Prop where
  nonnegative : 0 ≤ sum
  positive : ∀ here ∈ points, here.offset * c.VECLEN < c.index here → 1 ≤ sum
  reads : ∀ here ∈ points, ∀ offset i value, here = .store offset i value →
    0 ≤ value ∧ (offset * c.VECLEN < i → 1 ≤ value)
  early : 2 ≤ sum ∨ ∃ here ∈ points, c.index here ≤ here.offset * c.VECLEN + 1

theorem counts (ones : ∀ i, c.term i = 1) (some_thread : 0 < c.NUMTHRDS)
    (reachable : c.program.system.Reachable s) : c.Counts s.shared s.points := by
  apply induct_points reachable c.Counts
  · have first : ∀ here ∈ c.program.creates, c.index here = here.offset * c.VECLEN := by
      intro here created
      obtain ⟨offset, -, rfl⟩ := List.mem_map.mp created
      rfl
    refine ⟨Int.le_refl 0, ?_, ?_, Or.inr ?_⟩
    · exact fun here created more => absurd (first here created) more.ne'
    · intro here created offset i value store
      obtain ⟨_, -, rfl⟩ := List.mem_map.mp created
      cases store
    · have zero : .loop 0 (0 * c.VECLEN) ∈ c.program.creates :=
        List.mem_map_of_mem (List.mem_range.mpr some_thread)
      exact ⟨_, zero, Nat.le_succ _⟩
  · intro s id here next reachable known there goes
    have found := points_at there
    have inside := within reachable _ (Pool.mem there)
    have turn := turn goes
    generalize (c.program.code here).effect s.shared = result at turn
    have now : (s.points.set id next)[id]? = some next :=
      List.getElem?_set_self (Pool.within found)
    rcases turn.index inside with ⟨same, rfl⟩ | ⟨offset, i, value, rfl, rfl, rfl⟩
    · -- neither the sum nor the progress of any thread changes
      refine ⟨known.nonnegative, ?_, ?_, ?_⟩
      · apply Pool.forall_set known.positive
        rw [turn.offset, same]
        exact known.positive here (Pool.mem found)
      · apply Pool.forall_set known.reads
        rintro offset i value rfl
        cases turn
        exact ⟨known.nonnegative, known.positive _ (Pool.mem found)⟩
      · rcases known.early with two | ⟨other, member, early⟩
        · exact Or.inl two
        · obtain ⟨k, elsewhere⟩ := List.mem_iff_getElem?.mp member
          by_cases own : id = k
          · subst own
            obtain rfl := Option.some.inj (found.symm.trans elsewhere)
            exact Or.inr ⟨next, Pool.mem now, by rwa [turn.offset, same]⟩
          · have still : (s.points.set id next)[k]? = some other :=
              (List.getElem?_set_ne own).trans elsewhere
            exact Or.inr ⟨other, Pool.mem still, early⟩
    · obtain ⟨least, more⟩ := known.reads _ (Pool.mem found) offset i value rfl
      rw [ones]
      refine ⟨by omega, fun _ _ _ => by omega, Pool.forall_set known.reads nofun, ?_⟩
      rcases Nat.lt_or_ge (offset * c.VECLEN) i with second | first
      · have positive := more second
        exact Or.inl (by omega)
      · exact Or.inr ⟨_, Pool.mem now, Nat.succ_le_succ first⟩

theorem complete_sum_bounds (ones : ∀ i, c.term i = 1) (some_thread : 0 < c.NUMTHRDS)
    (some_length : 2 ≤ c.VECLEN) (reachable : c.program.system.Reachable s)
    (complete : c.program.Complete s) :
    2 ≤ s.shared ∧ s.shared ≤ (c.NUMTHRDS * c.VECLEN : Nat) := by
  constructor
  · apply (counts ones some_thread reachable).early.resolve_right
    rintro ⟨here, member, early⟩
    rw [exits_of_complete reachable complete here member] at early
    simp only [Params.index, Point.offset] at early
    omega
  · obtain ⟨indices, subset, equal⟩ := shared_subset reachable
    have number : s.shared = indices.card := by
      have each : ∀ i ∈ indices, c.term i = 1 := fun i _ => ones i
      rw [equal, sum_congr rfl each, sum_const, nsmul_one]
    have most := card_le_card subset
    rw [card_range] at most
    rw [number]
    exact_mod_cast most

/-! ## Runs without the mutex -/

/-- All threads have been created, and each is at its point. -/
def Params.spread (c : Params) (points : Nat → Point) (sum : Int) : State Int Point where
  shared := sum
  owner := none
  pool := (List.range c.NUMTHRDS).map fun offset => ⟨.ready, points offset⟩
  created := c.NUMTHRDS
  joined := 0

theorem begun_spread (c : Params) :
    c.program.begun c.program.creates.length =
      c.spread (fun offset => .loop offset (offset * c.VECLEN)) 0 := by
  rw [Program.begun, List.take_length, List.drop_length, List.map_nil, List.append_nil,
    creates_length, Params.program, List.map_map]
  rfl

variable {points : Nat → Point} {id : Nat}

theorem spread_set (c : Params) (points : Nat → Point) (sum : Int) (id : Nat) (next : Point) :
    (c.spread points sum).pool.set id ⟨.ready, next⟩ =
      (c.spread (Function.update points id next) sum).pool := by
  apply List.ext_getElem
  · simp [Params.spread]
  · intro k left right
    simp only [Params.spread, List.getElem_set, List.getElem_map, List.getElem_range]
    by_cases same : id = k
    · subst same
      simp
    · rw [if_neg same, Function.update_of_ne (Ne.symm same)]

/-- Without the mutex every thread can go on at any time. -/
theorem spread_turn (free : c.mutex = false) (inside : id < c.NUMTHRDS)
    (turn : Turn c sum (points id) next result) :
    c.program.system.Leads (c.spread points sum)
      (c.spread (Function.update points id next) result) := by
  have there : (c.spread points sum).pool[id]? = some ⟨.ready, points id⟩ := by
    simp [Params.spread, inside]
  have set := spread_set c points sum id next
  have leads : ∀ op : Op Int Point, c.program.code (points id) = op → op.Ready none →
      (c.spread points sum).perform id op =
        c.spread (Function.update points id next) result →
      c.program.system.Leads (c.spread points sum)
        (c.spread (Function.update points id next) result) := by
    rintro op rfl ready equal
    have enabled : c.program.system.Enabled (c.spread points sum) (.step id) :=
      ⟨_, there, rfl, ready⟩
    have step := (Leads.refl _).step enabled
    have after : c.program.system.next (c.spread points sum) (.step id) =
        c.spread (Function.update points id next) result := (Program.act_eq there).trans equal
    rwa [after] at step
  have runs : c.program.code (points id) = .run next → result = sum →
      c.program.system.Leads (c.spread points sum)
        (c.spread (Function.update points id next) result) := by
    rintro code rfl
    apply leads _ code trivial
    rw [State.perform, State.put, set]
    rfl
  have accesses : ∀ effect : Int → Int × Point, c.program.code (points id) = .access effect →
      effect sum = (result, next) → c.program.system.Leads (c.spread points sum)
        (c.spread (Function.update points id next) result) := by
    intro effect code value
    have value : effect (c.spread points sum).shared = (result, next) := value
    apply leads _ code trivial
    rw [State.perform, value, State.put, set]
    rfl
  generalize points id = before at turn runs accesses
  cases turn with
  | @more offset i within =>
      apply runs ?_ rfl
      show Op.run (if i < offset * c.VECLEN + c.VECLEN then _ else _) = _
      rw [if_pos within]
  | @last offset i past =>
      apply runs ?_ rfl
      show Op.run (if i < offset * c.VECLEN + c.VECLEN then _ else _) = _
      rw [if_neg past]
  | @lock offset i =>
      apply runs ?_ rfl
      show c.mutexLock _ = _
      rw [Params.mutexLock, free, if_neg Bool.false_ne_true]
  | @unlock offset i =>
      apply runs ?_ rfl
      show c.mutexUnlock _ = _
      rw [Params.mutexUnlock, free, if_neg Bool.false_ne_true]
  | load => exact accesses _ rfl rfl
  | store => exact accesses _ rfl rfl
  | print => exact accesses _ rfl rfl

theorem spread_next (free : c.mutex = false) (inside : id < c.NUMTHRDS)
    (points : Nat → Point) (turn : Turn c sum here next result) :
    c.program.system.Leads (c.spread (Function.update points id here) sum)
      (c.spread (Function.update points id next) result) := by
  rw [← Function.update_idem here next points]
  apply spread_turn free inside
  rwa [Function.update_self]

/-- A thread adds one element, up to where it has loaded the sum. -/
theorem spread_load (free : c.mutex = false) (inside : id < c.NUMTHRDS)
    (points : Nat → Point) {i : Nat} (within : i < id * c.VECLEN + c.VECLEN) (sum : Int) :
    c.program.system.Leads (c.spread (Function.update points id (.loop id i)) sum)
      (c.spread (Function.update points id (.store id i sum)) sum) :=
  ((spread_next free inside points (.more within)).trans
    (spread_next free inside points .lock)).trans (spread_next free inside points .load)

theorem spread_store (free : c.mutex = false) (inside : id < c.NUMTHRDS)
    (points : Nat → Point) (i : Nat) (value sum : Int) :
    c.program.system.Leads (c.spread (Function.update points id (.store id i value)) sum)
      (c.spread (Function.update points id (.loop id (i + 1))) (value + c.term i)) :=
  (spread_next free inside points .store).trans (spread_next free inside points .unlock)

/-- A thread adds some elements while the others stay. -/
theorem spread_adds (free : c.mutex = false) (ones : ∀ i, c.term i = 1)
    (inside : id < c.NUMTHRDS) (points : Nat → Point) (i : Nat) (sum : Int) (more : Nat)
    (within : i + more ≤ id * c.VECLEN + c.VECLEN) :
    c.program.system.Leads (c.spread (Function.update points id (.loop id i)) sum)
      (c.spread (Function.update points id (.loop id (i + more))) (sum + more)) := by
  induction more with
  | zero =>
      rw [Nat.cast_zero, Int.add_zero]
      exact Leads.refl _
  | succ more ih =>
      have before := ih (by omega)
      have load := spread_load free inside points (show i + more < _ by omega) (sum + more)
      have store := spread_store free inside points (i + more) (sum + more) (sum + more)
      rw [ones, Int.add_assoc] at store
      exact (before.trans load).trans store

theorem spread_exit (free : c.mutex = false) (inside : id < c.NUMTHRDS)
    (points : Nat → Point) (sum : Int) :
    c.program.system.Leads
      (c.spread (Function.update points id (.loop id (id * c.VECLEN + c.VECLEN))) sum)
      (c.spread (Function.update points id (.exit id)) sum) :=
  (spread_next free inside points (.last (Nat.lt_irrefl _))).trans
    (spread_next free inside points .print)

/-- Threads go on one after the other. -/
theorem spread_each (ids : List Nat) (distinct : ids.Nodup) (before after : Nat → Point)
    (adds : Nat → Int)
    (moves : ∀ id ∈ ids, ∀ (points : Nat → Point) (sum : Int),
      c.program.system.Leads (c.spread (Function.update points id (before id)) sum)
        (c.spread (Function.update points id (after id)) (sum + adds id)))
    (points : Nat → Point) (sum : Int) (starts : ∀ id ∈ ids, points id = before id) :
    c.program.system.Leads (c.spread points sum)
      (c.spread (fun id => if id ∈ ids then after id else points id)
        (sum + (ids.map adds).sum)) := by
  induction ids generalizing points sum with
  | nil => simpa using Leads.refl _
  | cons id rest ih =>
      obtain ⟨fresh, distinct⟩ := List.nodup_cons.mp distinct
      have first := moves id List.mem_cons_self points sum
      rw [← starts id List.mem_cons_self, Function.update_eq_self] at first
      have others := ih distinct (fun k member => moves k (List.mem_cons_of_mem id member))
        (Function.update points id (after id)) (sum + adds id) (by
          intro k member
          have different : k ≠ id := by
            rintro rfl
            exact fresh member
          rw [Function.update_of_ne different]
          exact starts k (List.mem_cons_of_mem id member))
      have same : (fun k => if k ∈ rest then after k else Function.update points id (after id) k) =
          fun k => if k ∈ id :: rest then after k else points k := by
        funext k
        by_cases own : k = id
        · subst own
          simp
        · simp [own]
      rw [same, Int.add_assoc] at others
      exact first.trans others

/-- A run in which one thread goes on. -/
theorem exists_next (start : points id = here)
    (leads : c.program.system.Leads (c.spread (Function.update points id here) sum)
      (c.spread (Function.update points id next) result)) :
    ∃ after : Nat → Point, c.program.system.Leads (c.spread points sum) (c.spread after result) ∧
      after id = next ∧ ∀ other, other ≠ id → after other = points other := by
  refine ⟨Function.update points id next, ?_, Function.update_self .., ?_⟩
  · rwa [← start, Function.update_eq_self] at leads
  · exact fun other different => Function.update_of_ne different ..

/-- When all threads have added all their elements, `main` can join them. -/
theorem spread_complete (free : c.mutex = false)
    (ends : ∀ id < c.NUMTHRDS, points id = .loop id (id * c.VECLEN + c.VECLEN)) :
    ∃ last, c.program.system.Leads (c.spread points sum) last ∧ c.program.Complete last ∧
      last.shared = sum := by
  have exits := spread_each (List.range c.NUMTHRDS) List.nodup_range
    (fun id => .loop id (id * c.VECLEN + c.VECLEN)) .exit (fun _ => 0)
    (fun id member points sum => by
      have moves := spread_exit free (List.mem_range.mp member) points sum
      rwa [Int.add_zero])
    points sum fun id member => ends id (List.mem_range.mp member)
  rw [List.sum_map_zero, Int.add_zero] at exits
  refine ⟨_, exits.trans (leads_joined ?_ ?_ (Nat.zero_le _)), rfl, rfl⟩
  · simp [Params.spread]
  · intro id joins
    have inside : id < c.NUMTHRDS := List.mem_range.mp joins
    refine ⟨⟨.ready, .exit id⟩, ?_, rfl, trivial⟩
    simp [Params.spread, inside]

/-! ## Every sum in between -/

/-- A number can be shared out when there is room for it. -/
theorem exists_share (ids : List Nat) (distinct : ids.Nodup) (room : Nat → Nat) (number : Nat)
    (most : number ≤ (ids.map room).sum) :
    ∃ share : Nat → Nat, (∀ id ∈ ids, share id ≤ room id) ∧ (ids.map share).sum = number := by
  induction ids generalizing number with
  | nil => exact ⟨fun _ => 0, nofun, (Nat.le_zero.mp most).symm⟩
  | cons id rest ih =>
      obtain ⟨fresh, distinct⟩ := List.nodup_cons.mp distinct
      rw [List.map_cons, List.sum_cons] at most
      obtain ⟨share, within, total⟩ := ih distinct (number - min number (room id)) (by omega)
      have same : rest.map (Function.update share id (min number (room id))) =
          rest.map share := by
        apply List.map_congr_left
        intro k member
        rw [Function.update_of_ne]
        rintro rfl
        exact fresh member
      refine ⟨Function.update share id (min number (room id)), ?_, ?_⟩
      · intro k member
        by_cases own : k = id
        · subst own
          rw [Function.update_self]
          exact Nat.min_le_right _ _
        · rw [Function.update_of_ne own]
          exact within k ((List.mem_cons.mp member).resolve_left own)
      · rw [List.map_cons, List.sum_cons, Function.update_self, same, total]
        omega

/-- All threads but the first. -/
def Params.others (c : Params) : List Nat :=
  List.range' 1 (c.NUMTHRDS - 1)

theorem mem_others : id ∈ c.others ↔ 1 ≤ id ∧ id < c.NUMTHRDS := by
  rw [Params.others, List.mem_range'_1]
  omega

/-- The elements that the others can add when the second thread keeps one. -/
def Params.room (c : Params) (id : Nat) : Nat :=
  if id = 1 then c.VECLEN - 1 else c.VECLEN

theorem sum_room (threads : 2 ≤ c.NUMTHRDS) (length : 1 ≤ c.VECLEN) :
    (c.others.map c.room).sum + 1 = (c.NUMTHRDS - 1) * c.VECLEN := by
  obtain ⟨more, equal⟩ := Nat.exists_eq_add_of_le threads
  have rest : (List.range' 2 more).map c.room = (List.range' 2 more).map fun _ => c.VECLEN := by
    apply List.map_congr_left
    intro id member
    have beyond := (List.mem_range'_1.mp member).1
    rw [Params.room, if_neg (by omega)]
  have split : c.NUMTHRDS - 1 = more + 1 := by omega
  rw [Params.others, split, List.range'_succ, List.map_cons, rest, List.map_const',
    List.sum_cons, List.sum_replicate_nat, List.length_range', Params.room, if_pos rfl,
    Nat.succ_mul]
  omega

theorem sum_growth (ids : List Nat) {share more : Nat → Nat}
    (grows : ∀ id ∈ ids, share id ≤ more id) :
    (ids.map fun id => ((more id - share id : Nat) : Int)).sum =
      ((ids.map more).sum : Int) - (ids.map share).sum := by
  induction ids with
  | nil => rfl
  | cons id rest ih =>
      have up := grows id List.mem_cons_self
      rw [List.map_cons, List.sum_cons, ih fun k member => grows k (List.mem_cons_of_mem id member),
        List.map_cons, List.map_cons, List.sum_cons, List.sum_cons]
      omega

/-- The others go on from one share of their elements to another. -/
theorem others_add (free : c.mutex = false) (ones : ∀ i, c.term i = 1)
    (share more : Nat → Nat) (points : Nat → Point) (sum : Int)
    (grows : ∀ id ∈ c.others, share id ≤ more id ∧ more id ≤ c.VECLEN)
    (starts : ∀ id ∈ c.others, points id = .loop id (id * c.VECLEN + share id)) :
    ∃ after : Nat → Point,
      c.program.system.Leads (c.spread points sum)
        (c.spread after (sum + ((c.others.map more).sum - (c.others.map share).sum))) ∧
      (∀ id ∈ c.others, after id = .loop id (id * c.VECLEN + more id)) ∧
      after 0 = points 0 := by
  have moves : ∀ id ∈ c.others, ∀ (points : Nat → Point) (sum : Int),
      c.program.system.Leads
        (c.spread (Function.update points id (.loop id (id * c.VECLEN + share id))) sum)
        (c.spread (Function.update points id (.loop id (id * c.VECLEN + more id)))
          (sum + (more id - share id : Nat))) := by
    intro id member points sum
    obtain ⟨up, within⟩ := grows id member
    have adds := spread_adds free ones (mem_others.mp member).2 points
      (id * c.VECLEN + share id) sum (more id - share id) (by omega)
    rwa [Nat.add_assoc, Nat.add_sub_of_le up] at adds
  have each := spread_each c.others (List.nodup_range' 1) _ _ _ moves points sum starts
  rw [sum_growth c.others fun id member => (grows id member).1] at each
  refine ⟨_, each, fun id member => if_pos member, if_neg ?_⟩
  exact fun member => absurd (mem_others.mp member).1 (Nat.not_succ_le_zero 0)

/-- The first thread loads the sum and stores it only after others have added elements,
which are lost; the second thread has loaded the sum for its last element. -/
theorem leads_stale (free : c.mutex = false) (ones : ∀ i, c.term i = 1)
    (threads : 2 ≤ c.NUMTHRDS) (length : 1 ≤ c.VECLEN) (lost : Nat)
    (most : lost ≤ (c.others.map c.room).sum) :
    ∃ (points : Nat → Point) (sum : Int), sum + lost = 1 + (c.others.map c.room).sum ∧
      c.program.system.Leads c.program.initial (c.spread points sum) ∧
      points 0 = .loop 0 (0 * c.VECLEN + 1) ∧
      points 1 = .store 1 (1 * c.VECLEN + (c.VECLEN - 1)) sum ∧
      ∀ id, 2 ≤ id → id < c.NUMTHRDS → points id = .loop id (id * c.VECLEN + c.VECLEN) := by
  have distinct : c.others.Nodup := List.nodup_range' 1
  obtain ⟨share, within, total⟩ := exists_share c.others distinct c.room lost most
  have rooms : ∀ id, c.room id ≤ c.VECLEN := by
    intro id
    unfold Params.room
    split
    · exact Nat.sub_le _ _
    · exact Nat.le_refl _
  have first : 0 < c.NUMTHRDS := Nat.zero_lt_of_lt threads
  have second : 1 ∈ c.others := mem_others.mpr ⟨Nat.le_refl 1, threads⟩
  have later : ∀ id ∈ c.others, id ≠ 0 := fun id member =>
    Nat.one_le_iff_ne_zero.mp (mem_others.mp member).1
  have begun := leads_begun c.program
  rw [begun_spread] at begun
  have start : 0 * c.VECLEN < 0 * c.VECLEN + c.VECLEN := by omega
  obtain ⟨stale, load, holds, same⟩ := exists_next rfl
    (spread_load free first (fun id => .loop id (id * c.VECLEN)) start 0)
  obtain ⟨early, adds, added, keeps⟩ := others_add free ones (fun _ => 0) share stale 0
    (fun id member => ⟨Nat.zero_le _, (within id member).trans (rooms id)⟩)
    (fun id member => same id (later id member))
  -- what the others have added is lost
  obtain ⟨gone, store, stored, unmoved⟩ := exists_next (keeps.trans holds)
    (spread_store free first early (0 * c.VECLEN) 0 _)
  rw [ones] at store
  obtain ⟨late, more, full, still⟩ := others_add free ones share c.room gone (0 + 1)
    (fun id member => ⟨within id member, rooms id⟩)
    (fun id member => (unmoved id (later id member)).trans (added id member))
  have last : 1 * c.VECLEN + c.room 1 < 1 * c.VECLEN + c.VECLEN := by
    rw [Params.room, if_pos rfl]
    omega
  obtain ⟨after, again, loaded, others⟩ := exists_next (full 1 second)
    (spread_load free threads late last _)
  have leads := ((((begun.trans load).trans adds).trans store).trans more).trans again
  refine ⟨after, _, ?_, leads, ?_, ?_, ?_⟩
  · rw [total]
    omega
  · exact (others 0 Nat.zero_ne_one).trans (still.trans stored)
  · rw [loaded, Params.room, if_pos rfl]
  · intro id beyond inside
    have other : id ≠ 1 := by omega
    rw [others id other, full id (mem_others.mpr ⟨by omega, inside⟩), Params.room, if_neg other]

/-- The second thread stores its last sum only after the first has added elements, which are
lost as well. -/
theorem stale_ends (free : c.mutex = false) (ones : ∀ i, c.term i = 1)
    (threads : 2 ≤ c.NUMTHRDS) (lost kept : Nat) (length : lost + kept + 1 = c.VECLEN)
    {points : Nat → Point} {sum : Int} (first : points 0 = .loop 0 (0 * c.VECLEN + 1))
    (second : points 1 = .store 1 (1 * c.VECLEN + (c.VECLEN - 1)) sum)
    (others : ∀ id, 2 ≤ id → id < c.NUMTHRDS →
      points id = .loop id (id * c.VECLEN + c.VECLEN)) :
    ∃ last, c.program.system.Leads (c.spread points sum) last ∧ c.program.Complete last ∧
      last.shared = sum + 1 + kept := by
  have zero : 0 < c.NUMTHRDS := Nat.zero_lt_of_lt threads
  obtain ⟨early, adds, added, same⟩ := exists_next first
    (spread_adds free ones zero points (0 * c.VECLEN + 1) sum lost (by omega))
  obtain ⟨stored, store, full, still⟩ := exists_next ((same 1 Nat.one_ne_zero).trans second)
    (spread_store free threads early (1 * c.VECLEN + (c.VECLEN - 1)) sum _)
  rw [ones] at store
  obtain ⟨final, rest, all, stays⟩ := exists_next ((still 0 Nat.zero_ne_one).trans added)
    (spread_adds free ones zero stored (0 * c.VECLEN + 1 + lost) (sum + 1) kept (by omega))
  have ends : ∀ id < c.NUMTHRDS, final id = .loop id (id * c.VECLEN + c.VECLEN) := by
    intro id inside
    match id with
    | 0 =>
        rw [all]
        congr 1
        omega
    | 1 =>
        rw [stays 1 Nat.one_ne_zero, full]
        congr 1
        omega
    | id + 2 =>
        rw [stays _ (by omega), still _ (by omega), same _ (by omega)]
        exact others _ (by omega) inside
  obtain ⟨last, leads, complete, equal⟩ := spread_complete free ends
  exact ⟨last, ((adds.trans store).trans rest).trans leads, complete, equal⟩

/-- What `main` can print. -/
def Params.finals (c : Params) : Set Int :=
  { sum | ∃ last, c.program.system.Reachable last ∧ c.program.Complete last ∧
    last.shared = sum }

theorem finals_eq (free : c.mutex = false) (ones : ∀ i, c.term i = 1)
    (threads : 2 ≤ c.NUMTHRDS) (length : 2 ≤ c.VECLEN) :
    c.finals = Set.Icc 2 ((c.NUMTHRDS * c.VECLEN : Nat) : Int) := by
  apply Set.Subset.antisymm
  · rintro sum ⟨last, reachable, complete, rfl⟩
    exact complete_sum_bounds ones (Nat.zero_lt_of_lt threads) length reachable complete
  · rintro sum ⟨least, most⟩
    have all : c.NUMTHRDS * c.VECLEN = (c.NUMTHRDS - 1) * c.VECLEN + c.VECLEN := by
      rw [← Nat.succ_mul]
      congr 1
      omega
    have room := sum_room threads (Nat.one_le_of_lt length)
    -- so many additions are lost, first those of the others, then those of the first thread
    obtain ⟨lost, equal⟩ : ∃ lost : Nat, sum + lost = (c.NUMTHRDS * c.VECLEN : Nat) :=
      ⟨((c.NUMTHRDS * c.VECLEN : Nat) - sum).toNat, by omega⟩
    obtain ⟨points, value, stale, leads, first, second, others⟩ :=
      leads_stale free ones threads (Nat.one_le_of_lt length)
        (min lost (c.others.map c.room).sum) (Nat.min_le_right _ _)
    obtain ⟨last, more, complete, shared⟩ := stale_ends free ones threads
      (lost - min lost (c.others.map c.room).sum)
      (c.VECLEN - 1 - (lost - min lost (c.others.map c.room).sum)) (by omega) first second others
    exact ⟨last, leads.trans more, complete, shared.trans (by omega)⟩

/-- The program can print any number but zero and one, up to the correct sum. -/
theorem bug6_finals {NUMTHRDS VECLEN : Nat} (threads : 2 ≤ NUMTHRDS) (length : 2 ≤ VECLEN)
    (size : ((NUMTHRDS * VECLEN : Nat) : Int) ≤ INT_MAX) :
    (∀ s, (bug6 NUMTHRDS VECLEN).program.system.Reachable s →
        (bug6 NUMTHRDS VECLEN).Defined s) ∧
      (bug6 NUMTHRDS VECLEN).finals = Set.Icc 2 ((NUMTHRDS * VECLEN : Nat) : Int) := by
  have few : (NUMTHRDS : Int) ≤ INT_MAX :=
    (Int.ofNat_le.mpr (Nat.le_mul_of_pos_right NUMTHRDS (by omega))).trans size
  exact ⟨fun s reachable => (fits_ones false few size).defined reachable,
    finals_eq rfl (fun _ => rfl) threads length⟩

theorem bug6_finals_constants : (bug6 8 100000).finals = Set.Icc 2 800000 :=
  (bug6_finals (by decide) (by decide) (by decide)).2

end ApLabs.Threads.SharedSum
