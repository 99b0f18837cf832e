import Mathlib.Algebra.Group.Basic
import Mathlib.Data.List.Basic

/-!
# Pools of processes

A pool lists the local states of processes that are spawned and never removed.  A
step replaces one local state, so a count over the pool changes by what the replaced
state contributed.
-/

namespace ApLabs.Foundation.Pool

variable {α : Type*} {pool : List α} {i : Nat} {before after : α}

theorem mem (here : pool[i]? = some before) : before ∈ pool :=
  List.mem_of_getElem? here

theorem within (here : pool[i]? = some before) : i < pool.length :=
  (List.getElem?_eq_some_iff.mp here).1

/-- A position of the pool after a step holds the new local state or what it held. -/
theorem get_set (here : pool[i]? = some before) {j : Nat} {process : α}
    (there : (pool.set i after)[j]? = some process) :
    j = i ∧ process = after ∨ j ≠ i ∧ pool[j]? = some process := by
  by_cases same : j = i
  · subst same
    rw [List.getElem?_set_self (within here)] at there
    exact Or.inl ⟨rfl, (Option.some.inj there).symm⟩
  · rw [List.getElem?_set_ne (Ne.symm same)] at there
    exact Or.inr ⟨same, there⟩

/-- A member of the pool after a step is the new local state or an old one. -/
theorem forall_set {holds : α → Prop} (all : ∀ process ∈ pool, holds process)
    (new : holds after) : ∀ process ∈ pool.set i after, holds process := by
  intro process member
  rcases List.mem_or_eq_of_mem_set member with old | rfl
  · exact all process old
  · exact new

theorem forall_concat {holds : α → Prop} (all : ∀ process ∈ pool, holds process)
    (new : holds after) : ∀ process ∈ pool ++ [after], holds process := by
  intro process member
  rcases List.mem_append.mp member with old | last
  · exact all process old
  · rw [List.mem_singleton.mp last]
    exact new

/-- What a step keeps of a local state it keeps of the whole pool. -/
theorem map_set {β : Type*} (f : α → β) (here : pool[i]? = some before)
    (kept : f after = f before) : (pool.set i after).map f = pool.map f := by
  obtain ⟨within, value⟩ := List.getElem?_eq_some_iff.mp here
  rw [List.map_set, kept, ← value]
  apply List.ext_getElem
  · simp
  · intro j left right
    by_cases same : i = j <;> simp [same]

/-- A sum over the pool changes by what the replaced state contributed. -/
theorem sum_set {M : Type*} [AddCommMonoid M] (f : α → M) (here : pool[i]? = some before)
    (after : α) : ((pool.set i after).map f).sum + f before = (pool.map f).sum + f after := by
  induction pool generalizing i with
  | nil => cases here
  | cons first rest ih =>
      cases i with
      | zero =>
          obtain rfl := Option.some.inj here
          rw [List.set_cons_zero, List.map_cons, List.map_cons, List.sum_cons, List.sum_cons,
            add_right_comm, add_comm (f after), add_right_comm]
      | succ i =>
          rw [List.set_cons_succ, List.map_cons, List.map_cons, List.sum_cons, List.sum_cons,
            add_assoc, ih here, add_assoc]

/-! ## Counting -/

variable (counted : α → Bool)

theorem countP_set (here : pool[i]? = some before) (after : α) :
    (pool.set i after).countP counted + (if counted before then 1 else 0) =
      pool.countP counted + if counted after then 1 else 0 := by
  obtain ⟨within, value⟩ := List.getElem?_eq_some_iff.mp here
  have present : counted before = true → 0 < pool.countP counted := fun one =>
    List.countP_pos_iff.mpr ⟨before, mem here, one⟩
  rw [List.countP_set within, value]
  by_cases one : counted before = true
  · have positive := present one
    simp only [one, if_true]
    omega
  · simp [one]

theorem countP_same (here : pool[i]? = some before) (same : counted after = counted before) :
    (pool.set i after).countP counted = pool.countP counted := by
  have moved := countP_set counted here after
  rw [same] at moved
  exact Nat.add_right_cancel moved

theorem countP_enter (here : pool[i]? = some before) (out : counted before = false)
    (inside : counted after = true) :
    (pool.set i after).countP counted = pool.countP counted + 1 := by
  have moved := countP_set counted here after
  simpa [out, inside] using moved

theorem countP_exit (here : pool[i]? = some before) (inside : counted before = true)
    (out : counted after = false) :
    (pool.set i after).countP counted + 1 = pool.countP counted := by
  have moved := countP_set counted here after
  simpa [out, inside] using moved

theorem countP_spawn (new : α) :
    (pool ++ [new]).countP counted = pool.countP counted + if counted new then 1 else 0 := by
  rw [List.countP_append, List.countP_singleton]

/-- A positive count names a process. -/
theorem exists_counted (positive : 0 < pool.countP counted) :
    ∃ (j : Nat) (process : α), pool[j]? = some process ∧ counted process = true := by
  obtain ⟨process, member, one⟩ := List.countP_pos_iff.mp positive
  obtain ⟨j, here⟩ := List.mem_iff_getElem?.mp member
  exact ⟨j, process, here, one⟩

end ApLabs.Foundation.Pool
