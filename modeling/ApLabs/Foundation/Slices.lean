import Mathlib.Algebra.BigOperators.Group.Finset.Sigma
import Mathlib.Algebra.BigOperators.Intervals
import Mathlib.Algebra.Order.BigOperators.Group.Finset

/-!
# Cyclic slices of a sum

The terms of a sum are dealt out to the workers in turn: each begins at its own number
and goes on by the number of workers.  Together they add every term exactly once.
-/

namespace ApLabs.Foundation.Slices

open Finset

variable {M : Type*} [AddCommMonoid M] (f : Nat → M)

/-- What a worker has added of the first `n` terms before it comes to an index. -/
def added (workers n id index : Nat) : M :=
  ∑ k ∈ range n with k % workers = id ∧ k < index, f k

/-- All that a worker adds of the first `n` terms. -/
def share (workers n id : Nat) : M :=
  ∑ k ∈ range n with k % workers = id, f k

variable {f} {workers n id index : Nat}

theorem added_start (workers n id : Nat) : added f workers n id id = 0 := by
  rw [added, filter_false_of_mem, sum_empty]
  rintro k - ⟨own, before⟩
  exact absurd (own ▸ Nat.mod_le k workers) (Nat.not_le_of_lt before)

/-- Of the indices up to a worker's next one, only its present one is its own. -/
theorem own_of_between {k : Nat} (own : k % workers = index % workers) (lower : index ≤ k)
    (upper : k < index + workers) : k = index := by
  have multiple : (k - index) % workers = 0 := Nat.sub_mod_eq_zero_of_mod_eq own
  rw [Nat.mod_eq_of_lt (by omega)] at multiple
  omega

theorem added_next (own : index % workers = id) (within : index < n) (some_worker : 0 < workers) :
    added f workers n id (index + workers) = added f workers n id index + f index := by
  have slice : (range n).filter (fun k => k % workers = id ∧ k < index + workers) =
      insert index ((range n).filter fun k => k % workers = id ∧ k < index) := by
    ext k
    simp only [mem_filter, mem_range, mem_insert]
    constructor
    · rintro ⟨inside, same, upper⟩
      rcases Nat.lt_or_ge k index with before | after
      · exact Or.inr ⟨inside, same, before⟩
      · exact Or.inl (own_of_between (same.trans own.symm) after upper)
    · rintro (rfl | ⟨inside, same, before⟩)
      · exact ⟨within, own, by omega⟩
      · exact ⟨inside, same, by omega⟩
  rw [added, slice, sum_insert (by simp), add_comm, added]

theorem added_all (past : n ≤ index) : added f workers n id index = share f workers n id := by
  rw [added, share]
  congr 1
  apply filter_congr
  intro k inside
  exact and_iff_left ((mem_range.mp inside).trans_le past)

/-- Together the workers add every term once. -/
theorem sum_share (some_worker : 0 < workers) :
    ∑ id ∈ range workers, share f workers n id = ∑ k ∈ range n, f k :=
  sum_fiberwise_of_maps_to (fun k _ => mem_range.mpr (Nat.mod_lt k some_worker)) f

/-! ## Blocks -/

/-- Blocks of one length that follow each other. -/
theorem sum_blocks (f : Nat → M) (workers length : Nat) :
    ∑ id ∈ range workers, ∑ k ∈ Ico (id * length) (id * length + length), f k =
      ∑ k ∈ range (workers * length), f k := by
  induction workers with
  | zero => simp
  | succ workers ih =>
      have more : workers * length ≤ workers * length + length := Nat.le_add_right _ _
      rw [sum_range_succ, ih, sum_range_add_sum_Ico f more, Nat.succ_mul]

/-- A block that begins at a fraction of `n`, rounded down. -/
def rounded (workers n id : Nat) : Finset Nat :=
  Ico (id * n / workers) (id * n / workers + n / workers)

theorem sum_rounded (f : Nat → M) (divides : workers ∣ n) :
    ∑ id ∈ range workers, ∑ k ∈ rounded workers n id, f k = ∑ k ∈ range n, f k := by
  obtain ⟨length, rfl⟩ := divides
  rw [← sum_blocks]
  apply sum_congr rfl
  intro id inside
  have positive : 0 < workers := (Nat.zero_le id).trans_lt (mem_range.mp inside)
  rw [rounded, Nat.mul_div_cancel_left length positive, Nat.mul_left_comm,
    Nat.mul_div_cancel_left _ positive]

theorem rounded_le_next (workers n id : Nat) :
    id * n / workers + n / workers ≤ (id + 1) * n / workers := by
  rw [Nat.succ_mul]
  exact Nat.div_add_div_le_add_div

theorem rounded_le (n : Nat) (inside : id < workers) :
    id * n / workers + n / workers ≤ n := by
  calc id * n / workers + n / workers ≤ (id + 1) * n / workers := rounded_le_next workers n id
    _ ≤ workers * n / workers := Nat.div_le_div_right (Nat.mul_le_mul_right n inside)
    _ = n := Nat.mul_div_cancel_left n ((Nat.zero_le id).trans_lt inside)

theorem rounded_disjoint (workers n : Nat) :
    Set.PairwiseDisjoint (range workers : Set Nat) (rounded workers n) := by
  have below : ∀ {id other : Nat}, id < other →
      Disjoint (rounded workers n id) (rounded workers n other) := by
    intro id other before
    have apart : id * n / workers + n / workers ≤ other * n / workers :=
      (rounded_le_next workers n id).trans (Nat.div_le_div_right (Nat.mul_le_mul_right n before))
    rw [disjoint_left]
    intro k first second
    have upper := (mem_Ico.mp first).2
    have lower := (mem_Ico.mp second).1
    omega
  intro id _ other _ different
  rcases Nat.lt_or_gt_of_ne different with before | after
  · exact below before
  · exact (below after).symm

/-- If the length is rounded, the last index is in no block. -/
theorem rounded_subset (rest : ¬ workers ∣ n) (inside : id < workers) :
    rounded workers n id ⊆ range (n - 1) := by
  have some_rest : 0 < n % workers :=
    Nat.pos_of_ne_zero fun none => rest (Nat.dvd_of_mod_eq_zero none)
  have begins := Nat.mul_div_le (id * n) workers
  have length := Nat.div_add_mod n workers
  have room : id * n + n ≤ workers * n := by
    rw [← Nat.succ_mul]
    exact Nat.mul_le_mul_right n inside
  have ends : workers * (id * n / workers + n / workers) < workers * n := by
    rw [Nat.mul_add]
    omega
  have less := Nat.lt_of_mul_lt_mul_left ends
  intro k member
  have upper := (mem_Ico.mp member).2
  rw [mem_range]
  omega

end ApLabs.Foundation.Slices
