import Mathlib.Algebra.BigOperators.Intervals
import Mathlib.Algebra.Order.Ring.Abs
import Mathlib.Algebra.Ring.Periodic
import Mathlib.Data.List.Iterate
import Mathlib.NumberTheory.Multiplicity

/-!
# Congruential generators

A linear congruential generator with an odd modulus goes through all residues before it
repeats itself when the addend is prime to the modulus and every prime factor of the
modulus divides the multiplier less one.  A walk through the sequence in steps of a fixed
length, prime to the modulus, then visits every residue once in each period as well.
-/

namespace ApLabs.Foundation.Congruential

open Finset

/-- The multiplier is `growth + 1`. -/
structure Generator where
  growth : Nat
  addend : Nat
  modulus : Nat

variable (g : Generator)

namespace Generator

def step (x : Nat) : Nat := ((g.growth + 1) * x + g.addend) % g.modulus

/-- The sum of the powers of the multiplier below an exponent. -/
def series (n : Nat) : Nat := ∑ i ∈ range n, (g.growth + 1) ^ i

structure Full : Prop where
  positive : 0 < g.modulus
  odd : Odd g.modulus
  grows : 0 < g.growth
  coprime : Nat.Coprime g.addend g.modulus
  primes : ∀ p : Nat, p.Prime → p ∣ g.modulus → p ∣ g.growth

end Generator

variable {g} {n x : Nat}

theorem step_lt (full : g.Full) (x : Nat) : g.step x < g.modulus :=
  Nat.mod_lt _ full.positive

theorem iterate_lt (full : g.Full) (inside : x < g.modulus) (n : Nat) :
    g.step^[n] x < g.modulus := by
  cases n with
  | zero => exact inside
  | succ n =>
      rw [Function.iterate_succ_apply']
      exact step_lt full _

/-! ## The iterates -/

theorem pow_eq (g : Generator) (n : Nat) :
    (g.growth + 1) ^ n = g.series n * g.growth + 1 :=
  (geom_sum_mul_add g.growth n).symm

theorem series_succ (g : Generator) (n : Nat) :
    g.series (n + 1) = (g.growth + 1) * g.series n + 1 := by
  rw [Generator.series, sum_range_succ', pow_zero, Generator.series, mul_sum]
  simp only [pow_succ']

/-- What `n` steps add to the state. -/
theorem iterate_modEq (g : Generator) (n x : Nat) :
    g.step^[n] x ≡ x + g.series n * (g.growth * x + g.addend) [MOD g.modulus] := by
  induction n with
  | zero => simp [Generator.series, Nat.ModEq.refl]
  | succ n ih =>
      have next : g.step (g.step^[n] x) ≡ (g.growth + 1) *
          (x + g.series n * (g.growth * x + g.addend)) + g.addend [MOD g.modulus] :=
        (Nat.mod_modEq _ _).trans ((ih.mul_left _).add_right _)
      rw [Function.iterate_succ_apply', series_succ]
      convert next using 1
      ring

/-- The factor of the series is prime to the modulus. -/
theorem factor_coprime (full : g.Full) (x : Nat) :
    Nat.Coprime g.modulus (g.growth * x + g.addend) := by
  apply Nat.coprime_of_dvd
  intro p prime divides factor
  have growth : p ∣ g.growth * x := (full.primes p prime divides).mul_right x
  have addend : p ∣ g.addend := (Nat.dvd_add_right growth).mp factor
  exact prime.one_lt.ne' (Nat.eq_one_of_dvd_coprimes full.coprime addend divides)

/-- A prime factor of the modulus divides the series as often as it divides the number of
its terms. -/
theorem emultiplicity_series (full : g.Full) {p : Nat} (prime : p.Prime)
    (divides : p ∣ g.modulus) (n : Nat) : emultiplicity p (g.series n) = emultiplicity p n := by
  have odd : Odd p := full.odd.of_dvd_nat divides
  have growth := full.primes p prime divides
  have other : ¬ p ∣ g.growth + 1 := fun both =>
    prime.one_lt.ne' (Nat.dvd_one.mp ((Nat.dvd_add_right growth).mp both))
  have lifted := Nat.emultiplicity_pow_sub_pow prime odd (x := g.growth + 1) (y := 1)
    (by simpa using growth) other n
  rw [one_pow, pow_eq, Nat.add_sub_cancel, Nat.add_sub_cancel,
    emultiplicity_mul prime.prime, add_comm] at lifted
  have finite : emultiplicity p g.growth ≠ ⊤ :=
    finiteMultiplicity_iff_emultiplicity_ne_top.mp
      (Nat.finiteMultiplicity_iff.mpr ⟨prime.one_lt.ne', full.grows⟩)
  exact (WithTop.add_left_inj finite).mp lifted

theorem dvd_series_iff (full : g.Full) : g.modulus ∣ g.series n ↔ g.modulus ∣ n := by
  rw [Nat.dvd_iff_prime_pow_dvd_dvd, Nat.dvd_iff_prime_pow_dvd_dvd]
  have same : ∀ p k : Nat, p.Prime → p ^ k ∣ g.modulus →
      (p ^ k ∣ g.series n ↔ p ^ k ∣ n) := by
    intro p k prime power
    cases k with
    | zero => simp
    | succ k =>
        have divides : p ∣ g.modulus := (dvd_pow_self p k.succ_ne_zero).trans power
        rw [pow_dvd_iff_le_emultiplicity, pow_dvd_iff_le_emultiplicity,
          emultiplicity_series full prime divides]
  constructor
  · exact fun all p k prime power => (same p k prime power).mp (all p k prime power)
  · exact fun all p k prime power => (same p k prime power).mpr (all p k prime power)

/-! ## The period -/

theorem iterate_eq_iff (full : g.Full) (inside : x < g.modulus) :
    g.step^[n] x = x ↔ g.modulus ∣ n := by
  have congruent := iterate_modEq g n x
  calc g.step^[n] x = x ↔ g.step^[n] x ≡ x [MOD g.modulus] :=
        ⟨fun same => by rw [same], fun same => same.eq_of_lt_of_lt (iterate_lt full inside n) inside⟩
    _ ↔ x ≡ x + g.series n * (g.growth * x + g.addend) [MOD g.modulus] :=
        ⟨fun same => same.symm.trans congruent, fun same => congruent.trans same.symm⟩
    _ ↔ g.modulus ∣ g.series n * (g.growth * x + g.addend) := by
        rw [Nat.modEq_iff_dvd' (Nat.le_add_right _ _), Nat.add_sub_cancel_left]
    _ ↔ g.modulus ∣ g.series n := (factor_coprime full x).dvd_mul_right
    _ ↔ g.modulus ∣ n := dvd_series_iff full

theorem iterate_eq_iff_modEq (full : g.Full) (inside : x < g.modulus) {i j : Nat} :
    g.step^[i] x = g.step^[j] x ↔ i ≡ j [MOD g.modulus] := by
  have ordered : ∀ {i j : Nat}, i ≤ j →
      (g.step^[i] x = g.step^[j] x ↔ i ≡ j [MOD g.modulus]) := by
    intro i j before
    obtain ⟨more, rfl⟩ := Nat.exists_eq_add_of_le' before
    rw [Function.iterate_add_apply, eq_comm, iterate_eq_iff full (iterate_lt full inside i),
      Nat.modEq_iff_dvd' before, Nat.add_sub_cancel]
  rcases Nat.le_total i j with before | after
  · exact ordered before
  · rw [eq_comm, ordered after]
    exact Nat.ModEq.comm

/-- At most as many consecutive states as there are residues are different. -/
theorem iterate_nodup (full : g.Full) (inside : x < g.modulus) (few : n ≤ g.modulus) :
    (List.iterate g.step x n).Nodup := by
  rw [← List.range_map_iterate]
  apply List.Nodup.map_on _ List.nodup_range
  intro i first j second same
  exact ((iterate_eq_iff_modEq full inside).mp same).eq_of_lt_of_lt
    ((List.mem_range.mp first).trans_le few) ((List.mem_range.mp second).trans_le few)

theorem iterate_perm (full : g.Full) (inside : x < g.modulus) :
    (List.iterate g.step x g.modulus).Perm (List.range g.modulus) := by
  apply List.Subperm.perm_of_length_le
  · apply List.subperm_of_subset (iterate_nodup full inside (Nat.le_refl _))
    intro r member
    obtain ⟨i, -, rfl⟩ := List.mem_iterate.mp member
    exact List.mem_range.mpr (iterate_lt full inside i)
  · rw [List.length_iterate, List.length_range]

theorem window_perm (full : g.Full) (inside : x < g.modulus) {start count : Nat}
    (room : start + g.modulus ≤ count) :
    (((List.iterate g.step x count).drop start).take g.modulus).Perm (List.range g.modulus) := by
  obtain ⟨more, rfl⟩ := Nat.exists_eq_add_of_le room
  rw [Nat.add_assoc, List.iterate_add, List.drop_left' (List.length_iterate ..),
    List.take_iterate, Nat.min_eq_left (Nat.le_add_right _ _)]
  exact iterate_perm full (iterate_lt full inside start)

/-- A walk in steps of a fixed length visits every residue once. -/
theorem sum_walk {M : Type*} [AddCommMonoid M] (full : g.Full) (inside : x < g.modulus)
    {stride : Nat} (coprime : Nat.Coprime stride g.modulus) (f : Nat → M) :
    ∑ i ∈ range g.modulus, f (g.step^[stride * i] x) = ∑ r ∈ range g.modulus, f r := by
  have injective : Set.InjOn (fun i => g.step^[stride * i] x) (range g.modulus) := by
    intro i first j second same
    have congruent := (iterate_eq_iff_modEq full inside).mp same
    exact (congruent.cancel_left_of_coprime coprime.symm).eq_of_lt_of_lt (mem_range.mp first)
      (mem_range.mp second)
  have image : (range g.modulus).image (fun i => g.step^[stride * i] x) = range g.modulus := by
    apply eq_of_subset_of_card_le
    · intro r member
      obtain ⟨i, -, rfl⟩ := mem_image.mp member
      exact mem_range.mpr (iterate_lt full inside _)
    · rw [card_image_of_injOn injective]
  rw [← sum_image injective, image]

/-- A sum over a sequence with a period consists of whole periods and a rest. -/
theorem sum_periodic {M : Type*} [AddCommMonoid M] {f : Nat → M} {period : Nat}
    (periodic : Function.Periodic f period) (n : Nat) :
    ∑ i ∈ range n, f i =
      (n / period) • ∑ i ∈ range period, f i + ∑ i ∈ range (n % period), f i := by
  have blocks : ∀ count rest : Nat, ∑ i ∈ range (period * count + rest), f i =
      count • ∑ i ∈ range period, f i + ∑ i ∈ range rest, f i := by
    intro count rest
    induction count with
    | zero => simp
    | succ count ih =>
        have first : period * (count + 1) + rest = period + (period * count + rest) := by ring
        have later : ∀ i, f (period + i) = f i := fun i => by rw [add_comm]; exact periodic i
        rw [first, sum_range_add]
        simp only [later]
        rw [ih, succ_nsmul', add_assoc]
  calc ∑ i ∈ range n, f i = ∑ i ∈ range (period * (n / period) + n % period), f i := by
        rw [Nat.div_add_mod]
    _ = _ := blocks _ _

end ApLabs.Foundation.Congruential
