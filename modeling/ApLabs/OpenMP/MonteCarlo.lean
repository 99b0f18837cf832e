import ApLabs.Foundation.Cells
import ApLabs.OpenMP.Random

/-!
# Pi by random darts

The program of `pi_mc.c`.  A trial takes two random numbers, and the number of residues is
odd: after as many trials as there are residues the darts repeat themselves, and up to
then every residue was the start of one trial.
-/

namespace ApLabs.OpenMP.MonteCarlo

open ApLabs.Foundation.CMemory ApLabs.Foundation.Cells ApLabs.Foundation.Congruential
open ApLabs.OpenMP.Random
open Finset (range sum_range_succ)

section Generator

variable {D : Type} [IntCast D] [Neg D] [LT D] [DecidableLT D]

/-- The radius of the circle. -/
def r : D := ((1 : Int) : D)

/-- The generator at the start of a trial. -/
def begun (residue : Nat) : State D :=
  { (seed (-r) r : State D) with random_last := residue }

theorem seed_begun : (seed (-r) r : State D) = begun 4 := by
  unfold begun seed
  split <;> rfl

variable [Add D] [Sub D] [Mul D] [Div D]

theorem random_begun {residue : Nat} (inside : residue < generator.modulus) :
    random (begun residue : State D) = .ok
      (shifted (seed (-r) r : State D).random_low (seed (-r) r : State D).random_hi
        (generator.step residue), begun (generator.step residue)) :=
  random_eq rfl inside

/-- The sum of the squares of two numbers drawn from a residue on. -/
def test (residue : Nat) : D :=
  let low := (seed (-r) r : State D).random_low
  let hi := (seed (-r) r : State D).random_hi
  let x := shifted low hi (generator.step residue)
  let y := shifted low hi (generator.step (generator.step residue))
  x * x + y * y

end Generator

variable {D : Type} [IntCast D] [Add D] [Sub D] [Mul D] [Div D] [Neg D] [LT D] [DecidableLT D]
  [LE D] [DecidableLE D]

/-! ## The program -/

def trial (state : Int × State D) : Checked (Int × State D) := do
  let (Ncirc, last) := state
  let (x, last) ← random last
  let (y, last) ← random last
  let test := x * x + y * y
  if test ≤ r * r then
    let Ncirc ← long (Ncirc + 1)
    pure (Ncirc, last)
  else
    pure (Ncirc, last)

def trials (num_trials : Nat) : Checked (Int × State D) :=
  forLoop 0 num_trials (fun _ => trial) (0, seed (-r) r)

def main (num_trials : Nat) : Checked D := do
  let (Ncirc, _) ← (trials num_trials : Checked (Int × State D))
  pure (((4 : Int) : D) * ((Ncirc : D) / ((num_trials : Int) : D)))

/-! ## Darts -/

/-- Whether the dart of a trial that starts at a residue counts. -/
def hit (D : Type) [IntCast D] [Add D] [Sub D] [Mul D] [Div D] [Neg D] [LT D] [DecidableLT D]
    [LE D] [DecidableLE D] (residue : Nat) : Nat :=
  if (test residue : D) ≤ r * r then 1 else 0

theorem hit_le (residue : Nat) : hit D residue ≤ 1 := by
  unfold hit
  split <;> omega

theorem trial_eq {Ncirc residue : Nat} (inside : residue < generator.modulus)
    (small : ((Ncirc + 1 : Nat) : Int) ≤ LONG_MAX) :
    trial ((Ncirc : Int), (begun residue : State D)) =
      .ok (((Ncirc + hit D residue : Nat) : Int),
        begun (generator.step (generator.step residue))) := by
  have more : long ((Ncirc : Int) + 1) = .ok ((Ncirc + 1 : Nat) : Int) :=
    long_of_nat (Ncirc + 1) small
  unfold trial hit
  dsimp only
  rw [random_begun inside, ok_bind, random_begun (step_lt generator_full residue), ok_bind, more]
  change (if (test residue : D) ≤ r * r then _ else _) = _
  split <;> rfl

/-- The number of trials among the first ones that count. -/
def hits (D : Type) [IntCast D] [Add D] [Sub D] [Mul D] [Div D] [Neg D] [LT D] [DecidableLT D]
    [LE D] [DecidableLE D] (num_trials : Nat) : Nat :=
  ∑ i ∈ range num_trials, hit D (generator.step^[2 * i] 4)

theorem hits_le (num_trials : Nat) : hits D num_trials ≤ num_trials := by
  calc hits D num_trials ≤ ∑ _ ∈ range num_trials, 1 :=
        Finset.sum_le_sum fun i _ => hit_le _
    _ = num_trials := by simp

theorem trials_eq (num_trials : Nat) (small : (num_trials : Int) ≤ LONG_MAX) :
    ∃ next : State D, trials num_trials = .ok ((hits D num_trials : Int), next) := by
  obtain ⟨⟨Ncirc, next⟩, ended, total, -⟩ := forLoop_rule (fun _ => trial) num_trials
    ((0 : Int), (begun 4 : State D))
    (fun done state => state.1 = (hits D done : Nat) ∧
      state.2 = begun (generator.step^[2 * done] 4))
    ⟨rfl, rfl⟩ (by
      rintro done ⟨_, _⟩ before ⟨rfl, rfl⟩
      have bound := hits_le (D := D) done
      refine ⟨_, trial_eq (iterate_lt generator_full start_inside (2 * done)) (by omega), ?_, ?_⟩
      · rw [hits, hits, sum_range_succ]
      · rw [Nat.mul_succ, Function.iterate_succ_apply', Function.iterate_succ_apply'])
  exact ⟨next, by rw [trials, seed_begun, ended, ← total]⟩

/-! ## The period -/

/-- The number of residues whose dart is in the circle. -/
def circle (D : Type) [IntCast D] [Add D] [Sub D] [Mul D] [Div D] [Neg D] [LT D] [DecidableLT D]
    [LE D] [DecidableLE D] : Nat :=
  ∑ residue ∈ range PMOD.toNat, hit D residue

theorem hit_periodic :
    Function.Periodic (fun i => hit D (generator.step^[2 * i] 4)) generator.modulus := by
  intro i
  dsimp only
  rw [(iterate_eq_iff_modEq generator_full start_inside).mpr]
  rw [Nat.mul_add, Nat.ModEq, Nat.add_mod, Nat.mul_mod_left, Nat.add_zero, Nat.mod_mod]

theorem hits_eq (num_trials : Nat) :
    hits D num_trials =
      num_trials / PMOD.toNat * circle D + hits D (num_trials % PMOD.toNat) := by
  have coprime : Nat.Coprime 2 generator.modulus := by decide
  have walk := sum_walk generator_full start_inside coprime (hit D)
  have periods := sum_periodic (hit_periodic (D := D)) num_trials
  rw [walk, smul_eq_mul] at periods
  exact periods

/-- Every period of trials counts the same darts, those of all residues, so that more
trials than there are residues throw no new darts. -/
theorem main_eq (num_trials : Nat) (small : (num_trials : Int) ≤ LONG_MAX) :
    main num_trials = .ok (((4 : Int) : D) *
      (((num_trials / PMOD.toNat * circle D + hits D (num_trials % PMOD.toNat) : Nat) : Int) /
        ((num_trials : Int) : D))) := by
  obtain ⟨next, thrown⟩ := trials_eq (D := D) num_trials small
  rw [main, thrown, ok_bind, hits_eq]
  rfl

theorem main_million :
    main 1000000 = .ok (((4 : Int) : ℚ) *
      (((1000000 / PMOD.toNat * circle ℚ + hits ℚ (1000000 % PMOD.toNat) : Nat) : Int) /
        (((1000000 : Nat) : Int) : ℚ))) :=
  main_eq 1000000 (by decide)

end ApLabs.OpenMP.MonteCarlo
