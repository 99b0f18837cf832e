import ApLabs.Foundation.CMemory
import ApLabs.Foundation.Congruential

/-!
# Random numbers

The generator of `random.c`.  The arithmetic of `long` is checked; that of `double` is
left open, and no law of it is used.  The generator of `prod_cons.c` has the same three
constants, and both go through all residues before they repeat one.
-/

namespace ApLabs.OpenMP.Random

open ApLabs.Foundation.CMemory ApLabs.Foundation.Congruential

def MULTIPLIER : Int := 1366

def ADDEND : Int := 150889

def PMOD : Int := 714025

/-! ## The program -/

structure State (D : Type) where
  random_last : Int
  random_low : D
  random_hi : D
  deriving DecidableEq

def seed {D : Type} [LT D] [DecidableLT D] (low_in hi_in : D) : State D :=
  if low_in < hi_in then
    { random_last := PMOD.tdiv ADDEND, random_low := low_in, random_hi := hi_in }
  else
    { random_last := PMOD.tdiv ADDEND, random_low := hi_in, random_hi := low_in }

theorem seed_last {D : Type} [LT D] [DecidableLT D] (low_in hi_in : D) :
    (seed low_in hi_in).random_last = (4 : Nat) := by
  unfold seed
  split <;> rfl

section Program

variable {D : Type} [IntCast D] [Add D] [Sub D] [Mul D] [Div D]

def random (state : State D) : Checked (D × State D) := do
  let scaled ← long (MULTIPLIER * state.random_last)
  let sum ← long (scaled + ADDEND)
  let random_next := sum.tmod PMOD
  let ret_val := (random_next : D) / (PMOD : D) * (state.random_hi - state.random_low) +
    state.random_low
  pure (ret_val, { state with random_last := random_next })

/-- What a number of calls return. -/
def calls : Nat → State D → Checked (List D × State D)
  | 0, state => .ok ([], state)
  | count + 1, state => do
      let (value, state) ← random state
      let (values, state) ← calls count state
      pure (value :: values, state)

end Program

/-! ## The sequence of residues -/

def generator : Generator where
  growth := 1365
  addend := 150889
  modulus := 714025

theorem modulus_eq : generator.modulus = 5 ^ 2 * 13 ^ 4 := rfl

theorem generator_full : generator.Full where
  positive := by decide
  odd := by decide
  grows := by decide
  coprime := by decide
  primes := by
    intro p prime divides
    rw [modulus_eq, prime.dvd_mul] at divides
    rcases divides with five | thirteen
    · exact (prime.dvd_of_dvd_pow five).trans (by decide)
    · exact (prime.dvd_of_dvd_pow thirteen).trans (by decide)

theorem residue_eq (x : Nat) :
    ((1366 * x + 150889 : Nat) : Int).tmod PMOD = (generator.step x : Nat) := by
  unfold PMOD Generator.step generator
  rw [Int.ofNat_tmod]
  rfl

section Program

variable {D : Type} [IntCast D] [Add D] [Sub D] [Mul D] [Div D] {state : State D} {x : Nat}

/-- The value of a call that leaves the residue `r`. -/
def shifted (low hi : D) (r : Nat) : D :=
  ((r : Int) : D) / (PMOD : D) * (hi - low) + low

/-- A call from a residue does not overflow. -/
theorem random_eq (last : state.random_last = (x : Nat)) (inside : x < generator.modulus) :
    random state = .ok
      (shifted state.random_low state.random_hi (generator.step x),
        { state with random_last := (generator.step x : Nat) }) := by
  have bound : x < 714025 := inside
  have scaled : long (MULTIPLIER * state.random_last) = .ok ((1366 * x : Nat) : Int) := by
    have product : MULTIPLIER * state.random_last = ((1366 * x : Nat) : Int) := by
      rw [last, MULTIPLIER, Int.natCast_mul]
      rfl
    rw [product]
    apply long_of_nat
    rw [LONG_MAX]
    omega
  have sum : long (((1366 * x : Nat) : Int) + ADDEND) =
      .ok ((1366 * x + 150889 : Nat) : Int) := by
    rw [ADDEND, ← long_of_nat (1366 * x + 150889) (by rw [LONG_MAX]; omega), Int.natCast_add]
    rfl
  simp only [random, scaled, sum, ok_bind, residue_eq, shifted]
  rfl

theorem calls_eq (count : Nat) (last : state.random_last = (x : Nat))
    (inside : x < generator.modulus) :
    calls count state = .ok
      ((List.iterate generator.step (generator.step x) count).map
          (shifted state.random_low state.random_hi),
        { state with random_last := (generator.step^[count] x : Nat) }) := by
  induction count generalizing state x with
  | zero =>
      rw [Function.iterate_zero_apply, ← last]
      rfl
  | succ count ih =>
      rw [calls, random_eq last inside, ok_bind]
      dsimp only
      rw [ih rfl (step_lt generator_full x), ok_bind, List.iterate, List.map_cons,
        Function.iterate_succ_apply]
      rfl

/-- The residues of the calls after `seed`. -/
def residues (count : Nat) : List Nat :=
  List.iterate generator.step (generator.step 4) count

theorem start_inside : 4 < generator.modulus := by decide

theorem residues_eq_iff {count i j : Nat} (first : i < count) (second : j < count) :
    (residues count)[i]? = (residues count)[j]? ↔ i ≡ j [MOD generator.modulus] := by
  rw [residues, List.getElem?_iterate _ _ _ _ first, List.getElem?_iterate _ _ _ _ second,
    Option.some_inj]
  exact iterate_eq_iff_modEq generator_full (step_lt generator_full 4)

variable [LT D] [DecidableLT D]

/-- The calls after `seed` never overflow.  Two of them leave the same residue exactly when
a multiple of `PMOD` calls lies between them, and `PMOD` consecutive ones go through all
residues. -/
theorem calls_seed (low_in hi_in : D) (count : Nat) :
    (∃ next, calls count (seed low_in hi_in) = .ok ((residues count).map
      (shifted (seed low_in hi_in).random_low (seed low_in hi_in).random_hi), next)) ∧
    (∀ i j : Nat, i < count → j < count →
      ((residues count)[i]? = (residues count)[j]? ↔ i ≡ j [MOD PMOD.toNat])) ∧
    ∀ start : Nat, start + PMOD.toNat ≤ count →
      (((residues count).drop start).take PMOD.toNat).Perm (List.range PMOD.toNat) := by
  refine ⟨⟨_, calls_eq count (seed_last low_in hi_in) start_inside⟩, ?_, ?_⟩
  · exact fun i j first second => residues_eq_iff first second
  · exact fun start room => window_perm generator_full (step_lt generator_full 4) room

end Program

end ApLabs.OpenMP.Random
