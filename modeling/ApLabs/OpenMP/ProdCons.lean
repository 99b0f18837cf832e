import ApLabs.Foundation.Cells
import ApLabs.OpenMP.Random

/-!
# A producer and a consumer

The serial program of `prod_cons.c`.  The producer fills an array with random values and
leaves its last residue in the global `randy`, from which its next call goes on; the
consumer sums the array.
-/

namespace ApLabs.OpenMP.ProdCons

open ApLabs.Foundation.CMemory ApLabs.Foundation.Cells ApLabs.Foundation.Congruential
open ApLabs.OpenMP.Random (generator generator_full residue_eq)

def SEED : Nat := 2531

def RAND_MULT : Int := 1366

def RAND_ADD : Int := 150889

def RAND_MOD : Int := 714025

section Producer

variable {D : Type} [IntCast D] [Div D] {x length : Nat} {a : List D}

/-- A round of the loop works on `randy` and on the array. -/
def produce (i : Int) (state : Int × List D) : Checked (Int × List D) := do
  let (randy, a) := state
  let scaled ← int (RAND_MULT * randy)
  let sum ← int (scaled + RAND_ADD)
  let randy := sum.tmod RAND_MOD
  let a ← store a i ((randy : D) / (RAND_MOD : D))
  pure (randy, a)

def fill_rand (length : Nat) (state : Int × List D) : Checked (Int × List D) :=
  forLoop 0 length produce state

def quotient (D : Type) [IntCast D] [Div D] (residue : Nat) : D :=
  ((residue : Int) : D) / (RAND_MOD : D)

theorem produce_eq (inside : x < generator.modulus) (i : Nat) :
    produce i ((x : Int), a) = store a i (quotient D (generator.step x)) >>= fun a =>
      .ok (((generator.step x : Nat) : Int), a) := by
  have bound : x < 714025 := inside
  have scaled : int (RAND_MULT * x) = .ok ((1366 * x : Nat) : Int) := by
    have product : RAND_MULT * x = ((1366 * x : Nat) : Int) := by
      rw [RAND_MULT, Int.natCast_mul]
      rfl
    rw [product]
    apply int_of_nat
    rw [INT_MAX]
    omega
  have sum : int (((1366 * x : Nat) : Int) + RAND_ADD) =
      .ok ((1366 * x + 150889 : Nat) : Int) := by
    have small : ((1366 * x + 150889 : Nat) : Int) ≤ INT_MAX := by
      rw [INT_MAX]
      omega
    rw [RAND_ADD, ← int_of_nat small, Int.natCast_add]
    rfl
  simp only [produce, scaled, sum, ok_bind, quotient, ← residue_eq]
  rfl

/-- The values that the producer writes when it goes on from a residue. -/
def values (D : Type) [IntCast D] [Div D] (x length : Nat) : List D :=
  (List.iterate generator.step (generator.step x) length).map (quotient D)

@[simp] theorem length_values : (values D x length).length = length := by
  simp [values]

theorem values_add (x first second : Nat) :
    values D x (first + second) =
      values D x first ++ values D (generator.step^[first] x) second := by
  rw [values, List.iterate_add, List.map_append, values, values,
    ← Function.iterate_succ_apply, Function.iterate_succ_apply']

theorem values_succ (x done : Nat) :
    values D x (done + 1) =
      values D x done ++ [quotient D (generator.step^[done + 1] x)] := by
  rw [values_add, Function.iterate_succ_apply']
  rfl

theorem set_values {done : Nat} (inside : done < a.length) :
    (values D x done ++ a.drop done).set done (quotient D (generator.step^[done + 1] x)) =
      values D x (done + 1) ++ a.drop (done + 1) := by
  have short : (values D x done).length ≤ done := length_values.le
  rw [List.set_append_right _ _ short, length_values, Nat.sub_self,
    List.drop_eq_getElem_cons inside, List.set_cons_zero, values_succ, List.append_assoc]
  rfl

theorem fill_rand_eq (inside : x < generator.modulus) (room : length ≤ a.length) :
    fill_rand length ((x : Int), a) =
      .ok (((generator.step^[length] x : Nat) : Int), values D x length ++ a.drop length) := by
  obtain ⟨final, ended, rfl⟩ := forLoop_rule produce length ((x : Int), a)
    (fun done state => state =
      (((generator.step^[done] x : Nat) : Int), values D x done ++ a.drop done)) rfl (by
      rintro done _ before rfl
      have whole : (values D x done ++ a.drop done).length = a.length := by
        rw [List.length_append, length_values, List.length_drop]
        omega
      have stored := store_eq_ok.mpr ⟨whole ▸ Nat.lt_of_lt_of_le before room,
        set_values (x := x) (Nat.lt_of_lt_of_le before room)⟩
      refine ⟨_, ?_, rfl⟩
      rw [produce_eq (iterate_lt generator_full inside done),
        ← Function.iterate_succ_apply' generator.step, stored, ok_bind])
  exact ended

/-- A residue and an array of a fixed length. -/
def Producing (size : Nat) (state : Int × List D) : Prop :=
  ∃ (y : Nat) (b : List D), y < generator.modulus ∧ b.length = size ∧ state = ((y : Int), b)

theorem produce_ok {size i : Nat} {state next : Int × List D} (holds : Producing size state)
    (produced : produce i state = .ok next) : i < size ∧ Producing size next := by
  obtain ⟨y, b, lower, rfl, rfl⟩ := holds
  rw [produce_eq lower] at produced
  obtain ⟨c, stored, result⟩ := bind_eq_ok.mp produced
  obtain ⟨inside, rfl⟩ := store_eq_ok.mp stored
  cases result
  exact ⟨inside, _, _, step_lt generator_full y, List.length_set .., rfl⟩

/-- The producer ends exactly when the array has room, and then it has written the first
cells and nothing else. -/
theorem fill_rand_eq_ok_iff (inside : x < generator.modulus) {result : Int × List D} :
    fill_rand length ((x : Int), a) = .ok result ↔ length ≤ a.length ∧
      result = (((generator.step^[length] x : Nat) : Int),
        values D x length ++ a.drop length) := by
  constructor
  · intro ended
    have room : length ≤ a.length := by
      by_contra short
      obtain ⟨-, all⟩ := forLoop_ok (fun _ => Producing a.length) ended
        ⟨x, a, inside, rfl, rfl⟩ fun done state next _ holds produced =>
          (produce_ok holds produced).2
      obtain ⟨state, next, holds, produced⟩ := all a.length (Nat.lt_of_not_le short)
      exact Nat.lt_irrefl _ (produce_ok holds produced).1
    exact ⟨room, Except.ok.inj (ended.symm.trans (fill_rand_eq inside room))⟩
  · rintro ⟨room, rfl⟩
    exact fill_rand_eq inside room

theorem fill_rand_seed :
    ∃ result, fill_rand 2 ((SEED : Int), [(0 : ℚ), 0, 7]) = .ok result ∧
      2 ≤ [(0 : ℚ), 0, 7].length ∧ result =
        (((generator.step^[2] SEED : Nat) : Int), values ℚ SEED 2 ++ [(0 : ℚ), 0, 7].drop 2) :=
  ⟨_, (fill_rand_eq_ok_iff (by decide)).mpr ⟨by decide, rfl⟩, by decide, rfl⟩

/-- Two calls on the two parts of an array do what one call does on the whole. -/
theorem fill_rand_append (inside : x < generator.modulus) {first second : List D} :
    fill_rand (first.length + second.length) ((x : Int), first ++ second) = (do
      let (randy, first) ← fill_rand first.length ((x : Int), first)
      let (randy, second) ← fill_rand second.length (randy, second)
      pure (randy, first ++ second)) := by
  have room : first.length + second.length ≤ (first ++ second).length :=
    (List.length_append ..).ge
  have left := fill_rand_eq (a := first) inside (Nat.le_refl first.length)
  have right := fill_rand_eq (a := second) (iterate_lt generator_full inside first.length)
    (Nat.le_refl second.length)
  have steps : generator.step^[first.length + second.length] x =
      generator.step^[second.length] (generator.step^[first.length] x) := by
    rw [Nat.add_comm, Function.iterate_add_apply]
  simp only [List.drop_length, List.append_nil] at left right
  rw [fill_rand_eq inside room, left, ok_bind]
  dsimp only
  rw [right, ok_bind, values_add, steps, List.drop_eq_nil_of_le (List.length_append ..).le,
    List.append_nil]
  rfl

end Producer

/-! ## The consumer -/

section Consumer

variable {D : Type} [IntCast D] [Add D]

def Sum_array (length : Nat) (a : List D) : Checked D :=
  forLoop 0 length (fun i sum => do
    let value ← load a i
    pure (sum + value)) ((0 : Int) : D)

theorem Sum_array_eq {length : Nat} {a : List D} (room : length ≤ a.length) :
    Sum_array length a = .ok ((a.take length).foldl (· + ·) ((0 : Int) : D)) := by
  obtain ⟨final, ended, rfl⟩ := forLoop_rule (fun i sum => do
      let value ← load a i
      pure (sum + value)) length ((0 : Int) : D)
    (fun done sum => sum = (a.take done).foldl (· + ·) ((0 : Int) : D)) rfl (by
      rintro done _ before rfl
      have inside : done < a.length := Nat.lt_of_lt_of_le before room
      refine ⟨_, ?_, rfl⟩
      rw [load_eq_ok.mpr (List.getElem?_eq_getElem inside), ok_bind, List.take_add_one,
        List.getElem?_eq_getElem inside, Option.toList_some, List.foldl_concat]
      rfl)
  exact ended

/-- The program for an array of `N` values, which `malloc` leaves with any contents; `N` is
passed on as an `int`. -/
def main [Div D] (N : Nat) (contents : Nat → D) : Checked D := do
  let A := malloc contents N
  let (_, A) ← fill_rand N ((SEED : Int), A)
  Sum_array N A

/-- The consumer adds the values of the producer in their order, and nothing that the array
held before; up to `RAND_MOD` of them come from different residues. -/
theorem main_sum [Div D] (N : Nat) (contents : Nat → D) :
    main N contents = .ok ((values D SEED N).foldl (· + ·) ((0 : Int) : D)) ∧
      (N ≤ RAND_MOD.toNat →
        (List.iterate generator.step (generator.step SEED) N).Nodup) := by
  constructor
  · have room : N ≤ (malloc contents N).length := (length_malloc contents N).ge
    have filled := fill_rand_eq (x := SEED) (by decide) room
    rw [List.drop_eq_nil_of_le (length_malloc contents N).le, List.append_nil] at filled
    rw [main, filled, ok_bind]
    dsimp only
    rw [Sum_array_eq length_values.ge, List.take_of_length_le length_values.le]
  · exact fun few => iterate_nodup generator_full (step_lt generator_full SEED) few

end Consumer

end ApLabs.OpenMP.ProdCons
