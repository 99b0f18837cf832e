import ApLabs.Foundation.Cells
import Mathlib.Algebra.BigOperators.Fin
import Mathlib.Algebra.Order.Field.Basic
import Mathlib.Algebra.Order.Ring.Rat
import Mathlib.Data.Matrix.Mul

/-!
# Matrix multiplication

The rows of `A` and `C` are `Ndim` cells apart and those of `B` are `Pdim` cells apart,
which is the distance of a square matrix.  In exact arithmetic a square product is the
product of the matrices.  For other dimensions the program stays inside its arrays only when
no matrix has more rows than columns, and then its check passes although rows overlap: the
matrices are constant.  The program may be modelled over a field, since its `double` values
are exact: they are integers below `2 ^ 53`, at most fifteen times an `int`.
-/

namespace ApLabs.OpenMP.Matmul

open ApLabs.Foundation.CMemory ApLabs.Foundation.Cells
open Finset (sum_range_succ sum_congr sum_const card_range mem_range)

def ORDER : Nat := 1000

/-- The index `i * stride + j`, computed as an `int`. -/
def index (stride : Nat) (i j : Int) : Checked Int := do
  let row ← int (i * stride)
  int (row + j)

/-- An initialization of a matrix. -/
def fill {V : Type} (rows cols stride : Nat) (value : V) (cells : List V) :
    Checked (List V) :=
  forLoop 0 rows (fun i cells =>
    forLoop 0 cols (fun j cells => do
      let place ← index stride i j
      store cells place value) cells) cells

section Product

variable {R : Type} [Zero R] [Add R] [Mul R]

def dot (Ndim Pdim : Nat) (A B : List R) (i j : Int) : Checked R :=
  forLoop 0 Pdim (fun k tmp => do
    let a ← load A (← index Ndim i k)
    let b ← load B (← index Pdim k j)
    pure (tmp + a * b)) 0

def product (Ndim Pdim Mdim : Nat) (A B C : List R) : Checked (List R) :=
  forLoop 0 Ndim (fun i C =>
    forLoop 0 Mdim (fun j C => do
      let tmp ← dot Ndim Pdim A B i j
      let place ← index Ndim i j
      store C place tmp) C) C

end Product

section Ring

variable {R : Type} [CommRing R]

def AVAL : R := 3

def BVAL : R := 5

/-- The sum of the squared errors; `C + i * Ndim` is a pointer, to which `j` is added. -/
def check (Ndim Mdim : Nat) (C : List R) (cval : R) : Checked R :=
  forLoop 0 Ndim (fun i errsq =>
    forLoop 0 Mdim (fun j errsq => do
      let row ← int (i * Ndim)
      let c ← load C (row + j)
      let err := c - cval
      pure (errsq + err * err)) errsq) 0

end Ring

inductive Report (R : Type) where
  | errors (errsq : R)
  | worked
  deriving DecidableEq, Repr

section Program

variable {R : Type} [Field R] [LinearOrder R]

def TOL : R := 1 / 1000

/-- The program for arbitrary dimensions; `a`, `b` and `c` are what `malloc` leaves in the
arrays. -/
def main (Ndim Pdim Mdim : Nat) (a b c : Nat → R) : Checked (Report R) := do
  let sizeA ← int (Ndim * Pdim)
  let A := malloc a sizeA.toNat
  let sizeB ← int (Pdim * Mdim)
  let B := malloc b sizeB.toNat
  let sizeC ← int (Ndim * Mdim)
  let C := malloc c sizeC.toNat
  let A ← fill Ndim Pdim Ndim AVAL A
  let B ← fill Pdim Mdim Pdim BVAL B
  let C ← fill Ndim Mdim Ndim 0 C
  let C ← product Ndim Pdim Mdim A B C
  let cval := (Pdim : R) * AVAL * BVAL
  let errsq ← check Ndim Mdim C cval
  pure (if errsq > TOL then .errors errsq else .worked)

end Program

/-! ## Indices -/

variable {rows cols stride size : Nat}

theorem index_nat (i j : Nat) (small : ((i * stride + j : Nat) : Int) ≤ INT_MAX) :
    index stride i j = .ok ((i * stride + j : Nat) : Int) := by
  have row : int ((i : Int) * stride) = .ok ((i * stride : Nat) : Int) := by
    rw [← Int.natCast_mul]
    apply int_of_nat
    omega
  rw [index, row, ok_bind, ← Int.natCast_add]
  exact int_of_nat small

theorem index_eq_ok {i j : Nat} {place : Int} (done : index stride i j = .ok place) :
    place = ((i * stride + j : Nat) : Int) := by
  obtain ⟨row, first, last⟩ := bind_eq_ok.mp done
  rw [← (int_eq_ok.mp last).2, ← (int_eq_ok.mp first).2]
  push_cast
  rfl

/-- What the rows and columns of an array of `rows * cols` cells, its rows `rows` cells
apart, must satisfy. -/
def Fits (rows cols : Nat) : Prop :=
  rows ≤ 1 ∨ rows ≤ cols ∨ cols = 0

instance (rows cols : Nat) : Decidable (Fits rows cols) :=
  inferInstanceAs (Decidable (_ ∨ _ ∨ _))

theorem fits_iff :
    Fits rows cols ↔ ∀ i j : Nat, i < rows → j < cols → i * rows + j < rows * cols := by
  constructor
  · rintro (single | wide | empty) i j row column
    · have first : i = 0 := by omega
      have only : rows = 1 := by omega
      simpa [first, only] using column
    · calc i * rows + j < i * cols + cols :=
            Nat.add_lt_add_of_le_of_lt (Nat.mul_le_mul_left i wide) column
        _ = (i + 1) * cols := (Nat.succ_mul i cols).symm
        _ ≤ rows * cols := Nat.mul_le_mul_right cols row
    · omega
  · intro inside
    by_contra tall
    obtain ⟨several, narrow, filled⟩ :
        1 < rows ∧ cols < rows ∧ 0 < cols := by
      simp only [Fits] at tall
      omega
    have last := inside (rows - 1) (cols - 1) (by omega) (by omega)
    obtain ⟨more, rfl⟩ := Nat.exists_eq_add_of_le' several.le
    rw [Nat.add_sub_cancel, Nat.succ_mul more cols] at last
    have low : more * cols + more ≤ more * (more + 1) := by
      rw [← Nat.mul_succ]
      exact Nat.mul_le_mul_left more narrow
    omega

/-! ## Phases -/

section Filling

variable {V : Type} {value : V} {cells final : List V} {f : Nat → Nat → V}

theorem fill_stored (value : V) (length : cells.length = size) (small : (size : Int) ≤ INT_MAX)
    (inside : ∀ i j : Nat, i < rows → j < cols → i * stride + j < size) :
    ∃ final, fill rows cols stride value cells = .ok final ∧
      Stored final size rows cols stride fun _ _ => value := by
  apply rows_rule cells length inside
  · exact fun i j k l _ _ _ _ _ => rfl
  · intro i j cells row column
    have place := inside i j row column
    rw [index_nat i j (by omega), ok_bind]

theorem fill_ok (length : cells.length = size)
    (ended : fill rows cols stride value cells = .ok final) :
    final.length = size ∧ ∀ i j : Nat, i < rows → j < cols → i * stride + j < size := by
  apply rows_ok length _ ended
  intro i j cells after row column done
  obtain ⟨place, computed, stored⟩ := bind_eq_ok.mp done
  rw [index_eq_ok computed] at stored
  obtain ⟨inside, rfl⟩ := store_eq_ok.mp stored
  exact ⟨inside, List.length_set ..⟩

theorem place_lt (stored : Stored cells size rows cols stride f) {i j : Nat} (row : i < rows)
    (column : j < cols) : i * stride + j < size := by
  obtain ⟨inside, -⟩ := List.getElem?_eq_some_iff.mp (stored.values i j row column)
  exact stored.length ▸ inside

end Filling

section Product

variable {R : Type} [Zero R] [Add R] [Mul R] {cells A B C : List R}
  {Ndim Pdim Mdim sizeA sizeB sizeC : Nat} {f g : Nat → Nat → R}

/-- The sum of the products, added up in their order. -/
def cell (f g : Nat → Nat → R) (Pdim i j : Nat) : R :=
  (List.range Pdim).foldl (fun tmp k => tmp + f i k * g k j) 0

theorem cell_succ (f g : Nat → Nat → R) (done i j : Nat) :
    cell f g (done + 1) i j = cell f g done i j + f i done * g done j := by
  rw [cell, List.range_succ, List.foldl_concat]
  rfl

theorem dot_eq (storedA : Stored A sizeA Ndim Pdim Ndim f)
    (storedB : Stored B sizeB Pdim Mdim Pdim g) (smallA : (sizeA : Int) ≤ INT_MAX)
    (smallB : (sizeB : Int) ≤ INT_MAX) {i j : Nat} (row : i < Ndim) (column : j < Mdim) :
    dot Ndim Pdim A B i j = .ok (cell f g Pdim i j) := by
  have summed : ∃ total, dot Ndim Pdim A B i j = .ok total ∧ total = cell f g Pdim i j := by
    apply forLoop_rule _ Pdim (0 : R) (fun done tmp => tmp = cell f g done i j) rfl
    rintro k tmp inner rfl
    have placeA := place_lt storedA row inner
    have placeB := place_lt storedB inner column
    refine ⟨_, ?_, (cell_succ f g k i j).symm⟩
    rw [index_nat i k (by omega), ok_bind, load_eq_ok.mpr (storedA.values i k row inner),
      ok_bind, index_nat k j (by omega), ok_bind,
      load_eq_ok.mpr (storedB.values k j inner column), ok_bind]
    rfl
  obtain ⟨total, ended, rfl⟩ := summed
  exact ended

/-- Stores to one cell of `C` must be of one value. -/
theorem product_stored (storedA : Stored A sizeA Ndim Pdim Ndim f)
    (storedB : Stored B sizeB Pdim Mdim Pdim g) (length : C.length = sizeC)
    (smallA : (sizeA : Int) ≤ INT_MAX) (smallB : (sizeB : Int) ≤ INT_MAX)
    (smallC : (sizeC : Int) ≤ INT_MAX)
    (inside : ∀ i j : Nat, i < Ndim → j < Mdim → i * Ndim + j < sizeC)
    (agree : ∀ i j k l : Nat, i < Ndim → j < Mdim → k < Ndim → l < Mdim →
      i * Ndim + j = k * Ndim + l → cell f g Pdim i j = cell f g Pdim k l) :
    ∃ final, product Ndim Pdim Mdim A B C = .ok final ∧
      Stored final sizeC Ndim Mdim Ndim (cell f g Pdim) := by
  apply rows_rule C length inside agree
  intro i j cells row column
  have place := inside i j row column
  rw [dot_eq storedA storedB smallA smallB row column, ok_bind, index_nat i j (by omega),
    ok_bind]

end Product

section Ring

variable {R : Type} [CommRing R] {value : R} {C : List R} {Ndim Mdim sizeC : Nat}

/-- In exact arithmetic the order of the additions does not matter. -/
theorem cell_eq_sum (f g : Nat → Nat → R) (Pdim i j : Nat) :
    cell f g Pdim i j = ∑ k ∈ Finset.range Pdim, f i k * g k j := by
  induction Pdim with
  | zero => rfl
  | succ Pdim ih => rw [cell_succ, ih, sum_range_succ]

theorem check_eq (stored : Stored C sizeC Ndim Mdim Ndim fun _ _ => value)
    (small : (sizeC : Int) ≤ INT_MAX) : check Ndim Mdim C value = .ok 0 := by
  have unchanged : ∃ errsq, check Ndim Mdim C value = .ok errsq ∧ errsq = 0 := by
    apply forLoop_rule _ Ndim (0 : R) (fun _ errsq => errsq = 0) rfl
    rintro i errsq row rfl
    apply forLoop_rule _ Mdim (0 : R) (fun _ errsq => errsq = 0) rfl
    rintro j errsq column rfl
    have place := place_lt stored row column
    refine ⟨0, ?_, rfl⟩
    rw [← Int.natCast_mul, int_of_nat (by omega), ok_bind, ← Int.natCast_add,
      load_eq_ok.mpr (stored.values i j row column), ok_bind]
    simp [pure, Except.pure]
  obtain ⟨errsq, ended, rfl⟩ := unchanged
  exact ended

end Ring

/-! ## Square matrices -/

section Square

theorem square_inside {n i j : Nat} (row : i < n) (column : j < n) : i * n + j < n * n :=
  fits_iff.mp (.inr (.inl (Nat.le_refl n))) i j row column

theorem square_stored {R : Type} [Zero R] {cells : List R} {n : Nat}
    (length : cells.length = n * n) :
    Stored cells (n * n) n n n fun i j => cells.getD (i * n + j) 0 := by
  refine ⟨length, ?_⟩
  intro i j row column
  have inside := square_inside row column
  rw [← length] at inside
  simp [inside]

theorem row_of_index {n i j : Nat} (column : j < n) : (i * n + j) / n = i := by
  rw [Nat.mul_comm, Nat.mul_add_div (Nat.zero_lt_of_lt column), Nat.div_eq_of_lt column,
    Nat.add_zero]

theorem square_agree {n i j k l : Nat} (column : j < n) (other : l < n)
    (same : i * n + j = k * n + l) : i = k ∧ j = l := by
  have rows : i = k := by
    calc i = (i * n + j) / n := (row_of_index column).symm
      _ = (k * n + l) / n := by rw [same]
      _ = k := row_of_index other
  subst rows
  exact ⟨rfl, Nat.add_left_cancel same⟩

/-- For square matrices no store meets another, whatever the operations are. -/
theorem product_square {R : Type} [Zero R] [Add R] [Mul R] {A B C : List R} (n : Nat)
    (small : ((n * n : Nat) : Int) ≤ INT_MAX)
    (lengthA : A.length = n * n) (lengthB : B.length = n * n) (lengthC : C.length = n * n) :
    ∃ final, product n n n A B C = .ok final ∧
      Stored final (n * n) n n n
        (cell (fun i j => A.getD (i * n + j) 0) (fun i j => B.getD (i * n + j) 0) n) := by
  apply product_stored (square_stored lengthA) (square_stored lengthB) lengthC small small small
    fun _ _ => square_inside
  intro i j k l row column other within same
  obtain ⟨rfl, rfl⟩ := square_agree column within same
  rfl

variable {R : Type} [CommRing R] {A B C : List R}

/-- The matrix that row-major cells denote. -/
def matrix (n : Nat) (cells : List R) : Matrix (Fin n) (Fin n) R :=
  fun i j => cells.getD (i * n + j) 0

/-- For square matrices of any contents the loops compute the product of matrices. -/
theorem product_matrix (n : Nat) (small : ((n * n : Nat) : Int) ≤ INT_MAX)
    (lengthA : A.length = n * n) (lengthB : B.length = n * n) (lengthC : C.length = n * n) :
    ∃ final, product n n n A B C = .ok final ∧ final.length = n * n ∧
      matrix n final = matrix n A * matrix n B := by
  obtain ⟨final, ended, stored⟩ := product_square n small lengthA lengthB lengthC
  refine ⟨final, ended, stored.length, ?_⟩
  ext i j
  have value := stored.values i j i.isLt j.isLt
  rw [Matrix.mul_apply, matrix, List.getD_eq_getElem?_getD, value, Option.getD_some,
    cell_eq_sum, Finset.sum_range]
  rfl

theorem product_matrix_two :
    ∃ final : List Int, product 2 2 2 [1, 2, 3, 4] [5, 6, 7, 8] [9, 9, 9, 9] = .ok final ∧
      final.length = 2 * 2 ∧
      matrix 2 final = matrix 2 [1, 2, 3, 4] * matrix 2 [5, 6, 7, 8] :=
  product_matrix 2 (by decide) rfl rfl rfl

end Square

/-! ## The program -/

section Program

variable {R : Type} [Field R] [LinearOrder R] {a b c : Nat → R}
  {Ndim Pdim Mdim : Nat} {report : Report R}

/-- The sizes are products of `int` values. -/
def Sizes (Ndim Pdim Mdim : Nat) : Prop :=
  ((Ndim * Pdim : Nat) : Int) ≤ INT_MAX ∧ ((Pdim * Mdim : Nat) : Int) ≤ INT_MAX ∧
    ((Ndim * Mdim : Nat) : Int) ≤ INT_MAX

theorem int_mul_eq_ok {first second : Nat} {size : Int} :
    int ((first : Int) * second) = .ok size ↔
      ((first * second : Nat) : Int) ≤ INT_MAX ∧ size = ((first * second : Nat) : Int) := by
  rw [← Int.natCast_mul, int_eq_ok]
  constructor
  · exact fun done => ⟨done.1.2, done.2.symm⟩
  · rintro ⟨small, rfl⟩
    exact ⟨isInt_of_nat small, rfl⟩

theorem ended_fits (ended : main Ndim Pdim Mdim a b c = .ok report) :
    Sizes Ndim Pdim Mdim ∧ Fits Ndim Pdim ∧ Fits Pdim Mdim ∧ Fits Ndim Mdim := by
  obtain ⟨sizeA, first, ended⟩ := bind_eq_ok.mp ended
  obtain ⟨sizeB, second, ended⟩ := bind_eq_ok.mp ended
  obtain ⟨sizeC, third, ended⟩ := bind_eq_ok.mp ended
  obtain ⟨A, filledA, ended⟩ := bind_eq_ok.mp ended
  obtain ⟨B, filledB, ended⟩ := bind_eq_ok.mp ended
  obtain ⟨C, filledC, -⟩ := bind_eq_ok.mp ended
  obtain ⟨smallA, rfl⟩ := int_mul_eq_ok.mp first
  obtain ⟨smallB, rfl⟩ := int_mul_eq_ok.mp second
  obtain ⟨smallC, rfl⟩ := int_mul_eq_ok.mp third
  have insideA := (fill_ok (length_malloc a _) filledA).2
  have insideB := (fill_ok (length_malloc b _) filledB).2
  have insideC := (fill_ok (length_malloc c _) filledC).2
  exact ⟨⟨smallA, smallB, smallC⟩, fits_iff.mpr insideA, fits_iff.mpr insideB,
    fits_iff.mpr insideC⟩

variable [IsStrictOrderedRing R]

theorem main_worked (sizes : Sizes Ndim Pdim Mdim) (fitsA : Fits Ndim Pdim)
    (fitsB : Fits Pdim Mdim) (fitsC : Fits Ndim Mdim) :
    main Ndim Pdim Mdim a b c = .ok .worked := by
  obtain ⟨A, filledA, storedA⟩ := fill_stored (AVAL : R) (length_malloc a _)
    sizes.1 (fits_iff.mp fitsA)
  obtain ⟨B, filledB, storedB⟩ := fill_stored (BVAL : R) (length_malloc b _)
    sizes.2.1 (fits_iff.mp fitsB)
  obtain ⟨C, filledC, storedC⟩ := fill_stored (0 : R) (length_malloc c _)
    sizes.2.2 (fits_iff.mp fitsC)
  obtain ⟨final, multiplied, stored⟩ := product_stored storedA storedB storedC.length
    sizes.1 sizes.2.1 sizes.2.2 (fits_iff.mp fitsC) (fun _ _ _ _ _ _ _ _ _ => rfl)
  have total : cell (fun _ _ => AVAL) (fun _ _ => BVAL) Pdim =
      fun _ _ => (Pdim : R) * AVAL * BVAL := by
    funext i j
    rw [cell_eq_sum, sum_const, card_range, nsmul_eq_mul, mul_assoc]
  rw [total] at stored
  have tolerance : ¬ (0 : R) > TOL := not_lt.mpr (by unfold TOL; positivity)
  simp only [main, int_mul_eq_ok.mpr ⟨sizes.1, rfl⟩, int_mul_eq_ok.mpr ⟨sizes.2.1, rfl⟩,
    int_mul_eq_ok.mpr ⟨sizes.2.2, rfl⟩, ok_bind, Int.toNat_natCast, filledA, filledB, filledC,
    multiplied, check_eq stored sizes.2.2, tolerance, if_false]
  rfl

/-- The program ends exactly when no size overflows and every matrix fits, and then its
check passes. -/
theorem main_eq_ok_iff :
    main Ndim Pdim Mdim a b c = .ok report ↔
      report = .worked ∧ Sizes Ndim Pdim Mdim ∧
        Fits Ndim Pdim ∧ Fits Pdim Mdim ∧ Fits Ndim Mdim := by
  constructor
  · intro ended
    obtain ⟨sizes, fitsA, fitsB, fitsC⟩ := ended_fits ended
    refine ⟨?_, sizes, fitsA, fitsB, fitsC⟩
    exact Except.ok.inj (ended.symm.trans (main_worked sizes fitsA fitsB fitsC))
  · rintro ⟨rfl, sizes, fitsA, fitsB, fitsC⟩
    exact main_worked sizes fitsA fitsB fitsC

theorem main_order :
    main ORDER ORDER ORDER (fun _ => (0 : ℚ)) (fun _ => 0) (fun _ => 0) = .ok .worked :=
  main_eq_ok_iff.mpr ⟨rfl, ⟨by decide, by decide, by decide⟩, by decide, by decide, by decide⟩

end Program

end ApLabs.OpenMP.Matmul
