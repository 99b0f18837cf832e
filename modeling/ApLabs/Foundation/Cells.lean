import ApLabs.Foundation.CMemory

/-!
# Arrays of numbers

An array that `malloc` returns has arbitrary contents, and every access to it is checked.
Two nested loops that store a value for each row and column, with rows a fixed distance
apart, stay inside the array exactly where their last store does.
-/

namespace ApLabs.Foundation.Cells

open ApLabs.Foundation.CMemory

variable {V σ : Type}

def load (cells : List V) (index : Int) : Checked V :=
  if 0 ≤ index then
    match cells[index.toNat]? with
    | some value => .ok value
    | none => .error .bounds
  else .error .bounds

def store (cells : List V) (index : Int) (value : V) : Checked (List V) :=
  if 0 ≤ index ∧ index < cells.length then .ok (cells.set index.toNat value)
  else .error .bounds

def malloc (contents : Nat → V) (size : Nat) : List V :=
  (List.range size).map contents

@[simp] theorem length_malloc (contents : Nat → V) (size : Nat) :
    (malloc contents size).length = size := by
  simp [malloc]

theorem load_eq_ok {cells : List V} {index : Nat} {value : V} :
    load cells index = .ok value ↔ cells[index]? = some value := by
  rw [load, if_pos (Int.natCast_nonneg index), Int.toNat_natCast]
  cases cells[index]? <;> simp

theorem store_eq_ok {cells after : List V} {index : Nat} {value : V} :
    store cells index value = .ok after ↔
      index < cells.length ∧ cells.set index value = after := by
  unfold store
  split
  next range =>
    rw [Int.toNat_natCast]
    simp only [Except.ok.injEq, Int.ofNat_lt.mp range.2, true_and]
  next outside =>
    have past : ¬ index < cells.length := fun inside =>
      outside ⟨Int.natCast_nonneg index, Int.ofNat_lt.mpr inside⟩
    simp [past]

/-! ## Loops from zero -/

variable {body : Int → σ → Checked σ} {count : Nat} {state final : σ}

/-- The loop ends when every round goes through and keeps the invariant. -/
theorem forLoop_rule (body : Int → σ → Checked σ) (count : Nat) (state : σ)
    (invariant : Nat → σ → Prop)
    (start : invariant 0 state)
    (round : ∀ done state, done < count → invariant done state →
      ∃ next, body done state = .ok next ∧ invariant (done + 1) next) :
    ∃ final, forLoop 0 count body state = .ok final ∧ invariant count final := by
  rw [forLoop, Int.sub_zero, Int.toNat_natCast]
  apply iterate_rule body invariant 0 count state start
  intro done state inside holds
  rw [Int.zero_add]
  exact round done state inside holds

/-- Where the loop has ended every round went through. -/
theorem forLoop_ok (invariant : Nat → σ → Prop) (ended : forLoop 0 count body state = .ok final)
    (start : invariant 0 state)
    (keeps : ∀ done state next, done < count → invariant done state →
      body done state = .ok next → invariant (done + 1) next) :
    invariant count final ∧
      ∀ done < count, ∃ state next, invariant done state ∧ body done state = .ok next := by
  have rounds : ∀ (more low : Nat) (state : σ), low + more = count → invariant low state →
      iterate body low more state = .ok final →
      invariant count final ∧ ∀ done, low ≤ done → done < count →
        ∃ state next, invariant done state ∧ body done state = .ok next := by
    intro more
    induction more with
    | zero =>
        intro low state whole holds last
        cases last
        exact ⟨whole ▸ holds, fun done after before => by omega⟩
    | succ more ih =>
        intro low state whole holds last
        obtain ⟨next, first, rest⟩ := bind_eq_ok.mp last
        have kept := keeps low state next (by omega) holds first
        obtain ⟨reached, others⟩ := ih (low + 1) next (by omega) kept rest
        refine ⟨reached, ?_⟩
        intro done after before
        rcases Nat.eq_or_lt_of_le after with rfl | later
        · exact ⟨state, next, holds, first⟩
        · exact others done later before
  rw [forLoop, Int.sub_zero, Int.toNat_natCast] at ended
  obtain ⟨holds, all⟩ := rounds count 0 state (Nat.zero_add count) start ended
  exact ⟨holds, fun done => all done (Nat.zero_le done)⟩

/-! ## Rows and columns -/

/-- What the two loops store: a value at each row and column, the rows `stride` apart. -/
structure Stored (cells : List V) (size rows cols stride : Nat) (value : Nat → Nat → V) :
    Prop where
  length : cells.length = size
  values : ∀ i j : Nat, i < rows → j < cols → cells[i * stride + j]? = some (value i j)

variable {rows cols stride size : Nat} {value : Nat → Nat → V} {cells : List V}
  {stores : Int → Int → List V → Checked (List V)}

theorem get_set_same {index k : Nat} {old new : V} (inside : index < cells.length)
    (before : k ≠ index → cells[k]? = some old) (same : k = index → new = old) :
    (cells.set index new)[k]? = some old := by
  by_cases here : k = index
  · rw [here, List.getElem?_set_self inside, same here]
  · rw [List.getElem?_set_ne (Ne.symm here)]
    exact before here

/-- The loops go through when no store is outside, and what one store overwrites of
another is the same value. -/
theorem rows_rule (cells : List V) (length : cells.length = size)
    (inside : ∀ i j : Nat, i < rows → j < cols → i * stride + j < size)
    (agree : ∀ i j k l : Nat, i < rows → j < cols → k < rows → l < cols →
      i * stride + j = k * stride + l → value i j = value k l)
    (step : ∀ (i j : Nat) (cells : List V), i < rows → j < cols →
      stores i j cells = store cells ((i * stride + j : Nat) : Int) (value i j)) :
    ∃ final, forLoop 0 rows (fun i cells => forLoop 0 cols (stores i) cells) cells = .ok final ∧
      Stored final size rows cols stride value := by
  obtain ⟨final, ended, holds⟩ := forLoop_rule
    (fun i cells => forLoop 0 cols (stores i) cells) rows cells
    (fun done cells => Stored cells size done cols stride value) ⟨length, nofun⟩ (by
      intro i cells row holds
      obtain ⟨next, inner, after⟩ := forLoop_rule (stores i) cols cells
        (fun done cells => Stored cells size i cols stride value ∧
          ∀ j < done, cells[i * stride + j]? = some (value i j))
        ⟨holds, nofun⟩ (by
          rintro j cells column ⟨above, left⟩
          have place := inside i j row column
          rw [← above.length] at place
          refine ⟨_, (step i j cells row column).trans (store_eq_ok.mpr ⟨place, rfl⟩), ?_, ?_⟩
          · refine ⟨(List.length_set ..).trans above.length, ?_⟩
            intro k l earlier within
            apply get_set_same place (fun _ => above.values k l earlier within)
            intro same
            exact agree i j k l row column (earlier.trans row) within same.symm
          · intro l before
            apply get_set_same place
            · intro different
              apply left l
              have other : l ≠ j := fun same => different (same ▸ rfl)
              omega
            · intro same
              have equal : l = j := Nat.add_left_cancel same
              rw [equal])
      refine ⟨next, inner, after.1.length, ?_⟩
      intro k l earlier within
      rcases Nat.lt_succ_iff_lt_or_eq.mp earlier with before | rfl
      · exact after.1.values k l before within
      · exact after.2 l within)
  exact ⟨final, ended, holds⟩

/-- Where the loops have ended no store was outside. -/
theorem rows_ok {final : List V} (length : cells.length = size)
    (step : ∀ (i j : Nat) (cells after : List V), i < rows → j < cols →
      stores i j cells = .ok after →
      i * stride + j < cells.length ∧ after.length = cells.length)
    (ended : forLoop 0 rows (fun i cells => forLoop 0 cols (stores i) cells) cells =
      .ok final) :
    final.length = size ∧ ∀ i j : Nat, i < rows → j < cols → i * stride + j < size := by
  have inner : ∀ (i : Nat) (cells after : List V), i < rows → cells.length = size →
      forLoop 0 cols (stores i) cells = .ok after →
      after.length = size ∧ ∀ j < cols, i * stride + j < size := by
    intro i cells after row whole ended
    obtain ⟨kept, all⟩ := forLoop_ok (fun _ cells => cells.length = size) ended whole (by
      intro j cells next column holds stored
      exact (step i j cells next row column stored).2.trans holds)
    refine ⟨kept, ?_⟩
    intro j column
    obtain ⟨cells, next, holds, stored⟩ := all j column
    exact holds ▸ (step i j cells next row column stored).1
  obtain ⟨kept, all⟩ := forLoop_ok (fun _ cells => cells.length = size) ended length (by
    intro i cells next row holds stored
    exact (inner i cells next row holds stored).1)
  refine ⟨kept, ?_⟩
  intro i j row column
  obtain ⟨cells, next, holds, stored⟩ := all i row
  exact (inner i cells next row holds stored).2 j column

end ApLabs.Foundation.Cells
