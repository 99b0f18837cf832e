import Mathlib.Data.List.TakeWhile
import Mathlib.Data.Int.Init

/-!
# Bounds-checked C memory and machine integers

Blocks are byte lists, and every access carries its bounds check, so an access
outside a block is a fault and not a silent extension of the block.  Signed
`int` and `long` arithmetic is checked in the same way, while the conversion of a
`size_t` to `int` wraps modulo `2 ^ 32`.  Counted loops are iterated by a structural
recursion with an invariant rule, and a run of consecutive stores is described
by one `splice`.
-/

namespace ApLabs.Foundation.CMemory

abbrev Bytes := List UInt8

/-- The byte of an ASCII character. -/
def byte (c : Char) : UInt8 := c.toNat.toUInt8

/-- The bytes of an ASCII literal. -/
def bytes (text : String) : Bytes := text.toList.map byte

/-- The ways in which an execution leaves the defined behaviour of C. -/
inductive Fault where
  | overflow
  | bounds
  | format
  deriving DecidableEq, Repr

abbrev Checked (α : Type) := Except Fault α

/-- A sequence of two computations succeeds exactly when both do. -/
theorem bind_eq_ok {α β : Type} {first : Checked α} {next : α → Checked β} {result : β} :
    first >>= next = .ok result ↔ ∃ middle, first = .ok middle ∧ next middle = .ok result := by
  cases first with
  | error fault => simp [bind, Except.bind]
  | ok middle => simp [bind, Except.bind]

@[simp] theorem ok_bind {α β : Type} (value : α) (next : α → Checked β) :
    (Except.ok value : Checked α) >>= next = next value := by
  simp only [bind, Except.bind]

/-! ## Machine integers -/

def INT_MAX : Int := 2147483647

def INT_MIN : Int := -2147483648

def IsInt (value : Int) : Prop := INT_MIN ≤ value ∧ value ≤ INT_MAX

instance (value : Int) : Decidable (IsInt value) := inferInstanceAs (Decidable (_ ∧ _))

/-- The value of a signed `int` expression; leaving the range is undefined. -/
def int (value : Int) : Checked Int :=
  if IsInt value then .ok value else .error .overflow

def LONG_MAX : Int := 9223372036854775807

def LONG_MIN : Int := -9223372036854775808

def IsLong (value : Int) : Prop := LONG_MIN ≤ value ∧ value ≤ LONG_MAX

instance (value : Int) : Decidable (IsLong value) := inferInstanceAs (Decidable (_ ∧ _))

/-- The value of a `long` expression; leaving the range is undefined. -/
def long (value : Int) : Checked Int :=
  if IsLong value then .ok value else .error .overflow

/-- Conversion of a `size_t` to `int`, which keeps the low 32 bits. -/
def toInt (size : Nat) : Int := (size : Int).bmod 4294967296

theorem int_of_range {value : Int} (lower : INT_MIN ≤ value) (upper : value ≤ INT_MAX) :
    int value = .ok value := if_pos ⟨lower, upper⟩

theorem int_eq_ok {value result : Int} :
    int value = .ok result ↔ IsInt value ∧ value = result := by
  unfold int
  split
  · next range => simp [range]
  · next outside => simp [outside]

theorem isInt_of_nat {value : Nat} (small : (value : Int) ≤ INT_MAX) : IsInt value := by
  refine ⟨?_, small⟩
  rw [INT_MIN]
  omega

theorem isInt_of_le {value bound : Nat} (most : value ≤ bound) (small : (bound : Int) ≤ INT_MAX) :
    IsInt value :=
  isInt_of_nat (Int.le_trans (Int.ofNat_le.mpr most) small)

theorem int_of_nat {value : Nat} (small : (value : Int) ≤ INT_MAX) : int value = .ok value :=
  if_pos (isInt_of_nat small)

theorem long_of_nat (value : Nat) (small : (value : Int) ≤ LONG_MAX) :
    long value = .ok (value : Int) := by
  refine if_pos ⟨?_, small⟩
  rw [LONG_MIN]
  omega

theorem toInt_of_le {size : Nat} (small : (size : Int) ≤ INT_MAX) :
    toInt size = size := by
  unfold toInt INT_MAX at *
  rw [Int.bmod_eq_of_le] <;> omega

/-- A nonnegative narrowed size never exceeds the size, and equals it only in range. -/
theorem toInt_le_self (size : Nat) (nonneg : 0 ≤ toInt size) : toInt size ≤ size := by
  unfold toInt at *
  rw [Int.bmod_def] at *
  split at * <;> omega

/-! ## Strings and blocks -/

/-- A C string: its bytes up to, and without, the terminator. -/
structure CString where
  bytes : Bytes
  no_nul : (0 : UInt8) ∉ bytes
  deriving DecidableEq

/-- The array a `char *` points to: the bytes and the terminator. -/
def CString.memory (text : CString) : Bytes := text.bytes ++ [0]

def strlen (text : CString) : Nat := text.bytes.length

theorem CString.ext {first second : CString} (same : first.bytes = second.bytes) :
    first = second := by
  cases first
  cases second
  cases same
  rfl

def load (block : Bytes) (index : Int) : Checked UInt8 :=
  if 0 ≤ index then
    match block[index.toNat]? with
    | some value => .ok value
    | none => .error .bounds
  else .error .bounds

def store (block : Bytes) (index : Int) (value : UInt8) : Checked Bytes :=
  if 0 ≤ index ∧ index < block.length then .ok (block.set index.toNat value)
  else .error .bounds

/-- The string that a `char *` into the block denotes; it needs a terminator. -/
def readString (block : Bytes) : Checked Bytes :=
  if (0 : UInt8) ∈ block then .ok (block.takeWhile (· ≠ 0)) else .error .bounds

theorem load_nat {block : Bytes} {index : Nat} (inside : index < block.length) :
    load block index = .ok block[index] := by
  simp [load, inside]

theorem store_eq_ok {block result : Bytes} {index : Int} {value : UInt8} :
    store block index value = .ok result ↔
      (0 ≤ index ∧ index < block.length) ∧ block.set index.toNat value = result := by
  unfold store
  split
  · next range => simp [range]
  · next outside => simp [outside]

/-! ## Consecutive stores -/

/-- The block after the bytes `content` were stored from `offset` on. -/
def splice (block : Bytes) (offset : Nat) (content : Bytes) : Bytes :=
  block.take offset ++ (content ++ block.drop (offset + content.length))

@[simp] theorem splice_nil (block : Bytes) (offset : Nat) : splice block offset [] = block := by
  simp [splice]

theorem length_splice {block content : Bytes} {offset : Nat}
    (room : offset + content.length ≤ block.length) :
    (splice block offset content).length = block.length := by
  simp only [splice, List.length_append, List.length_take, List.length_drop]
  omega

theorem store_eq_splice {block : Bytes} {offset : Nat} (inside : offset < block.length)
    (value : UInt8) : store block offset value = .ok (splice block offset [value]) := by
  have range : (0 : Int) ≤ offset ∧ (offset : Int) < block.length := by omega
  rw [store, if_pos range, Int.toNat_natCast, List.set_eq_take_append_cons_drop, if_pos inside]
  rfl

/-- Stores that continue where earlier stores ended form one longer splice. -/
theorem splice_splice_append (block first second : Bytes) {offset : Nat}
    (room : offset + first.length ≤ block.length) :
    splice (splice block offset first) (offset + first.length) second =
      splice block offset (first ++ second) := by
  have front : (block.take offset ++ first).length = offset + first.length := by
    simp only [List.length_append, List.length_take]
    omega
  have shape : splice block offset first =
      (block.take offset ++ first) ++ block.drop (offset + first.length) := by
    simp [splice]
  rw [splice, shape, List.take_left' front, List.drop_append, front,
    List.drop_eq_nil_of_le (by omega : _ ≤ offset + first.length + second.length)]
  simp [splice, List.drop_drop, Nat.add_assoc]

/-- A store right behind a splice extends it by one byte. -/
theorem store_behind_splice {block content : Bytes} {offset index : Nat}
    (behind : index = offset + content.length) (inside : index < block.length) (value : UInt8) :
    store (splice block offset content) index value =
      .ok (splice block offset (content ++ [value])) := by
  have room : offset + content.length ≤ block.length := by omega
  rw [store_eq_splice (by rw [length_splice room]; exact inside), behind,
    splice_splice_append _ _ _ room]

/-- Storing over the last byte of a splice replaces that byte. -/
theorem splice_overwrite_last (block content : Bytes) {offset : Nat} (old new : UInt8)
    (room : offset + content.length + 1 ≤ block.length) :
    splice (splice block offset (content ++ [old])) (offset + content.length) [new] =
      splice block offset (content ++ [new]) := by
  have front : (block.take offset ++ content).length = offset + content.length := by
    simp only [List.length_append, List.length_take]
    omega
  have shape : splice block offset (content ++ [old]) =
      (block.take offset ++ content) ++ old :: block.drop (offset + (content.length + 1)) := by
    simp [splice]
  have past : offset + content.length + [new].length - (offset + content.length) = 1 := by simp
  rw [splice, shape, List.take_left' front, List.drop_append, front, past,
    List.drop_eq_nil_of_le (by simp only [front]; simp)]
  simp [splice]

/-- A splice at the start of a block, read back up to a position inside it. -/
theorem take_splice_zero {block content : Bytes} {count : Nat} (inside : count ≤ content.length) :
    (splice block 0 content).take count = content.take count := by
  simp [splice, List.take_append_of_le_length inside]

/-- A splice leaves what is behind it. -/
theorem drop_splice_zero (block content : Bytes) :
    (splice block 0 content).drop content.length = block.drop content.length := by
  simp [splice]

/-- A terminated content spliced in at the start is the string read back. -/
theorem readString_terminated {content rest : Bytes} (no_nul : (0 : UInt8) ∉ content) :
    readString (content ++ 0 :: rest) = .ok content := by
  have clean : ∀ value ∈ content, decide (value ≠ 0) = true := by
    intro value member
    exact decide_eq_true fun zero => no_nul (zero ▸ member)
  rw [readString, if_pos (by simp), List.takeWhile_append_of_pos clean]
  simp

/-! ## Counted loops -/

/-- `count` rounds of a loop body at consecutive values of its index. -/
def iterate {σ : Type} (body : Int → σ → Checked σ) : Int → Nat → σ → Checked σ
  | _, 0, state => .ok state
  | index, count + 1, state => do
      let state ← body index state
      iterate body (index + 1) count state

/-- The loop `for (i = low; i < high; i++) body`. -/
def forLoop {σ : Type} (low high : Int) (body : Int → σ → Checked σ) (state : σ) :
    Checked σ :=
  iterate body low (high - low).toNat state

theorem forLoop_empty {σ : Type} {low high : Int} (empty : high ≤ low)
    (body : Int → σ → Checked σ) (state : σ) : forLoop low high body state = .ok state := by
  rw [forLoop, Int.toNat_of_nonpos (by omega)]
  rfl

/-- The invariant rule of counted loops. -/
theorem iterate_rule {σ : Type} (body : Int → σ → Checked σ) (invariant : Nat → σ → Prop)
    (low : Int) (count : Nat) (state : σ) (start : invariant 0 state)
    (round : ∀ done state, done < count → invariant done state →
      ∃ next, body (low + done) state = .ok next ∧ invariant (done + 1) next) :
    ∃ final, iterate body low count state = .ok final ∧ invariant count final := by
  induction count generalizing low state invariant with
  | zero => exact ⟨state, rfl, start⟩
  | succ count ih =>
      obtain ⟨next, step, kept⟩ := round 0 state (by omega) start
      have shifted : ∀ done state, done < count → invariant (done + 1) state →
          ∃ next, body (low + 1 + done) state = .ok next ∧ invariant (done + 1 + 1) next := by
        intro done state inside holds
        obtain ⟨after, body_eq, holds'⟩ := round (done + 1) state (by omega) holds
        refine ⟨after, ?_, holds'⟩
        rw [← body_eq]
        congr 1
        push_cast
        omega
      obtain ⟨final, rest, done⟩ :=
        ih (fun done => invariant (done + 1)) (low + 1) next kept shifted
      refine ⟨final, ?_, done⟩
      simp only [Int.natCast_zero, Int.add_zero] at step
      simp only [iterate, step, bind, Except.bind, rest]

/-- A loop that stores consecutive source bytes splices a prefix of the source in. -/
theorem forLoop_copy (source block : Bytes) (low count : Nat) (body : Int → Bytes → Checked Bytes)
    (readable : count ≤ source.length) (room : low + count ≤ block.length)
    (copies : ∀ done (_ : done < count) (inside : done < source.length) state,
      body ((low : Int) + done) state = store state ((low : Int) + done) source[done]) :
    forLoop low ((low : Int) + count) body block = .ok (splice block low (source.take count)) := by
  have rounds : ((low : Int) + count - low).toNat = count := by omega
  obtain ⟨final, run, result⟩ := iterate_rule body
    (fun done state => state = splice block low (source.take done)) low count block (by simp)
    (by
      rintro done state bounded rfl
      have inside : done < source.length := by omega
      have width : (source.take done).length = done := by simp; omega
      refine ⟨_, ?_, rfl⟩
      rw [copies done bounded inside, ← Int.natCast_add,
        store_eq_splice (by rw [length_splice (by omega)]; omega)]
      have joined := splice_splice_append block (source.take done) [source[done]]
        (by omega : low + (source.take done).length ≤ block.length)
      rw [width] at joined
      rw [joined, List.take_append_getElem inside])
  rw [forLoop, rounds, run, result]

end ApLabs.Foundation.CMemory
