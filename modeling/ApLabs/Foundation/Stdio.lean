import ApLabs.Foundation.CMemory

/-!
# Buffered streams

An input stream is a buffer and the results of the reads to come, any of which may
be an error; an output stream is a buffer in front of a device that may refuse a
part of what is flushed.  Both fail silently: a failed read looks like the end of
the file, and a failed flush shows in the error indicator only.
-/

namespace ApLabs.Foundation.Stdio

open ApLabs.Foundation.CMemory

def EOF : Int := -1

/-! ## Input -/

/-- The result of one read before the end of the file; it transfers at least one byte
unless it fails. -/
inductive Read where
  | data (first : UInt8) (rest : Bytes)
  | error
  deriving DecidableEq, Repr

/-- All bytes of a file, whatever fails while it is read. -/
def contents : List Read → Bytes
  | [] => []
  | .data first rest :: reads => first :: rest ++ contents reads
  | .error :: reads => contents reads

/-- The bytes in front of the first failed read. -/
def delivered : List Read → Bytes
  | [] => []
  | .data first rest :: reads => first :: rest ++ delivered reads
  | .error :: _ => []

/-- No read fails while bytes of the file are left. -/
def ReadsThrough : List Read → Prop
  | [] => True
  | .data _ _ :: reads => ReadsThrough reads
  | .error :: reads => contents reads = []

/-- The reads that are still to come; none is left at the end of the file. -/
structure Input where
  buffer : Bytes
  reads : List Read

/-- The next byte, or `EOF` at the end of the file and after a failed read. -/
def getc : Input → Int × Input
  | ⟨c :: buffer, reads⟩ => (c.toNat, ⟨buffer, reads⟩)
  | ⟨[], []⟩ => (EOF, ⟨[], []⟩)
  | ⟨[], .data first rest :: reads⟩ => (first.toNat, ⟨rest, reads⟩)
  | ⟨[], .error :: reads⟩ => (EOF, ⟨[], reads⟩)

namespace Input

def size (input : Input) : Nat := input.buffer.length + (contents input.reads).length

/-- What `getc` returns before its first `EOF`. -/
def delivered (input : Input) : Bytes := input.buffer ++ Stdio.delivered input.reads

/-- Every byte differs from `EOF`, also `0xFF` and the terminator. -/
theorem byte_ne_eof (c : UInt8) : (c.toNat : Int) ≠ EOF := by
  unfold EOF
  omega

/-- A stream either ends or yields the first byte of what it delivers. -/
theorem getc_cases (input : Input) :
    ((getc input).1 = EOF ∧ input.delivered = []) ∨
      ∃ c : UInt8, (getc input).1 = c.toNat ∧ input.delivered = c :: (getc input).2.delivered ∧
        (getc input).2.size < input.size := by
  obtain ⟨buffer, reads⟩ := input
  cases buffer with
  | cons c buffer =>
      refine Or.inr ⟨c, rfl, rfl, ?_⟩
      simp only [getc, size, List.length_cons]
      omega
  | nil =>
      cases reads with
      | nil => exact Or.inl ⟨rfl, rfl⟩
      | cons read reads =>
          cases read with
          | error => exact Or.inl ⟨rfl, rfl⟩
          | data first rest =>
              refine Or.inr ⟨first, rfl, rfl, ?_⟩
              simp only [getc, size, contents, List.cons_append, List.length_cons,
                List.length_append, List.length_nil]
              omega

theorem getc_size {input : Input} (more : (getc input).1 ≠ EOF) :
    (getc input).2.size < input.size := by
  rcases input.getc_cases with ⟨ended, -⟩ | ⟨c, -, -, less⟩
  · exact absurd ended more
  · exact less

end Input

theorem delivered_part (reads : List Read) : delivered reads <+: contents reads := by
  induction reads with
  | nil => exact List.prefix_rfl
  | cons read reads ih =>
      cases read with
      | data first rest => exact (List.prefix_append_right_inj (first :: rest)).mpr ih
      | error => exact List.nil_prefix

/-- What is delivered is the whole file exactly when no read fails too early. -/
theorem delivered_eq_contents {reads : List Read} :
    delivered reads = contents reads ↔ ReadsThrough reads := by
  induction reads with
  | nil => exact iff_of_true rfl trivial
  | cons read reads ih =>
      cases read with
      | data first rest =>
          rw [delivered, contents, List.append_cancel_left_eq]
          exact ih
      | error => exact eq_comm

/-! ## Output -/

/-- How a device behaves: after which bytes a stream is flushed, how many bytes each
flush transfers before a write fails, if one does, and the same for the flush at exit. -/
structure Device where
  flushes : Nat → Bool
  accepts : Nat → Option Nat
  atExit : Option Nat

/-- The device takes so many bytes without a failure. -/
def Takes (capacity : Option Nat) (size : Nat) : Prop := ∀ most ∈ capacity, size ≤ most

instance (capacity : Option Nat) (size : Nat) : Decidable (Takes capacity size) :=
  inferInstanceAs (Decidable (∀ most ∈ capacity, size ≤ most))

/-- `received` has reached the descriptor; `put` counts the calls of `putc`. -/
structure Output where
  put : Nat
  received : Bytes
  buffer : Bytes
  error : Bool

namespace Output

def fresh : Output := ⟨0, [], [], false⟩

/-- A flush that fails sets the error indicator, which nothing resets, and keeps what
it did not transfer. -/
def flush (capacity : Option Nat) (out : Output) : Output :=
  if Takes capacity out.buffer.length then
    { out with received := out.received ++ out.buffer, buffer := [] }
  else
    { out with
      received := out.received ++ out.buffer.take (capacity.getD 0)
      buffer := out.buffer.drop (capacity.getD 0)
      error := true }

/-- The byte, converted to `unsigned char`, goes into the buffer. -/
def putc (device : Device) (c : Int) (out : Output) : Output :=
  let out := { out with put := out.put + 1, buffer := out.buffer ++ [(c % 256).toNat.toUInt8] }
  if device.flushes out.put then out.flush (device.accepts out.put) else out

end Output

namespace Device

/-- The bytes in the buffer after so many calls of `putc`, if no flush has failed. -/
def pending (device : Device) : Nat → Nat
  | 0 => 0
  | put + 1 => if device.flushes (put + 1) then 0 else device.pending put + 1

/-- No flush that one of the first calls of `putc` makes fails. -/
def Accepts (device : Device) (put : Nat) : Prop :=
  ∀ earlier < put, device.flushes (earlier + 1) = true →
    Takes (device.accepts (earlier + 1)) (device.pending earlier + 1)

theorem accepts_succ {device : Device} {put : Nat} :
    device.Accepts (put + 1) ↔ device.Accepts put ∧ (device.flushes (put + 1) = true →
      Takes (device.accepts (put + 1)) (device.pending put + 1)) :=
  Nat.forall_lt_succ_right

end Device

namespace Output

variable {device : Device} {text : Bytes} {out : Output}

/-- A flush neither loses nor repeats a byte. -/
theorem flush_join (capacity : Option Nat) (out : Output) :
    (out.flush capacity).received ++ (out.flush capacity).buffer = out.received ++ out.buffer := by
  unfold flush
  split
  · exact List.append_nil _
  · rw [List.append_assoc, List.take_append_drop]

theorem flush_put (capacity : Option Nat) (out : Output) : (out.flush capacity).put = out.put := by
  unfold flush
  split <;> rfl

theorem flush_error {capacity : Option Nat} :
    (out.flush capacity).error = false ↔
      out.error = false ∧ Takes capacity out.buffer.length := by
  unfold flush
  split
  next taken => exact (and_iff_left taken).symm
  next refused => exact iff_of_false nofun fun both => refused both.2

theorem flush_buffer {capacity : Option Nat} (taken : Takes capacity out.buffer.length) :
    (out.flush capacity).buffer = [] := by
  rw [flush, if_pos taken]

/-- What is known of a fresh stream once this text was put. -/
structure After (device : Device) (text : Bytes) (out : Output) : Prop where
  put : out.put = text.length
  join : out.received ++ out.buffer = text
  error : out.error = false ↔ device.Accepts text.length
  pending : out.error = false → out.buffer.length = device.pending text.length

theorem after_fresh (device : Device) : After device [] fresh :=
  ⟨rfl, rfl, iff_of_true rfl fun _ less => absurd less (Nat.not_lt_zero _), fun _ => rfl⟩

theorem toUInt8_byte (c : UInt8) : ((c.toNat : Int) % 256).toNat.toUInt8 = c := by
  have small := c.toNat_lt
  have same : ((c.toNat : Int) % 256).toNat = c.toNat := by omega
  rw [same]
  exact UInt8.ofNat_toNat

theorem After.putc (after : After device text out) (c : UInt8) :
    After device (text ++ [c]) (out.putc device c.toNat) := by
  obtain ⟨put, join, error, pending⟩ := after
  have count : (text ++ [c]).length = text.length + 1 := List.length_append
  have filled : out.error = false →
      (out.buffer ++ [c]).length = device.pending text.length + 1 := by
    intro ok
    rw [List.length_append, pending ok, List.length_singleton]
  unfold Output.putc
  simp only [toUInt8_byte, put]
  split
  next flushes =>
    refine ⟨?_, ?_, ?_, ?_⟩
    · rw [flush_put, count]
    · rw [flush_join]
      simp only
      rw [← List.append_assoc, join]
    · rw [count, flush_error, Device.accepts_succ, ← error]
      refine and_congr_right fun ok => ?_
      simp only
      rw [filled ok, imp_iff_right flushes]
    · intro ok
      rw [flush_buffer (flush_error.mp ok).2, count, Device.pending, if_pos flushes]
      rfl
  next stays =>
    refine ⟨count.symm, ?_, ?_, ?_⟩
    · simp only
      rw [← List.append_assoc, join]
    · rw [count, Device.accepts_succ, ← error]
      exact (and_iff_left fun flushes => absurd flushes stays).symm
    · intro ok
      rw [count, Device.pending, if_neg stays]
      exact filled ok

/-- A last flush passes on a part of the text, and all of them exactly when it is not
refused. -/
theorem After.flush_received (after : After device text out) (capacity : Option Nat) :
    (out.flush capacity).received <+: text ∧
      ((out.flush capacity).received = text ↔ Takes capacity out.buffer.length) := by
  have join := (flush_join capacity out).trans after.join
  refine ⟨⟨_, join⟩, ?_⟩
  constructor
  · intro all
    by_contra refused
    have rest : (out.flush capacity).buffer = [] := by
      rw [all] at join
      exact List.append_right_eq_self.mp join
    rw [flush, if_neg refused] at rest
    simp only [Takes, not_forall] at refused
    obtain ⟨most, rfl, less⟩ := refused
    exact less (List.drop_eq_nil_iff.mp rest)
  · intro taken
    rw [flush_buffer taken, List.append_nil] at join
    exact join

end Output

end ApLabs.Foundation.Stdio
