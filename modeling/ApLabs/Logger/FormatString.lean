import ApLabs.Logger.Source

/-!
# What `formatString` builds

The two copy loops and the four fixed stores meet without a gap: the colon
lands on the terminator that the tag loop copied, and the blank on the byte
after it.  All indices are `int`, so the result depends on the narrowed lengths
and not on the lengths of the strings.
-/

namespace ApLabs.Logger

open ApLabs.Foundation.CMemory

/-- The bytes in front of the message. -/
def prefixOf (tag : CString) : Bytes := tag.bytes ++ bytes ": "

theorem length_prefixOf (tag : CString) : (prefixOf tag).length = strlen tag + 2 := by
  simp [prefixOf, strlen, bytes]

theorem prefixOf_no_nul (tag : CString) : (0 : UInt8) ∉ prefixOf tag := by
  have literal : (0 : UInt8) ∉ bytes ": " := by decide
  simp [prefixOf, tag.no_nul, literal]

/-- A line built from text without terminators has none. -/
theorem line_no_nul {front middle : Bytes} (front_clean : (0 : UInt8) ∉ front)
    (middle_clean : (0 : UInt8) ∉ middle) : (0 : UInt8) ∉ front ++ middle ++ [byte '\n'] := by
  have line_feed : (0 : UInt8) ≠ byte '\n' := by decide
  simp [front_clean, middle_clean, line_feed]

theorem take_no_nul {text : Bytes} (clean : (0 : UInt8) ∉ text) (count : Nat) :
    (0 : UInt8) ∉ text.take count := fun member => clean (List.mem_of_mem_take member)

theorem length_memory (text : CString) : text.memory.length = strlen text + 1 := by
  simp [CString.memory, strlen]

/-- The first loop copies the tag and its terminator. -/
theorem tagLoop_eq {s : Bytes} {tag : CString} (room : strlen tag + 1 ≤ s.length) :
    forLoop 0 (strlen tag + 1 : Int) (fun i s => do store s i (← load tag.memory i)) s =
      .ok (splice s 0 tag.memory) := by
  have size := length_memory tag
  have copied := forLoop_copy tag.memory s 0 (strlen tag + 1)
    (fun i s => do store s i (← load tag.memory i))
    (by omega) (by omega) (by
      intro done _ inside state
      simp [load_nat inside])
  rw [List.take_of_length_le (by omega)] at copied
  simpa using copied

/-- The second loop copies the first `count` bytes of the format. -/
theorem formatLoop_eq {s : Bytes} {format : CString} {low count : Nat}
    (readable : count ≤ strlen format) (room : low + count ≤ s.length)
    (small : (count : Int) ≤ INT_MAX) :
    forLoop low (low + count : Int)
        (fun i s => do store s i (← load format.memory (← int (i - low)))) s =
      .ok (splice s low (format.bytes.take count)) := by
  have copied := forLoop_copy format.bytes s low count
    (fun i s => do store s i (← load format.memory (← int (i - low))))
    readable room (by
      intro done bounded inside state
      have index : (low + done - low : Int) = done := by omega
      have within : done < format.memory.length := by
        rw [length_memory]
        exact Nat.lt_succ_of_lt inside
      have same : format.memory[done] = format.bytes[done] := by
        simp [CString.memory, List.getElem_append_left inside]
      simp only [index]
      rw [int_of_range (by unfold INT_MIN; omega) (by omega), ok_bind, load_nat within, ok_bind,
        same])
  exact copied

/-- The part of `formatString` from the format loop on. -/
def formatRest (s : Bytes) (format : CString) (ls lf : Int) : Checked Bytes := do
  let s ← forLoop lf (← int (ls + lf))
    (fun i s => do store s i (← load format.memory (← int (i - lf)))) s
  let s ← store s (← int (ls + lf)) (byte '\n')
  store s (← int ((← int (ls + lf)) + 1)) 0

/-- The stores up to the format loop leave exactly the prefix. -/
theorem formatString_eq_formatRest {s : Bytes} {format tag : CString} {ls : Int} {lf : Nat}
    (width : lf = strlen tag + 2) (room : lf ≤ s.length) (small : (lf : Int) ≤ INT_MAX) :
    formatString s format ls tag lf = formatRest (splice s 0 (prefixOf tag)) format ls lf := by
  have loopBound : int ((lf : Int) - 1) = .ok (strlen tag + 1 : Int) := by
    rw [int_of_range (by unfold INT_MIN; omega) (by omega)]
    congr 1
    omega
  have colonIndex : int ((lf : Int) - 2) = .ok (strlen tag : Int) := by
    rw [int_of_range (by unfold INT_MIN; omega) (by omega)]
    congr 1
    omega
  have colon : store (splice s 0 tag.memory) (strlen tag : Int) (byte ':') =
      .ok (splice s 0 (tag.bytes ++ [byte ':'])) := by
    have copied : (splice s 0 tag.memory).length = s.length :=
      length_splice (by rw [length_memory]; omega)
    have replaced := splice_overwrite_last s tag.bytes 0 (byte ':')
      (by simp only [strlen] at width; omega : 0 + tag.bytes.length + 1 ≤ s.length)
    rw [Nat.zero_add] at replaced
    rw [store_eq_splice (by omega), CString.memory, strlen, replaced]
  have blank : store (splice s 0 (tag.bytes ++ [byte ':'])) (strlen tag + 1 : Int) (byte ' ') =
      .ok (splice s 0 (prefixOf tag)) := by
    have behind : strlen tag + 1 = 0 + (tag.bytes ++ [byte ':']).length := by simp [strlen]
    have stored := store_behind_splice behind (by omega : strlen tag + 1 < s.length) (byte ' ')
    rw [List.append_assoc] at stored
    exact stored
  simp only [formatString, loopBound, colonIndex, ok_bind, tagLoop_eq (show strlen tag + 1 ≤
    s.length by omega), colon, blank, formatRest]

/-- The rest of the buffer is filled from where the prefix ends, up to its last store. -/
theorem formatRest_eq_store {s front : Bytes} {format : CString} {count lf : Nat}
    (width : front.length = lf) (readable : count ≤ strlen format)
    (room : count + lf + 1 ≤ s.length) (small : (count + lf + 1 : Int) ≤ INT_MAX) :
    formatRest (splice s 0 front) format count lf =
      store (splice s 0 (front ++ format.bytes.take count ++ [byte '\n']))
        ((lf + count + 1 : Nat) : Int) 0 := by
  have taken : (format.bytes.take count).length = count := by
    rw [List.length_take]
    exact Nat.min_eq_left readable
  have message : (front ++ format.bytes.take count).length = lf + count := by
    rw [List.length_append, width, taken]
  have top : int ((count : Int) + lf) = .ok ((lf + count : Nat) : Int) := by
    rw [int_of_range (by unfold INT_MIN; omega) (by omega)]
    congr 1
    omega
  have last : int (((lf + count : Nat) : Int) + 1) = .ok ((lf + count + 1 : Nat) : Int) := by
    rw [int_of_range (by unfold INT_MIN; omega) (by omega), Int.natCast_succ]
  have copied : forLoop (lf : Int) ((lf + count : Nat) : Int)
      (fun i s => do store s i (← load format.memory (← int (i - lf)))) (splice s 0 front) =
        .ok (splice s 0 (front ++ format.bytes.take count)) := by
    have joined := splice_splice_append s front (format.bytes.take count)
      (by omega : 0 + front.length ≤ s.length)
    rw [Nat.zero_add, width] at joined
    rw [← joined, Int.natCast_add]
    exact formatLoop_eq readable (by rw [length_splice (by omega)]; omega) (by omega)
  have fed : store (splice s 0 (front ++ format.bytes.take count)) ((lf + count : Nat) : Int)
      (byte '\n') = .ok (splice s 0 (front ++ format.bytes.take count ++ [byte '\n'])) :=
    store_behind_splice (by omega) (by omega) _
  simp only [formatRest, top, ok_bind, copied, fed, last]

theorem length_line {front : Bytes} {format : CString} {count lf : Nat}
    (width : front.length = lf) (readable : count ≤ strlen format) :
    (front ++ format.bytes.take count ++ [byte '\n']).length = lf + count + 1 := by
  rw [List.length_append, List.length_append, List.length_take, width, List.length_singleton]
  exact congrArg (lf + · + 1) (Nat.min_eq_left readable)

theorem formatRest_eq {s front : Bytes} {format : CString} {count lf : Nat}
    (width : front.length = lf) (readable : count ≤ strlen format)
    (room : count + lf + 2 ≤ s.length) (small : (count + lf + 1 : Int) ≤ INT_MAX) :
    formatRest (splice s 0 front) format count lf =
      .ok (splice s 0 (front ++ format.bytes.take count ++ [byte '\n', 0])) := by
  have line := length_line width readable
  rw [formatRest_eq_store width readable (by omega) small,
    store_behind_splice (by omega) (by omega), List.append_assoc]
  rfl

/-- With one byte less, the last store is outside the block. -/
theorem formatRest_overruns {s front : Bytes} {format : CString} {count lf : Nat}
    (width : front.length = lf) (readable : count ≤ strlen format)
    (room : count + lf + 1 = s.length) (small : (count + lf + 1 : Int) ≤ INT_MAX) :
    formatRest (splice s 0 front) format count lf = .error .bounds := by
  have line := length_line width readable
  rw [formatRest_eq_store width readable room.le small, store, length_splice (by omega)]
  exact if_neg (by omega)

/-- With room for every store and indices in range, the buffer holds the prefix,
the first `count` bytes of the format, a line feed and the terminator. -/
theorem formatString_eq {s : Bytes} {format tag : CString} {count lf : Nat}
    (width : lf = strlen tag + 2) (readable : count ≤ strlen format)
    (room : count + lf + 2 ≤ s.length) (small : (count + lf + 1 : Int) ≤ INT_MAX) :
    formatString s format count tag lf =
      .ok (splice s 0 (prefixOf tag ++ format.bytes.take count ++ [byte '\n', 0])) := by
  rw [formatString_eq_formatRest width (by omega) (by omega)]
  exact formatRest_eq (by rw [length_prefixOf, width]) readable room small

/-- In a block that is one byte too short the terminator has no place. -/
theorem formatString_overruns {s : Bytes} {format tag : CString} {count lf : Nat}
    (width : lf = strlen tag + 2) (readable : count ≤ strlen format)
    (room : count + lf + 1 = s.length) (small : (count + lf + 1 : Int) ≤ INT_MAX) :
    formatString s format count tag lf = .error .bounds := by
  rw [formatString_eq_formatRest width (by omega) (by omega)]
  exact formatRest_overruns (by rw [length_prefixOf, width]) readable room small

/-- The string in a buffer that `formatString` filled. -/
theorem readString_splice {s front middle : Bytes} (front_clean : (0 : UInt8) ∉ front)
    (middle_clean : (0 : UInt8) ∉ middle) :
    readString (splice s 0 (front ++ middle ++ [byte '\n', 0])) =
      .ok (front ++ middle ++ [byte '\n']) := by
  have shape : splice s 0 (front ++ middle ++ [byte '\n', 0]) =
      (front ++ middle ++ [byte '\n']) ++
        0 :: s.drop (front ++ middle ++ [byte '\n', 0]).length := by
    simp [splice]
  rw [shape, readString_terminated (line_no_nul front_clean middle_clean)]

/-- A run that stays defined keeps its last index in range. -/
theorem formatRest_range {s result : Bytes} {format : CString} {ls lf : Int}
    (done : formatRest s format ls lf = .ok result) : ls + lf + 1 ≤ INT_MAX ∧ 0 ≤ ls + lf := by
  simp only [formatRest, bind_eq_ok, int_eq_ok, store_eq_ok] at done
  obtain ⟨_, ⟨_, rfl⟩, _, _, _, ⟨_, rfl⟩, _, ⟨range, -⟩, _, ⟨_, rfl⟩, _, ⟨bound, rfl⟩, -⟩ := done
  exact ⟨bound.2, range.1⟩

/-- From a negative narrowed length the string ends inside the prefix. -/
theorem formatRest_negative {s front result : Bytes} {format : CString} {ls : Int} {lf : Nat}
    (width : front.length = lf) (room : lf < s.length) (no_nul : (0 : UInt8) ∉ front)
    (negative : ls < 0) (done : formatRest (splice s 0 front) format ls lf = .ok result) :
    readString result = .ok (front.take (ls + lf).toNat ++ [byte '\n']) := by
  obtain ⟨-, nonneg⟩ := formatRest_range done
  obtain ⟨stop, top⟩ : ∃ stop : Nat, ls + lf = stop := ⟨(ls + lf).toNat, by omega⟩
  have size : (splice s 0 front).length = s.length := length_splice (by omega)
  simp only [formatRest, bind_eq_ok, int_eq_ok, top] at done
  obtain ⟨_, ⟨_, rfl⟩, block, loop, _, ⟨_, rfl⟩, fed, feed, _, ⟨_, rfl⟩, _, ⟨_, rfl⟩, ended⟩ := done
  rw [forLoop_empty (by omega)] at loop
  obtain rfl := Except.ok.inj loop
  rw [store_eq_splice (by omega)] at feed
  obtain rfl := Except.ok.inj feed
  rw [← Int.natCast_succ, store_behind_splice (by simp) (by omega)] at ended
  obtain rfl := Except.ok.inj ended
  have inside : stop ≤ front.length := by omega
  have clean := line_no_nul (take_no_nul no_nul stop) (List.not_mem_nil (a := 0))
  rw [List.append_nil] at clean
  rw [top, Int.toNat_natCast, splice, take_splice_zero inside]
  have shape : ∀ rest : Bytes, front.take stop ++ ([byte '\n'] ++ [0] ++ rest) =
      (front.take stop ++ [byte '\n']) ++ 0 :: rest := by simp
  rw [shape, readString_terminated clean]

/-- The buffer holds exactly the line and its terminator, whatever it held before, and
nothing behind them is touched. -/
theorem formatString_fills (s : Bytes) (format tag : CString)
    (room : strlen format + (strlen tag + 2) + 2 ≤ s.length)
    (small : (strlen format + (strlen tag + 2) + 1 : Int) ≤ INT_MAX) :
    ∃ filled, formatString s format (strlen format) tag (strlen tag + 2 : Nat) = .ok filled ∧
      readString filled = .ok (tag.bytes ++ bytes ": " ++ format.bytes ++ bytes "\n") ∧
      filled.length = s.length ∧
      filled.take (strlen format + (strlen tag + 2) + 2) =
        tag.bytes ++ bytes ": " ++ format.bytes ++ bytes "\n" ++ [0] ∧
      (0 : UInt8) ∉ filled.take (strlen format + (strlen tag + 2) + 1) ∧
      filled.drop (strlen format + (strlen tag + 2) + 2) =
        s.drop (strlen format + (strlen tag + 2) + 2) := by
  have built := formatString_eq rfl (Nat.le_refl (strlen format)) room (by push_cast; omega)
  have line := length_line (length_prefixOf tag) (Nat.le_refl (strlen format))
  have complete : format.bytes.take (strlen format) = format.bytes := List.take_length
  rw [complete] at built line
  rw [Nat.add_comm (strlen tag + 2)] at line
  have clean := line_no_nul (prefixOf_no_nul tag) format.no_nul
  have shape : prefixOf tag ++ format.bytes ++ [byte '\n', 0] =
      prefixOf tag ++ format.bytes ++ [byte '\n'] ++ [0] := by simp
  have whole : (prefixOf tag ++ format.bytes ++ [byte '\n', 0]).length =
      strlen format + (strlen tag + 2) + 2 := by
    rw [shape, List.length_append, line]
    rfl
  refine ⟨_, built, readString_splice (prefixOf_no_nul tag) format.no_nul, ?_, ?_, ?_, ?_⟩
  · exact length_splice (by omega)
  · rw [take_splice_zero whole.ge, ← whole, List.take_length, shape]
    rfl
  · rw [take_splice_zero (by omega), shape, ← line, List.take_left]
    exact clean
  · rw [← whole]
    exact drop_splice_zero s _

theorem formatString_fills_block :
    ∃ filled, formatString (List.replicate 12 7) ⟨bytes "hi", by decide⟩ 2 ⟨bytes "ab", by decide⟩ 4
        = .ok filled ∧
      readString filled = .ok (bytes "ab: hi\n") := by
  obtain ⟨filled, built, read, -⟩ := formatString_fills (List.replicate 12 7)
    ⟨bytes "hi", by decide⟩ ⟨bytes "ab", by decide⟩ (by decide) (by decide)
  exact ⟨filled, built, read⟩

end ApLabs.Logger
