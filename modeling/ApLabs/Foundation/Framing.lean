import Mathlib.Data.List.Basic

/-!
# Framed streams

Records are sent one after another, each followed by a separator that occurs in
none of them.  Splitting at the separator gives the records back, and with a parser
that reads each record back the whole stream is decoded.
-/

namespace ApLabs.Foundation.Framing

variable {α ρ : Type} [DecidableEq α] (sep : α)

/-- Each record with its separator. -/
def frame (records : List (List α)) : List α :=
  records.flatMap (· ++ [sep])

/-- The records of a stream; `none` when the last one has no separator. -/
def unframe (stream : List α) : Option (List (List α)) :=
  let parts := stream.splitOn sep
  if parts.getLast? = some [] then some parts.dropLast else none

/-- A stream is decoded when each of its records is read. -/
def decode (parse : List α → Option ρ) (stream : List α) : Option (List ρ) := do
  (← unframe sep stream).mapM parse

/-- The part in front of the first separator, and the rest from there on. -/
def cut (text : List α) : List α × List α :=
  (text.takeWhile (· ≠ sep), text.dropWhile (· ≠ sep))

variable {sep}

theorem splitOn_frame {records : List (List α)} (clean : ∀ record ∈ records, sep ∉ record)
    (rest : List α) :
    (frame sep records ++ rest).splitOn sep = records ++ rest.splitOn sep := by
  induction records with
  | nil => rfl
  | cons record records ih =>
      obtain ⟨head, tail⟩ := List.forall_mem_cons.mp clean
      have shape : frame sep (record :: records) ++ rest =
          record ++ sep :: (frame sep records ++ rest) := by
        simp [frame]
      rw [shape, List.splitOn_append_cons_self_of_not_mem head, ih tail, List.cons_append]

theorem unframe_frame {records : List (List α)} (clean : ∀ record ∈ records, sep ∉ record) :
    unframe sep (frame sep records) = some records := by
  have split := splitOn_frame clean []
  rw [List.append_nil, List.splitOn_nil] at split
  simp [unframe, split]

/-- A stream of rendered records is decoded to these records. -/
theorem decode_frame {parse : List α → Option ρ} {render : ρ → List α} {records : List ρ}
    (clean : ∀ record ∈ records, sep ∉ render record)
    (parsed : ∀ record ∈ records, parse (render record) = some record) :
    decode sep parse (frame sep (records.map render)) = some records := by
  have all : (records.map render).mapM parse = some records := by
    clear clean
    induction records with
    | nil => rfl
    | cons record records ih =>
        obtain ⟨head, tail⟩ := List.forall_mem_cons.mp parsed
        rw [List.map_cons, List.mapM_cons, head, ih tail]
        rfl
  rw [decode, unframe_frame (List.forall_mem_map.mpr clean)]
  exact all

/-! ## Unfinished streams -/

/-- The records that are complete. -/
def lines (sep : α) (stream : List α) : List (List α) := (stream.splitOn sep).dropLast

/-- What follows the last separator. -/
def unfinished (sep : α) (stream : List α) : List α := (stream.splitOn sep).getLast?.getD []

theorem exists_frame (sep : α) (stream : List α) :
    ∃ records last, (∀ record ∈ records, sep ∉ record) ∧ sep ∉ last ∧
      stream = frame sep records ++ last := by
  induction stream with
  | nil => exact ⟨[], [], by simp, by simp, rfl⟩
  | cons letter stream ih =>
      obtain ⟨records, last, clean, unended, rfl⟩ := ih
      by_cases same : letter = sep
      · exact ⟨[] :: records, last, by simpa using clean, unended, by simp [frame, same]⟩
      · cases records with
        | nil =>
            refine ⟨[], letter :: last, by simp, ?_, rfl⟩
            simpa [Ne.symm same] using unended
        | cons record records =>
            refine ⟨(letter :: record) :: records, last, ?_, unended, rfl⟩
            simpa [Ne.symm same] using clean

theorem lines_frame {records : List (List α)} {last : List α}
    (clean : ∀ record ∈ records, sep ∉ record) (unended : sep ∉ last) :
    lines sep (frame sep records ++ last) = records := by
  rw [lines, splitOn_frame clean, List.splitOn_eq_singleton unended, List.dropLast_concat]

theorem unfinished_frame {records : List (List α)} {last : List α}
    (clean : ∀ record ∈ records, sep ∉ record) (unended : sep ∉ last) :
    unfinished sep (frame sep records ++ last) = last := by
  rw [unfinished, splitOn_frame clean, List.splitOn_eq_singleton unended, List.getLast?_concat,
    Option.getD_some]

theorem frame_lines (sep : α) (stream : List α) :
    frame sep (lines sep stream) ++ unfinished sep stream = stream := by
  obtain ⟨records, last, clean, unended, rfl⟩ := exists_frame sep stream
  rw [lines_frame clean unended, unfinished_frame clean unended]

theorem lines_clean (sep : α) (stream : List α) : ∀ record ∈ lines sep stream, sep ∉ record := by
  obtain ⟨records, last, clean, unended, rfl⟩ := exists_frame sep stream
  rw [lines_frame clean unended]
  exact clean

theorem unfinished_clean (sep : α) (stream : List α) : sep ∉ unfinished sep stream := by
  obtain ⟨records, last, clean, unended, rfl⟩ := exists_frame sep stream
  rw [unfinished_frame clean unended]
  exact unended

/-- What comes later neither changes nor splits a complete record. -/
theorem lines_append (sep : α) (first second : List α) :
    lines sep (first ++ second) =
      lines sep first ++ lines sep (unfinished sep first ++ second) := by
  obtain ⟨records, last, clean, unended, rfl⟩ := exists_frame sep first
  obtain ⟨more, rest, clean', unended', later⟩ := exists_frame sep (last ++ second)
  have whole : frame sep records ++ last ++ second = frame sep (records ++ more) ++ rest := by
    rw [List.append_assoc, later, frame, frame, frame, List.flatMap_append, List.append_assoc]
  have both : ∀ record ∈ records ++ more, sep ∉ record := by
    intro record among
    rcases List.mem_append.mp among with early | late
    · exact clean record early
    · exact clean' record late
  rw [whole, lines_frame both unended', lines_frame clean unended, unfinished_frame clean unended,
    later, lines_frame clean' unended']

theorem lines_mono (sep : α) {first second : List α} (earlier : first <+: second) :
    lines sep first <+: lines sep second := by
  obtain ⟨rest, rfl⟩ := earlier
  rw [lines_append]
  exact List.prefix_append _ _

theorem lines_of_prefix_frame {stream : List α} {records : List (List α)}
    (clean : ∀ record ∈ records, sep ∉ record) (part : stream <+: frame sep records) :
    lines sep stream <+: records := by
  have whole := lines_frame clean (List.not_mem_nil (a := sep))
  rw [List.append_nil] at whole
  exact whole ▸ lines_mono sep part

theorem mem_splitOn_of_lines {stream record : List α} (among : record ∈ lines sep stream) :
    record ∈ stream.splitOn sep :=
  (List.dropLast_sublist _).subset among

/-- What is unfinished is the beginning of a part of every longer stream. -/
theorem unfinished_begins (sep : α) {first second : List α} (earlier : first <+: second) :
    ∃ record ∈ second.splitOn sep, unfinished sep first <+: record := by
  obtain ⟨later, rfl⟩ := earlier
  obtain ⟨records, last, clean, unended, rfl⟩ := exists_frame sep first
  obtain ⟨more, rest, clean', unended', rfl⟩ := exists_frame sep later
  rw [unfinished_frame clean unended, List.append_assoc, splitOn_frame clean]
  cases more with
  | nil =>
      have plain : sep ∉ last ++ rest := by simp [unended, unended']
      refine ⟨last ++ rest, List.mem_append_right _ ?_, List.prefix_append _ _⟩
      rw [frame, List.flatMap_nil, List.nil_append, List.splitOn_eq_singleton plain]
      exact List.mem_singleton_self _
  | cons record more =>
      obtain ⟨head, tail⟩ := List.forall_mem_cons.mp clean'
      have shape : last ++ (frame sep (record :: more) ++ rest) =
          frame sep ((last ++ record) :: more) ++ rest := by simp [frame]
      have all : ∀ part ∈ (last ++ record) :: more, sep ∉ part :=
        List.forall_mem_cons.mpr ⟨by simp [unended, head], tail⟩
      refine ⟨last ++ record, List.mem_append_right _ ?_, List.prefix_append _ _⟩
      rw [shape, splitOn_frame all]
      exact List.mem_append_left _ List.mem_cons_self

theorem cut_join (sep : α) (text : List α) : (cut sep text).1 ++ (cut sep text).2 = text :=
  List.takeWhile_append_dropWhile

theorem cut_append {word : List α} (clean : sep ∉ word) (rest : List α) :
    cut sep (word ++ sep :: rest) = (word, sep :: rest) := by
  have other : ∀ letter ∈ word, decide (letter ≠ sep) = true := by
    intro letter member
    exact decide_eq_true fun same => clean (same ▸ member)
  rw [cut, List.takeWhile_append_of_pos other, List.dropWhile_append_of_pos other]
  simp

end ApLabs.Foundation.Framing
