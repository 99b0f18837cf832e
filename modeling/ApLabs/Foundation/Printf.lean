import ApLabs.Foundation.CMemory

/-!
# The printf format language

A format is scanned once from left to right.  Outside a conversion
specification a byte is copied; a `%` opens a specification, which is read as
flags, width, precision and length modifier up to its conversion character.
The conversions `n` and `m` and positional arguments are not part of the
language.  What one specification prints is a parameter: rendering fixes only
that literal bytes are copied, that each specification takes its own arguments,
and that the arguments are taken in order.
-/

namespace ApLabs.Foundation.Printf

open ApLabs.Foundation.CMemory

/-! ## Conversion specifications -/

/-- The part of a specification that has been read last. -/
inductive Stage where
  | flags
  | width
  | widthStar
  | point
  | precision
  | precisionStar
  | modifier (first : UInt8)
  | modified
  deriving DecidableEq, Repr

/-- A complete specification: its bytes between `%` and the conversion
character, the number of `*` among them, and the conversion character. -/
structure Spec where
  options : Bytes
  stars : Nat
  conversion : UInt8
  deriving DecidableEq, Repr

/-- Each `*` takes an argument, and so does every conversion except `%%`. -/
def Spec.arity (spec : Spec) : Nat :=
  spec.stars + if spec.conversion = byte '%' then 0 else 1

/-- A specification that is still being read. -/
structure Partial where
  stage : Stage
  options : Bytes
  stars : Nat
  deriving DecidableEq, Repr

def Partial.start : Partial := ⟨.flags, [], 0⟩

def isFlag (c : UInt8) : Bool := bytes "-+ #0'" |>.contains c

def isDigit (c : UInt8) : Bool := bytes "0123456789" |>.contains c

def isModifier (c : UInt8) : Bool := bytes "hlLjzt" |>.contains c

def isConversion (c : UInt8) : Bool := bytes "diouxXeEfFgGaAcCsSp%" |>.contains c

/-- Only `hh` and `ll` are modifiers of two characters. -/
def doubles (first second : UInt8) : Bool :=
  first = second && (first = byte 'h' || first = byte 'l')

/-- The stage after one more byte that does not end the specification. -/
def Stage.next? (stage : Stage) (c : UInt8) : Option Stage :=
  match stage with
  | .flags =>
      if isFlag c then some .flags
      else if isDigit c then some .width
      else if c = byte '*' then some .widthStar
      else if c = byte '.' then some .point
      else if isModifier c then some (.modifier c)
      else none
  | .width =>
      if isDigit c then some .width
      else if c = byte '.' then some .point
      else if isModifier c then some (.modifier c)
      else none
  | .widthStar =>
      if c = byte '.' then some .point
      else if isModifier c then some (.modifier c)
      else none
  | .point =>
      if isDigit c then some .precision
      else if c = byte '*' then some .precisionStar
      else if isModifier c then some (.modifier c)
      else none
  | .precision =>
      if isDigit c then some .precision
      else if isModifier c then some (.modifier c)
      else none
  | .precisionStar => if isModifier c then some (.modifier c) else none
  | .modifier first => if doubles first c then some .modified else none
  | .modified => none

/-- One more byte of a specification completes it, extends it, or is wrong. -/
inductive Feed where
  | done (spec : Spec)
  | more (unfinished : Partial)
  | wrong

def Partial.feed (unfinished : Partial) (c : UInt8) : Feed :=
  if isConversion c then .done ⟨unfinished.options, unfinished.stars, c⟩
  else
    match unfinished.stage.next? c with
    | some stage =>
        .more ⟨stage, unfinished.options ++ [c],
          unfinished.stars + if c = byte '*' then 1 else 0⟩
    | none => .wrong

/-- A line feed belongs to no specification. -/
theorem Partial.feed_newline (unfinished : Partial) :
    unfinished.feed (byte '\n') = .wrong := by
  obtain ⟨stage, options, stars⟩ := unfinished
  have plain : isConversion (byte '\n') = false := by decide
  have stuck : stage.next? (byte '\n') = none := by
    cases stage with
    | modifier first =>
        have differ : doubles first (byte '\n') = false := by
          by_cases same : first = byte '\n'
          · subst same
            decide
          · simp [doubles, same]
        simp [Stage.next?, differ]
    | _ => decide
  simp [Partial.feed, plain, stuck]

/-! ## Scanning -/

inductive Piece where
  | lit (c : UInt8)
  | conv (spec : Spec)
  deriving DecidableEq, Repr

inductive Mode where
  | literal
  | inside (unfinished : Partial)

def scan : Mode → Bytes → Option (List Piece)
  | .literal, [] => some []
  | .inside _, [] => none
  | .literal, c :: rest =>
      if c = byte '%' then scan (.inside .start) rest
      else (scan .literal rest).map (.lit c :: ·)
  | .inside unfinished, c :: rest =>
      match unfinished.feed c with
      | .done spec => (scan .literal rest).map (.conv spec :: ·)
      | .more unfinished => scan (.inside unfinished) rest
      | .wrong => none

/-- The pieces of a format; `none` when a `%` starts no complete specification. -/
def parse (format : Bytes) : Option (List Piece) := scan .literal format

/-- After a complete part the scan continues as at the start of a format. -/
theorem scan_append {mode : Mode} {front : Bytes} {pieces : List Piece}
    (complete : scan mode front = some pieces) (rest : Bytes) :
    scan mode (front ++ rest) = (parse rest).map (pieces ++ ·) := by
  induction front generalizing mode pieces with
  | nil =>
      cases mode with
      | literal =>
          obtain rfl : [] = pieces := Option.some.inj complete
          simp [parse]
      | inside unfinished => cases complete
  | cons c front ih =>
      cases mode with
      | literal =>
          by_cases opens : c = byte '%'
          · simp only [scan, opens, if_true, List.cons_append] at complete ⊢
            exact ih complete
          · simp only [scan, opens, if_false, List.cons_append, Option.map_eq_some_iff]
              at complete ⊢
            obtain ⟨tail, scanned, rfl⟩ := complete
            rw [ih scanned]
            cases parse rest <;> simp
      | inside unfinished =>
          simp only [scan, List.cons_append] at complete ⊢
          cases fed : unfinished.feed c with
          | done spec =>
              simp only [fed, Option.map_eq_some_iff] at complete ⊢
              obtain ⟨tail, scanned, rfl⟩ := complete
              rw [ih scanned]
              cases parse rest <;> simp
          | more unfinished =>
              simp only [fed] at complete ⊢
              exact ih complete
          | wrong => simp only [fed, reduceCtorEq] at complete

/-- A final line feed never completes a specification that was cut short. -/
theorem scan_newline (mode : Mode) (format : Bytes) :
    scan mode (format ++ [byte '\n']) =
      (scan mode format).map (· ++ [.lit (byte '\n')]) := by
  induction format generalizing mode with
  | nil =>
      cases mode with
      | literal => rfl
      | inside unfinished => simp [scan, Partial.feed_newline]
  | cons c format ih =>
      cases mode with
      | literal =>
          by_cases opens : c = byte '%'
          · simp only [scan, opens, if_true, List.cons_append, ih]
          · simp only [scan, opens, if_false, List.cons_append, ih]
            cases scan .literal format <;> simp
      | inside unfinished =>
          simp only [scan, List.cons_append]
          cases unfinished.feed c with
          | done spec =>
              simp only [ih]
              cases scan .literal format <;> simp
          | more unfinished => exact ih _
          | wrong => rfl

theorem parse_append {front : Bytes} {pieces : List Piece} (complete : parse front = some pieces)
    (rest : Bytes) : parse (front ++ rest) = (parse rest).map (pieces ++ ·) :=
  scan_append complete rest

/-- Bytes without a `%` are copied. -/
theorem parse_plain {plain : Bytes} (no_percent : byte '%' ∉ plain) :
    parse plain = some (plain.map .lit) := by
  induction plain with
  | nil => rfl
  | cons c plain ih =>
      obtain ⟨head, tail⟩ : byte '%' ≠ c ∧ byte '%' ∉ plain := by
        simpa [not_or] using no_percent
      have parsed := ih tail
      simp only [parse] at parsed
      simp only [parse, scan, Ne.symm head, if_false, parsed, Option.map_some, List.map_cons]

/-- An open specification ends in at least one piece. -/
theorem scan_inside_ne_nil {unfinished : Partial} {rest : Bytes} :
    scan (.inside unfinished) rest ≠ some [] := by
  induction rest generalizing unfinished with
  | nil => exact nofun
  | cons c rest ih =>
      simp only [scan]
      cases unfinished.feed c with
      | done spec => cases scan .literal rest <;> simp
      | more unfinished => exact ih
      | wrong => exact nofun

/-- Only the empty format has no pieces. -/
theorem parse_eq_nil {format : Bytes} (empty : parse format = some []) : format = [] := by
  cases format with
  | nil => rfl
  | cons c rest =>
      exfalso
      simp only [parse, scan] at empty
      split at empty
      · exact scan_inside_ne_nil empty
      · cases scanned : scan .literal rest <;> simp [scanned] at empty

/-! ## Rendering -/

section Rendering

variable {Arg : Type}

/-- What a format prints, and which arguments its specifications took. -/
@[ext] structure Rendering (Arg : Type) where
  out : Bytes
  taken : List (Spec × List Arg)
  deriving DecidableEq

namespace Rendering

def empty : Rendering Arg := ⟨[], []⟩

def append (first second : Rendering Arg) : Rendering Arg :=
  ⟨first.out ++ second.out, first.taken ++ second.taken⟩

/-- Literal bytes around a rendering take no arguments. -/
def wrap (before : Bytes) (middle : Rendering Arg) (after : Bytes) : Rendering Arg :=
  ⟨before ++ middle.out ++ after, middle.taken⟩

end Rendering

variable (convert : Spec → List Arg → Option Bytes)

/-- Literal bytes are copied and each specification takes its own arguments;
too few arguments, or arguments that a specification rejects, are undefined. -/
def render : List Piece → List Arg → Option (Rendering Arg)
  | [], _ => some .empty
  | .lit c :: pieces, args =>
      (render pieces args).map fun rest => ⟨c :: rest.out, rest.taken⟩
  | .conv spec :: pieces, args =>
      if args.length < spec.arity then none
      else do
        let out ← convert spec (args.take spec.arity)
        let rest ← render pieces (args.drop spec.arity)
        some ⟨out ++ rest.out, (spec, args.take spec.arity) :: rest.taken⟩

/-- The number of arguments that the pieces consume. -/
def arity : List Piece → Nat
  | [] => 0
  | .lit _ :: pieces => arity pieces
  | .conv spec :: pieces => spec.arity + arity pieces

/-- The printf family: scan the format, then render its pieces. -/
def vprintf (format : Bytes) (args : List Arg) : Option (Rendering Arg) :=
  (parse format).bind fun pieces => render convert pieces args

/-- Formats are rendered from left to right, each part with its own arguments. -/
theorem render_append (first second : List Piece) (args : List Arg) :
    render convert (first ++ second) args =
      (render convert first args).bind fun front =>
        (render convert second (args.drop (arity first))).map front.append := by
  induction first generalizing args with
  | nil =>
      simp only [List.nil_append, render, Option.bind_some, arity, List.drop_zero]
      cases render convert second args <;> rfl
  | cons piece first ih =>
      cases piece with
      | lit c =>
          simp only [List.cons_append, render, ih, arity]
          cases render convert first args with
          | none => rfl
          | some front => cases render convert second _ <;> rfl
      | conv spec =>
          simp only [List.cons_append, render, ih, arity]
          split
          · rfl
          · cases convert spec (args.take spec.arity) with
            | none => rfl
            | some out =>
                rw [← List.drop_drop]
                cases render convert first (args.drop spec.arity) with
                | none => rfl
                | some front =>
                    cases render convert second _ with
                    | none => rfl
                    | some back => simp [Rendering.append]

theorem render_lits (plain : Bytes) (args : List Arg) :
    render convert (plain.map .lit) args = some ⟨plain, []⟩ := by
  induction plain with
  | nil => rfl
  | cons c plain ih => simp [render, ih]

theorem arity_lits (plain : Bytes) : arity (plain.map .lit) = 0 := by
  induction plain with
  | nil => rfl
  | cons c plain ih => simpa [arity] using ih

theorem vprintf_plain {plain : Bytes} (no_percent : byte '%' ∉ plain) (args : List Arg) :
    vprintf convert plain args = some ⟨plain, []⟩ := by
  rw [vprintf, parse_plain no_percent, Option.bind_some, render_lits]

/-- Literal text around a complete format is printed around its rendering and
takes none of its arguments: no byte of it merges into a specification. -/
theorem vprintf_wrap {before format after : Bytes} {args : List Arg} {body : Rendering Arg}
    (before_plain : byte '%' ∉ before) (after_plain : byte '%' ∉ after)
    (rendered : vprintf convert format args = some body) :
    vprintf convert (before ++ format ++ after) args = some (.wrap before body after) := by
  obtain ⟨pieces, parsed, rendered⟩ := Option.bind_eq_some_iff.mp rendered
  have whole : parse (before ++ format ++ after) =
      some (before.map .lit ++ (pieces ++ after.map .lit)) := by
    rw [List.append_assoc, parse_append (parse_plain before_plain), parse_append parsed,
      parse_plain after_plain]
    rfl
  rw [vprintf, whole, Option.bind_some, render_append, render_lits, Option.bind_some, arity_lits,
    List.drop_zero, render_append, rendered, Option.bind_some, render_lits]
  simp [Rendering.append, Rendering.wrap]

/-- Conversely, what is printed around a line of text determines the text's own
rendering, also when that text was cut inside a specification. -/
theorem vprintf_line {before format : Bytes} {args : List Arg} {printed : Rendering Arg}
    (before_plain : byte '%' ∉ before)
    (rendered : vprintf convert (before ++ format ++ [byte '\n']) args = some printed) :
    ∃ body, vprintf convert format args = some body ∧ printed = .wrap before body [byte '\n'] := by
  cases parsed : parse format with
  | none =>
      have whole : parse (before ++ format ++ [byte '\n']) = none := by
        rw [List.append_assoc, parse_append (parse_plain before_plain)]
        simp only [parse] at parsed ⊢
        rw [scan_newline, parsed]
        rfl
      rw [vprintf, whole] at rendered
      cases rendered
  | some pieces =>
      have whole : parse (before ++ format ++ [byte '\n']) =
          some (before.map .lit ++ (pieces ++ [.lit (byte '\n')])) := by
        rw [List.append_assoc, parse_append (parse_plain before_plain), parse_append parsed,
          parse_plain (by decide)]
        rfl
      rw [vprintf, whole, Option.bind_some, render_append, render_lits, Option.bind_some,
        arity_lits, List.drop_zero, render_append] at rendered
      obtain ⟨line, rendered_line, rfl⟩ := Option.map_eq_some_iff.mp rendered
      obtain ⟨body, rendered_body, rest⟩ := Option.bind_eq_some_iff.mp rendered_line
      obtain ⟨feed, rendered_feed, rfl⟩ := Option.map_eq_some_iff.mp rest
      obtain rfl := Option.some.inj rendered_feed
      refine ⟨body, ?_, ?_⟩
      · rw [vprintf, parsed, Option.bind_some, rendered_body]
      · simp [Rendering.append, Rendering.wrap, Rendering.empty]

theorem Rendering.wrap_injective {before after : Bytes} {first second : Rendering Arg}
    (same : Rendering.wrap before first after = Rendering.wrap before second after) :
    first = second := by
  have parts := Rendering.ext_iff.mp same
  simp only [Rendering.wrap, List.append_cancel_right_eq, List.append_cancel_left_eq] at parts
  exact Rendering.ext parts.1 parts.2

/-- Cutting a nonempty end off a complete format changes its output or the
arguments it takes. -/
theorem vprintf_cut {front back : Bytes} {args : List Arg} {whole part : Rendering Arg}
    (rendered : vprintf convert (front ++ back) args = some whole)
    (cut : vprintf convert front args = some part) (nonempty : back ≠ []) : part ≠ whole := by
  rintro rfl
  obtain ⟨pieces, parsed, rendered⟩ := Option.bind_eq_some_iff.mp rendered
  obtain ⟨first, parsed_first, cut⟩ := Option.bind_eq_some_iff.mp cut
  rw [parse_append parsed_first] at parsed
  obtain ⟨second, parsed_second, rfl⟩ := Option.map_eq_some_iff.mp parsed
  rw [render_append, cut, Option.bind_some] at rendered
  obtain ⟨rest, rendered_rest, same⟩ := Option.map_eq_some_iff.mp rendered
  have silent : rest.out = [] ∧ rest.taken = [] := by
    have parts := Rendering.ext_iff.mp same
    simpa [Rendering.append] using parts
  have no_pieces : second = [] := by
    cases second with
    | nil => rfl
    | cons piece second =>
        exfalso
        cases piece with
        | lit c =>
            obtain ⟨tail, -, rfl⟩ := Option.map_eq_some_iff.mp rendered_rest
            exact absurd silent.1 (by simp)
        | conv spec =>
            simp only [render] at rendered_rest
            split at rendered_rest
            · cases rendered_rest
            · obtain ⟨out, -, rendered_rest⟩ := Option.bind_eq_some_iff.mp rendered_rest
              obtain ⟨tail, -, built⟩ := Option.bind_eq_some_iff.mp rendered_rest
              obtain rfl := Option.some.inj built
              exact absurd silent.2 (by simp)
  subst no_pieces
  exact nonempty (parse_eq_nil parsed_second)

end Rendering

end ApLabs.Foundation.Printf
