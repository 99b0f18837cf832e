import ApLabs.Logger.Sinks

/-!
# The size of the buffer

Each level computes the size of its block itself.  The line and its terminator take
two bytes more than the prefix and the format, which `infof` requests; the three
other levels request one byte less, so the terminator is stored behind their block.
-/

namespace ApLabs.Logger

open ApLabs.Foundation.CMemory
open ApLabs.Foundation.Printf

variable {libc : Libc}

/-- Blocks are as large as requested, and no larger. -/
def Frame.Exact (frame : Frame) : Prop := ∀ size, (frame.malloc size).length = size

/-- What a level passes to `malloc`. -/
def Level.request (level : Level) (format : CString) : Nat :=
  strlen format + level.spare + (strlen level.tag + 2)

/-- `formatString` stays inside the block of its caller, the tag and the format, and no
call of the level meets an access outside of a block. -/
structure Level.InBounds (level : Level) (format : CString) : Prop where
  formatString : ∀ block : Bytes, block.length = level.request format →
    ∃ filled, formatString block format (toInt (strlen format)) level.tag
      (toInt (strlen level.tag + 2)) = .ok filled
  logf : ∀ (libc : Libc) (frame : Frame), frame.Exact → ∀ (world : World libc)
    (arg : List libc.Arg), level.logf frame world format arg ≠ .error .bounds

namespace Level

variable {level : Level} {format : CString}

theorem fits_of_small (small : (strlen format + strlen level.tag + 4 : Int) ≤ INT_MAX) :
    level.Fits format := by
  unfold Level.Fits
  push_cast
  omega

/-- What follows the formatting does not leave a block that holds a string. -/
theorem logf_ne_bounds {frame : Frame} {world : World libc} {arg : List libc.Arg}
    {filled text : Bytes}
    (built : formatString (frame.malloc (level.request format)) format (toInt (strlen format))
      level.tag (toInt (strlen level.tag + 2)) = .ok filled)
    (read : readString filled = .ok text) :
    level.logf frame world format arg ≠ .error .bounds := by
  rw [logf_eq_common, common, ← request, built, ok_bind]
  split
  · unfold vsyslog
    split <;> rintro ⟨⟩
  · rw [setTerminalColor_eq, ok_bind, vfprintf, read, ok_bind]
    split <;> rintro ⟨⟩

theorem info_inBounds (small : (strlen format + strlen INFO + 4 : Int) ≤ INT_MAX) :
    Level.info.InBounds format := by
  have fits : Level.info.Fits format := fits_of_small small
  have enough : ∀ block : Bytes, block.length = Level.info.request format →
      strlen format + (strlen Level.info.tag + 2) + 2 ≤ block.length := by
    intro block size
    rw [size, request, spare]
    omega
  constructor
  · intro block size
    obtain ⟨filled, built, -⟩ := formatString_of_fits (enough block size) fits
    exact ⟨filled, built⟩
  · intro libc frame exact_ world arg
    obtain ⟨filled, built, read⟩ := formatString_of_fits (enough _ (exact_ _)) fits
    exact logf_ne_bounds built read

/-- The other levels store their terminator one byte behind the block. -/
theorem overruns (other : level ≠ .info) (small : level.Fits format) {block : Bytes}
    (size : block.length = level.request format) :
    formatString block format (toInt (strlen format)) level.tag (toInt (strlen level.tag + 2)) =
      .error .bounds := by
  have one : level.spare = 1 := by
    cases level with
    | info => exact absurd rfl other
    | warn | error | panic => rfl
  have narrow : toInt (strlen format) = strlen format := toInt_of_le (by
    unfold Level.Fits at small
    omega)
  rw [narrow, level.toInt_prefix]
  exact formatString_overruns rfl (Nat.le_refl _) (by rw [size, request, one]; omega) small

theorem logf_overruns (level : Level) (other : level ≠ .info) (small : level.Fits format)
    {frame : Frame} (exact_ : frame.Exact) (world : World libc) (arg : List libc.Arg) :
    level.logf frame world format arg = .error .bounds := by
  rw [logf_eq_common, common, ← request, overruns other small (exact_ _)]
  rfl

/-- Only `infof` requests enough for its line. -/
theorem inBounds_iff (level : Level) (format : CString)
    (small : (strlen format + strlen level.tag + 4 : Int) ≤ INT_MAX) :
    level.InBounds format ↔ level = .info := by
  constructor
  · intro inside
    by_contra other
    obtain ⟨filled, built⟩ := inside.formatString (List.replicate (level.request format) 0)
      List.length_replicate
    rw [overruns other (fits_of_small small) List.length_replicate] at built
    cases built
  · rintro rfl
    exact info_inBounds small

theorem panic_not_inBounds : ¬ Level.panic.InBounds ⟨bytes "bye", by decide⟩ :=
  fun inside => absurd ((inBounds_iff .panic _ (by decide)).mp inside) nofun

end Level

/-- A heap that grants what is asked for. -/
def exactFrame : Frame where
  malloc size := List.replicate size 0
  size_le _ := List.length_replicate.ge
  done := 0

theorem exactFrame_exact : exactFrame.Exact := fun _ => List.length_replicate

/-- For the empty format `warnf` requests seven bytes and stores to the eighth. -/
theorem warnf_overruns_empty :
    (exactFrame.malloc (Level.warn.request ⟨[], by decide⟩)).length = 7 ∧
      warnf exactFrame (World.initial : World smallLibc) ⟨[], by decide⟩ [] = .error .bounds ∧
      ¬ Level.warn.InBounds ⟨[], by decide⟩ := by
  have faults : warnf exactFrame (World.initial : World smallLibc) ⟨[], by decide⟩ [] =
      .error .bounds := Level.logf_overruns .warn nofun (by decide) exactFrame_exact .initial []
  exact ⟨rfl, faults, fun inside =>
    inside.logf smallLibc exactFrame exactFrame_exact .initial [] faults⟩

end ApLabs.Logger
