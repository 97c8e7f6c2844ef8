/-!
# The line counter

The display shows one line after another. The counter remembers at how many cycles the line last
changed; as soon as a line's worth of cycles has passed since then, the next line begins, and the
counter remembers the cycles of that moment.
-/

namespace GameBoy

/-- The cycles of a line. -/
def cyclesPerLine : Nat := 456

/-- The lines of a frame, with those of the vertical blank. -/
def linesPerFrame : UInt8 := 154

/-- The first line of the vertical blank. -/
def vblankLine : UInt8 := 144

/-- The cycles of a frame. -/
def cyclesPerFrame : Nat := cyclesPerLine * linesPerFrame.toNat

/-- When the line last changed. -/
structure LineCounter where
  /-- The cycles that the processor had spent by then. -/
  lastCycles : Nat
  deriving DecidableEq, Repr

namespace LineCounter

/-- The counter when the power comes on. -/
def initial : LineCounter := ⟨0⟩

/-- The line after another one; the first line follows the last. -/
def lineAfter (line : UInt8) : UInt8 := (line + 1) % linesPerFrame

/-- Bring the counter up to the given cycles. The result is the new line, if the line changes. -/
def advance (counter : LineCounter) (cycles : Nat) (line : UInt8) : Option UInt8 × LineCounter :=
  if cycles - counter.lastCycles < cyclesPerLine then (none, counter)
  else (some (lineAfter line), ⟨cycles⟩)

end LineCounter

end GameBoy
