import GameBoy.Notice
import GameBoy.Word

/-!
# The bus

The processor sees the rest of the machine through a bus: bytes at 16-bit addresses, the interrupt
lines, and a signal at the end of each step. An access may fail because nothing is mapped at the
address. A bus decides itself what an access changes, also a failed one.
-/

namespace GameBoy

/-- Why a bus access failed. -/
inductive BusError where
  /-- Nothing is mapped at this address. -/
  | unmapped (address : UInt16)
  deriving DecidableEq, Repr

/-- What the processor needs of a bus with states `β`. -/
class Bus (β : Type) where
  /-- Read a byte. -/
  read (address : UInt16) : EStateM BusError β UInt8
  /-- Write a byte. The bus may have something to report. -/
  write (address : UInt16) (value : UInt8) : EStateM BusError β (Option Notice)
  /-- The interrupt lines that are requested and enabled, line `n` as bit `n`. Polling them is taken
  to have no side effect: the bus is the same afterwards. -/
  pending (bus : β) : UInt8
  /-- Withdraw the request of an interrupt line. -/
  acknowledge (bus : β) (line : Fin 8) : β
  /-- A step has ended, and the processor has spent `cycles` cycles since it was switched on. -/
  endStep (bus : β) (cycles : Nat) : Option Notice × β

namespace Bus

variable {β : Type} [Bus β]

/-- Read a word, low byte first. -/
@[inline] def readWord (address : UInt16) : EStateM BusError β UInt16 := do
  let low ← read address
  let high ← read (address + 1)
  return Word.ofBytes high low

end Bus

end GameBoy
