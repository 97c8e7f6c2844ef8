import GameBoy.Bus

/-!
# A bare program

The smallest bus: exactly the bytes of a program, from address zero, with nothing mapped after
them and no interrupts. A processor that runs past the last byte has reached the end of its program.
-/

namespace GameBoy

/-- The bytes of a program, from address zero. -/
structure ProgramBus where
  /-- The byte at each mapped address. -/
  bytes : Array UInt8

namespace ProgramBus

/-- The byte at an address inside the program. -/
def peek? (bus : ProgramBus) (address : UInt16) : Option UInt8 := bus.bytes[address.toNat]?

instance : Bus ProgramBus where
  read address bus :=
    match bus.bytes[address.toNat]? with
    | some value => .ok value bus
    | none => .error (.unmapped address) bus
  write address value bus :=
    match bus with
    | ⟨bytes⟩ =>
      if address.toNat < bytes.size then .ok none ⟨bytes.setIfInBounds address.toNat value⟩
      else .error (.unmapped address) ⟨bytes⟩
  pending _ := 0
  acknowledge bus _ := bus
  endStep bus _ := (none, bus)

end ProgramBus

end GameBoy
