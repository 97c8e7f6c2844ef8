import GameBoy.Memory.Region

/-!
# Contents of memory when the console starts

Work memory and high memory hold noise when the power comes on; a shift-register generator with a
fixed start gives the same noise every time. Without a boot program the device registers hold
what a boot program would have left in them.
-/

namespace GameBoy

namespace Noise

/-- The generator's state at the start. -/
def seed : UInt32 := 0xC0DE1234

/-- The next state of the generator. -/
@[inline] def next (x : UInt32) : UInt32 :=
  let x := x ^^^ (x <<< 13)
  let x := x ^^^ (x >>> 17)
  x ^^^ (x <<< 5)

/-- Append `n` bytes of noise, the low byte of each next state, and give the last state. -/
def bytes : (n : Nat) → UInt32 → Array UInt8 → Array UInt8 × UInt32
  | 0, x, done => (done, x)
  | n + 1, x, done =>
    let x := next x
    bytes n x (done.push x.toUInt8)

theorem size_bytes (n : Nat) (x : UInt32) (done : Array UInt8) :
    (bytes n x done).1.size = done.size + n := by
  induction n generalizing x done with
  | zero => rfl
  | succ n ih => simp only [bytes, ih, Array.size_push]; omega

/-- A vector of `n` bytes of noise, and the state after them. -/
def vector (n : Nat) (x : UInt32) : Vector UInt8 n × UInt32 :=
  match h : bytes n x #[] with
  | (done, y) => (⟨done, by simpa [h] using size_bytes n x #[]⟩, y)

end Noise

/-! ## Device registers -/

/-- The device registers that a boot program leaves different from zero. -/
def bootedRegisters : List (Fin 0x80 × UInt8) :=
  [(0x00, 0xCF), (0x02, 0x7E), (0x04, 0xAB), (0x07, 0xF8),
    (0x10, 0x80), (0x11, 0xBF), (0x12, 0xF3), (0x13, 0xFF), (0x14, 0xBF), (0x16, 0x3F),
    (0x18, 0xFF), (0x19, 0xBF), (0x1A, 0x7F), (0x1B, 0xFF), (0x1C, 0x9F), (0x1D, 0xFF),
    (0x1E, 0xBF), (0x20, 0xFF), (0x23, 0xBF), (0x24, 0x77), (0x25, 0xF3), (0x26, 0xF1),
    (0x40, 0x91), (0x41, 0x85), (0x46, 0xFF), (0x47, 0xFC), (0x50, 0x01)]

/-- The device registers as a boot program leaves them. -/
def bootedIo : Vector UInt8 0x80 :=
  bootedRegisters.foldl (fun io (register, value) => DeviceRegister.store io register value)
    (Vector.replicate 0x80 0)

end GameBoy
