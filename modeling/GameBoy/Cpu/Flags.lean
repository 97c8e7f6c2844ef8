/-!
# Flags and conditions

The four flags that an operation leaves behind, their place in the F register, and the branch
conditions that read them.
-/

namespace GameBoy

/-- A flag. -/
inductive Flag where
  | z
  | n
  | h
  | c
  deriving DecidableEq, Repr

namespace Flag

/-- The flags from the top bit of F down. -/
def all : List Flag := [z, n, h, c]

/-- The letter of a flag. -/
def name : Flag → String
  | z => "Z"
  | n => "N"
  | h => "H"
  | c => "C"

end Flag

/-- The flags of the F register. -/
structure Flags where
  /-- The result is zero. -/
  z : Bool
  /-- The operation was a subtraction. -/
  n : Bool
  /-- There was a carry out of the low nibble. -/
  h : Bool
  /-- There was a carry out of the result. -/
  c : Bool
  deriving DecidableEq, Repr

namespace Flags

/-- The flags in a byte: Z, N, H and C from the top bit down. The low nibble is ignored. -/
@[inline] def ofByte (b : UInt8) : Flags where
  z := b &&& 0x80 != 0
  n := b &&& 0x40 != 0
  h := b &&& 0x20 != 0
  c := b &&& 0x10 != 0

/-- The byte that holds the flags; its low nibble is zero. -/
@[inline] def toByte (f : Flags) : UInt8 :=
  (if f.z then 0x80 else 0) ||| (if f.n then 0x40 else 0) |||
    (if f.h then 0x20 else 0) ||| (if f.c then 0x10 else 0)

theorem ofByte_toByte (f : Flags) : ofByte f.toByte = f := by
  obtain ⟨z, n, h, c⟩ := f
  cases z <;> cases n <;> cases h <;> cases c <;> rfl

/-- The value of one flag. -/
def get (f : Flags) : Flag → Bool
  | .z => f.z
  | .n => f.n
  | .h => f.h
  | .c => f.c

/-- Give one flag a value. -/
def set (f : Flags) (flag : Flag) (value : Bool) : Flags :=
  match flag with
  | .z => { f with z := value }
  | .n => { f with n := value }
  | .h => { f with h := value }
  | .c => { f with c := value }

theorem get_set (f : Flags) (a b : Flag) (value : Bool) :
    (f.set a value).get b = if b = a then value else f.get b := by
  cases a <;> cases b <;> rfl

/-- The names of the flags that are set, in order. -/
def names (f : Flags) : List String := (Flag.all.filter f.get).map Flag.name

/-- Four characters, one per flag: its letter when it is set, a dash when it is clear. -/
def letters (f : Flags) : String :=
  String.join (Flag.all.map fun flag => if f.get flag then flag.name else "-")

/-- A listing of the set flags. -/
def inspect (f : Flags) : String :=
  match f.names with
  | [] => "Flags(0x0)"
  | names => "Flags(" ++ " | ".intercalate names ++ ")"

end Flags

/-- A branch condition. -/
inductive Cond where
  | nz
  | z
  | nc
  | c
  deriving DecidableEq, Repr

namespace Cond

/-- Whether the condition holds under the given flags. -/
@[inline] def holds : Cond → Flags → Bool
  | nz, f => !f.z
  | z, f => f.z
  | nc, f => !f.c
  | c, f => f.c

/-- The name of a condition in assembler text. -/
def name : Cond → String
  | nz => "NZ"
  | z => "Z"
  | nc => "NC"
  | c => "C"

end Cond

end GameBoy
