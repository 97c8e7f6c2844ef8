import GameBoy.Bus

/-!
# Flat memory

A full 64 KiB of memory in which any addresses may be closed to reading or to writing, with a pair
of interrupt registers beside it. A failed access changes nothing, and neither does a read.
-/

namespace GameBoy

/-- 64 KiB of memory with holes, and an interrupt controller without a clock. -/
structure FlatBus where
  /-- The byte at each address. -/
  memory : Vector UInt8 0x10000
  /-- The addresses that can be read. -/
  readable : UInt16 → Bool
  /-- The addresses that can be written. -/
  writable : UInt16 → Bool
  /-- The interrupt lines that are enabled. -/
  enabled : UInt8
  /-- The interrupt lines that are requested. -/
  requested : UInt8

namespace FlatBus

/-- The byte stored at an address, whether it can be read or not. -/
@[inline] def byte (bus : FlatBus) (address : UInt16) : UInt8 :=
  have : address.toNat < 0x10000 := address.toNat_lt
  bus.memory[address.toNat]

/-- Store a byte at an address, whether it can be written or not. -/
@[inline] def store (bus : FlatBus) (address : UInt16) (value : UInt8) : FlatBus :=
  match bus with
  | ⟨memory, readable, writable, enabled, requested⟩ =>
    ⟨memory.set address.toNat value address.toNat_lt, readable, writable, enabled, requested⟩

/-- The byte at an address that can be read. -/
def peek? (bus : FlatBus) (address : UInt16) : Option UInt8 :=
  if bus.readable address then some (bus.byte address) else none

instance : Bus FlatBus where
  read address bus :=
    if bus.readable address then .ok (bus.byte address) bus
    else .error (.unmapped address) bus
  write address value bus :=
    if bus.writable address then .ok none (bus.store address value)
    else .error (.unmapped address) bus
  pending bus := bus.enabled &&& bus.requested
  acknowledge bus line := { bus with requested := Byte.clearBit bus.requested line }
  endStep bus _ := (none, bus)

theorem byte_store (bus : FlatBus) (a b : UInt16) (value : UInt8) :
    (bus.store a value).byte b = if b = a then value else bus.byte b := by
  simp only [byte, store, Vector.getElem_set]
  by_cases h : b = a
  · simp [h]
  · have : ¬ a.toNat = b.toNat := fun e => h (UInt16.toNat_inj.1 e.symm)
    simp [h, this]

end FlatBus

end GameBoy
