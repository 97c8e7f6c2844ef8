import GameBoy.Bus.Flat
import GameBoy.Bus.Program
import GameBoy.Memory
import GameBoy.Proofs.Phases

/-!
# Kinds of buses

On a bus with *pure reads*, reading changes nothing. On a *memory-like* bus, a failed write changes
nothing either. The flat bus, the bare program and the console's memory are of both kinds; a bus
with a monitor is of neither, since the monitor sees reads and failures. A *storage* consists of
cells, of which a write changes one, as on the flat bus and in the bare program; the console's
memory is none, as its registers and the controllers of its cartridges react to writes.
-/

namespace GameBoy

variable {β : Type}

/-- Reading changes nothing, whether it succeeds or fails. -/
class Bus.PureReads (β : Type) [Bus β] : Prop where
  read_ok {address : UInt16} {v : UInt8} {b b' : β} : Bus.read address b = .ok v b' → b' = b
  read_error {address : UInt16} {e : BusError} {b b' : β} :
    Bus.read address b = .error e b' → b' = b

/-- Reading changes nothing, and neither does a failed write. -/
class Bus.MemoryLike (β : Type) [Bus β] : Prop extends Bus.PureReads β where
  write_error {address : UInt16} {v : UInt8} {e : BusError} {b b' : β} :
    Bus.write address v b = .error e b' → b' = b

/-- A write changes the cell at its address and no other, and withdrawing a request changes none. -/
class Bus.Storage (β : Type) [Bus β] extends Bus.MemoryLike β where
  /-- The byte in the cell at an address. -/
  cell (b : β) (address : UInt16) : UInt8
  write_ok {address : UInt16} {v : UInt8} {notice : Option Notice} {b b' : β} :
    Bus.write address v b = .ok notice b' →
      ∀ x, cell b' x = if x = address then v else cell b x
  cell_acknowledge (b : β) (line : Fin 8) (x : UInt16) :
    cell (Bus.acknowledge b line) x = cell b x

instance : Bus.MemoryLike FlatBus where
  read_ok {address _ b _} h := by
    change (if b.readable address then _ else _) = _ at h
    split at h <;> cases h
    rfl
  read_error {address _ b _} h := by
    change (if b.readable address then _ else _) = _ at h
    split at h <;> cases h
    rfl
  write_error {address _ _ b _} h := by
    change (if b.writable address then _ else _) = _ at h
    split at h <;> cases h
    rfl

instance : Bus.Storage FlatBus where
  cell := FlatBus.byte
  write_ok {address v _ b _} h x := by
    change (if b.writable address then _ else _) = _ at h
    split at h <;> cases h
    exact b.byte_store address x v
  cell_acknowledge _ _ _ := rfl

instance : Bus.MemoryLike ProgramBus where
  read_ok {address _ b _} h := by
    change (match b.bytes[address.toNat]? with | some _ => _ | none => _) = _ at h
    split at h <;> cases h
    rfl
  read_error {address _ b _} h := by
    change (match b.bytes[address.toNat]? with | some _ => _ | none => _) = _ at h
    split at h <;> cases h
    rfl
  write_error {address _ _ b _} h := by
    change (if address.toNat < b.bytes.size then _ else _) = _ at h
    split at h <;> cases h
    rfl

instance : Bus.Storage ProgramBus where
  cell b address := (b.peek? address).getD 0
  write_ok {address v _ b _} h x := by
    change (if address.toNat < b.bytes.size then _ else _) = _ at h
    split at h <;> cases h
    rename_i hmapped
    by_cases hx : x = address
    · simp [ProgramBus.peek?, hx, hmapped]
    · have hne : ¬ address.toNat = x.toNat := fun heq => hx (UInt16.toNat_inj.1 heq.symm)
      simp [ProgramBus.peek?, hx, hne]
  cell_acknowledge _ _ _ := rfl

theorem Memory.writeCartRom_error {m m' : Memory} {address : UInt16} {v : UInt8} {e : BusError}
    (h : m.writeCartRom address v = .error e m') : m' = m := by
  obtain ⟨overlay, cartridge, _, _, _, _, _, _, _, _⟩ := m
  cases cartridge with
  | none => exact (EStateM.Result.error.inj h).2.symm
  | some c => cases h

theorem Memory.writeCartRam_error {m m' : Memory} {address : UInt16} {v : UInt8} {e : BusError}
    (h : m.writeCartRam address v = .error e m') : m' = m := by
  obtain ⟨overlay, cartridge, _, _, _, _, _, _, _, _⟩ := m
  cases cartridge with
  | none => exact (EStateM.Result.error.inj h).2.symm
  | some c => cases h

instance : Bus.MemoryLike Memory where
  read_ok {address _ m _} h := by
    change (match m.peek address with | .ok _ => _ | .error _ => _) = _ at h
    split at h <;> cases h
    rfl
  read_error {address _ m _} h := by
    change (match m.peek address with | .ok _ => _ | .error _ => _) = _ at h
    split at h <;> cases h
    rfl
  write_error {address value _ m _} h := by
    change m.write address value = _ at h
    unfold Memory.write at h
    split at h
    case h_1 | h_2 => exact Memory.writeCartRom_error h
    case h_4 => exact Memory.writeCartRam_error h
    all_goals cases h

/-! ## Reading under pure reads -/

namespace Bus

variable [Bus β] [PureReads β] {address : UInt16} {w : UInt16} {b b' : β} {e : BusError} {n : Nat}

theorem readSpan_one_ok (h : readSpan address 1 b = .ok w b') :
    ∃ v, read address b = .ok v b ∧ w = v.toUInt16 ∧ b' = b := by
  obtain ⟨v, _, hread, hvalue⟩ := Exec.bind_eq_ok.1 h
  obtain rfl := PureReads.read_ok hread
  obtain ⟨rfl, rfl⟩ := EStateM.Result.ok.inj hvalue
  exact ⟨v, hread, rfl, rfl⟩

theorem readSpan_two_ok (h : readSpan address (n + 2) b = .ok w b') :
    ∃ low high, read address b = .ok low b ∧ read (address + 1) b = .ok high b ∧
      w = Word.ofBytes high low ∧ b' = b := by
  obtain ⟨low, _, hlow, hrest⟩ := Exec.bind_eq_ok.1 h
  obtain rfl := PureReads.read_ok hlow
  obtain ⟨high, _, hhigh, hvalue⟩ := Exec.bind_eq_ok.1 hrest
  obtain rfl := PureReads.read_ok hhigh
  obtain ⟨rfl, rfl⟩ := EStateM.Result.ok.inj hvalue
  exact ⟨low, high, hlow, hhigh, rfl, rfl⟩

theorem readSpan_ok (h : readSpan address n b = .ok w b') : b' = b := by
  match n with
  | 0 => exact (EStateM.Result.ok.inj h).2.symm
  | 1 =>
    obtain ⟨_, -, -, hb⟩ := readSpan_one_ok h
    exact hb
  | _ + 2 =>
    obtain ⟨_, _, -, -, -, hb⟩ := readSpan_two_ok h
    exact hb

theorem readSpan_error (h : readSpan address n b = .error e b') : b' = b := by
  match n with
  | 0 => cases h
  | 1 =>
    rcases Exec.bind_eq_error.1 h with hread | ⟨_, _, _, ⟨⟩⟩
    exact PureReads.read_error hread
  | _ + 2 =>
    rcases Exec.bind_eq_error.1 h with hlow | ⟨_, _, hlow, hrest⟩
    · exact PureReads.read_error hlow
    obtain rfl := PureReads.read_ok hlow
    rcases Exec.bind_eq_error.1 hrest with hhigh | ⟨_, _, _, ⟨⟩⟩
    exact PureReads.read_error hhigh

end Bus

end GameBoy
