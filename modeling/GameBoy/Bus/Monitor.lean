import GameBoy.Bus
import GameBoy.Text

/-!
# Watching a bus

A bus with a monitor behaves as the bus inside it does and keeps a list of everything that passed
over it, failed accesses included. Looking at the interrupt lines leaves no entry.
-/

namespace GameBoy

/-- One event on a bus. -/
inductive Traffic where
  | read (address : UInt16) (value : UInt8)
  | readFailed (address : UInt16)
  | wrote (address : UInt16) (value : UInt8)
  | writeFailed (address : UInt16) (value : UInt8)
  | acknowledged (line : Fin 8)
  | ended (cycles : Nat)
  deriving DecidableEq, Repr

/-- An event in a compact form: its kind, then the address and the byte. -/
def Traffic.text : Traffic → String
  | read address value => s!"r{Text.hexWord address}={Text.hexByte value}"
  | readFailed address => s!"r{Text.hexWord address}!"
  | wrote address value => s!"w{Text.hexWord address}={Text.hexByte value}"
  | writeFailed address value => s!"w{Text.hexWord address}!{Text.hexByte value}"
  | acknowledged line => s!"a{line.val}"
  | ended cycles => s!"e{cycles}"

/-- A bus and the events seen on it, oldest first. -/
structure Monitored (β : Type) where
  /-- The bus that answers. -/
  inner : β
  /-- What has passed over it. -/
  traffic : Array Traffic

namespace Monitored

variable {β : Type} [Bus β]

instance : Bus (Monitored β) where
  read address bus :=
    match bus with
    | ⟨inner, traffic⟩ =>
      match Bus.read address inner with
      | .ok value inner => .ok value ⟨inner, traffic.push (.read address value)⟩
      | .error e inner => .error e ⟨inner, traffic.push (.readFailed address)⟩
  write address value bus :=
    match bus with
    | ⟨inner, traffic⟩ =>
      match Bus.write address value inner with
      | .ok notice inner => .ok notice ⟨inner, traffic.push (.wrote address value)⟩
      | .error e inner => .error e ⟨inner, traffic.push (.writeFailed address value)⟩
  pending bus := Bus.pending bus.inner
  acknowledge bus line :=
    ⟨Bus.acknowledge bus.inner line, bus.traffic.push (.acknowledged line)⟩
  endStep bus cycles :=
    let (notice, inner) := Bus.endStep bus.inner cycles
    (notice, ⟨inner, bus.traffic.push (.ended cycles)⟩)

end Monitored

end GameBoy
