import GameBoy.Proofs.Memory
import GameBoy.Proofs.RamBanking

/-!
# What a write changes

The two sides of the address map, reading and writing, make one memory. A byte that is written is
read back, at its own address and where the work memory is seen a second time; what else may change
is what the cartridge shows after a write to its controller, and the first page when the boot
program is taken away.

Main statement: `Memory.write_law`.
-/

namespace GameBoy

/-! ## Regions and their addresses -/

namespace Region

/-- The addresses of the first page that the boot program covers are those below this one. -/
def covered (overlay : Bool) : Nat := if overlay then 0x100 else 0

theorem covered_le (overlay : Bool) : covered overlay ≤ 0x100 := by
  cases overlay <;> decide

/-- What a region says of its addresses. -/
def Holds (overlay : Bool) (address : UInt16) : Region → Prop
  | bootRom offset => address.toNat < covered overlay ∧ address.toNat = offset
  | cartRom inside =>
    inside = address ∧ covered overlay ≤ address.toNat ∧ address.toNat < 0x8000
  | vram offset => address.toNat = 0x8000 + offset
  | cartRam inside => inside = address ∧ 0xA000 ≤ address.toNat ∧ address.toNat < 0xC000
  | wram offset => address.toNat = 0xC000 + offset
  | echo offset => address.toNat = 0xE000 + offset ∧ address.toNat < 0xFE00
  | oam offset => address.toNat = 0xFE00 + offset
  | unusable => 0xFEA0 ≤ address.toNat ∧ address.toNat < 0xFF00
  | io offset => address.toNat = 0xFF00 + offset
  | hram offset => address.toNat = 0xFF80 + offset
  | interruptEnable => address.toNat = 0xFFFF

theorem holds_dite {overlay : Bool} {address : UInt16} {p : Prop} [Decidable p]
    {yes : p → Region} {no : ¬ p → Region} (hyes : ∀ h, (yes h).Holds overlay address)
    (hno : ∀ h, (no h).Holds overlay address) : (dite p yes no).Holds overlay address := by
  by_cases h : p
  · rw [dif_pos h]
    exact hyes h
  · rw [dif_neg h]
    exact hno h

theorem ofAddress_holds (address : UInt16) (overlay : Bool) :
    (ofAddress address overlay).Holds overlay address := by
  have h := address.toNat_lt
  have hcovered : (overlay = true ∧ address.toNat < 0x100) ↔ address.toNat < covered overlay := by
    cases overlay <;> simp [covered]
  unfold ofAddress
  refine holds_dite (fun hpage => ⟨hcovered.1 hpage, rfl⟩) fun hpage => ?_
  rw [hcovered] at hpage
  repeat' refine holds_dite (fun _ => ?_) fun _ => ?_
  all_goals
    simp only [Holds, true_and]
    omega

theorem Holds.unique {overlay : Bool} {address : UInt16} {region region' : Region}
    (h : region.Holds overlay address) (h' : region'.Holds overlay address) : region = region' := by
  cases region <;> cases region' <;> simp only [Holds] at h h'
  case cartRom.cartRom | cartRam.cartRam => rw [h.1, h'.1]
  case unusable.unusable | interruptEnable.interruptEnable => rfl
  any_goals omega
  all_goals
    congr 1
    exact Fin.ext (by omega)

theorem ofAddress_eq_iff {address : UInt16} {overlay : Bool} {region : Region} :
    ofAddress address overlay = region ↔ region.Holds overlay address := by
  constructor
  · rintro rfl
    exact ofAddress_holds address overlay
  · exact (ofAddress_holds address overlay).unique

/-- The address of every byte that is there is the only one of its region. -/
theorem Holds.address_unique {overlay : Bool} {a b : UInt16} {region : Region}
    (ha : region.Holds overlay a) (hb : region.Holds overlay b) (hregion : region ≠ unusable) :
    b = a := by
  cases region with
  | unusable => exact absurd rfl hregion
  | cartRom inside | cartRam inside => exact hb.1.symm.trans ha.1
  | _ =>
    simp only [Holds] at ha hb
    exact UInt16.toNat_inj.1 (by omega)

end Region

/-! ## The RAM of a cartridge -/

namespace Cartridge

/-- Within the window no two addresses are at one place of the RAM. -/
theorem ramOffset?_inj {c : Cartridge} {a b : UInt16} {i : Nat}
    (ha : 0xA000 ≤ a.toNat ∧ a.toNat < 0xC000) (hb : 0xA000 ≤ b.toNat ∧ b.toNat < 0xC000)
    (hia : c.ramOffset? a = some i) (hib : c.ramOffset? b = some i) : b = a := by
  have hbank {bank : Nat} (h : bankOffset bank b = bankOffset bank a) : b = a := by
    simp only [bankOffset, ramBankSize] at h
    exact UInt16.toNat_inj.1 (by omega)
  unfold ramOffset? at hia hib
  cases hmapper : c.mapper with
  | unbanked =>
    simp only [hmapper, Option.some.injEq] at hia hib
    exact (UInt16.sub_left_inj _).1 (UInt16.toNat_inj.1 (hib.trans hia.symm))
  | mbc1 m | mbc5 m =>
    simp only [hmapper, Option.ite_none_right_eq_some, Option.some.injEq] at hia hib
    exact hbank (hib.2.trans hia.2.symm)
  | mbc3 m =>
    simp only [hmapper, Option.ite_none_right_eq_some, Option.map_eq_some_iff] at hia hib
    obtain ⟨-, bank, hselected, hplace⟩ := hia
    obtain ⟨-, bank', hselected', hplace'⟩ := hib
    obtain rfl : bank = bank' := Option.some.inj (hselected.symm.trans hselected')
    exact hbank (hplace'.trans hplace.symm)

theorem ramOffset?_withRam {c : Cartridge} {ram : Array UInt8} (h : ram.size = c.ram.size)
    (b : UInt16) : ({ c with ram }).ramOffset? b = c.ramOffset? b := by
  simp only [ramOffset?, ramBanks, h]

theorem readRam_eq_getD (c : Cartridge) (b : UInt16) :
    c.readRam b = ((c.ramOffset? b).bind (c.ram[·]?)).getD 0xFF := by
  unfold readRam ramIndex?
  cases c.ramOffset? b with
  | none => rfl
  | some i =>
    by_cases hi : i < c.ram.size
    · simp [hi]
    · simp [hi]

theorem readRam_writeRam (c : Cartridge) {a b : UInt16} (v : UInt8)
    (ha : 0xA000 ≤ a.toNat ∧ a.toNat < 0xC000) (hb : 0xA000 ≤ b.toNat ∧ b.toNat < 0xC000) :
    (c.writeRam a v).readRam b =
      if b = a ∧ (c.ramIndex? a).isSome then v else c.readRam b := by
  unfold writeRam
  cases hindex : c.ramIndex? a with
  | none => simp
  | some i =>
    have hplace : c.ramOffset? a = some i.val := by
      unfold ramIndex? at hindex
      split at hindex
      case h_1 j hj =>
        split at hindex
        · cases hindex
          exact hj
        · cases hindex
      case h_2 => cases hindex
    simp only [readRam_eq_getD, ramOffset?_withRam (Array.size_set ..), Option.isSome_some,
      and_true]
    by_cases hsame : b = a
    · rw [if_pos hsame, hsame, hplace, Option.bind_some, Array.getElem?_set_self]
      rfl
    · rw [if_neg hsame]
      cases hother : c.ramOffset? b with
      | none => rfl
      | some j =>
        have hne : i.val ≠ j := by
          rintro rfl
          exact hsame (ramOffset?_inj ha hb hplace hother)
        rw [Option.bind_some, Option.bind_some, Array.getElem?_set_ne i.isLt hne]

/-- The byte of a cartridge that is seen at an address in one of its windows. -/
def seen (c : Cartridge) (address : UInt16) : UInt8 :=
  if address < 0x8000 then c.readRom address else c.readRam address

end Cartridge

/-! ## Storing a byte -/

namespace Memory

theorem ok_get_set {n : Nat} (bytes : Vector UInt8 n) (i j : Fin n) (v : UInt8) :
    (.ok ((bytes.set i v).get j) : Except BusError UInt8) =
      if j = i then .ok v else .ok (bytes.get j) := by
  have hget : (bytes.set i v).get j = if i.val = j.val then v else bytes.get j :=
    Vector.getElem_set ..
  rw [hget, apply_ite Except.ok]
  simp only [Fin.ext_iff, eq_comm]

/-- The byte at an address that belongs to a region. -/
def byteIn (m : Memory) (address : UInt16) : Region → Except BusError UInt8
  | .bootRom offset =>
    match m.overlay with
    | some image => .ok (image.get offset)
    | none => .error (.unmapped address)
  | .cartRom inside => m.fromCartridge inside (·.readRom inside)
  | .vram offset => .ok (m.vram.get offset)
  | .cartRam inside => m.fromCartridge inside (·.readRam inside)
  | .wram offset | .echo offset => .ok (m.wram.get offset)
  | .oam offset => .ok (m.oam.get offset)
  | .unusable => .ok 0xFF
  | .io offset =>
    if offset = DeviceRegister.interruptFlag then .ok (m.requested ||| 0xE0)
    else .ok (m.io.get offset)
  | .hram offset => .ok (m.hram.get offset)
  | .interruptEnable => .ok m.enabled

theorem peek_eq_byteIn (m : Memory) (address : UInt16) :
    m.peek address = m.byteIn address (m.regionOf address) := by
  unfold peek byteIn
  cases m.regionOf address <;> rfl

section

variable (m : Memory) (v : UInt8) (b : UInt16)

theorem peek_set_vram (offset : Fin 0x2000) :
    ({ m with vram := m.vram.set offset v offset.isLt }).peek b =
      if m.regionOf b = .vram offset then .ok v else m.peek b := by
  simp only [peek_eq_byteIn]
  change byteIn _ b (m.regionOf b) = _
  cases m.regionOf b with
  | vram offset' => simp only [byteIn, ok_get_set, Region.vram.injEq]
  | _ => rfl

theorem peek_set_wram (offset : Fin 0x2000) :
    ({ m with wram := m.wram.set offset v offset.isLt }).peek b =
      if m.regionOf b = .wram offset ∨ m.regionOf b = .echo offset then .ok v else m.peek b := by
  simp only [peek_eq_byteIn]
  change byteIn _ b (m.regionOf b) = _
  cases m.regionOf b with
  | wram offset' => simp only [byteIn, ok_get_set, Region.wram.injEq, reduceCtorEq, or_false]
  | echo offset' => simp only [byteIn, ok_get_set, Region.echo.injEq, reduceCtorEq, false_or]
  | _ =>
    simp only [reduceCtorEq, or_self, if_false]
    rfl

theorem peek_set_oam (offset : Fin 0xA0) :
    ({ m with oam := m.oam.set offset v offset.isLt }).peek b =
      if m.regionOf b = .oam offset then .ok v else m.peek b := by
  simp only [peek_eq_byteIn]
  change byteIn _ b (m.regionOf b) = _
  cases m.regionOf b with
  | oam offset' => simp only [byteIn, ok_get_set, Region.oam.injEq]
  | _ => rfl

theorem peek_set_hram (offset : Fin 0x7F) :
    ({ m with hram := m.hram.set offset v offset.isLt }).peek b =
      if m.regionOf b = .hram offset then .ok v else m.peek b := by
  simp only [peek_eq_byteIn]
  change byteIn _ b (m.regionOf b) = _
  cases m.regionOf b with
  | hram offset' => simp only [byteIn, ok_get_set, Region.hram.injEq]
  | _ => rfl

theorem peek_set_enabled :
    ({ m with enabled := v }).peek b =
      if m.regionOf b = .interruptEnable then .ok v else m.peek b := by
  simp only [peek_eq_byteIn]
  change byteIn _ b (m.regionOf b) = _
  cases m.regionOf b <;> rfl

theorem peek_set_requested :
    ({ m with requested := v }).peek b =
      if m.regionOf b = .io DeviceRegister.interruptFlag then .ok (v ||| 0xE0) else m.peek b := by
  simp only [peek_eq_byteIn]
  change byteIn _ b (m.regionOf b) = _
  cases m.regionOf b with
  | io offset' =>
    simp only [byteIn, Region.io.injEq]
    split <;> rfl
  | _ => rfl

theorem peek_set_io {offset : Fin 0x80} (h : offset ≠ DeviceRegister.interruptFlag) :
    ({ m with io := DeviceRegister.store m.io offset v }).peek b =
      if m.regionOf b = .io offset then .ok v else m.peek b := by
  simp only [peek_eq_byteIn]
  change byteIn _ b (m.regionOf b) = _
  cases m.regionOf b with
  | io offset' =>
    simp only [byteIn, DeviceRegister.store, ok_get_set, Region.io.injEq]
    by_cases hflag : offset' = DeviceRegister.interruptFlag
    · rw [if_pos hflag, if_neg fun heq => h (heq.symm.trans hflag), if_pos hflag]
    · rw [if_neg hflag, if_neg hflag]
  | _ => rfl

end

theorem peek_release (m : Memory) (b : UInt16) :
    ({ m with overlay := none }).peek b =
      if m.bootActive ∧ b.toNat < 0x100 then m.fromCartridge b (·.readRom b) else m.peek b := by
  by_cases hb : b.toNat < 0x100
  · cases hactive : m.bootActive with
    | true =>
      have hrom : ({ m with overlay := none }).regionOf b = .cartRom b :=
        Region.ofAddress_eq_iff.2 ⟨rfl, Nat.zero_le _, by omega⟩
      rw [if_pos ⟨rfl, hb⟩, peek_eq_byteIn, hrom]
      rfl
    | false =>
      have hnone : m.overlay = none :=
        Option.isNone_iff_eq_none.1 (Option.isSome_eq_false_iff.1 hactive)
      obtain ⟨overlay, _, _, _, _, _, _, _, _, _⟩ := m
      cases hnone
      rfl
  · -- Above the first page the region does not depend on the boot program.
    have hholds : (m.regionOf b).Holds m.bootActive b := Region.ofAddress_holds b _
    have hregion : ({ m with overlay := none }).regionOf b = m.regionOf b := by
      refine Region.ofAddress_eq_iff.2 ?_
      cases h : m.regionOf b with
      | bootRom offset =>
        rw [h] at hholds
        exact absurd (hholds.2 ▸ offset.isLt) hb
      | cartRom inside =>
        rw [h] at hholds
        exact ⟨hholds.1, Nat.zero_le _, hholds.2.2⟩
      | _ =>
        rw [h] at hholds
        exact hholds
    rw [if_neg fun h => hb h.2, peek_eq_byteIn, peek_eq_byteIn, hregion]
    cases h : m.regionOf b with
    | bootRom offset =>
      rw [h] at hholds
      exact absurd (hholds.2 ▸ offset.isLt) hb
    | _ => rfl

/-! ## Where a write goes -/

/-- Two addresses of one byte of the work memory. -/
def Twin (a b : UInt16) : Prop :=
  0xC000 ≤ a ∧ a < 0xDE00 ∧ b = a + 0x2000 ∨ 0xC000 ≤ b ∧ b < 0xDE00 ∧ a = b + 0x2000

instance (a b : UInt16) : Decidable (Twin a b) := inferInstanceAs (Decidable (_ ∨ _))

theorem twin_iff {a b : UInt16} : Twin a b ↔
    0xC000 ≤ a.toNat ∧ a.toNat < 0xDE00 ∧ b.toNat = a.toNat + 0x2000 ∨
      0xC000 ≤ b.toNat ∧ b.toNat < 0xDE00 ∧ a.toNat = b.toNat + 0x2000 := by
  have ha := a.toNat_lt
  have hb := b.toNat_lt
  simp only [Twin, UInt16.le_iff_toNat_le, UInt16.lt_iff_toNat_lt, ← UInt16.toNat_inj,
    UInt16.toNat_add, UInt16.reduceToNat]
  omega

/-- Whether the cartridge is seen at an address. -/
def ShowsCartridge (m : Memory) (b : UInt16) : Prop :=
  (b < 0x8000 ∨ 0xA000 ≤ b ∧ b < 0xC000) ∧ ¬ (m.bootActive ∧ b < 0x100)

instance (m : Memory) (b : UInt16) : Decidable (m.ShowsCartridge b) :=
  inferInstanceAs (Decidable (_ ∧ _))

section

variable {m m' : Memory} {a b : UInt16} {v : UInt8} {notice : Option Notice}

/-- The cartridge's controller is written under the boot program as well. -/
theorem write_eq_writeCartRom (h : a.toNat < 0x8000) (m : Memory) (v : UInt8) :
    m.write a v = m.writeCartRom a v := by
  have hcovered := Region.covered_le m.bootActive
  unfold write
  by_cases hpage : a.toNat < Region.covered m.bootActive
  · have hregion : m.regionOf a = .bootRom ⟨a.toNat, by omega⟩ :=
      Region.ofAddress_eq_iff.2 ⟨hpage, rfl⟩
    rw [hregion]
  · have hregion : m.regionOf a = .cartRom a :=
      Region.ofAddress_eq_iff.2 ⟨rfl, Nat.le_of_not_lt hpage, h⟩
    rw [hregion]

theorem write_eq_writeCartRam (h : 0xA000 ≤ a.toNat ∧ a.toNat < 0xC000) (m : Memory) (v : UInt8) :
    m.write a v = m.writeCartRam a v := by
  have hregion : m.regionOf a = .cartRam a := Region.ofAddress_eq_iff.2 ⟨rfl, h⟩
  unfold write
  rw [hregion]

theorem writeCartRom_some {c : Cartridge} (h : m.cartridge = some c) (a : UInt16) (v : UInt8) :
    m.writeCartRom a v =
      .ok (c.writeRom a v).1 { m with cartridge := some (c.writeRom a v).2 } := by
  obtain ⟨_, cartridge, _, _, _, _, _, _, _, _⟩ := m
  cases h
  rfl

theorem writeCartRom_none (h : m.cartridge = none) (a : UInt16) (v : UInt8) :
    m.writeCartRom a v = .error (.unmapped a) m := by
  obtain ⟨_, cartridge, _, _, _, _, _, _, _, _⟩ := m
  cases h
  rfl

theorem writeCartRam_some {c : Cartridge} (h : m.cartridge = some c) (a : UInt16) (v : UInt8) :
    m.writeCartRam a v = .ok none { m with cartridge := some (c.writeRam a v) } := by
  obtain ⟨_, cartridge, _, _, _, _, _, _, _, _⟩ := m
  cases h
  rfl

theorem writeCartRam_none (h : m.cartridge = none) (a : UInt16) (v : UInt8) :
    m.writeCartRam a v = .error (.unmapped a) m := by
  obtain ⟨_, cartridge, _, _, _, _, _, _, _, _⟩ := m
  cases h
  rfl

theorem showsCartridge_iff : m.ShowsCartridge b ↔
    Region.covered m.bootActive ≤ b.toNat ∧ b.toNat < 0x8000 ∨
      0xA000 ≤ b.toNat ∧ b.toNat < 0xC000 := by
  simp only [ShowsCartridge, UInt16.le_iff_toNat_le, UInt16.lt_iff_toNat_lt, UInt16.reduceToNat]
  cases m.bootActive <;> simp [Region.covered]
  omega

/-- Another cartridge shows another byte where a cartridge is seen, and nowhere else. -/
theorem peek_set_cartridge (m : Memory) (c : Cartridge) (b : UInt16) :
    ({ m with cartridge := some c }).peek b =
      if m.ShowsCartridge b then .ok (c.seen b) else m.peek b := by
  have hholds : (m.regionOf b).Holds m.bootActive b := Region.ofAddress_holds b _
  have hcovered := Region.covered_le m.bootActive
  simp only [peek_eq_byteIn]
  change byteIn _ b (m.regionOf b) = _
  simp only [showsCartridge_iff, Cartridge.seen, UInt16.lt_iff_toNat_lt, UInt16.reduceToNat]
  cases hregion : m.regionOf b with
  | cartRom inside =>
    rw [hregion] at hholds
    obtain ⟨rfl, hpage, hrom⟩ := hholds
    rw [if_pos (.inl ⟨hpage, hrom⟩), if_pos hrom]
    rfl
  | cartRam inside =>
    rw [hregion] at hholds
    obtain ⟨rfl, hram⟩ := hholds
    rw [if_pos (.inr hram), if_neg (by omega)]
    rfl
  | _ =>
    rw [hregion] at hholds
    simp only [Region.Holds] at hholds
    rw [if_neg (by omega)]
    rfl

/-- An address that keeps what is written to it: it belongs to a memory of the console or to a
register other than the interrupt requests and the line. -/
def Keeps (a : UInt16) : Prop :=
  0x8000 ≤ a ∧ a < 0xA000 ∨ 0xC000 ≤ a ∧ a < 0xFEA0 ∨ 0xFF00 ≤ a ∧ a ≠ 0xFF0F ∧ a ≠ 0xFF44

theorem keeps_iff : Keeps a ↔
    0x8000 ≤ a.toNat ∧ a.toNat < 0xA000 ∨ 0xC000 ≤ a.toNat ∧ a.toNat < 0xFEA0 ∨
      0xFF00 ≤ a.toNat ∧ a.toNat ≠ 0xFF0F ∧ a.toNat ≠ 0xFF44 := by
  simp only [Keeps, UInt16.le_iff_toNat_le, UInt16.lt_iff_toNat_lt, ne_eq, ← UInt16.toNat_inj,
    UInt16.reduceToNat]

theorem not_twin (h : a.toNat < 0xC000 ∨ 0xFE00 ≤ a.toNat) (b : UInt16) : ¬ Twin a b := by
  rw [twin_iff]
  omega

theorem regionOf_eq_iff {region : Region} (ha : m.regionOf a = region) (h : region ≠ .unusable)
    (b : UInt16) : m.regionOf b = region ↔ b = a := by
  constructor
  · intro hb
    exact (Region.ofAddress_eq_iff.1 ha).address_unique (Region.ofAddress_eq_iff.1 hb) h
  · rintro rfl
    exact ha

/-- A byte of the work memory has its own address and perhaps a twin. -/
theorem regionOf_eq_wram_iff {offset : Fin 0x2000}
    (ha : m.regionOf a = .wram offset ∨ m.regionOf a = .echo offset) (b : UInt16) :
    m.regionOf b = .wram offset ∨ m.regionOf b = .echo offset ↔ b = a ∨ Twin a b := by
  simp only [regionOf, Region.ofAddress_eq_iff, Region.Holds] at ha ⊢
  rw [twin_iff, ← UInt16.toNat_inj]
  omega

theorem odd_iff (v : UInt8) : v &&& 0x01 ≠ 0 ↔ v.toNat % 2 = 1 := by
  simp only [ne_eq, ← UInt8.toNat_inj, UInt8.toNat_and, UInt8.reduceToNat, Nat.and_one_is_mod]
  omega

/-- The boot register keeps what is written to it, and an odd value takes the boot program away. -/
theorem writeIo_eq {offset : Fin 0x80} (hflag : offset ≠ DeviceRegister.interruptFlag)
    (hly : offset ≠ DeviceRegister.ly) {m stored : Memory} {v : UInt8}
    (hstored : stored = { m with io := DeviceRegister.store m.io offset v }) :
    (m.writeIo offset v).2 =
      if offset = DeviceRegister.boot ∧ v.toNat % 2 = 1 ∧ stored.bootActive then
        { stored with overlay := none }
      else stored := by
  subst hstored
  unfold writeIo
  simp only [if_neg hflag, if_neg hly, odd_iff]
  split <;> rfl

theorem peek_writeIo {offset : Fin 0x80} (hflag : offset ≠ DeviceRegister.interruptFlag)
    (hly : offset ≠ DeviceRegister.ly) (m : Memory) (v : UInt8) (b : UInt16) :
    (m.writeIo offset v).2.peek b =
      if m.regionOf b = .io offset then .ok v
      else if offset = DeviceRegister.boot ∧ v.toNat % 2 = 1 ∧ m.bootActive ∧ b.toNat < 0x100 then
        m.fromCartridge b (·.readRom b)
      else m.peek b := by
  have hpage (hb : m.regionOf b = .io offset) : ¬ b.toNat < 0x100 := by
    have hholds := Region.ofAddress_eq_iff.1 hb
    simp only [Region.Holds] at hholds
    omega
  obtain ⟨stored, hstored⟩ : ∃ stored : Memory,
      stored = { m with io := DeviceRegister.store m.io offset v } := ⟨_, rfl⟩
  have hactive : stored.bootActive = m.bootActive := by rw [hstored]; rfl
  have hcartridge : stored.fromCartridge b (·.readRom b) = m.fromCartridge b (·.readRom b) := by
    rw [hstored]
    rfl
  have hpeek : stored.peek b = if m.regionOf b = .io offset then .ok v else m.peek b := by
    rw [hstored, peek_set_io m v b hflag]
  rw [writeIo_eq hflag hly hstored, hactive]
  by_cases hrelease : offset = DeviceRegister.boot ∧ v.toNat % 2 = 1 ∧ m.bootActive = true
  · obtain ⟨hboot, hodd, hon⟩ := hrelease
    rw [if_pos ⟨hboot, hodd, hon⟩, peek_release, hactive, hcartridge, hpeek]
    by_cases hb : b.toNat < 0x100
    · rw [if_pos ⟨hon, hb⟩, if_neg fun h => hpage h hb, if_pos ⟨hboot, hodd, hon, hb⟩]
    · simp only [hb, and_false, if_false]
  · have hkept : ¬ (offset = DeviceRegister.boot ∧ v.toNat % 2 = 1 ∧ m.bootActive = true ∧
        b.toNat < 0x100) := fun h => hrelease ⟨h.1, h.2.1, h.2.2.1⟩
    rw [if_neg hrelease, if_neg hkept, hpeek]

/-- A byte that is kept is read back at its own address and at the twin of that. -/
theorem peek_write_kept (ha : Keeps a) (h : m.write a v = .ok notice m') (b : UInt16) :
    m'.peek b =
      if b = a ∨ Twin a b then .ok v
      else if a = 0xFF50 ∧ v.toNat % 2 = 1 ∧ m.bootActive ∧ b < 0x100 then
        m.fromCartridge b (·.readRom b)
      else m.peek b := by
  rw [keeps_iff] at ha
  have hcovered := Region.covered_le m.bootActive
  have hholds : (m.regionOf a).Holds m.bootActive a := Region.ofAddress_holds a _
  have hboot : a = 0xFF50 ↔ a.toNat = 0xFF50 := UInt16.toNat_inj.symm
  simp only [UInt16.lt_iff_toNat_lt, UInt16.reduceToNat, hboot]
  have helsewhere {byte : Except BusError UInt8} (hother : a.toNat ≠ 0xFF50) :
      (if a.toNat = 0xFF50 ∧ v.toNat % 2 = 1 ∧ m.bootActive = true ∧ b.toNat < 0x100 then byte
        else m.peek b) = m.peek b :=
    if_neg fun h => hother h.1
  have hthere : m.regionOf a ≠ .unusable := by
    intro hunusable
    rw [hunusable] at hholds
    simp only [Region.Holds] at hholds
    omega
  have hplain {region : Region} (hregion : m.regionOf a = region)
      (htwin : a.toNat < 0xC000 ∨ 0xFE00 ≤ a.toNat) : m.regionOf b = region ↔ b = a ∨ Twin a b := by
    rw [regionOf_eq_iff hregion (hregion ▸ hthere), or_iff_left (not_twin htwin b)]
  unfold write at h
  cases hregion : m.regionOf a <;> rw [hregion] at h hholds <;> simp only [Region.Holds] at hholds
  case vram offset =>
    cases h
    rw [peek_set_vram, helsewhere (by omega)]
    simp only [hplain hregion (by omega)]
  case wram offset =>
    cases h
    rw [peek_set_wram, helsewhere (by omega)]
    simp only [regionOf_eq_wram_iff (.inl hregion)]
  case echo offset =>
    cases h
    rw [peek_set_wram, helsewhere (by omega)]
    simp only [regionOf_eq_wram_iff (.inr hregion)]
  case oam offset =>
    cases h
    rw [peek_set_oam, helsewhere (by omega)]
    simp only [hplain hregion (by omega)]
  case hram offset =>
    cases h
    rw [peek_set_hram, helsewhere (by omega)]
    simp only [hplain hregion (by omega)]
  case interruptEnable =>
    cases h
    rw [peek_set_enabled, helsewhere (by omega)]
    simp only [hplain hregion (by omega)]
  case io offset =>
    have hm' : m' = (m.writeIo offset v).2 := (EStateM.Result.ok.inj h).2.symm
    have hregister (register : Fin 0x80) : offset = register ↔ a.toNat = 0xFF00 + register := by
      rw [Fin.ext_iff]
      omega
    have hflag : offset ≠ DeviceRegister.interruptFlag := by
      rw [ne_eq, hregister]
      change a.toNat ≠ 0xFF0F
      omega
    have hly : offset ≠ DeviceRegister.ly := by
      rw [ne_eq, hregister]
      change a.toNat ≠ 0xFF44
      omega
    rw [hm', peek_writeIo hflag hly]
    simp only [hplain hregion (by omega), hregister]
    rfl
  all_goals omega

theorem write_interruptFlag (m : Memory) (v : UInt8) :
    m.write 0xFF0F v = .ok none { m with requested := v &&& 0x1F } := by
  have hregion : m.regionOf 0xFF0F = .io DeviceRegister.interruptFlag :=
    Region.ofAddress_eq_iff.2 rfl
  unfold write
  rw [hregion]
  rfl

theorem write_ly (m : Memory) (v : UInt8) : m.write 0xFF44 v = .ok none m := by
  have hregion : m.regionOf 0xFF44 = .io DeviceRegister.ly := Region.ofAddress_eq_iff.2 rfl
  unfold write
  rw [hregion]
  rfl

theorem regionOf_unusable (h : 0xFEA0 ≤ a.toNat ∧ a.toNat < 0xFF00) (m : Memory) :
    m.regionOf a = .unusable := Region.ofAddress_eq_iff.2 h

theorem write_unusable (h : 0xFEA0 ≤ a.toNat ∧ a.toNat < 0xFF00) (m : Memory) (v : UInt8) :
    m.write a v = .ok none m := by
  unfold write
  rw [regionOf_unusable h]

/-- Every bit is one of the five that are kept or one of the three that are always read as one. -/
theorem requested_or (v : UInt8) : v &&& 0x1F ||| 0xE0 = v ||| 0xE0 := by
  have hbits : ∀ i (_ : i < 8),
      (0x1F : UInt8).toBitVec[i] = true ∨ (0xE0 : UInt8).toBitVec[i] = true := by decide
  apply UInt8.eq_of_toBitVec_eq
  ext i hi
  simp only [UInt8.toBitVec_or, UInt8.toBitVec_and, BitVec.getElem_or, BitVec.getElem_and]
  rcases hbits i hi with h | h
  · rw [h, Bool.and_true]
  · rw [h, Bool.or_true, Bool.or_true]

/-- A write fails only in the windows of the cartridge, without one, and changes nothing then. -/
theorem write_error_iff (m : Memory) (a : UInt16) (v : UInt8) (e : BusError) (m' : Memory) :
    m.write a v = .error e m' ↔
      (m.cartridge = none ∧ (a.toNat < 0x8000 ∨ 0xA000 ≤ a.toNat ∧ a.toNat < 0xC000)) ∧
        e = .unmapped a ∧ m' = m := by
  by_cases hrom : a.toNat < 0x8000
  · rw [write_eq_writeCartRom hrom]
    cases hcartridge : m.cartridge with
    | none => simp [writeCartRom_none hcartridge, hrom, eq_comm]
    | some c => simp [writeCartRom_some hcartridge]
  by_cases hram : 0xA000 ≤ a.toNat ∧ a.toNat < 0xC000
  · rw [write_eq_writeCartRam hram]
    cases hcartridge : m.cartridge with
    | none => simp [writeCartRam_none hcartridge, hram, eq_comm]
    | some c => simp [writeCartRam_some hcartridge]
  have hholds : (m.regionOf a).Holds m.bootActive a := Region.ofAddress_holds a _
  have hcovered := Region.covered_le m.bootActive
  constructor
  · intro h
    unfold write at h
    cases hregion : m.regionOf a <;> rw [hregion] at h hholds <;>
      simp only [Region.Holds] at hholds
    all_goals first | cases h | omega
  · rintro ⟨⟨-, hwindow⟩, -⟩
    exact absurd hwindow (not_or.2 ⟨hrom, hram⟩)

theorem peek_shown {c : Cartridge} (hcartridge : m.cartridge = some c) (hb : m.ShowsCartridge b) :
    m.peek b = .ok (c.seen b) := by
  have hset : { m with cartridge := some c } = m := by rw [← hcartridge]
  rw [← if_pos (t := Except.ok (c.seen b)) (e := m.peek b) hb, ← peek_set_cartridge, hset]

/-- What is seen after a write to the controller. -/
theorem peek_write_rom (ha : a.toNat < 0x8000) (h : m.write a v = .ok notice m') (b : UInt16) :
    m'.peek b =
      if m.ShowsCartridge b then m.fromCartridge b fun c => (c.writeRom a v).2.seen b
      else m.peek b := by
  rw [write_eq_writeCartRom ha] at h
  obtain ⟨c, hcartridge, rfl⟩ := writeCartRom_eq_ok h
  rw [peek_set_cartridge, fromCartridge, hcartridge]

/-- What is seen after a write to the RAM of the cartridge. -/
theorem peek_write_ram (ha : 0xA000 ≤ a.toNat ∧ a.toNat < 0xC000)
    (h : m.write a v = .ok notice m') :
    ∃ c, m.cartridge = some c ∧ ∀ b, m'.peek b =
      if b = a ∧ (c.ramIndex? a).isSome then .ok v else m.peek b := by
  rw [write_eq_writeCartRam ha] at h
  obtain ⟨c, hcartridge, rfl⟩ := writeCartRam_eq_ok h
  refine ⟨c, hcartridge, fun b => ?_⟩
  rw [peek_set_cartridge]
  by_cases hshown : m.ShowsCartridge b
  · rw [if_pos hshown, peek_shown hcartridge hshown, ← apply_ite]
    congr 1
    rcases showsCartridge_iff.1 hshown with ⟨-, hrom⟩ | hram
    · have hlow : b < 0x8000 := UInt16.lt_iff_toNat_lt.2 hrom
      have hother : b ≠ a := by
        rintro rfl
        omega
      simp only [Cartridge.seen, if_pos hlow, Cartridge.readRom_writeRam, hother, false_and,
        if_false]
    · have hhigh : ¬ b < 0x8000 := by
        simp only [UInt16.lt_iff_toNat_lt, UInt16.reduceToNat]
        omega
      simp only [Cartridge.seen, if_neg hhigh, Cartridge.readRam_writeRam c v ha hram]
  · have hother : b ≠ a := by
      rintro rfl
      exact hshown (showsCartridge_iff.2 (.inr ha))
    rw [if_neg hshown, if_neg fun h => hother h.1]

/-- The byte that is written, at its own address. -/
theorem peek_write_unkept (h : m.write a v = .ok notice m') :
    (a = 0xFF0F → ∀ b, m'.peek b = if b = a then .ok (v ||| 0xE0) else m.peek b) ∧
    (a = 0xFF44 ∨ 0xFEA0 ≤ a.toNat ∧ a.toNat < 0xFF00 → m' = m) := by
  refine ⟨?_, ?_⟩
  · rintro rfl b
    have hregion : m.regionOf 0xFF0F = .io DeviceRegister.interruptFlag :=
      Region.ofAddress_eq_iff.2 rfl
    rw [write_interruptFlag] at h
    cases h
    simp only [peek_set_requested, requested_or, regionOf_eq_iff hregion nofun]
  · rintro (rfl | hunusable)
    · rw [write_ly] at h
      cases h
      rfl
    · rw [write_unusable hunusable] at h
      cases h
      rfl

/-- An address is in a window of the cartridge, keeps what is written to it, or is one of those that
do not. -/
theorem address_cases (a : UInt16) :
    a.toNat < 0x8000 ∨ (0xA000 ≤ a.toNat ∧ a.toNat < 0xC000) ∨ Keeps a ∨ a = 0xFF0F ∨
      a = 0xFF44 ∨ (0xFEA0 ≤ a.toNat ∧ a.toNat < 0xFF00) := by
  simp only [keeps_iff, ← UInt16.toNat_inj, UInt16.reduceToNat]
  omega

/-- Every address reads as before, with three exceptions. -/
theorem peek_write_other (h : m.write a v = .ok notice m') (b : UInt16) (hb : b ≠ a ∨ a < 0x8000) :
    m'.peek b =
      if Twin a b then .ok v
      else if a < 0x8000 ∧ m.ShowsCartridge b then
        m.fromCartridge b fun c => (c.writeRom a v).2.seen b
      else if a = 0xFF50 ∧ v.toNat % 2 = 1 ∧ m.bootActive ∧ b < 0x100 then
        m.fromCartridge b (·.readRom b)
      else m.peek b := by
  have hlow : a < 0x8000 ↔ a.toNat < 0x8000 := UInt16.lt_iff_toNat_lt
  have hboot : a = 0xFF50 ↔ a.toNat = 0xFF50 := UInt16.toNat_inj.symm
  by_cases hrom : a.toNat < 0x8000
  · have htwin : ¬ Twin a b := not_twin (.inl (by omega)) b
    have hother : ¬ (a = 0xFF50 ∧ v.toNat % 2 = 1 ∧ m.bootActive ∧ b < 0x100) := by
      rw [hboot]
      omega
    rw [peek_write_rom hrom h, if_neg htwin, if_neg hother]
    simp only [hlow, hrom, true_and]
  · have hne : b ≠ a := hb.resolve_right (mt hlow.1 hrom)
    have hskip : ¬ (a < 0x8000 ∧ m.ShowsCartridge b) := fun h => hrom (hlow.1 h.1)
    rw [if_neg hskip]
    by_cases hkeeps : Keeps a
    · simp only [peek_write_kept hkeeps h, hne, false_or]
    · have hplace := mt keeps_iff.2 hkeeps
      have htwin : ¬ Twin a b := not_twin (by omega) b
      have hother : ¬ (a = 0xFF50 ∧ v.toNat % 2 = 1 ∧ m.bootActive ∧ b < 0x100) := by
        rw [hboot]
        omega
      rw [if_neg htwin, if_neg hother]
      rcases address_cases a with ha | ha | ha | ha | ha
      · exact absurd ha hrom
      · obtain ⟨c, -, hpeek⟩ := peek_write_ram ha h
        rw [hpeek, if_neg fun h => hne h.1]
      · exact absurd ha hkeeps
      · rw [(peek_write_unkept h).1 ha, if_neg hne]
      · rw [(peek_write_unkept h).2 ha]

/-- The controller is written alike whether or not the boot program covers the first page. -/
theorem cartridge_write_rom (ha : a.toNat < 0x8000) (h : m.write a v = .ok notice m') :
    m'.cartridge = m.cartridge.map fun c => (c.writeRom a v).2 := by
  rw [write_eq_writeCartRom ha] at h
  obtain ⟨c, hcartridge, rfl⟩ := writeCartRom_eq_ok h
  rw [hcartridge]
  rfl

theorem cartridge_writeIo (m : Memory) (offset : Fin 0x80) (v : UInt8) :
    (m.writeIo offset v).2.cartridge = m.cartridge := by
  unfold writeIo
  split
  · rfl
  split
  · rfl
  simp only
  split <;> rfl

/-- A write changes the cartridge only through its controller or its RAM. -/
theorem cartridge_write (h : m.write a v = .ok notice m') :
    m'.cartridge = m.cartridge ∨ ∃ c, m.cartridge = some c ∧
      (m'.cartridge = some (c.writeRom a v).2 ∨ m'.cartridge = some (c.writeRam a v)) := by
  by_cases hrom : a.toNat < 0x8000
  · rw [cartridge_write_rom hrom h]
    cases m.cartridge with
    | none => exact .inl rfl
    | some c => exact .inr ⟨c, rfl, .inl rfl⟩
  by_cases hram : 0xA000 ≤ a.toNat ∧ a.toNat < 0xC000
  · rw [write_eq_writeCartRam hram] at h
    obtain ⟨c, hcartridge, rfl⟩ := writeCartRam_eq_ok h
    exact .inr ⟨c, hcartridge, .inr rfl⟩
  · left
    have hcovered := Region.covered_le m.bootActive
    have hholds : (m.regionOf a).Holds m.bootActive a := Region.ofAddress_holds a _
    unfold write at h
    cases hregion : m.regionOf a <;> rw [hregion] at h hholds <;>
      simp only [Region.Holds] at hholds
    case bootRom | cartRom | cartRam => omega
    case io offset =>
      have hm' : m' = (m.writeIo offset v).2 := (EStateM.Result.ok.inj h).2.symm
      rw [hm', cartridge_writeIo]
    all_goals
      cases h
      rfl

/-- What the controller and the RAM of a cartridge keep when they are written is kept by whatever is
done to the memory. -/
theorem cartridge_invariant {P : Cartridge → Prop}
    (hrom : ∀ c address v, P c → P (c.writeRom address v).2)
    (hram : ∀ c address v, P c → P (c.writeRam address v)) :
    Bus.Invariant fun m : Memory => ∀ c, m.cartridge = some c → P c where
  read {m} address h := by
    unfold Bus.afterRead
    cases hread : Bus.read address m with
    | ok => rwa [Bus.PureReads.read_ok hread]
    | error => rwa [Bus.PureReads.read_error hread]
  write {m} address v h := by
    unfold Bus.afterWrite
    cases hwrite : Bus.write address v m with
    | ok notice m' =>
      intro c hc
      rcases cartridge_write hwrite with hsame | ⟨c', hbefore, hwritten | hwritten⟩
      · exact h c (hsame ▸ hc)
      · obtain rfl := Option.some.inj (hc.symm.trans hwritten)
        exact hrom c' address v (h c' hbefore)
      · obtain rfl := Option.some.inj (hc.symm.trans hwritten)
        exact hram c' address v (h c' hbefore)
    | error => rwa [Bus.MemoryLike.write_error hwrite]
  acknowledge _ h := h
  endStep {m} cycles h := by
    intro c hc
    exact h c ((cartridge_endStep m cycles).symm.trans hc)

/-- The RAM of the cartridge, if there is one, has whole banks. -/
def HasWholeBanks (m : Memory) : Prop := ∀ c, m.cartridge = some c → c.WholeBanks

/-- What is done to the memory leaves a cartridge its whole banks. -/
theorem wholeBanks_invariant : Bus.Invariant HasWholeBanks :=
  cartridge_invariant (fun _ address v h => h.writeRom address v)
    fun _ address v h => h.writeRam address v

/-- **Memory law.** A write fails only where the cartridge would be and there is none, and changes
nothing then. Otherwise the byte is read back at its own address, apart from the registers that do
not keep it, and every other address reads as before with three exceptions: the twin of an address
in the work memory, what the cartridge shows after a write to its controller, and the first page
after the boot program has been taken away. The controller is written under the boot program as
well. That the RAM has whole banks holds of every cartridge that has been loaded, and is kept by
whatever is done to the memory. -/
theorem write_law (m : Memory) (a : UInt16) (v : UInt8) :
    ((∃ e m', m.write a v = .error e m') ↔
      m.cartridge = none ∧ (a < 0x8000 ∨ 0xA000 ≤ a ∧ a < 0xC000)) ∧
    (∀ e m', m.write a v = .error e m' → e = .unmapped a ∧ m' = m) ∧
    (∀ notice m', m.write a v = .ok notice m' →
      (0x8000 ≤ a ∧ a < 0xA000 ∨ 0xC000 ≤ a ∧ a < 0xFEA0 ∨
        0xFF00 ≤ a ∧ a ≠ 0xFF0F ∧ a ≠ 0xFF44 → m'.peek a = .ok v) ∧
      (a = 0xFF0F → m'.peek a = .ok (v ||| 0xE0)) ∧
      (a = 0xFF44 → m'.peek a = m.peek a) ∧
      (0xFEA0 ≤ a ∧ a < 0xFF00 → m'.peek a = .ok 0xFF) ∧
      (0xA000 ≤ a ∧ a < 0xC000 → ∃ c, m.cartridge = some c ∧
        m'.peek a = (if (c.ramIndex? a).isSome then .ok v else m.peek a) ∧
        (c.WholeBanks → ((c.ramIndex? a).isSome ↔ ∃ bank, c.mapper.ramBank? c.ramBanks = some bank ∧
          Cartridge.bankOffset bank a < c.ram.size))) ∧
      (∀ b, b ≠ a ∨ a < 0x8000 → m'.peek b =
        if Twin a b then .ok v
        else if a < 0x8000 ∧ m.ShowsCartridge b then
          m.fromCartridge b fun c => (c.writeRom a v).2.seen b
        else if a = 0xFF50 ∧ v.toNat % 2 = 1 ∧ m.bootActive ∧ b < 0x100 then
          m.fromCartridge b (·.readRom b)
        else m.peek b) ∧
      (a < 0x100 → ∀ overlay notice' m'',
        ({ m with overlay }).write a v = .ok notice' m'' → m''.cartridge = m'.cartridge)) ∧
    (∀ bytes c, Cartridge.load bytes = .ok c → c.WholeBanks) ∧ Bus.Invariant HasWholeBanks := by
  have hrange (low high : UInt16) : low ≤ a ∧ a < high ↔
      low.toNat ≤ a.toNat ∧ a.toNat < high.toNat := by
    rw [UInt16.le_iff_toNat_le, UInt16.lt_iff_toNat_lt]
  refine ⟨?_, ?_, ?_, fun _ _ hload => (Cartridge.isNew_of_load hload).wholeBanks,
    wholeBanks_invariant⟩
  · simp only [write_error_iff, UInt16.lt_iff_toNat_lt, UInt16.reduceToNat]
    constructor
    · rintro ⟨e, m', hwindow, -⟩
      exact hwindow
    · intro hwindow
      exact ⟨_, m, hwindow, rfl, rfl⟩
  · intro e m' h
    exact ((write_error_iff ..).1 h).2
  · intro notice m' h
    refine ⟨?_, ?_, ?_, ?_, ?_, fun b hb => peek_write_other h b hb, ?_⟩
    · intro ha
      rw [peek_write_kept ha h, if_pos (.inl rfl)]
    · intro ha
      rw [(peek_write_unkept h).1 ha, if_pos rfl]
    · intro ha
      rw [(peek_write_unkept h).2 (.inl ha)]
    · intro ha
      have hunusable := (hrange ..).1 ha
      rw [(peek_write_unkept h).2 (.inr hunusable), peek_eq_byteIn, regionOf_unusable hunusable]
      rfl
    · intro ha
      have hwindow := (hrange ..).1 ha
      obtain ⟨c, hcartridge, hpeek⟩ := peek_write_ram hwindow h
      refine ⟨c, hcartridge, ?_, fun hwhole => hwhole.isSome_ramIndex? ha⟩
      simp only [hpeek, true_and]
    · intro ha overlay notice' m'' h'
      have hrom : a.toNat < 0x8000 := by
        rw [UInt16.lt_iff_toNat_lt] at ha
        exact Nat.lt_trans ha (by decide)
      rw [cartridge_write_rom hrom h, cartridge_write_rom hrom h']

end

/-- Without a cartridge, taking the boot program away leaves nothing in the first page. -/
theorem write_law_release : ∃ (m m' : Memory) (notice : Option Notice),
    m.write 0xFF50 0x01 = .ok notice m' ∧ m.peek 0x0000 = .ok 0x3C ∧
    m'.peek 0xFF50 = .ok 0x01 ∧ m'.peek 0x0000 = .error (.unmapped 0x0000) := by
  obtain ⟨m, hm⟩ : ∃ m, m = start none (some (Vector.replicate 0x100 0x3C)) := ⟨_, rfl⟩
  obtain ⟨wram, hram, hstart⟩ := start_eq none (some (Vector.replicate 0x100 0x3C))
  rw [hstart] at hm
  obtain ⟨hfails, -, hsucceeds, -⟩ := write_law m 0xFF50 0x01
  cases hwrite : m.write 0xFF50 0x01 with
  | error e m' => exact absurd (hfails.1 ⟨e, m', hwrite⟩).2 (by decide)
  | ok notice m' =>
    obtain ⟨hown, -, -, -, -, hother, -⟩ := hsucceeds notice m' hwrite
    refine ⟨m, m', notice, hwrite, ?_, hown (by decide), ?_⟩
    · rw [hm]
      rfl
    · rw [hother 0x0000 (by decide), hm]
      rfl

end Memory

end GameBoy
