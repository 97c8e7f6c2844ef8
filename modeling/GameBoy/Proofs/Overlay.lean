import GameBoy.Proofs.ReadBack
import GameBoy.Proofs.Watch

/-!
# The boot program

The boot program covers the first page until an odd value is written to the boot register, and never
after that. Whatever is done to a console, a monitor on its bus has seen all the writes, those of
the programs included; so it has seen such a write exactly if the first page is no longer covered.

Main statement: `Console.boot_latch`.
-/

namespace GameBoy

/-! ## What is done to a console -/

namespace Console

/-- What is done to a console from outside: a step is made, something is done on its bus alone, or
the processor is put into another state. -/
inductive Act where
  | step
  | read (address : UInt16)
  | write (address : UInt16) (value : UInt8)
  | endStep (cycles : Nat)
  | acknowledge (line : Fin 8)
  | insert (cartridge : Cartridge)
  | replace (cpu : Cpu)

end Console

namespace Machine

variable {β : Type} [Bus β]

/-- The machine after an act, where `insert` puts a cartridge into the bus. -/
def act (insert : Cartridge → β → β) (s : Machine β) : Console.Act → Machine β
  | .step => s.next
  | .read address => { s with bus := Bus.afterRead address s.bus }
  | .write address value => { s with bus := Bus.afterWrite address value s.bus }
  | .endStep cycles => { s with bus := (Bus.endStep s.bus cycles).2 }
  | .acknowledge line => { s with bus := Bus.acknowledge s.bus line }
  | .insert cartridge => { s with bus := insert cartridge s.bus }
  | .replace cpu => { s with cpu }

/-- An invariant of the bus survives an act, if it survives the insertion of the cartridge that the
act inserts, if any. -/
theorem act_keeps {P : β → Prop} (hP : Bus.Invariant P) {insert : Cartridge → β → β}
    {s : Machine β} (hs : P s.bus) {act : Console.Act}
    (hinsert : ∀ cartridge b, act = .insert cartridge → P b → P (insert cartridge b)) :
    P (s.act insert act).bus := by
  cases act with
  | step => exact hP.next hs
  | read address => exact hP.read address hs
  | write address value => exact hP.write address value hs
  | endStep cycles => exact hP.endStep cycles hs
  | acknowledge line => exact hP.acknowledge line hs
  | insert cartridge => exact hinsert cartridge _ rfl hs
  | replace cpu => exact hs

/-- An invariant of the bus survives any acts, if it survives the insertion of the cartridges that
they insert. -/
theorem acts_keep {P : β → Prop} (hP : Bus.Invariant P) {insert : Cartridge → β → β}
    {s : Machine β} (hs : P s.bus) {acts : List Console.Act}
    (hinsert : ∀ cartridge b, .insert cartridge ∈ acts → P b → P (insert cartridge b)) :
    P (acts.foldl (act insert) s).bus := by
  induction acts generalizing s with
  | nil => exact hs
  | cons act acts ih =>
    have hfirst : P (s.act insert act).bus := act_keeps hP hs fun cartridge b h =>
      hinsert cartridge b (h ▸ List.mem_cons_self)
    exact ih hfirst fun cartridge b h => hinsert cartridge b (List.mem_cons_of_mem act h)

end Machine

namespace Console

/-- The console after acts, in order. -/
def after (console : Console) (acts : List Act) : Console :=
  acts.foldl (Machine.act fun cartridge m => m.insert cartridge) console

/-- The console with a monitor on its bus after the same acts. -/
def watchedAfter (console : Console) (acts : List Act) : Machine (Monitored Memory) :=
  acts.foldl (Machine.act fun cartridge b => { b with inner := b.inner.insert cartridge })
    (console.watch #[])

/-- Everything that has passed over the bus of a console during the acts, the accesses of its
programs included. -/
def traffic (console : Console) (acts : List Act) : Array Traffic :=
  (console.watchedAfter acts).bus.traffic

/-! ## Acts under a monitor -/

theorem act_watch (s : Console) (traffic : Array Traffic) (act : Act) : ∃ traffic',
    (s.watch traffic).act (fun cartridge b => { b with inner := b.inner.insert cartridge }) act =
      (s.act (fun cartridge m => m.insert cartridge) act).watch traffic' := by
  cases act with
  | step => exact s.next_watch traffic
  | read address =>
    simp only [Machine.act, Machine.watch, Bus.afterRead, Monitored.read_apply]
    cases Bus.read address s.bus <;> exact ⟨_, rfl⟩
  | write address value =>
    simp only [Machine.act, Machine.watch, Bus.afterWrite, Monitored.write_apply]
    cases Bus.write address value s.bus <;> exact ⟨_, rfl⟩
  | endStep cycles => exact ⟨_, rfl⟩
  | acknowledge line => exact ⟨_, rfl⟩
  | insert cartridge => exact ⟨_, rfl⟩
  | replace cpu => exact ⟨_, rfl⟩

/-- A monitor does not change what acts do. -/
theorem watchedAfter_eq (console : Console) (acts : List Act) :
    console.watchedAfter acts = (console.after acts).watch (console.traffic acts) := by
  have hwatched (s : Console) (seen : Array Traffic) : ∃ seen',
      acts.foldl (Machine.act fun cartridge b => { b with inner := b.inner.insert cartridge })
        (s.watch seen) = (s.after acts).watch seen' := by
    induction acts generalizing s seen with
    | nil => exact ⟨seen, rfl⟩
    | cons act acts ih =>
      obtain ⟨seen', hact⟩ := act_watch s seen act
      rw [List.foldl_cons, hact]
      exact ih _ seen'
  obtain ⟨seen, hseen⟩ := hwatched console #[]
  have htraffic : console.traffic acts = seen := by rw [traffic, watchedAfter, hseen]; rfl
  rw [htraffic, watchedAfter, hseen]

end Console

/-! ## Taking the boot program away -/

/-- Whether an event takes the boot program away: an odd value is written to the boot register. -/
def Traffic.releases : Traffic → Bool
  | .wrote address value => address == 0xFF50 && value.toNat % 2 == 1
  | _ => false

theorem Traffic.any_releases_eq_false {events : Array Traffic} :
    events.any releases = false ↔ ∀ v, wrote 0xFF50 v ∈ events → v.toNat % 2 = 0 := by
  rw [← Bool.not_eq_true, Array.any_eq_true']
  constructor
  · intro hnone v hv
    by_contra hodd
    refine hnone ⟨_, hv, ?_⟩
    simp only [releases, beq_self_eq_true, Bool.true_and, beq_iff_eq]
    omega
  · rintro hall ⟨event, hevent, hreleases⟩
    cases event with
    | wrote address v =>
      simp only [releases, Bool.and_eq_true, beq_iff_eq] at hreleases
      obtain ⟨rfl, hodd⟩ := hreleases
      have heven := hall v hevent
      omega
    | _ => cases hreleases

namespace Memory

variable {m m' : Memory} {a : UInt16} {v : UInt8} {notice : Option Notice}

theorem overlay_writeIo (m : Memory) (offset : Fin 0x80) (v : UInt8) :
    (m.writeIo offset v).2.overlay =
      if offset = DeviceRegister.boot ∧ v.toNat % 2 = 1 then none else m.overlay := by
  by_cases hflag : offset = DeviceRegister.interruptFlag
  · have hother : offset ≠ DeviceRegister.boot := by
      rw [hflag]
      decide
    rw [writeIo, if_pos hflag, if_neg fun h => hother h.1]
  by_cases hly : offset = DeviceRegister.ly
  · have hother : offset ≠ DeviceRegister.boot := by
      rw [hly]
      decide
    rw [writeIo, if_neg hflag, if_pos hly, if_neg fun h => hother h.1]
  rw [writeIo_eq hflag hly rfl]
  cases hoverlay : m.overlay with
  | none => simp only [bootActive, Option.isSome_none, Bool.false_eq_true, and_false, ite_self]
  | some image =>
    simp only [bootActive, Option.isSome_some, and_true]
    split <;> rfl

/-- A write goes to a device register, or leaves the boot program and the requests alone. -/
theorem write_register (h : m.write a v = .ok notice m') :
    (∃ offset : Fin 0x80, a.toNat = 0xFF00 + offset ∧ m' = (m.writeIo offset v).2) ∨
      (a.toNat < 0xFF00 ∨ 0xFF80 ≤ a.toNat) ∧
        m'.overlay = m.overlay ∧ m'.requested = m.requested := by
  have hcovered := Region.covered_le m.bootActive
  have hholds : (m.regionOf a).Holds m.bootActive a := Region.ofAddress_holds a _
  unfold write at h
  cases hregion : m.regionOf a <;> rw [hregion] at h hholds <;>
    simp only [Region.Holds] at hholds
  case bootRom | cartRom =>
    obtain ⟨c, -, rfl⟩ := writeCartRom_eq_ok h
    exact .inr ⟨by omega, rfl, rfl⟩
  case cartRam =>
    obtain ⟨c, -, rfl⟩ := writeCartRam_eq_ok h
    exact .inr ⟨by omega, rfl, rfl⟩
  case io offset => exact .inl ⟨offset, hholds, (EStateM.Result.ok.inj h).2.symm⟩
  all_goals
    cases h
    exact .inr ⟨by omega, rfl, rfl⟩

/-- No write but that of an odd value to the boot register touches the boot program. -/
theorem overlay_write (h : m.write a v = .ok notice m') :
    m'.overlay = if (Traffic.wrote a v).releases then none else m.overlay := by
  have hreleases : (Traffic.wrote a v).releases = true ↔ a.toNat = 0xFF50 ∧ v.toNat % 2 = 1 := by
    rw [Traffic.releases, Bool.and_eq_true, beq_iff_eq, beq_iff_eq, ← UInt16.toNat_inj]
    rfl
  rcases write_register h with ⟨offset, hplace, rfl⟩ | ⟨hplace, hsame, -⟩
  · have hboot : offset = DeviceRegister.boot ↔ a.toNat = 0xFF50 := by
      rw [Fin.ext_iff]
      change offset.val = 0x50 ↔ _
      omega
    simp only [overlay_writeIo, hreleases, hboot]
  · rw [hsame, if_neg]
    rw [hreleases]
    omega

theorem overlay_endStep (m : Memory) (cycles : Nat) : (m.endStep cycles).2.overlay = m.overlay := by
  obtain ⟨_, _, _, hframe⟩ := m.endStep_frame cycles
  rw [hframe]

/-- The boot program covers the first page unless the monitor has seen it taken away. -/
def Latched (boot : Option (Vector UInt8 bootRomSize)) (b : Monitored Memory) : Prop :=
  b.inner.overlay = if b.traffic.any Traffic.releases then none else boot

variable {boot : Option (Vector UInt8 bootRomSize)}

/-- The boot program follows the events. -/
theorem Latched.push {traffic : Array Traffic} (h : Latched boot ⟨m, traffic⟩) {event : Traffic}
    (hevent : m'.overlay = if event.releases then none else m.overlay) :
    Latched boot ⟨m', traffic.push event⟩ := by
  simp only [Latched, Array.any_push] at h ⊢
  rw [hevent, h]
  cases event.releases <;> simp

theorem latched_invariant : Bus.Invariant (Latched boot) where
  read := by
    rintro ⟨m, traffic⟩ address h
    simp only [Bus.afterRead, Monitored.read_apply]
    cases hread : Bus.read address m with
    | ok v m' =>
      obtain rfl := Bus.PureReads.read_ok hread
      exact h.push rfl
    | error e m' =>
      obtain rfl := Bus.PureReads.read_error hread
      exact h.push rfl
  write := by
    rintro ⟨m, traffic⟩ address v h
    simp only [Bus.afterWrite, Monitored.write_apply]
    cases hwrite : Bus.write address v m with
    | ok notice m' => exact h.push (overlay_write hwrite)
    | error e m' =>
      obtain rfl := ((write_error_iff ..).1 hwrite).2.2
      exact h.push rfl
  acknowledge line h := h.push rfl
  endStep cycles h := h.push (overlay_endStep _ cycles)

/-! ## Reading the first page -/

theorem read_covered {image : Vector UInt8 bootRomSize} (h : m.overlay = some image)
    (ha : a.toNat < 0x100) : Bus.read a m = .ok image[a.toNat] m := by
  have hregion : m.regionOf a = .bootRom ⟨a.toNat, ha⟩ := by
    refine Region.ofAddress_eq_iff.2 ⟨?_, rfl⟩
    rw [bootActive, h]
    exact ha
  refine read_of_peek ?_
  rw [peek_eq_byteIn, hregion, byteIn, h]
  rfl

theorem read_released (h : m.overlay = none) (ha : a.toNat < 0x100) :
    Bus.read a m = match m.cartridge with
      | some c => .ok (c.readRom a) m
      | none => .error (.unmapped a) m := by
  have hregion : m.regionOf a = .cartRom a := by
    refine Region.ofAddress_eq_iff.2 ⟨rfl, ?_, by omega⟩
    rw [bootActive, h]
    exact Nat.zero_le _
  simp only [Bus.read, peek_eq_byteIn, hregion, byteIn, fromCartridge]
  cases m.cartridge <;> rfl

end Memory

namespace Console

variable {config : Config} {console : Console}

/-- After acts the boot program is there as before, unless it has been taken away. -/
theorem overlay_after (console : Console) (acts : List Act) :
    (console.after acts).bus.overlay =
      if (console.traffic acts).any Traffic.releases then none else console.bus.overlay := by
  have hstart : Memory.Latched console.bus.overlay (console.watch #[]).bus := by
    simp [Memory.Latched, Machine.watch]
  have hend : Memory.Latched console.bus.overlay (console.watchedAfter acts).bus := by
    refine Machine.acts_keep Memory.latched_invariant hstart ?_
    intro cartridge b _ h
    exact h
  rw [watchedAfter_eq] at hend
  exact hend

theorem after_append (console : Console) (acts later : List Act) :
    console.after (acts ++ later) = (console.after acts).after later := List.foldl_append

/-- The boot program of a new console is that of its configuration. -/
theorem overlay_build {cartridge : Option Cartridge} (h : build cartridge config = .ok console) :
    config.bootRom = none ∧ console.bus.overlay = none ∨
      ∃ image boot, config.bootRom = some image ∧ console.bus.overlay = some boot ∧
        ∀ i (hi : i < bootRomSize), image[i]? = some boot[i] := by
  obtain ⟨boot, himage, rfl⟩ := build_eq_ok.1 h
  obtain ⟨_, _, hstart⟩ := Memory.start_eq cartridge boot
  have hoverlay : (Machine.start (startCpu config boot.isSome) (Memory.start cartridge boot)
      ).bus.overlay = boot := by
    rw [hstart]
    rfl
  rw [hoverlay]
  unfold bootImage? bootImage at himage
  cases hrom : config.bootRom with
  | none =>
    rw [hrom] at himage
    exact .inl ⟨rfl, (Except.ok.inj himage).symm⟩
  | some bytes =>
    simp only [hrom] at himage
    split at himage
    · rename_i hsize
      refine .inr ⟨bytes, _, rfl, (Except.ok.inj himage).symm, ?_⟩
      intro i hi
      rw [getElem?_pos bytes i (by rw [ByteArray.size, hsize]; exact hi)]
      rfl
    · cases himage

/-- The boot program covers the first page of a console exactly if there is one and no odd value has
been written to the boot register so far, be it by a program or from outside. While it does, the
first page is the boot program; once it does not, the first page is the cartridge's for ever. -/
theorem boot_latch {cartridge : Option Cartridge} (hbuild : build cartridge config = .ok console)
    (acts : List Act) :
    let m := (console.after acts).bus
    console.watchedAfter acts = (console.after acts).watch (console.traffic acts) ∧
    (m.bootActive = true ↔ config.bootRom.isSome ∧
      ∀ v, .wrote 0xFF50 v ∈ console.traffic acts → v.toNat % 2 = 0) ∧
    (m.bootActive = true → ∃ image, config.bootRom = some image ∧ ∀ address, address < 0x100 →
      ∃ v, image[address.toNat]? = some v ∧ Bus.read address m = .ok v m) ∧
    (m.bootActive = false → ∀ later,
      let m' := (console.after (acts ++ later)).bus
      m'.bootActive = false ∧ ∀ address, address < 0x100 →
        Bus.read address m' = match m'.cartridge with
          | some c => .ok (c.readRom address) m'
          | none => .error (.unmapped address) m') := by
  intro m
  have hoverlay := overlay_after console acts
  have hpage {address : UInt16} (h : address < 0x100) : address.toNat < 0x100 :=
    UInt16.lt_iff_toNat_lt.1 h
  refine ⟨watchedAfter_eq console acts, ?_, ?_, ?_⟩
  · rw [← Traffic.any_releases_eq_false]
    change (console.after acts).bus.overlay.isSome = true ↔ _
    rw [hoverlay]
    rcases overlay_build hbuild with ⟨hrom, hboot⟩ | ⟨image, boot, hrom, hboot, -⟩
    · simp [hrom, hboot]
    · cases (console.traffic acts).any Traffic.releases <;> simp [hrom, hboot]
  · intro hactive
    obtain ⟨boot, hboot⟩ := Option.isSome_iff_exists.1 hactive
    have hsame : console.bus.overlay = some boot := by
      rw [hboot] at hoverlay
      split at hoverlay
      · cases hoverlay
      · exact hoverlay.symm
    rcases overlay_build hbuild with ⟨-, hnone⟩ | ⟨image, boot', hrom, hboot', hbytes⟩
    · rw [hnone] at hsame
      cases hsame
    · obtain rfl : boot' = boot := Option.some.inj (hboot'.symm.trans hsame)
      exact ⟨image, hrom, fun address h =>
        ⟨_, hbytes _ (hpage h), Memory.read_covered hboot (hpage h)⟩⟩
  · intro hactive later m'
    have hnone : m.overlay = none :=
      Option.isNone_iff_eq_none.1 (Option.isSome_eq_false_iff.1 hactive)
    have hlater : m'.overlay = none := by
      change (console.after (acts ++ later)).bus.overlay = none
      rw [after_append, overlay_after, hnone, ite_self]
    refine ⟨?_, fun address h => Memory.read_released hlater (hpage h)⟩
    rw [Memory.bootActive, hlater]
    rfl

/-- A boot program that takes itself away with its second instruction: LD A,1 and LDH (50),A. -/
def releasingBoot : Vector UInt8 bootRomSize :=
  ((((Vector.replicate bootRomSize 0).set 0 0x3E).set 1 0x01).set 2 0xE0).set 3 0x50

theorem build_releasing : ∃ console : Console,
    console = Machine.start (startCpu ⟨some ⟨releasingBoot.toArray⟩, none, false⟩ true)
      (Memory.start none (some releasingBoot)) ∧
    build none ⟨some ⟨releasingBoot.toArray⟩, none, false⟩ = .ok console :=
  ⟨_, rfl, build_boot none releasingBoot none⟩

/-- The second instruction is seen after the first step. After the second step there is nothing in
its place without a cartridge, and writing an even value does not bring it back. -/
theorem boot_latch_self_release : ∃ console : Console,
    build none ⟨some ⟨releasingBoot.toArray⟩, none, false⟩ = .ok console ∧
    Bus.read 0x0002 (console.after [.step]).bus = .ok 0xE0 (console.after [.step]).bus ∧
    (console.after [.step, .step, .write 0xFF50 0x00]).bus.bootActive = false ∧
    Bus.read 0x0002 (console.after [.step, .step]).bus =
      .error (.unmapped 0x0002) (console.after [.step, .step]).bus := by
  obtain ⟨console, hconsole, hbuild⟩ := build_releasing
  have hpage : (0x0002 : UInt16) < 0x100 := by decide
  have hcovered : (console.after [.step]).bus.bootActive = true := by
    rw [hconsole]
    decide +kernel
  have hreleased : (console.after [.step, .step]).bus.bootActive = false := by
    rw [hconsole]
    decide +kernel
  have hempty : (console.after [.step, .step]).bus.cartridge = none := by
    rw [← Option.isNone_iff_eq_none, hconsole]
    decide +kernel
  have hbyte : (⟨releasingBoot.toArray⟩ : ByteArray)[(0x0002 : UInt16).toNat]? = some 0xE0 := by
    decide +kernel
  refine ⟨console, hbuild, ?_, ?_, ?_⟩
  · obtain ⟨-, -, hbytes, -⟩ := boot_latch hbuild [.step]
    obtain ⟨image, himage, hread⟩ := hbytes hcovered
    obtain ⟨v, hv, hread⟩ := hread 0x0002 hpage
    obtain rfl := Option.some.inj himage
    obtain rfl : 0xE0 = v := Option.some.inj (hbyte.symm.trans hv)
    exact hread
  · obtain ⟨-, -, -, hrest⟩ := boot_latch hbuild [.step, .step]
    exact (hrest hreleased [.write 0xFF50 0x00]).1
  · obtain ⟨-, -, -, hrest⟩ := boot_latch hbuild [.step, .step]
    have hread := (hrest hreleased []).2 0x0002 hpage
    rw [List.append_nil, hempty] at hread
    exact hread

end Console

end GameBoy
