import GameBoy.Proofs.Binary
import GameBoy.Proofs.Branches

/-!
# Instructions on words

Two bits of an opcode name a word register: BC, DE, HL or SP. All but one of the instructions on
words put a word in one of these, and say by themselves what becomes of the flags; nothing else
changes. The one that is left stores the stack pointer. A signed offset is added to the stack pointer
in two ways, by an operation of its own and in a load of HL, and both come to the same.

Main statement: `Machine.IsReady.word_instructions`.
-/

namespace GameBoy

/-! ## Word registers -/

namespace Registers

/-- The contents of the word register with the given number. -/
def numbered (r : Registers) : Fin 4 → UInt16
  | 0 => Word.ofBytes r.b r.c
  | 1 => Word.ofBytes r.d r.e
  | 2 => Word.ofBytes r.h r.l
  | 3 => r.sp

variable (r : Registers) (p q : Fin 4) (w pc : UInt16)

theorem word_ofField : r.word (.ofField p) = r.numbered p := by
  match p with
  | 0 | 1 | 2 | 3 => rfl

theorem numbered_setWord :
    (r.setWord (.ofField p) w).numbered q = if q = p then w else r.numbered q := by
  match p, q with
  | 0, 0 | 1, 1 | 2, 2 => exact Word.ofBytes_high_low w
  | 3, 3 => rfl
  | 0, 1 | 0, 2 | 0, 3 | 1, 0 | 1, 2 | 1, 3 | 2, 0 | 2, 1 | 2, 3 | 3, 0 | 3, 1 | 3, 2 => rfl

theorem a_setWord : (r.setWord (.ofField p) w).a = r.a := by
  match p with
  | 0 | 1 | 2 | 3 => rfl

theorem setWord_pc :
    { r with pc }.setWord (.ofField p) w = { r.setWord (.ofField p) w with f := r.f, pc } := by
  match p with
  | 0 | 1 | 2 | 3 => rfl

theorem numbered_pc : { r with pc }.numbered p = r.numbered p := by
  match p with
  | 0 | 1 | 2 | 3 => rfl

end Registers

/-! ## Sums -/

namespace Arithmetic

/-- `r` is the sum of two words, with the flags of an addition to HL, which keeps Z. -/
structure IsWordSum (a v : UInt16) (z : Bool) (r : UInt16) (f : Flags) : Prop where
  value : r.toNat = (a.toNat + v.toNat) % 65536
  z : f.z = z
  n : f.n = false
  h : f.h = true ↔ 4095 < a.toNat % 4096 + v.toNat % 4096
  c : f.c = true ↔ 65535 < a.toNat + v.toNat

/-- `r` is at a signed distance from a word, with the flags of the sum of the low bytes. -/
structure IsOffsetSum (sp : UInt16) (e : UInt8) (r : UInt16) (f : Flags) : Prop where
  value : r = Word.displaced sp e
  z : f.z = false
  n : f.n = false
  h : f.h = true ↔ 15 < sp.toNat % 16 + e.toNat % 16
  c : f.c = true ↔ 255 < sp.toNat % 256 + e.toNat

theorem isWordSum_add16 (a v : UInt16) (z : Bool) :
    IsWordSum a v z (add16 a v).1 { (add16 a v).2 with z } :=
  ⟨UInt16.toNat_add a v, rfl, rfl, half_add16 a v, carry_add16 a v⟩

theorem isOffsetSum_addOffset (sp : UInt16) (e : UInt8) :
    IsOffsetSum sp e (addOffset sp (Word.signExtend e)).1 (addOffset sp (Word.signExtend e)).2 := by
  have hoffset := Word.toNat_signExtend_mod e
  refine ⟨(Word.displaced_eq sp e).symm, rfl, rfl, ?_, ?_⟩
  · rw [half_addOffset]
    omega
  · rw [carry_addOffset, hoffset]

end Arithmetic

/-! ## Instructions -/

namespace Instruction

/-- Load a word register, given by its number, with the word after the opcode. -/
def loadWord (p : Fin 4) : Instruction := ⟨0x01 + 16 * p.val.toUInt8, false⟩

/-- Add one to a word register. -/
def incWord (p : Fin 4) : Instruction := ⟨0x03 + 16 * p.val.toUInt8, false⟩

/-- Subtract one from a word register. -/
def decWord (p : Fin 4) : Instruction := ⟨0x0B + 16 * p.val.toUInt8, false⟩

/-- Add a word register to HL. -/
def addHL (p : Fin 4) : Instruction := ⟨0x09 + 16 * p.val.toUInt8, false⟩

/-- Store the stack pointer at the address after the opcode. -/
def storeSP : Instruction := ⟨0x08, false⟩

/-- Load the stack pointer from HL. -/
def loadSP : Instruction := ⟨0xF9, false⟩

/-- Add a signed offset to the stack pointer. -/
def addSP : Instruction := ⟨0xE8, false⟩

/-- Load HL with the stack pointer plus a signed offset. -/
def loadHL : Instruction := ⟨0xF8, false⟩

theorem action_loadWord (p : Fin 4) : (loadWord p).action = .operation (.loadWord (.ofField p)) := by
  match p with
  | 0 | 1 | 2 | 3 => rfl

theorem action_incWord (p : Fin 4) : (incWord p).action = .operation (.incWord (.ofField p)) := by
  match p with
  | 0 | 1 | 2 | 3 => rfl

theorem action_decWord (p : Fin 4) : (decWord p).action = .operation (.decWord (.ofField p)) := by
  match p with
  | 0 | 1 | 2 | 3 => rfl

theorem action_addHL (p : Fin 4) : (addHL p).action = .operation (.addHL (.ofField p)) := by
  match p with
  | 0 | 1 | 2 | 3 => rfl

end Instruction

/-! ## Operations -/

namespace Operation

open Arithmetic

/-- The operation works on the registers and the bytes after its opcode alone. -/
structure IsInternal (op : Operation) : Prop where
  isProper : op.isProper
  control : ∀ cpu, op.control cpu = cpu
  load? : ∀ r fetched, op.load? r fetched = .none
  store? : ∀ r fetched loaded, op.store? r fetched loaded = .none

/-- Whether an operation puts a word in a word register. -/
def setsWord : Operation → Bool
  | loadWord _ | loadSP | loadHL | incWord _ | decWord _ | addHL _ | addSP => true
  | _ => false

theorem isInternal_of_setsWord {op : Operation} (h : op.setsWord) : op.IsInternal := by
  cases op with
  | loadWord | loadSP | loadHL | incWord | decWord | addHL | addSP =>
    exact ⟨rfl, fun _ => rfl, fun _ _ => rfl, fun _ _ _ => rfl⟩
  | _ => cases h

variable (fetched loaded : UInt16) (r : Registers) (p : Fin 4)

theorem settle_addHL : (addHL (.ofField p)).settle fetched loaded r =
    { r.setWord (.ofField 2) (add16 (r.numbered 2) (r.numbered p)).1 with
      f := Flags.toByte { (add16 (r.numbered 2) (r.numbered p)).2 with z := r.flags.z } } := by
  rw [settle, Registers.word_ofField]
  rfl

theorem settle_addSP (e : UInt8) : addSP.settle e.toUInt16 loaded r =
    { r.setWord (.ofField 3) (addOffset r.sp (Word.signExtend e)).1 with
      f := (addOffset r.sp (Word.signExtend e)).2.toByte } := by
  rw [settle, UInt8.toUInt8_toUInt16]
  rfl

theorem settle_loadHL (e : UInt8) : loadHL.settle e.toUInt16 loaded r =
    { r.setWord (.ofField 2) (addOffset r.sp (Word.signExtend e)).1 with
      f := (addOffset r.sp (Word.signExtend e)).2.toByte } := by
  rw [settle, UInt8.toUInt8_toUInt16]
  rfl

end Operation

/-! ## Steps -/

namespace Machine

open Arithmetic

/-- The word register with the given number holds `w` and F holds `f`; the program counter has moved
over the instruction, and nothing else has changed. -/
structure Sets (s : Machine FlatBus) (p : Fin 4) (w : UInt16) (f : UInt8) (length : UInt16)
    (t : Machine FlatBus) : Prop where
  target : t.cpu.regs.numbered p = w
  others : ∀ q, q ≠ p → t.cpu.regs.numbered q = s.cpu.regs.numbered q
  a : t.cpu.regs.a = s.cpu.regs.a
  f : t.cpu.regs.f = f
  pc : t.cpu.regs.pc = s.cpu.regs.pc + length
  bus : t.bus = s.bus

/-- The stack pointer lies in memory at the address after the opcode, low byte first, and nothing
else has changed but the program counter. -/
structure StoresSP (s t : Machine FlatBus) : Prop where
  low : t.bus.byte (s.bus.word (s.cpu.regs.pc + 1)) = Word.low s.cpu.regs.sp
  high : t.bus.byte (s.bus.word (s.cpu.regs.pc + 1) + 1) = Word.high s.cpu.regs.sp
  others : ∀ a, a ≠ s.bus.word (s.cpu.regs.pc + 1) → a ≠ s.bus.word (s.cpu.regs.pc + 1) + 1 →
    t.bus.byte a = s.bus.byte a
  regs : t.cpu.regs = { s.cpu.regs with pc := s.cpu.regs.pc + 3 }

variable {s t : Machine FlatBus} {i : Instruction} {op : Operation} {p : Fin 4} {w : UInt16}
  {f : UInt8}

theorem Sets.of_regs {length : UInt16} (hregs : t.cpu.regs =
      { s.cpu.regs.setWord (.ofField p) w with f, pc := s.cpu.regs.pc + length })
    (hbus : t.bus = s.bus) : s.Sets p w f length t := by
  have hnumbered (q : Fin 4) :
      t.cpu.regs.numbered q = if q = p then w else s.cpu.regs.numbered q := by
    rw [← Registers.numbered_setWord, hregs]
    match q with
    | 0 | 1 | 2 | 3 => rfl
  refine ⟨?_, fun q hq => ?_, ?_, ?_, ?_, hbus⟩
  · rw [hnumbered, if_pos rfl]
  · rw [hnumbered, if_neg hq]
  · rw [hregs]
    exact s.cpu.regs.a_setWord p w
  · rw [hregs]
  · rw [hregs]

/-- A step that executes an operation of the first page on the registers alone. -/
theorem IsReady.executes_internal (h : s.IsReady) (hi : s.bus.instruction s.cpu.regs.pc = i)
    (hop : i.action = .operation op) (hinternal : op.IsInternal) :
    ∃ t, s.Executes i (op.cost (op.branches s.cpu.flags)) t ∧
      t.cpu.regs = op.settle (s.bus.span (s.cpu.regs.pc + 1) op.immediateLength) 0
        { s.cpu.regs with pc := s.cpu.regs.pc + (1 + op.immediateLength).toUInt16 } ∧
      t.bus = s.bus := by
  obtain ⟨t, hexecutes, hregs, hbus⟩ := h.executes_action hi hop hinternal.isProper hinternal.control
  let d := s.decoded i
  have hpc : d.cpu.regs.pc = s.cpu.regs.pc + 1 := pc_decoded hop
  have hfetched : op.phases.fetched d = s.bus.span (s.cpu.regs.pc + 1) op.immediateLength := by
    rw [Phases.fetched, hpc]
    rfl
  have hloaded : op.phases.loaded d = 0 := by
    have hloading : op.phases.loading d = .none := hinternal.load? _ _
    rw [Phases.loaded, hloading]
    rfl
  have harrived : (op.phases.arrived d).regs =
      { s.cpu.regs with pc := s.cpu.regs.pc + (1 + op.immediateLength).toUInt16 } := by
    have hlength : (1 + op.immediateLength).toUInt16 = 1 + op.immediateLength.toUInt16 :=
      UInt16.ofNat_add 1 _
    rw [hlength, ← UInt16.add_assoc, ← hpc]
    rfl
  have hresult := op.phases.result_unstored (s := d) (hinternal.store? _ _ _)
  refine ⟨t, hexecutes, ?_, ?_⟩
  · have hcommit : (op.phases.result d).cpu.regs =
        op.settle (op.phases.fetched d) (op.phases.loaded d) (op.phases.arrived d).regs := by
      rw [hresult]
      exact congrArg Cpu.regs (hinternal.control _)
    rw [hregs, hcommit, hfetched, hloaded, harrived]
  · rw [hbus, hresult]
    rfl

/-- A step that puts a word in a register, told by the registers that its operation settles for. -/
theorem IsReady.sets (h : s.IsReady) (hi : s.bus.instruction s.cpu.regs.pc = i)
    (hop : i.action = .operation op) (hword : op.setsWord)
    (hsettle : ∀ pc, op.settle (s.bus.span (s.cpu.regs.pc + 1) op.immediateLength) 0
      { s.cpu.regs with pc } = { s.cpu.regs.setWord (.ofField p) w with f, pc }) :
    ∃ t, s.Executes i (op.cost (op.branches s.cpu.flags)) t ∧
      s.Sets p w f (1 + op.immediateLength).toUInt16 t := by
  obtain ⟨t, hexecutes, hregs, hbus⟩ :=
    h.executes_internal hi hop (Operation.isInternal_of_setsWord hword)
  exact ⟨t, hexecutes, .of_regs (hregs.trans (hsettle _)) hbus⟩

/-- What the instructions on words do. The word registers go by their numbers: BC, DE, HL, SP. -/
structure WordInstructions (s : Machine FlatBus) : Prop where
  load : ∀ p, s.bus.instruction s.cpu.regs.pc = .loadWord p →
    ∃ t, s.Executes (.loadWord p) 12 t ∧
      s.Sets p (s.bus.word (s.cpu.regs.pc + 1)) s.cpu.regs.f 3 t
  loadSP : s.bus.instruction s.cpu.regs.pc = .loadSP →
    ∃ t, s.Executes .loadSP 8 t ∧ s.Sets 3 (s.cpu.regs.numbered 2) s.cpu.regs.f 1 t
  inc : ∀ p, s.bus.instruction s.cpu.regs.pc = .incWord p →
    ∃ t, s.Executes (.incWord p) 8 t ∧ s.Sets p (s.cpu.regs.numbered p + 1) s.cpu.regs.f 1 t
  dec : ∀ p, s.bus.instruction s.cpu.regs.pc = .decWord p →
    ∃ t, s.Executes (.decWord p) 8 t ∧ s.Sets p (s.cpu.regs.numbered p - 1) s.cpu.regs.f 1 t
  storeSP : s.bus.instruction s.cpu.regs.pc = .storeSP →
    ∃ t, s.Executes .storeSP 20 t ∧ s.StoresSP t
  addHL : ∀ p, s.bus.instruction s.cpu.regs.pc = .addHL p →
    ∃ t w f, s.Executes (.addHL p) 8 t ∧
      IsWordSum (s.cpu.regs.numbered 2) (s.cpu.regs.numbered p) s.cpu.flags.z w f ∧
      s.Sets 2 w f.toByte 1 t
  addSP : s.bus.instruction s.cpu.regs.pc = .addSP →
    ∃ t w f, s.Executes .addSP 16 t ∧
      IsOffsetSum s.cpu.regs.sp (s.bus.byte (s.cpu.regs.pc + 1)) w f ∧ s.Sets 3 w f.toByte 2 t
  loadHL : s.bus.instruction s.cpu.regs.pc = .loadHL →
    ∃ t w f, s.Executes .loadHL 12 t ∧
      IsOffsetSum s.cpu.regs.sp (s.bus.byte (s.cpu.regs.pc + 1)) w f ∧ s.Sets 2 w f.toByte 2 t
  /-- From the same stack pointer and the same offset both sums are the same, and so is F. -/
  agree : ∀ s' : Machine FlatBus, s'.IsReady → s.bus.instruction s.cpu.regs.pc = .addSP →
    s'.bus.instruction s'.cpu.regs.pc = .loadHL → s'.cpu.regs.sp = s.cpu.regs.sp →
    s'.bus.byte (s'.cpu.regs.pc + 1) = s.bus.byte (s.cpu.regs.pc + 1) →
    ∃ t t', s.Executes .addSP 16 t ∧ s'.Executes .loadHL 12 t' ∧
      t'.cpu.regs.numbered 2 = t.cpu.regs.numbered 3 ∧ t'.cpu.regs.f = t.cpu.regs.f

theorem IsReady.loads_word (h : s.IsReady) (hi : s.bus.instruction s.cpu.regs.pc = .loadWord p) :
    ∃ t, s.Executes (.loadWord p) 12 t ∧
      s.Sets p (s.bus.word (s.cpu.regs.pc + 1)) s.cpu.regs.f 3 t :=
  h.sets hi (Instruction.action_loadWord p) rfl fun pc => s.cpu.regs.setWord_pc p _ pc

/-- A step that replaces the word in a register by a function of it. -/
theorem IsReady.maps_word {g : UInt16 → UInt16} (h : s.IsReady)
    (hi : s.bus.instruction s.cpu.regs.pc = i) (hop : i.action = .operation op)
    (hword : op.setsWord) (hsettle : ∀ fetched loaded r, op.settle fetched loaded r =
      r.setWord (.ofField p) (g (r.word (.ofField p)))) :
    ∃ t, s.Executes i (op.cost (op.branches s.cpu.flags)) t ∧
      s.Sets p (g (s.cpu.regs.numbered p)) s.cpu.regs.f (1 + op.immediateLength).toUInt16 t := by
  refine h.sets hi hop hword fun pc => ?_
  rw [hsettle, Registers.word_ofField, Registers.numbered_pc]
  exact s.cpu.regs.setWord_pc p _ pc

theorem IsReady.adds_to_HL (h : s.IsReady) (hi : s.bus.instruction s.cpu.regs.pc = .addHL p) :
    ∃ t, s.Executes (.addHL p) 8 t ∧
      s.Sets 2 (add16 (s.cpu.regs.numbered 2) (s.cpu.regs.numbered p)).1
        (Flags.toByte { (add16 (s.cpu.regs.numbered 2) (s.cpu.regs.numbered p)).2 with
          z := s.cpu.flags.z }) 1 t := by
  refine h.sets hi (Instruction.action_addHL p) rfl fun pc => ?_
  rw [Operation.settle_addHL, Registers.numbered_pc, Registers.numbered_pc]
  rfl

theorem IsReady.adds_to_SP (h : s.IsReady) (hi : s.bus.instruction s.cpu.regs.pc = .addSP) :
    let sum := addOffset s.cpu.regs.sp (Word.signExtend (s.bus.byte (s.cpu.regs.pc + 1)))
    ∃ t, s.Executes .addSP 16 t ∧ s.Sets 3 sum.1 sum.2.toByte 2 t :=
  h.sets hi rfl rfl fun _ => Operation.settle_addSP 0 _ _

theorem IsReady.loads_HL (h : s.IsReady) (hi : s.bus.instruction s.cpu.regs.pc = .loadHL) :
    let sum := addOffset s.cpu.regs.sp (Word.signExtend (s.bus.byte (s.cpu.regs.pc + 1)))
    ∃ t, s.Executes .loadHL 12 t ∧ s.Sets 2 sum.1 sum.2.toByte 2 t :=
  h.sets hi rfl rfl fun _ => Operation.settle_loadHL 0 _ _

theorem IsReady.loads_SP (h : s.IsReady) (hi : s.bus.instruction s.cpu.regs.pc = .loadSP) :
    ∃ t, s.Executes .loadSP 8 t ∧ s.Sets 3 (s.cpu.regs.numbered 2) s.cpu.regs.f 1 t :=
  h.sets hi rfl rfl fun _ => rfl

theorem IsReady.stores_SP (h : s.IsReady) (hi : s.bus.instruction s.cpu.regs.pc = .storeSP) :
    ∃ t, s.Executes .storeSP 20 t ∧ s.StoresSP t := by
  let a := s.bus.word (s.cpu.regs.pc + 1)
  let sp := s.cpu.regs.sp
  obtain ⟨t, hexecutes, hregs, hbus⟩ := h.executes_action hi rfl rfl fun _ => rfl
  have hstored : t.bus = (s.bus.store a (Word.low sp)).store (a + 1) (Word.high sp) := hbus
  have hpc : s.cpu.regs.pc + 1 + 2 = s.cpu.regs.pc + 3 := by grind
  have hnext : a ≠ a + 1 := by grind
  refine ⟨t, hexecutes, ?low, ?high, ?others, ?regs⟩
  case low => rw [hstored, FlatBus.byte_store, FlatBus.byte_store, if_neg hnext, if_pos rfl]
  case high => rw [hstored, FlatBus.byte_store, if_pos rfl]
  case others =>
    intro b hlow hhigh
    rw [hstored, FlatBus.byte_store, FlatBus.byte_store, if_neg hhigh, if_neg hlow]
  case regs =>
    have hsettled : (Operation.storeSP.phases.result (s.decoded .storeSP)).cpu =
        ((s.decoded .storeSP).cpu.skip 2).drop 0 := rfl
    rw [hregs, hsettled, Cpu.drop_zero, ← hpc]
    rfl

/-- The instructions on words do what they are for. -/
theorem IsReady.word_instructions (h : s.IsReady) : s.WordInstructions where
  load _ := h.loads_word
  loadSP := h.loads_SP
  inc p hi :=
    h.maps_word (g := (· + 1)) hi (Instruction.action_incWord p) rfl fun _ _ _ => rfl
  dec p hi :=
    h.maps_word (g := (· - 1)) hi (Instruction.action_decWord p) rfl fun _ _ _ => rfl
  storeSP := h.stores_SP
  addHL p hi := by
    obtain ⟨t, hexecutes, hsets⟩ := h.adds_to_HL hi
    exact ⟨t, _, _, hexecutes, isWordSum_add16 _ _ _, hsets⟩
  addSP hi := by
    obtain ⟨t, hexecutes, hsets⟩ := h.adds_to_SP hi
    exact ⟨t, _, _, hexecutes, isOffsetSum_addOffset _ _, hsets⟩
  loadHL hi := by
    obtain ⟨t, hexecutes, hsets⟩ := h.loads_HL hi
    exact ⟨t, _, _, hexecutes, isOffsetSum_addOffset _ _, hsets⟩
  agree s' h' hi hi' hsp hoffset := by
    obtain ⟨t, hexecutes, hsets⟩ := h.adds_to_SP hi
    obtain ⟨t', hexecutes', hsets'⟩ := h'.loads_HL hi'
    rw [hsp, hoffset] at hsets'
    exact ⟨t, t', hexecutes, hexecutes', hsets'.target.trans hsets.target.symm,
      hsets'.f.trans hsets.f.symm⟩

/-- LD (FFFFh),SP writes the high byte at the first address of all. -/
theorem store_SP_wraps : ∃ s t : Machine FlatBus, s.IsReady ∧ s.cpu.regs.sp = 0x1234 ∧
    s.bus.word (s.cpu.regs.pc + 1) = 0xFFFF ∧ step s = .ok (.executed .storeSP 20) t ∧
    t.bus.byte 0xFFFF = 0x34 ∧ t.bus.byte 0x0000 = 0x12 ∧ t.bus.byte 0x0001 = 0xFF := by
  let s := ofContents { Registers.powerOn with sp := 0x1234, pc := 0x0100 } fun a =>
    if a = 0x0100 then 0x08 else 0xFF
  have hready : s.IsReady := isReady_ofContents _ _
  have hopcode : s.bus.byte s.cpu.regs.pc = 0x08 := byte_ofContents _ _ _
  have hi : s.bus.instruction s.cpu.regs.pc = .storeSP := by
    rw [instruction_operation (by rw [hopcode]; rfl), hopcode]
    rfl
  have haddress : s.bus.word (s.cpu.regs.pc + 1) = 0xFFFF := by
    rw [FlatBus.word, byte_ofContents, byte_ofContents]
    decide
  obtain ⟨t, hexecutes, hstored⟩ := hready.word_instructions.storeSP hi
  obtain ⟨hlow, hhigh, hothers, -⟩ := hstored
  have hwrapped : (0xFFFF : UInt16) + 1 = 0 := by decide
  have hbytes : Word.low 0x1234 = 0x34 ∧ Word.high 0x1234 = 0x12 := by decide
  rw [haddress] at hlow hhigh hothers
  rw [hwrapped] at hhigh
  refine ⟨s, t, hready, rfl, haddress, hexecutes.step, hlow.trans hbytes.1, hhigh.trans hbytes.2, ?_⟩
  rw [hothers 0x0001 (by decide) (by decide)]
  exact byte_ofContents _ _ _

end Machine

end GameBoy
