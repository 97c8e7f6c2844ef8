import GameBoy.Proofs.Ready
import GameBoy.Proofs.Stack

/-!
# Runs of pushes and pops

The words of a run of pushes lie one above the other, and as many as 32768 of them fit before the
first is overwritten. Addresses wrap around, so it does not matter where the stack pointer starts.
A run of as many pops takes the words from the top down, and the stack pointer is where it was.

Main statement: `Machine.stack_discipline`.
-/

namespace GameBoy

/-! ## Runs -/

namespace Exec

variable {β : Type} [Bus β]

/-- Push one pair after the other, setting the byte registers before each. The result are the
registers after each push. -/
def pushAll : List (Registers × Fin 4) → Exec β (List Registers)
  | [] => return []
  | (bytes, p) :: rest => do
    modifyRegs (·.withBytes bytes)
    let _ ← (Instruction.push p).execute
    let regs ← getRegs
    let later ← pushAll rest
    return regs :: later

/-- Pop into one pair after the other. The result are the registers after each pop. -/
def popAll : List (Fin 4) → Exec β (List Registers)
  | [] => return []
  | p :: rest => do
    let _ ← (Instruction.pop p).execute
    let regs ← getRegs
    let later ← popAll rest
    return regs :: later

theorem quiet_pushAll (ps : List (Registers × Fin 4)) :
    Quiet (β := β) (pushAll ps) (pushAll ps) := by
  induction ps with
  | nil => exact quiet_pure []
  | cons next rest ih =>
    refine watched_bind (quiet_modifyRegs _) fun _ => ?_
    refine watched_bind (quiet_execute _) fun _ => ?_
    exact watched_bind quiet_getRegs fun _ => watched_bind ih fun _ => quiet_pure _

theorem quiet_popAll (qs : List (Fin 4)) : Quiet (β := β) (popAll qs) (popAll qs) := by
  induction qs with
  | nil => exact quiet_pure []
  | cons p rest ih =>
    refine watched_bind (quiet_execute _) fun _ => ?_
    exact watched_bind quiet_getRegs fun _ => watched_bind ih fun _ => quiet_pure _

end Exec

/-! ## Addresses -/

/-- One of the `2 * n` addresses under the stack pointer. Addresses wrap around. -/
def Below (sp : UInt16) (n : Nat) (a : UInt16) : Prop := (sp - 1 - a).toNat < 2 * n

section

variable {sp a : UInt16} {n : Nat}

/-- How far an address is below the stack pointer, once that has gone down by a word. -/
theorem toNat_below_next : (sp - 2 - 1 - a).toNat = ((sp - 1 - a).toNat + 65534) % 65536 := by
  have h2 : (2 : UInt16).toNat = 2 := rfl
  have h1 : (1 : UInt16).toNat = 1 := rfl
  simp only [UInt16.toNat_sub, h1, h2]
  omega

theorem Below.of_next (h : Below (sp - 2) n a) : Below sp (n + 1) a := by
  have hlt := (sp - 1 - a).toNat_lt
  rw [Below, toNat_below_next] at h
  rw [Below]
  omega

theorem not_below_next (h : ¬ Below sp (n + 1) a) : ¬ Below (sp - 2) n a := by
  have hlt := (sp - 1 - a).toNat_lt
  rw [Below] at h
  rw [Below, toNat_below_next]
  omega

theorem below_high : Below sp (n + 1) (sp - 1) := by
  rw [Below, UInt16.sub_self]
  exact Nat.succ_pos _

theorem below_low : Below sp (n + 1) (sp - 2) := by
  have hone : sp - 1 - (sp - 2) = 1 := by grind
  rw [Below, hone, UInt16.toNat_one]
  omega

/-- The two bytes at the stack pointer lie under the address that it has `n + 1` words later. -/
theorem below_popped (hfits : n + 1 ≤ 32768) :
    Below (sp + (2 * (n + 1)).toUInt16) (n + 1) sp ∧
      Below (sp + (2 * (n + 1)).toUInt16) (n + 1) (sp + 1) := by
  have hone : (1 : UInt16).toNat = 1 := rfl
  have hlength : (2 * (n + 1)).toUInt16.toNat = 2 * (n + 1) % 65536 := UInt16.toNat_ofNat'
  have hsp := sp.toNat_lt
  simp only [Below, UInt16.toNat_sub, UInt16.toNat_add, hone, hlength]
  omega

end

/-- An access to one of the `2 * n` addresses under the stack pointer. -/
def Traffic.Within (sp : UInt16) (n : Nat) : Traffic → Prop
  | read a _ | wrote a _ => Below sp n a
  | _ => False

namespace Traffic.Within

variable {event : Traffic} {sp : UInt16} {n : Nat}

theorem of_next (h : event.Within (sp - 2) n) : event.Within sp (n + 1) := by
  cases event with
  | read a v | wrote a v => exact Below.of_next h
  | _ => cases h

theorem succ (h : event.Within sp n) : event.Within sp (n + 1) := by
  cases event with
  | read a v | wrote a v => exact Nat.lt_of_lt_of_le h (by omega)
  | _ => cases h

end Traffic.Within

/-! ## Words on the stack -/

namespace FlatBus

/-- The words on the stack from the given address up, the top one first. -/
def Holds (bus : FlatBus) : UInt16 → List UInt16 → Prop
  | _, [] => True
  | sp, w :: ws => bus.word sp = w ∧ bus.Holds (sp + 2) ws

variable {bus bus' : FlatBus} {sp : UInt16} {ws : List UInt16}

theorem Holds.congr (h : bus.Holds sp ws) (hbytes : ∀ j < 2 * ws.length,
    bus'.byte (sp + j.toUInt16) = bus.byte (sp + j.toUInt16)) : bus'.Holds sp ws := by
  induction ws generalizing sp with
  | nil => trivial
  | cons w ws ih =>
    obtain ⟨hword, hrest⟩ := h
    rw [List.length_cons] at hbytes
    have hzero : sp + (0 : Nat).toUInt16 = sp := sp.add_zero
    have hlow := hbytes 0 (by omega)
    have hhigh : bus'.byte (sp + 1) = bus.byte (sp + 1) := hbytes 1 (by omega)
    rw [hzero] at hlow
    refine ⟨?_, ih hrest fun j hj => ?_⟩
    · rw [← hword, word, word, hlow, hhigh]
    · have hnext : sp + 2 + j.toUInt16 = sp + (2 + j).toUInt16 := by
        rw [UInt16.add_assoc]
        exact congrArg (sp + ·) (UInt16.ofNat_add 2 j).symm
      rw [hnext]
      exact hbytes (2 + j) (by omega)

/-- A word that is pushed leaves the words above it, if the stack does not reach all around. -/
theorem Holds.pushed (h : bus.Holds sp ws) (hfits : ws.length < 32768) (w : UInt16) :
    (bus.pushed sp w).Holds (sp - 2) (w :: ws) := by
  refine ⟨word_pushed sp w, ?_⟩
  have hback : sp - 2 + 2 = sp := by grind
  rw [hback]
  refine h.congr fun j hj => ?_
  have hoffset : j.toUInt16.toNat = j := by
    rw [UInt16.toNat_ofNat']
    omega
  -- The two bytes that change are at the offsets 65535 and 65534.
  have hhigh : sp + j.toUInt16 ≠ sp - 1 := by
    intro heq
    have hwrapped : j.toUInt16 = 65535 := by grind
    have hliteral : (65535 : UInt16).toNat = 65535 := rfl
    rw [hwrapped] at hoffset
    omega
  have hlow : sp + j.toUInt16 ≠ sp - 2 := by
    intro heq
    have hwrapped : j.toUInt16 = 65534 := by grind
    have hliteral : (65534 : UInt16).toNat = 65534 := rfl
    rw [hwrapped] at hoffset
    omega
  rw [byte_pushed, if_neg hhigh, if_neg hlow]

end FlatBus

/-- What a run of pops leaves in the registers, one entry for each pop. A word goes into its pair,
and the other pairs, AF among them, stay as they were. -/
inductive Delivered : Registers → List (Fin 4) → List UInt16 → List Registers → Prop where
  | nil (r : Registers) : Delivered r [] [] []
  | cons {r r' : Registers} {p : Fin 4} {w : UInt16} {ps : List (Fin 4)} {ws : List UInt16}
    {rs : List Registers} (word : r'.pair p = Word.through p w)
    (others : ∀ q, q ≠ p → r'.pair q = r.pair q) (later : Delivered r' ps ws rs) :
    Delivered r (p :: ps) (w :: ws) (r' :: rs)

namespace Machine

/-! ## Pushes -/

/-- The machine after a push, with other bytes in its byte registers. -/
def pushNext (s : Machine FlatBus) (bytes : Registers) (p : Fin 4) : Machine FlatBus :=
  { s with cpu := { s.cpu with regs := s.cpu.regs.withBytes bytes } }.pushing p

/-- The machine after a run of pushes. -/
def pushEach (s : Machine FlatBus) : List (Registers × Fin 4) → Machine FlatBus
  | [] => s
  | (bytes, p) :: rest => (s.pushNext bytes p).pushEach rest

/-- The word that a push puts on the stack. -/
def pushedWord (next : Registers × Fin 4) : UInt16 := Word.through next.2 (next.1.pair next.2)

section

variable (s : Machine FlatBus) (bytes : Registers) (p : Fin 4) (ps : List (Registers × Fin 4))

theorem pair_pushNext (q : Fin 4) : (s.pushNext bytes p).cpu.regs.pair q = bytes.pair q := by
  match q with
  | 0 | 1 | 2 | 3 => rfl

theorem bus_pushNext :
    (s.pushNext bytes p).bus = s.bus.pushed s.cpu.regs.sp (pushedWord (bytes, p)) := by
  have hpair : (s.cpu.regs.withBytes bytes).pair p = bytes.pair p := pair_pushNext s bytes p p
  rw [pushedWord, ← hpair]
  rfl

theorem sp_pushEach : (s.pushEach ps).cpu.regs.sp = s.cpu.regs.sp - (2 * ps.length).toUInt16 := by
  induction ps generalizing s with
  | nil => exact (s.cpu.regs.sp.sub_zero).symm
  | cons next rest ih =>
    have hlength : (2 * (rest.length + 1)).toUInt16 = (2 * rest.length).toUInt16 + 2 :=
      UInt16.ofNat_add (2 * rest.length) 2
    have hsp : (s.pushNext next.1 next.2).cpu.regs.sp = s.cpu.regs.sp - 2 := rfl
    rw [pushEach, ih, hsp, List.length_cons, hlength]
    grind

theorem isMapped_pushEach {s : Machine FlatBus} (h : s.bus.IsMapped) :
    (s.pushEach ps).bus.IsMapped := by
  induction ps generalizing s with
  | nil => exact h
  | cons next rest ih =>
    apply ih
    rw [bus_pushNext]
    exact h.pushed _ _

/-- A run of pushes changes registers and memory, and the program counter is not among them. -/
theorem frame_pushEach :
    let t := s.pushEach ps
    t.cpu = { s.cpu with regs := { t.cpu.regs with pc := s.cpu.regs.pc } } ∧
      t.bus = { s.bus with memory := t.bus.memory } ∧ t.journal = s.journal ∧
      t.records = s.records := by
  induction ps generalizing s with
  | nil => exact ⟨rfl, rfl, rfl, rfl⟩
  | cons next rest ih => exact ih (s.pushNext next.1 next.2)

theorem byte_pushEach {a : UInt16} (h : ¬ Below s.cpu.regs.sp ps.length a) :
    (s.pushEach ps).bus.byte a = s.bus.byte a := by
  induction ps generalizing s with
  | nil => rfl
  | cons next rest ih =>
    have hhigh : a ≠ s.cpu.regs.sp - 1 := fun ha => h (ha ▸ below_high)
    have hlow : a ≠ s.cpu.regs.sp - 2 := fun ha => h (ha ▸ below_low)
    rw [pushEach, ih (s.pushNext next.1 next.2) (not_below_next h), bus_pushNext,
      FlatBus.byte_pushed, if_neg hhigh, if_neg hlow]

/-- The words of a run of pushes lie on the stack, the last one on top, and those that were there
before lie above them. -/
theorem holds_pushEach {ws : List UInt16} (h : s.bus.Holds s.cpu.regs.sp ws)
    (hfits : ps.length + ws.length ≤ 32768) :
    (s.pushEach ps).bus.Holds (s.pushEach ps).cpu.regs.sp ((ps.map pushedWord).reverse ++ ws) := by
  induction ps generalizing s ws with
  | nil => exact h
  | cons next rest ih =>
    rw [List.length_cons] at hfits
    have hholds :
        (s.pushNext next.1 next.2).bus.Holds (s.cpu.regs.sp - 2) (pushedWord next :: ws) := by
      rw [bus_pushNext]
      exact h.pushed (by omega) _
    have hrest := ih (s.pushNext next.1 next.2) hholds (by rw [List.length_cons]; omega)
    rw [List.map_cons, List.reverse_cons, List.append_assoc]
    exact hrest

end

/-- A run of pushes succeeds. It accesses the bytes of its words alone, and the registers after each
push hold what they were set to before. -/
theorem pushAll_watched {s : Machine FlatBus} (h : s.bus.IsMapped) (ps : List (Registers × Fin 4)) :
    ∃ trace seen,
      (∀ traffic, Exec.pushAll ps (s.watch traffic) =
        .ok trace ((s.pushEach ps).watch (traffic ++ seen))) ∧
      (∀ event ∈ seen, event.Within s.cpu.regs.sp ps.length) ∧
      List.Forall₂ (fun next r => ∀ q, r.pair q = next.1.pair q) ps trace := by
  induction ps generalizing s with
  | nil =>
    refine ⟨[], #[], fun traffic => ?_, nofun, .nil⟩
    rw [Array.append_empty]
    rfl
  | cons next rest ih =>
    -- The first word lies on top of the bytes that the run accesses, the later ones under it.
    have hmapped : (s.pushNext next.1 next.2).bus.IsMapped := by
      rw [bus_pushNext]
      exact h.pushed _ _
    obtain ⟨trace, seen, hrun, hwithin, htrace⟩ := ih hmapped
    let set : Machine FlatBus :=
      { s with cpu := { s.cpu with regs := s.cpu.regs.withBytes next.1 } }
    let word := Word.through next.2 (set.cpu.regs.pair next.2)
    have hpush := execute_push (s := set) h next.2
    refine ⟨_ :: trace, Store.traffic s.cpu.regs.sp (.push word) ++ seen, fun traffic => ?_,
      fun event hevent => ?_, .cons (pair_pushNext s next.1 next.2) htrace⟩
    · refine Exec.bind_eq_ok.2 ⟨_, _, rfl, Exec.bind_eq_ok.2 ⟨_, _, hpush traffic, ?_⟩⟩
      refine Exec.bind_eq_ok.2 ⟨_, _, rfl, Exec.bind_eq_ok.2 ⟨_, _, hrun _, ?_⟩⟩
      rw [← Array.append_assoc]
      rfl
    · obtain hfirst | hlater := Array.mem_append.1 hevent
      · have hwrites : event = .wrote (s.cpu.regs.sp - 1) (Word.high word) ∨
            event = .wrote (s.cpu.regs.sp - 2) (Word.low word) := by
          simpa [Store.traffic] using hfirst
        obtain rfl | rfl := hwrites
        · exact below_high
        · exact below_low
      · exact Traffic.Within.of_next (hwithin event hlater)

/-! ## Pops -/

/-- The machine after a run of pops. -/
def popEach (s : Machine FlatBus) : List (Fin 4) → Machine FlatBus
  | [] => s
  | p :: rest => (s.popping p).popEach rest

theorem bus_popEach (s : Machine FlatBus) (qs : List (Fin 4)) : (s.popEach qs).bus = s.bus := by
  induction qs generalizing s with
  | nil => rfl
  | cons p rest ih => exact ih (s.popping p)

theorem sp_popEach (s : Machine FlatBus) (qs : List (Fin 4)) :
    (s.popEach qs).cpu.regs.sp = s.cpu.regs.sp + (2 * qs.length).toUInt16 := by
  induction qs generalizing s with
  | nil => exact (s.cpu.regs.sp.add_zero).symm
  | cons p rest ih =>
    have hlength : (2 * (rest.length + 1)).toUInt16 = (2 * rest.length).toUInt16 + 2 :=
      UInt16.ofNat_add (2 * rest.length) 2
    have hsp : (s.popping p).cpu.regs.sp = s.cpu.regs.sp + 2 := (s.pops_popping p).sp
    rw [popEach, ih, hsp, List.length_cons, hlength]
    grind

theorem frame_popEach (s : Machine FlatBus) (qs : List (Fin 4)) :
    let t := s.popEach qs
    t.cpu = { s.cpu with regs := { t.cpu.regs with pc := s.cpu.regs.pc } } ∧
      t.journal = s.journal ∧ t.records = s.records := by
  induction qs generalizing s with
  | nil => exact ⟨rfl, rfl, rfl⟩
  | cons p rest ih =>
    have hpc : (s.popping p).cpu.regs.pc = s.cpu.regs.pc := Registers.pc_setStackWord _ _ _
    have hlater := ih (s.popping p)
    rw [hpc] at hlater
    exact hlater

/-- A run of pops delivers the words on the stack. It accesses their bytes alone, which lie under
the stack pointer as it is afterwards. -/
theorem popAll_watched {s : Machine FlatBus} (h : s.bus.IsMapped) {qs : List (Fin 4)}
    {ws : List UInt16} (hlength : qs.length = ws.length) (hfits : qs.length ≤ 32768)
    (hholds : s.bus.Holds s.cpu.regs.sp ws) :
    ∃ trace seen,
      (∀ traffic, Exec.popAll qs (s.watch traffic) =
        .ok trace ((s.popEach qs).watch (traffic ++ seen))) ∧
      (∀ event ∈ seen, event.Within (s.popEach qs).cpu.regs.sp qs.length) ∧
      Delivered s.cpu.regs qs ws trace := by
  induction qs generalizing s ws with
  | nil =>
    have hnil : ws = [] := List.length_eq_zero_iff.1 hlength.symm
    subst hnil
    refine ⟨[], #[], fun traffic => ?_, nofun, .nil _⟩
    rw [Array.append_empty]
    rfl
  | cons p rest ih =>
    cases ws with
    | nil => cases hlength
    | cons w ws =>
      -- A pop does not write, so the words that are still to come stay on the stack.
      obtain ⟨hword, hbelow⟩ := hholds
      have hpopped := s.pops_popping p
      rw [← hpopped.sp] at hbelow
      have hfits' : rest.length ≤ 32768 := Nat.le_of_succ_le hfits
      obtain ⟨trace, seen, hrun, hwithin, hdelivered⟩ :=
        ih (s := s.popping p) h (Nat.succ.inj hlength) hfits' hbelow
      have hpop := execute_pop h p
      have hpair (q : Fin 4) : (s.popping p).cpu.regs.pair q =
          if q = p then Word.through p w else s.cpu.regs.pair q := by
        have hkept : ({ s.cpu.regs with sp := s.cpu.regs.sp + 2 } : Registers).pair q =
            s.cpu.regs.pair q := by
          match q with
          | 0 | 1 | 2 | 3 => rfl
        rw [← hword, ← hkept]
        exact Registers.pair_setWord _ p q _
      refine ⟨_ :: trace, s.bus.spanTraffic s.cpu.regs.sp 2 ++ seen, fun traffic => ?_,
        fun event hevent => ?_, .cons ?_ ?_ hdelivered⟩
      · refine Exec.bind_eq_ok.2 ⟨_, _, hpop traffic, Exec.bind_eq_ok.2 ⟨_, _, rfl, ?_⟩⟩
        refine Exec.bind_eq_ok.2 ⟨_, _, hrun _, ?_⟩
        rw [← Array.append_assoc]
        rfl
      · obtain hfirst | hlater := Array.mem_append.1 hevent
        · have hreads : event = .read s.cpu.regs.sp (s.bus.byte s.cpu.regs.sp) ∨
              event = .read (s.cpu.regs.sp + 1) (s.bus.byte (s.cpu.regs.sp + 1)) := by
            simpa [FlatBus.spanTraffic] using hfirst
          rw [sp_popEach]
          obtain rfl | rfl := hreads
          · exact (below_popped hfits).1
          · exact (below_popped hfits).2
        · exact Traffic.Within.succ (hwithin event hlater)
      · rw [hpair, if_pos rfl]
      · intro q hq
        rw [hpair, if_neg hq]

/-! ## Pushes and pops -/

/-- What becomes of a machine that pushes and then pops. It is `t` in between and `u` in the end,
and its registers after each push and each pop are known. -/
structure StackRun (s : Machine FlatBus) (ps : List (Registers × Fin 4)) (qs : List (Fin 4))
    (t u : Machine FlatBus) (pushed popped : List Registers) : Prop where
  push : Exec.pushAll ps s = .ok pushed t
  pop : Exec.popAll qs t = .ok popped u
  /-- A push leaves all pairs as they were set before it, F included. -/
  kept : List.Forall₂ (fun next r => ∀ q, r.pair q = next.1.pair q) ps pushed
  /-- The words come back in reverse order. -/
  delivered : Delivered t.cpu.regs qs (ps.map pushedWord).reverse popped
  /-- The stack pointer and the program counter are where they were, and what else has changed are
  byte registers and memory. -/
  cpu : u.cpu = { s.cpu with
    regs := { u.cpu.regs with sp := s.cpu.regs.sp, pc := s.cpu.regs.pc } }
  bus : u.bus = { s.bus with memory := u.bus.memory }
  observed : u.journal = s.journal ∧ u.records = s.records
  /-- Only the bytes under the stack pointer have changed. -/
  outside : ∀ a, ¬ Below s.cpu.regs.sp ps.length a → u.bus.byte a = s.bus.byte a
  /-- A monitor sees accesses to these bytes only. -/
  watched : ∃ seen, (∀ event ∈ seen, event.Within s.cpu.regs.sp ps.length) ∧
    ∀ traffic, ∃ seen', Exec.pushAll ps (s.watch traffic) = .ok pushed (t.watch seen') ∧
      Exec.popAll qs (t.watch seen') = .ok popped (u.watch (traffic ++ seen))

/-- Words are put on the stack and taken from it in one way, and a run of at most 32768 pushes and
as many pops brings the words back in reverse order. -/
theorem stack_discipline {s : Machine FlatBus} (h : s.bus.IsMapped) (ps : List (Registers × Fin 4))
    (qs : List (Fin 4)) (hlength : qs.length = ps.length) (hfits : ps.length ≤ 32768) :
    s.StackLayout ∧ ∃ t u pushed popped, s.StackRun ps qs t u pushed popped := by
  refine ⟨stackLayout h, ?_⟩
  let t := s.pushEach ps
  let u := t.popEach qs
  have hmapped : t.bus.IsMapped := isMapped_pushEach ps h
  have hbus : u.bus = t.bus := bus_popEach t qs
  have hsp : u.cpu.regs.sp = s.cpu.regs.sp := by
    rw [sp_popEach, sp_pushEach, hlength]
    grind
  have hholds : t.bus.Holds t.cpu.regs.sp (ps.map pushedWord).reverse := by
    have hempty : s.bus.Holds s.cpu.regs.sp [] := trivial
    have hwords := s.holds_pushEach ps hempty hfits
    rwa [List.append_nil] at hwords
  have hlength' : qs.length = (ps.map pushedWord).reverse.length := by
    rw [List.length_reverse, List.length_map, hlength]
  obtain ⟨pushed, writes, hpush, hwrites, hkept⟩ := pushAll_watched h ps
  obtain ⟨popped, reads, hpop, hreads, hdelivered⟩ :=
    popAll_watched hmapped hlength' (hlength ▸ hfits) hholds
  obtain ⟨hcpu, hmemory, hjournal, hrecords⟩ := s.frame_pushEach ps
  obtain ⟨hcpu', hjournal', hrecords'⟩ := t.frame_popEach qs
  refine ⟨t, u, pushed, popped, ?push, ?pop, hkept, hdelivered, ?cpu, ?bus,
    ⟨hjournal'.trans hjournal, hrecords'.trans hrecords⟩, ?outside, writes ++ reads, ?within,
    ?watched⟩
  case push => exact (Exec.quiet_pushAll ps).ok (hpush #[])
  case pop => exact (Exec.quiet_popAll qs).ok (hpop #[])
  case cpu =>
    have hcpu'' := hcpu'.trans (congrArg (fun cpu => { cpu with
      regs := { u.cpu.regs with pc := cpu.regs.pc } }) hcpu)
    rw [← hsp]
    exact hcpu''
  case bus =>
    rw [hbus]
    exact hmemory
  case outside =>
    intro a ha
    rw [hbus]
    exact s.byte_pushEach ps ha
  case within =>
    intro event hevent
    obtain hwrite | hread := Array.mem_append.1 hevent
    · exact hwrites event hwrite
    · have hwithin := hreads event hread
      rwa [hsp, hlength] at hwithin
  case watched =>
    intro traffic
    refine ⟨_, hpush traffic, ?_⟩
    rw [← Array.append_assoc]
    exact hpop _

/-- The stack pointer is 1, so the first of two words lies at both ends of the address space. AF is
pushed and comes back without its low nibble, BC is pushed and goes to HL. -/
theorem stack_discipline_wraps : ∃ (s t u : Machine FlatBus) (pushed : List Registers)
    (r r' : Registers),
    s.cpu.regs.sp = 1 ∧
    Exec.pushAll [({ Registers.powerOn with a := 0x12, f := 0x3F }, 3),
      ({ Registers.powerOn with b := 0xAB, c := 0xCD }, 0)] s = .ok pushed t ∧
    Exec.popAll [2, 3] t = .ok [r, r'] u ∧
    r.pair 2 = 0xABCD ∧ r'.pair 3 = 0x1230 ∧ r'.pair 2 = 0xABCD ∧ u.cpu.regs.sp = 1 := by
  let s := ofContents { Registers.powerOn with sp := 1 } fun _ => 0
  have hmapped : s.bus.IsMapped := (isReady_ofContents _ _).mapped
  obtain ⟨-, t, u, pushed, popped, hrun⟩ := stack_discipline hmapped
    [({ Registers.powerOn with a := 0x12, f := 0x3F }, 3),
      ({ Registers.powerOn with b := 0xAB, c := 0xCD }, 0)] [2, 3] rfl (by decide)
  have hpop := hrun.pop
  have hdelivered := hrun.delivered
  have hsp : u.cpu.regs.sp = s.cpu.regs.sp := congrArg (·.regs.sp) hrun.cpu
  cases hdelivered with
  | cons hword _ hlater =>
    cases hlater with
    | cons hword' hothers hnil =>
      cases hnil
      have hkept := hothers 2 (by decide)
      exact ⟨s, t, u, pushed, _, _, rfl, hrun.push, hpop, hword, hword', hkept.trans hword, hsp⟩

end Machine

end GameBoy
