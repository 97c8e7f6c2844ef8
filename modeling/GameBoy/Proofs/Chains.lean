import GameBoy.Cpu.Arithmetic
import Mathlib.Data.Nat.Digits.Lemmas
import Mathlib.Tactic.LinearCombination

/-!
# Arithmetic byte by byte

A number longer than a byte is worked through from its lowest byte up, and the carry of each byte
goes into the next. If one byte with its carries is computed exactly in some base, so is the whole
number, whatever its length: modulo a power of the base, which the last carry makes up for.

Main statements: `Coding.Computes.value_chain` and `Coding.Computes.value_emod`.
-/

namespace GameBoy.Arithmetic

/-! ## Chains -/

/-- Work through pairs of bytes, lowest first, with the carry of each going into the next. The
result comes with the last carry. -/
def chain (op : Bool → UInt8 → UInt8 → UInt8 × Flags) (c : Bool) :
    List (UInt8 × UInt8) → List UInt8 × Bool
  | [] => ([], c)
  | (a, v) :: ps =>
    let (r, f) := op c a v
    let (rs, c') := chain op f.c ps
    (r :: rs, c')

theorem length_chain (op : Bool → UInt8 → UInt8 → UInt8 × Flags) (c : Bool)
    (ps : List (UInt8 × UInt8)) : (chain op c ps).1.length = ps.length := by
  induction ps generalizing c with
  | nil => rfl
  | cons p ps ih => exact congrArg (· + 1) (ih _)

/-! ## Codings -/

/-- How bytes stand for the digits of a number. -/
structure Coding where
  base : Nat
  one_lt : 1 < base
  /-- Whether a byte stands for a digit. -/
  IsDigit : UInt8 → Prop
  /-- The digit that a byte stands for. -/
  digit : UInt8 → Nat
  /-- The byte that stands for a digit. -/
  byte : Nat → UInt8
  digit_lt {b : UInt8} : IsDigit b → digit b < base
  byte_digit {b : UInt8} : IsDigit b → byte (digit b) = b

namespace Coding

variable (k : Coding)

/-- The number with the given bytes, lowest first. -/
def value (bs : List UInt8) : Nat := Nat.ofDigits k.base (bs.map k.digit)

/-- The `n` bytes of a number, lowest first. -/
def bytes (n x : Nat) : List UInt8 := (Nat.digitsAppend k.base n x).map k.byte

theorem value_nil : k.value [] = 0 := Nat.ofDigits_nil

theorem value_cons (b : UInt8) (bs : List UInt8) :
    k.value (b :: bs) = k.digit b + k.base * k.value bs := Nat.ofDigits_cons

/-- A byte above the others. -/
theorem value_concat (bs : List UInt8) (b : UInt8) :
    k.value (bs ++ [b]) = k.value bs + k.base ^ bs.length * k.digit b := by
  rw [value, List.map_append, Nat.ofDigits_append, List.length_map, List.map_singleton,
    Nat.ofDigits_singleton]
  rfl

variable {k} {bs : List UInt8} (h : ∀ b ∈ bs, k.IsDigit b)

include h

theorem mem_digits_lt : ∀ d ∈ bs.map k.digit, d < k.base := by
  intro d hd
  obtain ⟨b, hb, rfl⟩ := List.mem_map.1 hd
  exact k.digit_lt (h b hb)

theorem value_lt : k.value bs < k.base ^ bs.length := by
  have hlt := Nat.ofDigits_lt_base_pow_length k.one_lt (mem_digits_lt h)
  rwa [List.length_map] at hlt

/-- The bytes of a number are the bytes that it was made of. -/
theorem bytes_value : k.bytes bs.length (k.value bs) = bs := by
  have hdigits : Nat.digitsAppend k.base bs.length (k.value bs) = bs.map k.digit :=
    (Nat.setInvOn_digitsAppend_ofDigits k.one_lt bs.length).1
      ⟨List.length_map k.digit, mem_digits_lt h⟩
  rw [bytes, hdigits, List.map_map]
  exact List.map_congr_left (fun b hb => k.byte_digit (h b hb)) |>.trans (List.map_id bs)

/-- Bytes that make the same number are the same bytes. -/
theorem value_inj {bs' : List UInt8} (h' : ∀ b ∈ bs', k.IsDigit b)
    (hlength : bs.length = bs'.length) (hvalue : k.value bs = k.value bs') : bs = bs' := by
  rw [← bytes_value h, ← bytes_value h', hlength, hvalue]

end Coding

/-! ## Operations that carry -/

namespace Coding

/-- On digits the operation adds (`σ = 1`) or subtracts (`σ = -1`) a digit and the carry, and its
carry is worth as much as the base. -/
structure Computes (k : Coding) (σ : Int) (op : Bool → UInt8 → UInt8 → UInt8 × Flags) : Prop where
  isDigit (c : Bool) {a v : UInt8} : k.IsDigit a → k.IsDigit v → k.IsDigit (op c a v).1
  digit (c : Bool) {a v : UInt8} : k.IsDigit a → k.IsDigit v →
    (k.digit (op c a v).1 + σ * (k.base * (op c a v).2.c.toNat) : Int) =
      k.digit a + σ * (k.digit v + c.toNat)

variable {k : Coding} {σ : Int} {op : Bool → UInt8 → UInt8 → UInt8 × Flags}

namespace Computes

variable (h : k.Computes σ op) {ps : List (UInt8 × UInt8)}
  (hps : ∀ p ∈ ps, k.IsDigit p.1 ∧ k.IsDigit p.2) (c : Bool)

include h hps

theorem isDigit_chain : ∀ b ∈ (chain op c ps).1, k.IsDigit b := by
  induction ps generalizing c with
  | nil =>
    intro b hb
    cases hb
  | cons p ps ih =>
    obtain ⟨⟨ha, hv⟩, hps⟩ := List.forall_mem_cons.1 hps
    exact List.forall_mem_cons.2 ⟨h.isDigit c ha hv, ih hps _⟩

/-- The carry between two bytes is counted once in each, so only the first and the last are left. -/
theorem value_chain :
    (k.value (chain op c ps).1 + σ * ((k.base ^ ps.length : Nat) * (chain op c ps).2.toNat) : Int) =
      k.value (ps.map Prod.fst) + σ * (k.value (ps.map Prod.snd) + c.toNat) := by
  induction ps generalizing c with
  | nil =>
    simp only [chain, List.map_nil, value_nil, List.length_nil, pow_zero]
    push_cast
    ring
  | cons p ps ih =>
    obtain ⟨⟨ha, hv⟩, hps⟩ := List.forall_mem_cons.1 hps
    have hdigit := h.digit c ha hv
    have hrest := ih hps (op c p.1 p.2).2.c
    simp only [chain, List.map_cons, value_cons, List.length_cons, pow_succ]
    push_cast at hrest ⊢
    linear_combination hdigit + k.base * hrest

/-- The result is the sum or difference modulo a power of the base. -/
theorem value_emod :
    (k.value (ps.map Prod.fst) + σ * (k.value (ps.map Prod.snd) + c.toNat) : Int) %
      (k.base ^ ps.length : Nat) = k.value (chain op c ps).1 := by
  have hlt := value_lt (h.isDigit_chain hps c)
  rw [length_chain] at hlt
  rw [← h.value_chain hps c, mul_left_comm, Int.add_mul_emod_self_left]
  exact Int.emod_eq_of_lt (Int.natCast_nonneg _) (Int.ofNat_lt.2 hlt)

theorem chain_eq : (chain op c ps).1 = k.bytes ps.length
    ((k.value (ps.map Prod.fst) + σ * (k.value (ps.map Prod.snd) + c.toNat) : Int) %
      (k.base ^ ps.length : Nat)).toNat := by
  have hdigits := h.isDigit_chain hps c
  rw [h.value_emod hps c, Int.toNat_natCast, ← length_chain op c ps, bytes_value hdigits]

/-- There is no last carry just when the sum or difference fits. -/
theorem carry_chain (hσ : σ = 1 ∨ σ = -1) : (chain op c ps).2 = false ↔
    (0 ≤ (k.value (ps.map Prod.fst) + σ * (k.value (ps.map Prod.snd) + c.toNat) : Int) ∧
      (k.value (ps.map Prod.fst) + σ * (k.value (ps.map Prod.snd) + c.toNat) : Int) <
        (k.base ^ ps.length : Nat)) := by
  have hvalue := h.value_chain hps c
  have hlt := value_lt (h.isDigit_chain hps c)
  rw [length_chain] at hlt
  rw [← hvalue]
  cases (chain op c ps).2 with
  | false =>
    simp only [Bool.toNat_false, true_iff]
    omega
  | true =>
    rcases hσ with rfl | rfl <;> simp only [Bool.toNat_true, Bool.true_eq_false, false_iff] <;> omega

end Computes

variable {ps : List (UInt8 × UInt8)} (hps : ∀ p ∈ ps, k.IsDigit p.1 ∧ k.IsDigit p.2) (c : Bool)

include hps

/-- The last carry of a sum tells that it does not fit. -/
theorem Computes.carry_sum (h : k.Computes 1 op) : (chain op c ps).2 = true ↔
    k.base ^ ps.length ≤ k.value (ps.map Prod.fst) + k.value (ps.map Prod.snd) + c.toNat := by
  rw [← Bool.not_eq_false, h.carry_chain hps c (.inl rfl)]
  omega

/-- The last carry of a difference tells that it is negative. -/
theorem Computes.carry_difference (h : k.Computes (-1) op) : (chain op c ps).2 = true ↔
    k.value (ps.map Prod.fst) < k.value (ps.map Prod.snd) + c.toNat := by
  have hlt : k.value (ps.map Prod.fst) < k.base ^ ps.length := by
    have hfirst : ∀ b ∈ ps.map Prod.fst, k.IsDigit b := by
      intro b hb
      obtain ⟨p, hp, rfl⟩ := List.mem_map.1 hb
      exact (hps p hp).1
    have hlt := value_lt hfirst
    rwa [List.length_map] at hlt
  rw [← Bool.not_eq_false, h.carry_chain hps c (.inr rfl)]
  omega

end Coding

end GameBoy.Arithmetic
