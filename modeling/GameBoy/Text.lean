/-!
# Text forms

The forms in which reports and messages write their values: hexadecimal of a fixed width, decimal
with a sign, quoted strings, padded columns, and records listed field by field.
-/

namespace GameBoy.Text

/-! ## Numbers -/

/-- The upper-case hexadecimal digit of `n` modulo sixteen. -/
def hexDigit (n : Nat) : Char :=
  let digit := n % 16
  if digit < 10 then Char.ofNat (48 + digit) else Char.ofNat (55 + digit)

/-- The lowest `width` hexadecimal digits of `n`, highest first, in front of `rest`. -/
def hexDigits : (width n : Nat) → (rest : List Char) → List Char
  | 0, _, rest => rest
  | width + 1, n, rest => hexDigits width (n / 16) (hexDigit n :: rest)

/-- `n` in upper-case hexadecimal, with leading zeros, on exactly `width` digits. -/
def hex (width n : Nat) : String := String.ofList (hexDigits width n [])

/-- A byte on two hexadecimal digits. -/
def hexByte (value : UInt8) : String := hex 2 value.toNat

/-- A word on four hexadecimal digits. -/
def hexWord (value : UInt16) : String := hex 4 value.toNat

/-- A decimal number that always shows its sign; zero counts as positive. -/
def signed (n : Int) : String :=
  if n < 0 then s!"-{n.natAbs}" else s!"+{n.natAbs}"

/-- The digit `1` for true and `0` for false. -/
def digit (b : Bool) : String := if b then "1" else "0"

theorem length_hexDigits (width n : Nat) (rest : List Char) :
    (hexDigits width n rest).length = width + rest.length := by
  induction width generalizing n rest with
  | zero => simp [hexDigits]
  | succ width ih => simp only [hexDigits, ih, List.length_cons]; omega

theorem length_hex (width n : Nat) : (hex width n).length = width := by
  simp [hex, length_hexDigits]

/-! ## Columns and quotes -/

/-- `text` followed by as many spaces as bring it to `width` characters. -/
def padRight (width : Nat) (text : String) : String :=
  text.pushn ' ' (width - text.length)

/-- A list without the longest run of elements at its end that satisfy `p`. -/
def dropTrailing {α : Type} (p : α → Bool) (l : List α) : List α :=
  (l.reverse.dropWhile p).reverse

/-- What is left stands in front of what was dropped, and ends in an element that is not dropped. -/
theorem exists_dropTrailing {α : Type} (p : α → Bool) (l : List α) :
    ∃ dropped, l = dropTrailing p l ++ dropped ∧ (∀ x ∈ dropped, p x) ∧
      ∀ x ∈ (dropTrailing p l).getLast?, p x = false := by
  refine ⟨(l.reverse.takeWhile p).reverse, ?_, ?_, ?_⟩
  · rw [dropTrailing, ← List.reverse_append, List.takeWhile_append_dropWhile, List.reverse_reverse]
  · intro x hx
    exact List.all_eq_true.1 List.all_takeWhile x (List.mem_reverse.1 hx)
  · intro x hx
    have hlast := List.head?_dropWhile_not p l.reverse
    rw [dropTrailing, List.getLast?_reverse] at hx
    rw [hx] at hlast
    exact hlast

/-- What is dropped is only repetitions of the element, and what is left does not end in it. -/
theorem exists_dropTrailing_beq {α : Type} [BEq α] [LawfulBEq α] (a : α) (l : List α) :
    (∃ n, l = dropTrailing (· == a) l ++ List.replicate n a) ∧
      (dropTrailing (· == a) l).getLast? ≠ some a := by
  obtain ⟨dropped, hl, hdropped, hlast⟩ := exists_dropTrailing (· == a) l
  refine ⟨⟨dropped.length, ?_⟩, ?_⟩
  · have hsame : dropped = List.replicate dropped.length a :=
      List.eq_replicate_of_mem fun x hx => eq_of_beq (hdropped x hx)
    rw [← hsame]
    exact hl
  · intro hend
    have hother := hlast a hend
    rw [beq_self_eq_true] at hother
    cases hother

/-- A character as it stands inside quotes: a quote or a backslash is escaped by a backslash. -/
def escape (c : Char) : List Char :=
  if c = '"' || c = '\\' then ['\\', c] else [c]

/-- `text` between double quotes. -/
def quoted (text : String) : String :=
  "\"" ++ String.ofList (text.toList.flatMap escape) ++ "\""

/-! ## Records -/

/-- A value that may be absent. -/
def optional : Option String → String
  | none => "None"
  | some text => s!"Some({text})"

/-- The fields of a record, each as `name: value`, separated by commas. -/
def fields (entries : List (String × String)) : String :=
  ", ".intercalate (entries.map fun (name, value) => s!"{name}: {value}")

/-- A record with all its fields between braces. -/
def record (name : String) (entries : List (String × String)) : String :=
  s!"{name} \x7b {fields entries} \x7d"

/-- A record that shows only some of its fields. -/
def partialRecord (name : String) (entries : List (String × String)) : String :=
  s!"{name} \x7b {fields entries}, .. \x7d"

end GameBoy.Text
