import GameBoy.CommandLine.Arguments
import Mathlib.Data.Nat.Digits.Defs
import Mathlib.Data.List.Perm.Basic
import Mathlib.Tactic.MkIffOfInductiveProp
import Mathlib.Tactic.Ring
import Mathlib.Tactic.SplitIfs

/-!
# The grammar of the arguments

A run is described by items: flags, options with their values, and the image. Which arguments are
read as a run, and as which, is said here by the items that they spell, without reading anything
from left to right. The words that an item spells can be told from the words of any other, so
arguments have at most one such reading, and what follows an option that takes a value is never
looked at as an option.

Main statement: `Command.parse_grammar`.
-/

namespace GameBoy.CommandLine

/-! ## Numbers -/

/-- The number that decimal digits stand for. -/
def decimalValue (digits : List Char) : Nat :=
  Nat.ofDigits 10 (digits.reverse.map fun c => c.toNat - 48)

/-- A text writes a number in decimal, perhaps with a plus sign in front. -/
def Writes (text : String) (n : Nat) : Prop :=
  ∃ digits, (text.toList = digits ∨ text.toList = '+' :: digits) ∧ digits ≠ [] ∧
    (∀ c ∈ digits, c.isDigit) ∧ n = decimalValue digits

theorem decimalValue_cons (c : Char) (rest : List Char) :
    decimalValue (c :: rest) = decimalValue rest + 10 ^ rest.length * (c.toNat - 48) := by
  simp [decimalValue, Nat.ofDigits_append]

theorem readDigits_cons (c : Char) (rest : List Char) (start : Nat) :
    readDigits (c :: rest) start =
      if c.isDigit then
        if 10 * start + (c.toNat - 48) < 2 ^ 64 then readDigits rest (10 * start + (c.toNat - 48))
        else .error .tooLarge
      else .error .invalidDigit := rfl

/-- Reading goes on from a number exactly if only digits follow and the result is not too large: a
number that is too large does not become smaller by further digits. -/
theorem readDigits_eq_ok {digits : List Char} {start n : Nat} (hstart : start < 2 ^ 64) :
    readDigits digits start = .ok n ↔ n < 2 ^ 64 ∧ (∀ c ∈ digits, c.isDigit) ∧
      n = 10 ^ digits.length * start + decimalValue digits := by
  induction digits generalizing start with
  | nil =>
    have hzero : decimalValue [] = 0 := rfl
    show Except.ok start = Except.ok n ↔ _
    simp only [List.length_nil, hzero, List.not_mem_nil, false_implies, implies_true, true_and,
      Except.ok.injEq]
    omega
  | cons c rest ih =>
    have hvalue : 10 ^ (c :: rest).length * start + decimalValue (c :: rest) =
        10 ^ rest.length * (10 * start + (c.toNat - 48)) + decimalValue rest := by
      rw [decimalValue_cons, List.length_cons]
      ring
    rw [hvalue, readDigits_cons, List.forall_mem_cons]
    by_cases hdigit : c.isDigit
    · rw [if_pos hdigit]
      by_cases hsize : 10 * start + (c.toNat - 48) < 2 ^ 64
      · rw [if_pos hsize, ih hsize]
        simp only [hdigit, true_and]
      · rw [if_neg hsize]
        have hlarge := Nat.le_mul_of_pos_left (10 * start + (c.toNat - 48))
          (Nat.pow_pos (n := rest.length) (by decide : 0 < 10))
        constructor
        · intro h
          cases h
        · rintro ⟨hn, -, rfl⟩
          omega
    · rw [if_neg hdigit]
      constructor
      · intro h
        cases h
      · rintro ⟨-, ⟨hc, -⟩, -⟩
        exact absurd hc hdigit

/-- The texts that are read as a number are those that write it. -/
theorem readNumber_eq_ok {text : String} {n : Nat} :
    readNumber text = .ok n ↔ n < 2 ^ 64 ∧ Writes text n := by
  have hdigits (digits : List Char) : readDigits digits 0 = .ok n ↔
      n < 2 ^ 64 ∧ (∀ c ∈ digits, c.isDigit) ∧ n = decimalValue digits := by
    rw [readDigits_eq_ok (by decide), Nat.mul_zero, Nat.zero_add]
  cases htext : text.toList with
  | nil => simp [readNumber, Writes, htext]
  | cons c rest =>
    by_cases hplus : c = '+'
    · subst hplus
      -- The sign is no digit, so the number is what follows it.
      have hsign : Writes text n ↔
          rest ≠ [] ∧ (∀ c ∈ rest, c.isDigit) ∧ n = decimalValue rest := by
        simp only [Writes, htext]
        constructor
        · rintro ⟨digits, rfl | heq, hne, hall, hn⟩
          · exact absurd (hall '+' List.mem_cons_self) (by decide)
          · obtain rfl := (List.cons.inj heq).2
            exact ⟨hne, hall, hn⟩
        · rintro ⟨hne, hall, hn⟩
          exact ⟨rest, .inr rfl, hne, hall, hn⟩
      rw [hsign]
      cases rest with
      | nil => simp [readNumber, htext]
      | cons d rest =>
        have hread : readNumber text = readDigits (d :: rest) 0 := by simp [readNumber, htext]
        rw [hread, hdigits]
        simp only [ne_eq, reduceCtorEq, not_false_eq_true, true_and]
    · have hread : readNumber text = readDigits (c :: rest) 0 := by
        simp [readNumber, htext, hplus]
      rw [hread, hdigits]
      simp only [Writes, htext]
      constructor
      · rintro ⟨hn, hall, hvalue⟩
        exact ⟨hn, c :: rest, .inl rfl, List.cons_ne_nil c rest, hall, hvalue⟩
      · rintro ⟨hn, digits, rfl | heq, -, hall, hvalue⟩
        · exact ⟨hn, hall, hvalue⟩
        · exact absurd (List.cons.inj heq).1 hplus

/-! ## Items -/

/-- An item of a run: a flag, an option with its value, or the image. A limit is given by a text and
the number that it writes. -/
inductive Item where
  | trace
  | logo
  | boot (path : String)
  | limit (text : String) (n : Nat)
  | rom (path : String)
  deriving DecidableEq

namespace Item

/-- The arguments that spell an item. -/
def words : Item → List String
  | trace => ["--trace"]
  | logo => ["--logo"]
  | boot path => ["--boot", path]
  | limit text _ => ["--limit", text]
  | rom path => [path]

/-- The text of a limit writes its number, and an image does not look like an option. There is no
such demand on the value of an option. -/
def IsProper : Item → Prop
  | limit text n => n < 2 ^ 64 ∧ Writes text n
  | rom path => ¬ "--".toList <+: path.toList
  | _ => True

/-- An item is an option with a value. -/
def HasValue : Item → Prop
  | boot _ | limit _ _ => True
  | _ => False

/-- The value of an item that is a boot program. -/
def boot? : Item → Option String
  | boot path => some path
  | _ => none

/-- The value of an item that is a limit. -/
def limit? : Item → Option Nat
  | limit _ n => some n
  | _ => none

/-- The value of an item that is an image. -/
def rom? : Item → Option String
  | rom path => some path
  | _ => none

end Item

/-- Some items describe a run: they have one image, each flag is on exactly if it is among them, and
of each option with a value the last one counts. -/
structure Describes (items : List Item) (options : RunOptions) : Prop where
  proper : ∀ item ∈ items, item.IsProper
  rom : items.filterMap Item.rom? = [options.rom]
  boot : options.boot = (items.filterMap Item.boot?).getLast?
  limit : options.limit = (items.filterMap Item.limit?).getLast?
  trace : options.trace = true ↔ .trace ∈ items
  logo : options.logo = true ↔ .logo ∈ items

/-- Proper items with one image describe a run. -/
theorem exists_describes {items : List Item} {path : String}
    (hproper : ∀ item ∈ items, item.IsProper) (hrom : items.filterMap Item.rom? = [path]) :
    ∃ options, Describes items options :=
  ⟨⟨path, (items.filterMap Item.boot?).getLast?, (items.filterMap Item.limit?).getLast?,
    items.contains .trace, items.contains .logo⟩, hproper, hrom, rfl, rfl,
    List.contains_iff_mem, List.contains_iff_mem⟩

/-! ## Reading items -/

/-- The options after an item. -/
def Pending.take (p : Pending) : Item → Except ArgumentError Pending
  | .trace => .ok { p with trace := true }
  | .logo => .ok { p with logo := true }
  | .boot path => .ok { p with boot := some path }
  | .limit _ n => .ok { p with limit := some n }
  | .rom path => if p.rom.isNone then .ok { p with rom := some path } else .error (.unexpected path)

/-- An image is not taken for an option. -/
theorem Item.IsProper.ne_option {path option : String} (h : (Item.rom path).IsProper)
    (hoption : option ∈ ["--boot", "--limit", "--trace", "--logo"]) : path ≠ option := by
  rintro rfl
  exact h ((by decide : ∀ o ∈ ["--boot", "--limit", "--trace", "--logo"],
    "--".toList <+: o.toList) path hoption)

/-- Reading takes the words of an item at a time. -/
theorem readRun_words {item : Item} (h : item.IsProper) (p : Pending) (rest : List String) :
    readRun p (item.words ++ rest) = p.take item >>= fun q => readRun q rest := by
  rw [readRun.eq_def]
  cases item with
  | trace => simp [Item.words, Pending.take, bind, Except.bind]
  | logo => simp [Item.words, Pending.take, bind, Except.bind]
  | boot path => simp [Item.words, Pending.take, bind, Except.bind]
  | limit text n =>
    simp [Item.words, Pending.take, Pending.withLimit, readNumber_eq_ok.2 h, bind, Except.bind]
  | rom path =>
    have hdashes : path.startsWith "--" = false := by
      rw [Bool.eq_false_iff, ne_eq, String.startsWith_string_iff]
      exact h
    simp [Item.words, Pending.take, Pending.positional, hdashes, h.ne_option]

/-- Reading the words of several items takes them one after the other. -/
theorem readRun_flatMap {items : List Item} (h : ∀ item ∈ items, item.IsProper) (p : Pending)
    (rest : List String) :
    readRun p (items.flatMap Item.words ++ rest) =
      items.foldlM Pending.take p >>= fun q => readRun q rest := by
  induction items generalizing p with
  | nil => rfl
  | cons item items ih =>
    obtain ⟨hitem, hitems⟩ := List.forall_mem_cons.1 h
    rw [List.flatMap_cons, List.append_assoc, readRun_words hitem, List.foldlM_cons, bind_assoc]
    congr 1
    funext q
    exact ih hitems q

/-- Some proper items spell the arguments. -/
def Spelled (arguments : List String) : Prop :=
  ∃ items : List Item, (∀ item ∈ items, item.IsProper) ∧ arguments = items.flatMap Item.words

theorem Spelled.cons {item : Item} {rest : List String} (hitem : item.IsProper)
    (hrest : Spelled rest) : Spelled (item.words ++ rest) := by
  obtain ⟨items, hitems, rfl⟩ := hrest
  exact ⟨item :: items, List.forall_mem_cons.2 ⟨hitem, hitems⟩, List.flatMap_cons.symm⟩

/-- Only words of proper items are read. -/
theorem spelled_of_readRun {p : Pending} {arguments : List String} {options : RunOptions}
    (h : readRun p arguments = .ok options) : Spelled arguments := by
  -- One case for each way to go on: the words that are consumed are those of one item.
  fun_induction readRun p arguments with
  | case1 p => exact ⟨[], List.forall_mem_nil _, rfl⟩
  | case2 p => cases h
  | case3 p path rest ih =>
    have hproper : (Item.boot path).IsProper := trivial
    exact .cons hproper (ih h)
  | case4 p => cases h
  | case5 p value rest _ ih =>
    cases hvalue : readNumber value with
    | error e => simp [Pending.withLimit, hvalue, bind, Except.bind] at h
    | ok n =>
      simp only [Pending.withLimit, hvalue, bind, Except.bind] at h
      have hproper : (Item.limit value n).IsProper := readNumber_eq_ok.1 hvalue
      exact .cons hproper (ih _ h)
  | case6 p rest _ _ ih =>
    have hproper : Item.trace.IsProper := trivial
    exact .cons hproper (ih h)
  | case7 p rest _ _ _ ih =>
    have hproper : Item.logo.IsProper := trivial
    exact .cons hproper (ih h)
  | case8 p path rest _ _ _ _ ih =>
    by_cases hdashes : path.startsWith "--" = true
    · simp [Pending.positional, hdashes, bind, Except.bind] at h
    · have hproper : (Item.rom path).IsProper := fun hprefix =>
        hdashes (String.startsWith_string_iff.2 hprefix)
      cases hrom : p.rom with
      | none =>
        simp only [Pending.positional, hdashes, hrom, Option.isNone_none, bind, Except.bind] at h
        exact .cons hproper (ih _ h)
      | some rom => simp [Pending.positional, hdashes, hrom, bind, Except.bind] at h

/-! ## What items add -/

/-- The options before and after some items. -/
@[mk_iff]
structure Adds (items : List Item) (p q : Pending) : Prop where
  rom : q.rom.toList = p.rom.toList ++ items.filterMap Item.rom?
  boot : q.boot = (items.filterMap Item.boot?).getLast?.or p.boot
  limit : q.limit = (items.filterMap Item.limit?).getLast?.or p.limit
  trace : q.trace = true ↔ p.trace = true ∨ .trace ∈ items
  logo : q.logo = true ↔ p.logo = true ∨ .logo ∈ items

theorem adds_nil {p q : Pending} : Adds [] p q ↔ p = q := by
  obtain ⟨rom, boot, limit, trace, logo⟩ := p
  obtain ⟨rom', boot', limit', trace', logo'⟩ := q
  simp only [adds_iff, List.filterMap_nil, List.append_nil, List.getLast?_nil, Option.none_or,
    List.not_mem_nil, or_false, Bool.coe_iff_coe, Pending.mk.injEq]
  constructor
  · rintro ⟨hrom, rfl, rfl, rfl, rfl⟩
    have heq : rom = rom' := by simpa using congrArg List.head? hrom.symm
    exact ⟨heq, rfl, rfl, rfl, rfl⟩
  · rintro ⟨rfl, rfl, rfl, rfl, rfl⟩
    exact ⟨rfl, rfl, rfl, rfl, rfl⟩

/-- What an item adds is added first. -/
theorem adds_cons {item : Item} {items : List Item} {p q : Pending} :
    Adds (item :: items) p q ↔ ∃ r, p.take item = .ok r ∧ Adds items r q := by
  cases item with
  | rom path =>
    cases hrom : p.rom with
    | none =>
      simp [Pending.take, adds_iff, List.filterMap_cons, Item.rom?, Item.boot?, Item.limit?, hrom,
        -List.getLast?_filterMap]
    | some rom =>
      -- There is no place for a second image.
      have htwo : q.rom.toList ≠ rom :: path :: items.filterMap Item.rom? := by
        cases q.rom <;> simp
      simp [Pending.take, adds_iff, List.filterMap_cons, Item.rom?, hrom, htwo]
  | _ =>
    simp [Pending.take, adds_iff, List.filterMap_cons, Item.rom?, Item.boot?, Item.limit?,
      List.getLast?_cons, -List.getLast?_filterMap]

theorem foldlM_take {items : List Item} {p q : Pending} :
    items.foldlM Pending.take p = .ok q ↔ Adds items p q := by
  induction items generalizing p with
  | nil =>
    rw [adds_nil, List.foldlM_nil]
    exact ⟨Except.ok.inj, congrArg Except.ok⟩
  | cons item items ih =>
    rw [List.foldlM_cons, adds_cons]
    cases hitem : p.take item with
    | error e => simp [bind, Except.bind]
    | ok r => simp [bind, Except.bind, ih]

/-- The options read so far when nothing is missing. -/
def RunOptions.pending (options : RunOptions) : Pending :=
  ⟨some options.rom, options.boot, options.limit, options.trace, options.logo⟩

theorem Pending.finish_eq_ok {p : Pending} {options : RunOptions} :
    p.finish = .ok options ↔ p = options.pending := by
  obtain ⟨rom, boot, limit, trace, logo⟩ := p
  obtain ⟨rom', boot', limit', trace', logo'⟩ := options
  cases rom <;> simp [finish, RunOptions.pending]

/-- Items describe what they add to no options. -/
theorem adds_empty {items : List Item} {options : RunOptions}
    (h : ∀ item ∈ items, item.IsProper) :
    Adds items .empty options.pending ↔ Describes items options := by
  have hflag (item : Item) : false = true ∨ item ∈ items ↔ item ∈ items := by simp
  constructor
  · intro hadds
    exact ⟨h, hadds.rom.symm, hadds.boot.trans Option.or_none, hadds.limit.trans Option.or_none,
      hadds.trace.trans (hflag _), hadds.logo.trans (hflag _)⟩
  · intro hdescribes
    exact ⟨hdescribes.rom.symm, hdescribes.boot.trans Option.or_none.symm,
      hdescribes.limit.trans Option.or_none.symm, hdescribes.trace.trans (hflag _).symm,
      hdescribes.logo.trans (hflag _).symm⟩

/-- Of the words of proper items, a run is read exactly if they describe it. -/
theorem readRun_items {items : List Item} {options : RunOptions}
    (h : ∀ item ∈ items, item.IsProper) :
    readRun .empty (items.flatMap Item.words) = .ok options ↔ Describes items options := by
  have hread : readRun .empty (items.flatMap Item.words) =
      items.foldlM Pending.take .empty >>= Pending.finish := by
    have hall := readRun_flatMap h .empty []
    rwa [List.append_nil] at hall
  rw [hread, ← adds_empty h, ← foldlM_take]
  cases items.foldlM Pending.take .empty with
  | error e => simp [bind, Except.bind]
  | ok q => simp [bind, Except.bind, Pending.finish_eq_ok]

/-! ## Unique reading -/

/-- The words of an item can be told from what follows them. -/
theorem Item.words_append_inj {item item' : Item} {rest rest' : List String} (h : item.IsProper)
    (h' : item'.IsProper) (heq : item.words ++ rest = item'.words ++ rest') :
    item = item' ∧ rest = rest' := by
  cases item with
  | rom path =>
    cases item' with
    | rom path' => simpa [words] using heq
    | _ => exact absurd (List.cons.inj heq).1 (h.ne_option (by decide))
  | limit text n =>
    cases item' with
    | rom path' => exact absurd (List.cons.inj heq).1.symm (h'.ne_option (by decide))
    | limit text' n' =>
      obtain ⟨rfl, rfl⟩ : text = text' ∧ rest = rest' := by simpa [words] using heq
      have hn : Except.ok n = Except.ok n' :=
        (readNumber_eq_ok.2 h).symm.trans (readNumber_eq_ok.2 h')
      rw [Except.ok.inj hn]
      exact ⟨rfl, rfl⟩
    | _ => simp [words] at heq
  | _ =>
    cases item' with
    | rom path' => exact absurd (List.cons.inj heq).1.symm (h'.ne_option (by decide))
    | _ => simp_all [words]

/-- Arguments are the words of proper items in at most one way. -/
theorem flatMap_words_inj {items items' : List Item} (h : ∀ item ∈ items, item.IsProper)
    (h' : ∀ item ∈ items', item.IsProper)
    (heq : items.flatMap Item.words = items'.flatMap Item.words) : items = items' := by
  induction items generalizing items' with
  | nil =>
    cases items' with
    | nil => rfl
    | cons item items' => cases item <;> simp [Item.words] at heq
  | cons item items ih =>
    cases items' with
    | nil => cases item <;> simp [Item.words] at heq
    | cons item' items' =>
      obtain ⟨hitem, hitems⟩ := List.forall_mem_cons.1 h
      obtain ⟨hitem', hitems'⟩ := List.forall_mem_cons.1 h'
      obtain ⟨rfl, hrest⟩ := Item.words_append_inj hitem hitem' heq
      rw [ih hitems hitems' hrest]

/-! ## Order and values -/

/-- Items in another order describe the same runs, if the last ones of the same options are still
the last. -/
theorem Describes.perm {items items' : List Item} {options : RunOptions}
    (h : Describes items options) (hperm : items.Perm items')
    (hboot : (items.filterMap Item.boot?).getLast? = (items'.filterMap Item.boot?).getLast?)
    (hlimit : (items.filterMap Item.limit?).getLast? = (items'.filterMap Item.limit?).getLast?) :
    Describes items' options where
  proper item hmem := h.proper item (hperm.mem_iff.2 hmem)
  rom := by
    have hrom := (hperm.filterMap Item.rom?).symm
    rw [h.rom] at hrom
    exact List.perm_singleton.1 hrom
  boot := h.boot.trans hboot
  limit := h.limit.trans hlimit
  trace := h.trace.trans hperm.mem_iff
  logo := h.logo.trans hperm.mem_iff

/-- The options but for the values of options. -/
def Pending.withoutValues (p : Pending) : Pending := { p with boot := none, limit := none }

/-- The options but for the values of options. -/
def RunOptions.withoutValues (options : RunOptions) : RunOptions :=
  { options with boot := none, limit := none }

/-- The command but for the values of options. -/
def Command.withoutValues : Command → Command
  | info rom => .info rom
  | run options => .run options.withoutValues

theorem Pending.withoutValues_eq {p q : Pending} :
    p.withoutValues = q.withoutValues ↔ p.rom = q.rom ∧ p.trace = q.trace ∧ p.logo = q.logo := by
  simp [Pending.withoutValues]

/-- The values read so far have no influence on anything else. -/
theorem readRun_withoutValues {p q : Pending} (h : p.withoutValues = q.withoutValues)
    (arguments : List String) :
    (readRun p arguments).map RunOptions.withoutValues =
      (readRun q arguments).map RunOptions.withoutValues := by
  rw [Pending.withoutValues_eq] at h
  obtain ⟨hrom, htrace, hlogo⟩ := h
  -- No branch looks at the values, so both readings take the same one at each argument.
  fun_induction readRun p arguments generalizing q with
  | case1 p =>
    rw [readRun, Pending.finish, Pending.finish, hrom, htrace, hlogo]
    cases q.rom <;> rfl
  | case2 p => rw [readRun.eq_def q]; rfl
  | case3 p path rest ih => rw [readRun.eq_def q]; exact ih hrom htrace hlogo
  | case4 p => rw [readRun.eq_def q]; rfl
  | case5 p value rest _ ih =>
    rw [readRun.eq_def q]
    cases hvalue : readNumber value with
    | error e => simp [Pending.withLimit, hvalue, bind, Except.bind]
    | ok n =>
      simp only [Pending.withLimit, hvalue, bind, Except.bind]
      exact ih _ hrom htrace hlogo
  | case6 p rest _ _ ih => rw [readRun.eq_def q]; exact ih hrom rfl hlogo
  | case7 p rest _ _ _ ih => rw [readRun.eq_def q]; exact ih hrom htrace rfl
  | case8 p path rest hboot hlimit htrace' hlogo' ih =>
    rw [readRun.eq_def q]
    simp only [hboot, hlimit, htrace', hlogo', if_false, Pending.positional, hrom]
    split_ifs
    · rfl
    · exact ih _ rfl htrace hlogo
    · rfl

/-- An option with a value has no influence on anything but that value. -/
theorem readRun_value {front : List Item} {item : Item} (hfront : ∀ i ∈ front, i.IsProper)
    (hitem : item.IsProper) (hvalue : item.HasValue) (p : Pending) (rest : List String) :
    (readRun p (front.flatMap Item.words ++ (item.words ++ rest))).map RunOptions.withoutValues =
      (readRun p (front.flatMap Item.words ++ rest)).map RunOptions.withoutValues := by
  rw [readRun_flatMap hfront, readRun_flatMap hfront]
  cases front.foldlM Pending.take p with
  | error e => rfl
  | ok q =>
    obtain ⟨r, htake, hsame⟩ : ∃ r, q.take item = .ok r ∧ r.withoutValues = q.withoutValues := by
      cases item with
      | boot path => exact ⟨_, rfl, rfl⟩
      | limit text n => exact ⟨_, rfl, rfl⟩
      | _ => exact hvalue.elim
    show (readRun q (item.words ++ rest)).map _ = (readRun q rest).map _
    rw [readRun_words hitem, htake]
    exact readRun_withoutValues hsame rest

/-- What stands after `--limit` is taken for a number, or else refused. -/
theorem exists_readRun_limit {front : List Item} {value : String}
    (hfront : ∀ i ∈ front, i.IsProper) (hvalue : ∀ n < 2 ^ 64, ¬ Writes value n) (p : Pending)
    (rest : List String) :
    ∃ e, readRun p (front.flatMap Item.words ++ "--limit" :: value :: rest) = .error e := by
  rw [readRun_flatMap hfront]
  cases front.foldlM Pending.take p with
  | error e => exact ⟨e, rfl⟩
  | ok q =>
    cases hread : readNumber value with
    | ok n =>
      obtain ⟨hn, hwrites⟩ := readNumber_eq_ok.1 hread
      exact absurd hwrites (hvalue n hn)
    | error e =>
      refine ⟨.invalidLimit value e, ?_⟩
      show readRun q ("--limit" :: value :: rest) = _
      rw [readRun.eq_def]
      simp [Pending.withLimit, hread, bind, Except.bind]

/-! ## The commands -/

namespace Command

variable {arguments : List String}

theorem map_run_eq_ok {result : Except ArgumentError RunOptions} {options : RunOptions} :
    result.map run = .ok (run options) ↔ result = .ok options := by
  cases result <;> simp [Except.map]

theorem parse_run (rest : List String) : parse ("run" :: rest) = (readRun .empty rest).map .run := by
  simp [parse]

/-- A command is a run only if it is named so. -/
theorem exists_of_parse_run {options : RunOptions} (h : parse arguments = .ok (.run options)) :
    ∃ rest, arguments = "run" :: rest ∧ readRun .empty rest = .ok options := by
  cases arguments with
  | nil => simp [parse] at h
  | cons name rest =>
    simp only [parse] at h
    split_ifs at h with hinfo hrun
    · unfold readInfo at h
      split at h <;> simp at h
    · subst hrun
      exact ⟨rest, rfl, map_run_eq_ok.1 h⟩

theorem parse_items {items : List Item} {options : RunOptions}
    (h : ∀ item ∈ items, item.IsProper) :
    parse ("run" :: items.flatMap Item.words) = .ok (.run options) ↔ Describes items options := by
  rw [parse_run, map_run_eq_ok, readRun_items h]

theorem parse_eq_run {options : RunOptions} : parse arguments = .ok (.run options) ↔
    ∃ items, Describes items options ∧ arguments = "run" :: items.flatMap Item.words := by
  constructor
  · intro h
    obtain ⟨rest, rfl, hread⟩ := exists_of_parse_run h
    obtain ⟨items, hproper, rfl⟩ := spelled_of_readRun hread
    exact ⟨items, (readRun_items hproper).1 hread, rfl⟩
  · rintro ⟨items, hdescribes, rfl⟩
    exact (parse_items hdescribes.proper).2 hdescribes

theorem parse_eq_info {rom : String} :
    parse arguments = .ok (.info rom) ↔ arguments = ["info", rom] := by
  constructor
  · intro h
    cases arguments with
    | nil => simp [parse] at h
    | cons name rest =>
      simp only [parse] at h
      split_ifs at h with hinfo hrun
      · subst hinfo
        unfold readInfo at h
        split at h
        · cases h
        · simpa using h
        · cases h
      · cases hread : readRun .empty rest <;> simp [hread, Except.map] at h
  · rintro rfl
    rfl

theorem exists_parse_error : (∃ e, parse arguments = .error e) ↔
    (¬ ∃ (items : List Item) (path : String), (∀ item ∈ items, item.IsProper) ∧
      items.filterMap Item.rom? = [path] ∧ arguments = "run" :: items.flatMap Item.words) ∧ ∀ rom, arguments ≠ ["info", rom] := by
  constructor
  · rintro ⟨e, herror⟩
    refine ⟨?_, ?_⟩
    · rintro ⟨items, path, hproper, hrom, harguments⟩
      obtain ⟨options, hdescribes⟩ := exists_describes hproper hrom
      rw [parse_eq_run.2 ⟨items, hdescribes, harguments⟩] at herror
      cases herror
    · intro rom harguments
      rw [parse_eq_info.2 harguments] at herror
      cases herror
  · rintro ⟨hrun, hinfo⟩
    cases hparse : parse arguments with
    | error e => exact ⟨e, rfl⟩
    | ok command =>
      cases command with
      | info rom => exact absurd (parse_eq_info.1 hparse) (hinfo rom)
      | run options =>
        obtain ⟨items, hdescribes, harguments⟩ := parse_eq_run.1 hparse
        exact absurd ⟨items, _, hdescribes.proper, hdescribes.rom, harguments⟩ hrun

theorem parse_run_map (rest : List String) :
    (parse ("run" :: rest)).map withoutValues =
      ((readRun .empty rest).map RunOptions.withoutValues).map .run := by
  rw [parse_run]
  cases readRun .empty rest <;> rfl

/-- **The grammar of the arguments.** Arguments are a run with given options exactly if they are
`run` and the words of items that describe these options; they are a description exactly if they are
`info` and an image; all others are refused. The items can be read off the words, and their order
counts only for repeated options with values. An option that takes a value takes the next argument:
without the two, the command is the same up to the value, and an argument in the place of a limit
that is no number is an error. -/
theorem parse_grammar (arguments : List String) :
    (∀ options, parse arguments = .ok (.run options) ↔
      ∃ items, Describes items options ∧ arguments = "run" :: items.flatMap Item.words) ∧
    (∀ rom, parse arguments = .ok (.info rom) ↔ arguments = ["info", rom]) ∧
    ((∃ e, parse arguments = .error e) ↔
      (¬ ∃ (items : List Item) (path : String), (∀ item ∈ items, item.IsProper) ∧
        items.filterMap Item.rom? = [path] ∧ arguments = "run" :: items.flatMap Item.words) ∧ ∀ rom, arguments ≠ ["info", rom]) ∧
    ∀ items : List Item, (∀ item ∈ items, item.IsProper) →
      (∀ items' : List Item, (∀ item ∈ items', item.IsProper) →
        items.flatMap Item.words = items'.flatMap Item.words → items = items') ∧
      (∀ items' : List Item, items.Perm items' →
        (items.filterMap Item.boot?).getLast? = (items'.filterMap Item.boot?).getLast? →
        (items.filterMap Item.limit?).getLast? = (items'.filterMap Item.limit?).getLast? →
        ∀ options, parse ("run" :: items.flatMap Item.words) = .ok (.run options) ↔
          parse ("run" :: items'.flatMap Item.words) = .ok (.run options)) ∧
      (∀ (item : Item) (rest : List String), item.IsProper → item.HasValue →
        (parse ("run" :: (items.flatMap Item.words ++ (item.words ++ rest)))).map withoutValues =
          (parse ("run" :: (items.flatMap Item.words ++ rest))).map withoutValues) ∧
      ∀ value rest, (∀ n < 2 ^ 64, ¬ Writes value n) →
        ∃ e, parse ("run" :: (items.flatMap Item.words ++ "--limit" :: value :: rest)) =
          .error e := by
  refine ⟨fun _ => parse_eq_run, fun _ => parse_eq_info, exists_parse_error, ?_⟩
  intro items hproper
  refine ⟨fun items' => flatMap_words_inj hproper, ?_, ?_, ?_⟩
  · intro items' hperm hboot hlimit options
    have hproper' : ∀ item ∈ items', item.IsProper := fun item hmem =>
      hproper item (hperm.mem_iff.2 hmem)
    rw [parse_items hproper, parse_items hproper']
    exact ⟨fun h => h.perm hperm hboot hlimit, fun h => h.perm hperm.symm hboot.symm hlimit.symm⟩
  · intro item rest hitem hvalue
    rw [parse_run_map, parse_run_map, readRun_value hproper hitem hvalue]
  · intro value rest hvalue
    obtain ⟨e, herror⟩ := exists_readRun_limit hproper hvalue .empty rest
    rw [parse_run, herror]
    exact ⟨e, rfl⟩

/-- The boot program is named like a flag, and the limit is repeated. -/
theorem parse_grammar_repeated :
    parse ["run", "--boot", "--trace", "a.gb", "--limit", "+5", "--limit", "7"] =
      .ok (.run ⟨"a.gb", some "--trace", some 7, false, false⟩) ∧
    parse ["run", "--limit", "+5", "--limit", "7", "a.gb", "--boot", "--trace"] =
      .ok (.run ⟨"a.gb", some "--trace", some 7, false, false⟩) ∧
    (parse ["run", "a.gb", "--boot", "--trace", "--fast"]).map withoutValues =
      (parse ["run", "a.gb", "--fast"]).map withoutValues ∧
    ∃ e, parse ["run", "a.gb", "--limit", "--trace"] = .error e := by
  have hrom : (Item.rom "a.gb").IsProper := by
    show ¬ "--".toList <+: "a.gb".toList
    decide
  have hfive : (Item.limit "+5" 5).IsProper := readNumber_eq_ok.1 (by decide)
  have hseven : (Item.limit "7" 7).IsProper := readNumber_eq_ok.1 (by decide)
  let items : List Item := [.boot "--trace", .rom "a.gb", .limit "+5" 5, .limit "7" 7]
  let items' : List Item := [.limit "+5" 5, .limit "7" 7, .rom "a.gb", .boot "--trace"]
  have hproper : ∀ item ∈ items, item.IsProper := by
    simp only [items, List.forall_mem_cons]
    exact ⟨trivial, hrom, hfive, hseven, List.forall_mem_nil _⟩
  have hdescribes : Describes items ⟨"a.gb", some "--trace", some 7, false, false⟩ :=
    ⟨hproper, rfl, rfl, rfl, by decide, by decide⟩
  obtain ⟨hrun, -, -, hitems⟩ := parse_grammar ("run" :: items.flatMap Item.words)
  have hparse := (hrun _).2 ⟨items, hdescribes, rfl⟩
  have horder := (hitems items hproper).2.1 items' (by decide) rfl rfl
    ⟨"a.gb", some "--trace", some 7, false, false⟩
  have hfront := hitems [.rom "a.gb"] (List.forall_mem_singleton.2 hrom)
  refine ⟨hparse, horder.1 hparse, ?_, ?_⟩
  · exact hfront.2.2.1 (.boot "--trace") ["--fast"] trivial trivial
  · refine hfront.2.2.2 "--trace" [] fun n hn hwrites => ?_
    have herror : readNumber "--trace" = .error .invalidDigit := by decide
    rw [readNumber_eq_ok.2 ⟨hn, hwrites⟩] at herror
    cases herror

end Command

end GameBoy.CommandLine
