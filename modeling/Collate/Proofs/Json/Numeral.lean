import Collate.Proofs.Floating.Nearest
import Collate.Proofs.Json.Text
import Collate.Text.Blank

/-!
# Numbers are read back from their texts

A numeral has a text, which reads as the numeral if its digits are as the grammar wants them: some
before the point, without a zero in front of others, and some behind a point or a power of ten if
there is one. The text of every number that can be represented is that of such a numeral, and the
number is the nearest to what the digits write. An integer is read as itself. Another number is read
as the nearest to its digits if these make an integer of up to 2⁵³ times or by a power of ten of up to
22 (`Short`), as fifteen digits do: then both are numbers of the 64-bit format, and only their product
or quotient is rounded.
-/

set_option autoImplicit false

namespace Collate.Json

variable {ds part rest r : List Char} {c : Char}

/-! ## What may follow -/

/-- A text that goes on with a blank, or as it may behind an item or a field. -/
def Follows (r : List Char) : Prop := ∀ c ∈ r.head?, Text.isBlank c = true ∨ c ∈ [',', ']', '\x7d']

theorem follows_nil : Follows [] := by
  simp [Follows]

theorem Follows.head_ne (follows : Follows r) (blank : Text.isBlank c = false) (other : c ∉ [',', ']', '\x7d']) :
    r.head? ≠ some c := by
  intro first
  rcases follows c first with isBlank | inside
  · rw [blank] at isBlank
    cases isBlank
  · exact other inside

theorem isBlank_of_isDigit (digit : c.isDigit = true) : Text.isBlank c = false := by
  have range : 48 ≤ c.toNat ∧ c.toNat ≤ 57 := by
    simpa [Char.isDigit, UInt32.le_iff_toNat_le] using digit
  simp only [Text.isBlank, Bool.or_eq_false_iff, Bool.and_eq_false_iff, decide_eq_false_iff_not, beq_eq_false_iff_ne]
  omega

theorem Follows.stops (follows : Follows r) : Stops r := by
  intro c first
  cases digit : c.isDigit with
  | false => rfl
  | true =>
    refine absurd first (follows.head_ne (isBlank_of_isDigit digit) ?_)
    intro inside
    simp only [List.mem_cons, List.not_mem_nil, or_false] at inside
    rcases inside with rfl | rfl | rfl <;> cases digit

/-! ## Numerals -/

namespace Numeral

/-- The digits behind the point, with it, if there is one. -/
def fractionText : Option (List Char) → List Char
  | none => []
  | some ds => '.' :: ds

/-- The power of ten with its sign, if there is one. -/
def powerText : Option (Bool × List Char) → List Char
  | none => []
  | some (negative, ds) => 'e' :: (if negative then '-' else '+') :: ds

/-- The text of a numeral without its sign. -/
def unsignedText (n : Numeral) : List Char := n.whole ++ (fractionText n.fraction ++ powerText n.exponent)

/-- The text of a numeral. -/
def text (n : Numeral) : List Char := signed n.negative n.unsignedText

/-- Digits as the grammar wants them. -/
structure Proper (n : Numeral) : Prop where
  digits : ∀ c ∈ n.whole, c.isDigit = true
  nonempty : n.whole ≠ []
  first : n.whole.head? = some '0' → n.whole = ['0']
  fraction : ∀ ds ∈ n.fraction, ds ≠ [] ∧ ∀ c ∈ ds, c.isDigit = true
  power : ∀ p ∈ n.exponent, p.2 ≠ [] ∧ ∀ c ∈ p.2, c.isDigit = true

end Numeral

theorem whole?_append (digits : ∀ c ∈ ds, c.isDigit = true) (nonempty : ds ≠ [])
    (first : ds.head? = some '0' → ds = ['0']) (stops : Stops rest) : whole? (ds ++ rest) = some (ds, rest) := by
  by_cases zero : ds.head? = some '0'
  · rw [first zero]
    rfl
  · have span := spanDigits_append digits stops
    cases ds with
    | nil => exact absurd rfl nonempty
    | cons d ds =>
      rw [List.cons_append] at span ⊢
      rw [whole?, span]
      rintro rest' same
      cases same
      exact zero rfl

theorem fraction?_append {fraction : Option (List Char)}
    (digits : ∀ ds ∈ fraction, ds ≠ [] ∧ ∀ c ∈ ds, c.isDigit = true) (stops : Stops rest)
    (noPoint : rest.head? ≠ some '.') :
    fraction? (Numeral.fractionText fraction ++ rest) = some (fraction, rest) := by
  cases fraction with
  | none =>
    rw [Numeral.fractionText, List.nil_append]
    cases rest with
    | nil => rfl
    | cons c rest =>
      rw [fraction?]
      rintro rest' same
      cases same
      exact noPoint rfl
  | some ds =>
    obtain ⟨nonempty, digits⟩ := digits ds rfl
    have span := spanDigits_append digits stops
    cases ds with
    | nil => exact absurd rfl nonempty
    | cons d ds => simp only [Numeral.fractionText, List.cons_append, fraction?] at span ⊢ ; rw [span]

theorem power?_append {power : Option (Bool × List Char)}
    (digits : ∀ p ∈ power, p.2 ≠ [] ∧ ∀ c ∈ p.2, c.isDigit = true) (follows : Follows rest) :
    power? (Numeral.powerText power ++ rest) = some (power, rest) := by
  cases power with
  | none =>
    have noSmall := follows.head_ne (c := 'e') rfl (by decide)
    have noCapital := follows.head_ne (c := 'E') rfl (by decide)
    cases rest with
    | nil => rfl
    | cons c rest => simp_all [Numeral.powerText, power?]
  | some p =>
    obtain ⟨negative, ds⟩ := p
    obtain ⟨nonempty, digits⟩ := digits _ rfl
    have span := spanDigits_append digits follows.stops
    cases ds with
    | nil => exact absurd rfl nonempty
    | cons d ds =>
      rw [List.cons_append] at span
      cases negative <;> simp [Numeral.powerText, power?, takeSign, span]

namespace Numeral

variable {n : Numeral}

theorem Proper.begins (proper : n.Proper) : Begins n.unsignedText := by
  obtain ⟨d, ds, shown⟩ := List.exists_cons_of_ne_nil proper.nonempty
  refine ⟨d, _, by rw [unsignedText, shown, List.cons_append], ?_⟩
  exact proper.digits d (by rw [shown]; exact List.mem_cons_self)

theorem stops_powerText (power : Option (Bool × List Char)) (follows : Follows r) :
    Stops (powerText power ++ r) ∧ (powerText power ++ r).head? ≠ some '.' := by
  cases power with
  | none => exact ⟨follows.stops, follows.head_ne rfl (by decide)⟩
  | some p => exact ⟨stops_cons rfl, nofun⟩

theorem stops_fractionText (fraction : Option (List Char)) (stops : Stops r) : Stops (fractionText fraction ++ r) := by
  cases fraction with
  | none => exact stops
  | some ds => exact stops_cons rfl

/-- **A proper numeral is read from its text.** -/
theorem Proper.numeral?_text (proper : n.Proper) (follows : Follows r) : numeral? (n.text ++ r) = some (n, r) := by
  obtain ⟨stops, noPoint⟩ := stops_powerText n.exponent follows
  have power := power?_append proper.power follows
  have fraction := fraction?_append proper.fraction stops noPoint
  have whole := whole?_append proper.digits proper.nonempty proper.first (stops_fractionText n.fraction stops)
  have shown : n.unsignedText ++ r = n.whole ++ (fractionText n.fraction ++ (powerText n.exponent ++ r)) := by
    simp only [unsignedText, List.append_assoc]
  rw [← shown] at whole
  obtain ⟨negative, ds, part, exponent⟩ := n
  cases negative with
  | true => simp only [text, signed, if_true, List.cons_append, numeral?, whole, fraction, power]
  | false =>
    obtain ⟨d, rest, first, digit⟩ := proper.begins
    have unsigned : d ≠ '-' := by
      rintro rfl
      cases digit
    simp only [text, signed, Bool.false_eq_true, if_false]
    rw [first, List.cons_append] at whole ⊢
    simp [numeral?, unsigned, whole, fraction, power]

/-- The power of ten that stands behind a numeral. -/
def powerValue : Option (Bool × List Char) → Int
  | none => 0
  | some (negative, ds) => if negative then -(digitsValue ds : Int) else digitsValue ds

/-- The decimal that the digits write. -/
def decimal (n : Numeral) : Decimal :=
  ⟨n.negative, digitsValue (n.whole ++ n.fraction.getD []),
    powerValue n.exponent - (n.fraction.getD []).length⟩

theorem Proper.exponent?_powerText (proper : n.Proper) :
    exponent? (powerText n.exponent) = some (powerValue n.exponent) := by
  cases written : n.exponent with
  | none => rfl
  | some p =>
    obtain ⟨nonempty, digits⟩ := proper.power p written
    exact Floating.exponent?_signed p.1 digits nonempty

/-- The text of a proper numeral reads as its decimal. -/
theorem Proper.unsigned?_text (proper : n.Proper) :
    Decimal.unsigned? n.negative n.unsignedText = some n.decimal := by
  obtain ⟨stops, noPoint⟩ := stops_powerText n.exponent follows_nil
  rw [List.append_nil] at stops noPoint
  rw [unsignedText, decimal]
  cases written : n.fraction with
  | none =>
    rw [fractionText, List.nil_append, Decimal.unsigned?_whole _ proper.digits proper.nonempty stops noPoint,
      proper.exponent?_powerText]
    simp
  | some part =>
    obtain ⟨-, digits⟩ := proper.fraction part written
    rw [fractionText, List.cons_append, Decimal.unsigned?_point _ proper.digits digits proper.nonempty stops,
      proper.exponent?_powerText]
    rfl

end Numeral

/-! ## Digits that a machine word holds -/

theorem digitsValue_concat (ds : List Char) (c : Char) :
    digitsValue (ds ++ [c]) = digitsValue ds * 10 + (c.toNat - 48) := by
  rw [digitsValue, digitsValue, List.foldl_append]
  rfl

theorem digitsValue_le_append (ds cs : List Char) : digitsValue ds ≤ digitsValue (ds ++ cs) := by
  induction cs generalizing ds with
  | nil => simp
  | cons c cs ih =>
    have rest := ih (ds ++ [c])
    rw [List.append_assoc, List.singleton_append, digitsValue_concat] at rest
    omega

/-- Digits that make no more than a machine word are all taken. -/
theorem takeDigits_eq {ds cs : List Char} (fits : digitsValue (ds ++ cs) ≤ Text.wordMax) :
    takeDigits (digitsValue ds) cs = (digitsValue (ds ++ cs), []) := by
  induction cs generalizing ds with
  | nil => rw [List.append_nil, takeDigits]
  | cons c cs ih =>
    have shift : ds ++ c :: cs = ds ++ [c] ++ cs := by rw [List.append_assoc, List.singleton_append]
    rw [shift] at fits ⊢
    have next := Nat.le_trans (digitsValue_le_append (ds ++ [c]) cs) fits
    have rest := ih fits
    rw [digitsValue_concat] at next rest
    rw [takeDigits, if_pos next, rest]

theorem units_ofInt {n : Nat} (small : n ≤ 2 ^ 53) :
    Format.double.units (.ofInt n : Double).ordinal = n * Format.double.unitsInOne := by
  have finite : (.ofInt n : Double).isFinite = true := Floating.isFinite_ofInt (by omega)
  exact Format.double.units_round (Format.double.exact_of_le small) (of_decide_eq_true finite)

theorem units_powerOfTen : ∀ k < 23,
    Format.double.units (powerOfTen k).ordinal = 10 ^ k * Format.double.unitsInOne := by
  decide +kernel

/-- **A small integer times or by a small power of ten is rounded once**: to what its decimal is. -/
theorem timesPower_ofInt {n : Nat} (small : n ≤ 2 ^ 53) {e : Int} (power : e.natAbs ≤ 22) :
    timesPower (.ofInt n) e = Decimal.round .double ⟨false, n, e⟩ := by
  have units := units_ofInt small
  have count : Decimal.digitCount n ≤ 16 := by
    by_contra many
    have large := Floating.pow_le_of_lt_digitCount (k := 16) (n := n) (by omega) (by omega)
    omega
  have top : topPower = 308 := rfl
  rw [Decimal.round_of_places false (by omega), timesPower]
  by_cases negative : e < 0
  · have none : ((-e).toNat - 1) / topPower = 0 := Nat.div_eq_of_lt (by omega)
    rw [if_pos negative, if_neg (by omega), none, lowered]
    exact congrArg (Floating.mk false) (Floating.ordinal_div units (units_powerOfTen _ (by omega)))
  · have inside : e ≤ topPower := by omega
    rw [if_neg negative, if_pos inside, if_pos (by omega)]
    exact congrArg (Floating.mk false) (Floating.ordinal_mul units (units_powerOfTen _ (by omega)))

namespace Numeral

variable {n : Numeral}

/-- Digits that make an integer of up to 2⁵³ times or by a power of ten of up to 22. -/
structure Short (n : Numeral) : Prop where
  digits : n.decimal.digits ≤ 2 ^ 53
  exponent : n.decimal.exponent.natAbs ≤ 22
  power : ∀ p ∈ n.exponent, digitsValue p.2 ≤ 0x7FFFFFFF

/-- A power of ten that 32 bits hold is added to the places of the digits. -/
theorem magnitude?_eq {power : Option (Bool × List Char)} (fits : ∀ p ∈ power, digitsValue p.2 ≤ 0x7FFFFFFF)
    (significand : Nat) (point : Int) :
    magnitude? significand point power = scaled? significand (powerValue power + point) := by
  cases power with
  | none => rw [magnitude?, powerValue, Int.zero_add]
  | some p =>
    obtain ⟨negative, ds⟩ := p
    have small : digitsValue ds ≤ 0x7FFFFFFF := fits _ rfl
    cases negative <;> simp only [magnitude?, powerValue, small, if_true, Bool.false_eq_true, if_false] <;> congr 1 <;>
      omega

/-- **Few digits are read as the nearest number**, if that is finite. -/
theorem Short.float?_eq (short : n.Short) (finite : (n.decimal.round .double).isFinite = true) :
    n.float? = some (n.decimal.round .double) := by
  have digits : digitsValue (n.whole ++ n.fraction.getD []) ≤ 2 ^ 53 := short.digits
  have word : digitsValue (n.whole ++ n.fraction.getD []) ≤ Text.wordMax := Nat.le_trans digits (by decide)
  have front : takeDigits 0 n.whole = (digitsValue n.whole, []) :=
    @takeDigits_eq [] n.whole (Nat.le_trans (digitsValue_le_append n.whole _) word)
  have point : powerValue n.exponent + (([] : List Char).length -
      ((n.fraction.getD []).length - ([] : List Char).length) : Int) = n.decimal.exponent := by
    simp only [decimal, List.length_nil]
    omega
  have positive : (Decimal.round .double ⟨false, n.decimal.digits, n.decimal.exponent⟩).isFinite = true := finite
  simp only [float?, front, takeDigits_eq word, magnitude?_eq short.power, point]
  change (scaled? n.decimal.digits n.decimal.exponent).map _ = _
  rw [scaled?, timesPower_ofInt short.digits short.exponent, if_pos positive]
  rfl

end Numeral

/-! ## Numbers -/

/-- The digits of a natural number start with a zero only if they are one. -/
theorem eq_zero_of_head?_toDigits (n : Nat) (zero : (Nat.toDigits 10 n).head? = some '0') : n = 0 := by
  induction n using Nat.strongRecOn with
  | ind n ih =>
    rcases Nat.lt_or_ge n 10 with small | large
    · have digits : ∀ n < 10, n.digitChar = '0' → n = 0 := by decide
      rw [Nat.toDigits_of_lt_base small] at zero
      exact digits n small (Option.some.inj zero)
    · rw [Nat.toDigits_of_base_le (by decide) large, List.head?_append_of_ne_nil _ Nat.toDigits_ne_nil] at zero
      have none := ih (n / 10) (by omega) zero
      omega

namespace Numeral

/-- The numeral of an integer. -/
def ofInt (n : Int) : Numeral := ⟨decide (n < 0), Nat.toDigits 10 n.natAbs, none, none⟩

theorem proper_ofInt (n : Int) : (ofInt n).Proper where
  digits := isDigit_toDigits n.natAbs
  nonempty := Nat.toDigits_ne_nil
  first := by
    intro zero
    rw [ofInt, eq_zero_of_head?_toDigits _ zero]
    rfl
  fraction := nofun
  power := nofun

theorem text_ofInt (n : Int) : (ofInt n).text = numberText (.int n) := by
  rw [numberText_eq, text, unsignedText]
  simp [ofInt, fractionText, powerText, isNegative, magnitude]

theorem int?_ofInt {n : Int} (fits : (Number.int n).Representable) : (ofInt n).int? = some n := by
  simp only [Number.Representable] at fits
  simp only [ofInt, int?, digitsValue_toDigits, Text.wordMax, Option.isSome_none, Bool.or_self, Bool.false_eq_true,
    if_false, decide_eq_true_eq]
  grind

/-- A numeral with a point or a power of ten, and its text, which has no sign. -/
structure Spells (n : Numeral) (cs : List Char) : Prop where
  proper : n.Proper
  unsigned : n.negative = false
  text : n.unsignedText = cs
  marked : (n.fraction.isSome || n.exponent.isSome) = true

theorem exists_spells_positional (digits : ∀ c ∈ ds, c.isDigit = true) (nonempty : ds ≠ [])
    (first : ds.head? ≠ some '0') (whole : Int) : ∃ n : Numeral, n.Spells (Floating.positional ds whole) := by
  obtain ⟨front, part, k, shown, pointed⟩ := Floating.exists_positional digits nonempty whole
  refine ⟨⟨false, front, some part, none⟩, ?_, rfl, ?_, rfl⟩
  · constructor
    case digits => exact pointed.frontDigits
    case nonempty => exact pointed.inFront
    case first =>
      intro zero
      rcases pointed.first with single | same
      · exact single
      · exact absurd (same.symm.trans zero) first
    case fraction =>
      rintro ds ⟨⟩
      exact ⟨pointed.inPart, pointed.partDigits⟩
    case power => nofun
  · rw [shown, unsignedText, powerText, List.append_nil]
    rfl

theorem exists_spells_scientific (digits : ∀ c ∈ ds, c.isDigit = true) (nonempty : ds ≠ []) (exponent : Int) :
    ∃ n : Numeral, n.Spells (Floating.scientific ds exponent) := by
  obtain ⟨d, rest, rfl⟩ := List.exists_cons_of_ne_nil nonempty
  have power : ∀ p ∈ some (decide (exponent < 0), Nat.toDigits 10 exponent.natAbs),
      p.2 ≠ [] ∧ ∀ c ∈ p.2, c.isDigit = true := by
    rintro p ⟨⟩
    exact ⟨Nat.toDigits_ne_nil, isDigit_toDigits _⟩
  have front : ∀ c ∈ [d], c.isDigit = true := by simpa using digits d List.mem_cons_self
  have single : [d].head? = some '0' → [d] = ['0'] := by
    rintro ⟨⟩
    rfl
  cases rest with
  | nil =>
    refine ⟨⟨false, [d], none, some (decide (exponent < 0), _)⟩, ⟨front, by simp, single, nofun, power⟩, rfl, ?_, rfl⟩
    simp [unsignedText, fractionText, powerText, Floating.scientific]
  | cons e rest =>
    have part : ∀ c ∈ e :: rest, c.isDigit = true := fun c member => digits c (List.mem_cons_of_mem d member)
    refine ⟨⟨false, [d], some (e :: rest), some (decide (exponent < 0), _)⟩,
      ⟨front, by simp, single, ?_, power⟩, rfl, ?_, rfl⟩
    · rintro ds ⟨⟩
      exact ⟨by simp, part⟩
    · simp [unsignedText, fractionText, powerText, Floating.scientific]

theorem exists_spells_magnitudeText {f : Format} (written : f.Written) (o : Nat) :
    ∃ n : Numeral, n.Spells (Floating.magnitudeText f o) := by
  rw [Floating.magnitudeText]
  split
  · have digits := isDigit_replicate_zero 1
    refine ⟨⟨false, ['0'], some ['0'], none⟩, ⟨digits, by simp, fun _ => rfl, ?_, ?_⟩, rfl, rfl, rfl⟩
    · rintro ds ⟨⟩
      exact ⟨by simp, digits⟩
    · rintro p ⟨⟩
  · next nonzero =>
    have digits := isDigit_toDigits (Floating.shortest f o).digits
    have nonempty : Nat.toDigits 10 (Floating.shortest f o).digits ≠ [] := Nat.toDigits_ne_nil
    have first : (Nat.toDigits 10 (Floating.shortest f o).digits).head? ≠ some '0' := fun zero =>
      Floating.shortest_digits_ne_zero written nonzero (eq_zero_of_head?_toDigits _ zero)
    dsimp only
    split
    · exact exists_spells_positional digits nonempty first _
    · exact exists_spells_scientific digits nonempty _

/-- **Every number that can be represented is written with a proper numeral.** An integer is what the
numeral stands for, another number the one that is nearest to its decimal. -/
theorem exists_numberText (x : Number) (fits : x.Representable) :
    ∃ n : Numeral, n.Proper ∧ n.text = numberText x ∧
      match x with
      | .int i => n.int? = some i
      | .float y => n.int? = none ∧ n.decimal.round .double = y := by
  cases x with
  | int i => exact ⟨ofInt i, proper_ofInt i, text_ofInt i, int?_ofInt fits⟩
  | float x =>
    have finite : x.ordinal < Format.double.infinite := by
      simpa [Number.Representable, Floating.isFinite] using fits
    obtain ⟨n, spells⟩ := exists_spells_magnitudeText Format.written_double x.ordinal
    have read := spells.proper.unsigned?_text
    rw [spells.unsigned, spells.text] at read
    have rounded := Floating.round_unsigned?_magnitudeText Format.bounded_double finite read x.negative
    refine ⟨{ n with negative := x.negative }, ?_, ?_, ?_, rounded⟩
    · exact { spells.proper with }
    · rw [numberText_eq]
      exact congrArg (signed x.negative) spells.text
    · rw [int?, if_pos spells.marked]

end Numeral

/-! ## Numbers that are read back -/

/-- The numeral that a number is written with. -/
def numeralOf? (x : Number) : Option Numeral := (numeral? (numberText x)).map Prod.fst

/-- A number that is read from its text. -/
def ReadBack (x : Number) : Prop := (numeralOf? x).bind Numeral.number? = some x

instance (x : Number) : Decidable (ReadBack x) :=
  inferInstanceAs (Decidable ((numeralOf? x).bind Numeral.number? = some x))

theorem Numeral.Proper.numeralOf?_eq {n : Numeral} {x : Number} (proper : n.Proper) (shown : n.text = numberText x) :
    numeralOf? x = some n := by
  have read := proper.numeral?_text follows_nil
  rw [List.append_nil, shown] at read
  rw [numeralOf?, read]
  rfl

theorem readBack_int {i : Int} (fits : (Number.int i).Representable) : ReadBack (.int i) := by
  have read := (Numeral.proper_ofInt i).numeralOf?_eq (Numeral.text_ofInt i)
  rw [ReadBack, read, Option.bind_some, Numeral.number?, Numeral.int?_ofInt fits]

/-- **A number of few digits is read back.** -/
theorem readBack_of_short {x : Number} (fits : x.Representable) (short : ∀ n ∈ numeralOf? x, n.Short) : ReadBack x := by
  cases x with
  | int i => exact readBack_int fits
  | float y =>
    obtain ⟨n, proper, shown, noInt, rounded⟩ := Numeral.exists_numberText (.float y) fits
    have read := proper.numeralOf?_eq shown
    have few := (short n read).float?_eq (by rw [rounded]; exact fits)
    rw [ReadBack, read, Option.bind_some, Numeral.number?, noInt, few, rounded]
    rfl

end Collate.Json
