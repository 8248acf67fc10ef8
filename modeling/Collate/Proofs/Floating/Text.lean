import Collate.Floating.Text
import Collate.Proofs.Floating.Shortest

/-!
# Texts of floating-point numbers tell them apart

A text with a point or a power of ten reads as the decimal whose digits it shows. Read so, the
text of a number has the value of the number's shortest digits, which lies in the number's
interval. Two numbers with one text are therefore one number.
-/

set_option autoImplicit false

namespace Collate

/-! ## Digits -/

section Digits

variable {ds rest : List Char}

/-- A text that does not go on with a digit. -/
def Stops (rest : List Char) : Prop := ∀ c ∈ rest.head?, c.isDigit = false

theorem stops_nil : Stops [] := by
  simp [Stops]

theorem stops_cons {c : Char} (other : c.isDigit = false) : Stops (c :: rest) := by
  simpa [Stops] using other

/-- A run of digits is taken off the front of a text as far as it goes. -/
theorem spanDigits_append (digits : ∀ c ∈ ds, c.isDigit = true) (stops : Stops rest) :
    spanDigits (ds ++ rest) = (ds, rest) := by
  rw [spanDigits, List.takeWhile_append_of_pos digits, List.dropWhile_append_of_pos digits]
  cases rest with
  | nil => simp
  | cons c rest =>
    have other : c.isDigit = false := stops c rfl
    simp [other]

theorem digitsValue_eq (cs : List Char) : digitsValue cs = Nat.ofDigitChars 10 cs 0 := by
  unfold digitsValue Nat.ofDigitChars
  congr 1
  funext n c
  rw [Nat.mul_comm]
  rfl

theorem digitsValue_toDigits (n : Nat) : digitsValue (Nat.toDigits 10 n) = n := by
  rw [digitsValue_eq]
  exact Nat.ofDigitChars_toDigits (by decide) (by decide)

theorem isDigit_toDigits (n : Nat) : ∀ c ∈ Nat.toDigits 10 n, c.isDigit = true :=
  fun _ member => Nat.isDigit_of_mem_toDigits (by decide) (by decide) member

/-- Zeros in front of digits do not count. -/
theorem digitsValue_zeros_append (k : Nat) (cs : List Char) :
    digitsValue (List.replicate k '0' ++ cs) = digitsValue cs := by
  induction k with
  | zero => rfl
  | succ k ih =>
    rw [List.replicate_succ, List.cons_append, digitsValue, List.foldl_cons]
    exact ih

/-- Zeros behind digits are as many powers of ten. -/
theorem digitsValue_append_zeros (cs : List Char) (k : Nat) :
    digitsValue (cs ++ List.replicate k '0') = digitsValue cs * 10 ^ k := by
  induction k with
  | zero => simp
  | succ k ih =>
    rw [digitsValue] at ih ⊢
    rw [List.replicate_succ', ← List.append_assoc, List.foldl_append, ih, Nat.pow_succ, ← Nat.mul_assoc]
    rfl

theorem isDigit_replicate_zero (k : Nat) : ∀ c ∈ List.replicate k '0', c.isDigit = true := by
  intro c member
  rw [List.eq_of_mem_replicate member]
  rfl

end Digits

namespace Decimal

variable {whole part tail : List Char}

/-- Digits with a point between them read as the digits without it. -/
theorem unsigned?_point (negative : Bool) (wholeDigits : ∀ c ∈ whole, c.isDigit = true)
    (partDigits : ∀ c ∈ part, c.isDigit = true) (nonempty : whole ≠ []) (stops : Stops tail) :
    unsigned? negative (whole ++ '.' :: (part ++ tail)) =
      (exponent? tail).map fun e => ⟨negative, digitsValue (whole ++ part), e - part.length⟩ := by
  have point : Stops ('.' :: (part ++ tail)) := stops_cons rfl
  have front := spanDigits_append wholeDigits point
  simp [unsigned?, front, spanDigits_append partDigits stops, nonempty]

/-- Digits that no point follows read as they are. -/
theorem unsigned?_whole (negative : Bool) (wholeDigits : ∀ c ∈ whole, c.isDigit = true) (nonempty : whole ≠ []) (stops : Stops tail)
    (noPoint : tail.head? ≠ some '.') :
    unsigned? negative (whole ++ tail) = (exponent? tail).map fun e => ⟨negative, digitsValue whole, e⟩ := by
  have front := spanDigits_append wholeDigits stops
  cases tail with
  | nil => simp_all [unsigned?]
  | cons c tail =>
    simp only [unsigned?, front]
    split
    · simp_all
    · simp [nonempty]

end Decimal

namespace Floating

variable {ds : List Char}

/-- What stands in front of a point and behind it, where digits are shown with the point `whole` places
behind their start: the digits with zeros in front, or with `k` zeros behind. -/
structure Pointed (ds : List Char) (whole : Int) (front part : List Char) (k : Nat) : Prop where
  frontDigits : ∀ c ∈ front, c.isDigit = true
  partDigits : ∀ c ∈ part, c.isDigit = true
  inFront : front ≠ []
  inPart : part ≠ []
  first : front = ['0'] ∨ front.head? = ds.head?
  value : digitsValue (front ++ part) = digitsValue ds * 10 ^ k
  places : (-part.length : Int) = whole - ds.length - k
  zeros : k = 0 ∨ part.length = 1

/-- A positional text shows its digits with zeros in front, or with zeros behind them up to one that
stands behind the point. -/
theorem exists_positional (digits : ∀ c ∈ ds, c.isDigit = true) (nonempty : ds ≠ []) (whole : Int) :
    ∃ (front part : List Char) (k : Nat), positional ds whole = front ++ '.' :: part ∧ Pointed ds whole front part k := by
  unfold positional
  split
  · next small =>
    refine ⟨List.replicate 1 '0', List.replicate (-whole).toNat '0' ++ ds, 0, rfl, ?_⟩
    constructor
    case frontDigits => exact isDigit_replicate_zero 1
    case partDigits => exact List.forall_mem_append.2 ⟨isDigit_replicate_zero _, digits⟩
    case inFront => simp
    case inPart => simp [nonempty]
    case first => exact Or.inl rfl
    case value => rw [digitsValue_zeros_append 1, digitsValue_zeros_append, Nat.pow_zero, Nat.mul_one]
    case places =>
      simp
      omega
    case zeros => exact Or.inl rfl
  · next large =>
    dsimp only
    split
    · next short =>
      refine ⟨ds ++ List.replicate (whole.toNat - ds.length) '0', List.replicate 1 '0',
        whole.toNat - ds.length + 1, rfl, ?_⟩
      constructor
      case frontDigits => exact List.forall_mem_append.2 ⟨digits, isDigit_replicate_zero _⟩
      case partDigits => exact isDigit_replicate_zero 1
      case inFront => simp [nonempty]
      case inPart => simp
      case first =>
        cases ds with
        | nil => exact absurd rfl nonempty
        | cons d rest => exact Or.inr rfl
      case value => rw [List.append_assoc, List.replicate_append_replicate, digitsValue_append_zeros]
      case places =>
        simp
        omega
      case zeros => exact Or.inr rfl
    · next long =>
      refine ⟨ds.take whole.toNat, ds.drop whole.toNat, 0, rfl, ?_⟩
      constructor
      case frontDigits => exact fun c member => digits c (List.mem_of_mem_take member)
      case partDigits => exact fun c member => digits c (List.mem_of_mem_drop member)
      case inFront =>
        simp [nonempty]
        omega
      case inPart =>
        simp
        omega
      case first => exact Or.inr (by rw [List.head?_take, if_neg (by omega)])
      case value => rw [List.take_append_drop, Nat.pow_zero, Nat.mul_one]
      case places =>
        simp
        omega
      case zeros => exact Or.inl rfl

/-- A positional text reads as its digits, or as they are with such zeros behind. -/
theorem unsigned?_positional (digits : ∀ c ∈ ds, c.isDigit = true) (nonempty : ds ≠ []) (whole : Int) :
    ∃ k : Nat, (k = 0 ∨ whole - ds.length - k = -1) ∧ Decimal.unsigned? false (positional ds whole) =
      some ⟨false, digitsValue ds * 10 ^ k, whole - ds.length - k⟩ := by
  obtain ⟨front, part, k, shown, pointed⟩ := exists_positional digits nonempty whole
  have zeros := pointed.zeros
  have places := pointed.places
  refine ⟨k, by omega, ?_⟩
  have read := Decimal.unsigned?_point false pointed.frontDigits pointed.partDigits pointed.inFront stops_nil
  rw [List.append_nil, pointed.value] at read
  rw [shown, read, ← places]
  simp [exponent?]

/-- A power of ten is read as it is written, with a sign and digits. -/
theorem exponent?_signed (negative : Bool) (digits : ∀ c ∈ ds, c.isDigit = true) (nonempty : ds ≠ []) :
    exponent? ('e' :: (if negative then '-' else '+') :: ds) =
      some (if negative then -(digitsValue ds : Int) else digitsValue ds) := by
  have span := spanDigits_append digits stops_nil
  rw [List.append_nil] at span
  cases ds with
  | nil => exact absurd rfl nonempty
  | cons d rest => cases negative <;> simp [exponent?, takeSign, span]

theorem exponent?_power (exponent : Int) :
    exponent? ('e' :: (if exponent < 0 then '-' else '+') :: Nat.toDigits 10 exponent.natAbs) = some exponent := by
  have read := exponent?_signed (decide (exponent < 0)) (isDigit_toDigits exponent.natAbs) Nat.toDigits_ne_nil
  simp only [decide_eq_true_eq, digitsValue_toDigits] at read
  rw [read]
  split <;> congr 1 <;> omega

/-- A scientific text reads as its digits. -/
theorem unsigned?_scientific (digits : ∀ c ∈ ds, c.isDigit = true) (nonempty : ds ≠ []) (exponent : Int) :
    Decimal.unsigned? false (scientific ds exponent) =
      some ⟨false, digitsValue ds, exponent + 1 - ds.length⟩ := by
  have power := exponent?_power exponent
  have stops : Stops ('e' :: (if exponent < 0 then '-' else '+') :: Nat.toDigits 10 exponent.natAbs) :=
    stops_cons rfl
  cases ds with
  | nil => exact absurd rfl nonempty
  | cons d rest =>
    have front : ∀ c ∈ [d], c.isDigit = true := by simpa using digits d List.mem_cons_self
    cases rest with
    | nil =>
      have read := Decimal.unsigned?_whole false front (by simp) stops (by simp)
      refine read.trans ?_
      rw [power]
      simp
    | cons e rest =>
      have part : ∀ c ∈ e :: rest, c.isDigit = true := fun c member => digits c (List.mem_cons_of_mem d member)
      have read := Decimal.unsigned?_point false front part (by simp) stops
      have places : exponent - ((e :: rest).length : Int) = exponent + 1 - (d :: e :: rest).length := by
        simp only [List.length_cons]
        omega
      refine read.trans ?_
      rw [power, Option.map_some, places]
      rfl

/-! ## Numbers -/

variable {f : Format} {o o' : Nat}

theorem scaled_shift {n k : Nat} {e : Int} (fine : 0 ≤ e - k + places) :
    scaled ⟨n * 10 ^ k, e - k⟩ = scaled ⟨n, e⟩ := by
  have power : (e + places).toNat = k + (e - k + places).toNat := by omega
  rw [scaled, scaled, power, Nat.pow_add, Nat.mul_assoc]

/-- **The text of a number reads as a decimal in the number's interval.** -/
theorem exists_unsigned?_magnitudeText (written : f.Written) (o : Nat) :
    ∃ d : Digits, Decimal.unsigned? false (magnitudeText f o) = some ⟨false, d.digits, d.exponent⟩ ∧
      0 ≤ d.exponent + places ∧ ((interval f o).stretch (10 ^ places)).holds (4 * f.unitsInOne * scaled d) = true := by
  by_cases zero : o = 0
  · refine ⟨⟨0, -1⟩, ?_, by decide, ?_⟩
    · rw [zero]
      rfl
    · rw [scaled, Nat.zero_mul, Nat.mul_zero, zero]
      exact holds_zero f _
  · obtain ⟨fine, holds⟩ := shortest_holds written zero
    have digits := isDigit_toDigits (shortest f o).digits
    have value := digitsValue_toDigits (shortest f o).digits
    have nonempty : Nat.toDigits 10 (shortest f o).digits ≠ [] := Nat.toDigits_ne_nil
    rw [magnitudeText, if_neg zero]
    dsimp only
    split
    · obtain ⟨k, small, read⟩ := unsigned?_positional digits nonempty
        ((Nat.toDigits 10 (shortest f o).digits).length + (shortest f o).exponent)
      have power : ((Nat.toDigits 10 (shortest f o).digits).length + (shortest f o).exponent : Int) -
          (Nat.toDigits 10 (shortest f o).digits).length = (shortest f o).exponent := by omega
      rw [power] at small read
      rw [value] at read
      have kept : 0 < places := by decide
      have fine' : 0 ≤ (shortest f o).exponent - k + places := by omega
      refine ⟨⟨_, _⟩, read, fine', ?_⟩
      have same : scaled ⟨(shortest f o).digits * 10 ^ k, (shortest f o).exponent - k⟩ = scaled (shortest f o) :=
        scaled_shift fine'
      rwa [same]
    · have read := unsigned?_scientific digits nonempty
        ((Nat.toDigits 10 (shortest f o).digits).length + (shortest f o).exponent - 1)
      have power : ((Nat.toDigits 10 (shortest f o).digits).length + (shortest f o).exponent - 1 : Int) + 1 -
          (Nat.toDigits 10 (shortest f o).digits).length = (shortest f o).exponent := by omega
      rw [power, value] at read
      exact ⟨shortest f o, read, fine, holds⟩

theorem magnitudeText_inj (written : f.Written) (same : magnitudeText f o = magnitudeText f o') : o = o' := by
  obtain ⟨d, read, -, holds⟩ := exists_unsigned?_magnitudeText written o
  obtain ⟨d', read', -, holds'⟩ := exists_unsigned?_magnitudeText written o'
  rw [same, read', Option.some.injEq, Decimal.mk.injEq] at read
  have one : d' = d := by
    cases d
    cases d'
    simpa using read.2
  rw [one] at holds'
  exact eq_of_holds written.fraction (Nat.pow_pos (by decide)) holds holds'

/-! ## Characters -/

/-- A character of a number's text. -/
def isNumeral (c : Char) : Bool := c.isDigit || c = '.' || c = 'e' || c = '+' || c = '-'

theorem isNumeral_of_isDigit {c : Char} (digit : c.isDigit = true) : isNumeral c = true := by
  simp [isNumeral, digit]

/-- The text of a number that is no integer's: it starts with a digit and has a mark that is none. -/
structure Marked (cs : List Char) : Prop where
  head : ∃ d rest, cs = d :: rest ∧ d.isDigit = true
  chars : ∀ c ∈ cs, isNumeral c = true
  mark : ∃ c ∈ cs, c.isDigit = false

/-- A mark between digits. -/
theorem marked_append {front back : List Char} {mark : Char} (digits : ∀ c ∈ front, c.isDigit = true)
    (nonempty : front ≠ []) (numeral : isNumeral mark = true) (other : mark.isDigit = false)
    (chars : ∀ c ∈ back, isNumeral c = true) : Marked (front ++ mark :: back) where
  head := by
    cases front with
    | nil => exact absurd rfl nonempty
    | cons d front => exact ⟨d, front ++ mark :: back, rfl, digits d List.mem_cons_self⟩
  chars := by
    intro c member
    rcases List.mem_append.1 member with digit | rest
    · exact isNumeral_of_isDigit (digits c digit)
    · rcases List.mem_cons.1 rest with rfl | later
      · exact numeral
      · exact chars c later
  mark := ⟨mark, by simp, other⟩

theorem marked_positional (digits : ∀ c ∈ ds, c.isDigit = true) (nonempty : ds ≠ []) (whole : Int) :
    Marked (positional ds whole) := by
  obtain ⟨front, part, k, shown, pointed⟩ := exists_positional digits nonempty whole
  rw [shown]
  exact marked_append pointed.frontDigits pointed.inFront rfl rfl fun c member =>
    isNumeral_of_isDigit (pointed.partDigits c member)

theorem marked_scientific (digits : ∀ c ∈ ds, c.isDigit = true) (nonempty : ds ≠ []) (exponent : Int) :
    Marked (scientific ds exponent) := by
  have power : ∀ c ∈ (if exponent < 0 then '-' else '+') :: Nat.toDigits 10 exponent.natAbs, isNumeral c = true := by
    intro c member
    rcases List.mem_cons.1 member with rfl | digit
    · split <;> rfl
    · exact isNumeral_of_isDigit (isDigit_toDigits _ c digit)
  cases ds with
  | nil => exact absurd rfl nonempty
  | cons d rest =>
    have front : ∀ c ∈ [d], c.isDigit = true := by simpa using digits d List.mem_cons_self
    cases rest with
    | nil => exact marked_append front (by simp) rfl rfl power
    | cons e rest =>
      change Marked ([d] ++ '.' :: ((e :: rest) ++ 'e' :: _))
      refine marked_append front (by simp) rfl rfl ?_
      intro c member
      rcases List.mem_append.1 member with digit | last
      · exact isNumeral_of_isDigit (digits c (List.mem_cons_of_mem d digit))
      · rcases List.mem_cons.1 last with rfl | last
        · rfl
        · exact power c last

theorem marked_magnitudeText (f : Format) (o : Nat) : Marked (magnitudeText f o) := by
  have digits := isDigit_toDigits (shortest f o).digits
  have nonempty : Nat.toDigits 10 (shortest f o).digits ≠ [] := Nat.toDigits_ne_nil
  unfold magnitudeText
  split
  · exact marked_append (isDigit_replicate_zero 1) (by simp) rfl rfl (by simp [isNumeral])
  · dsimp only
    split
    · exact marked_positional digits nonempty _
    · exact marked_scientific digits nonempty _

end Floating

end Collate
