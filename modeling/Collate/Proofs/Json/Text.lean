import Collate.Json.Reader
import Collate.Proofs.Floating.Text
import Collate.Proofs.Json.Equality

/-!
# Texts of JSON values tell them apart

A text without blanks says where each of its parts ends: a string ends at its quote, a container at
its bracket, and a number before the first character that no number has. So two values with one
text are one value, whatever they are.
-/

set_option autoImplicit false

namespace Collate.Json

/-! ## Strings -/

section Strings

variable {c : Char} {cs ds r s : List Char}

/-- A character as reading takes it out of a string: as a unit if it stands there as one. -/
def piece (c : Char) : Piece :=
  if c.toNat < 0x20 ∧ c ∉ ['\x08', '\t', '\n', '\x0c', '\r'] then .unit c.toNat else .char c

theorem unit?_hexDigits : ∀ n < 0x20, unit? '0' '0' (hexDigit (n / 16)) (hexDigit (n % 16)) = some n := by
  decide

/-- A character that stands in a string is read as its piece. -/
theorem pieces?_escapeChar (c : Char) (rest : List Char) :
    pieces? (escapeChar c ++ rest) = (pieces? rest).map fun p => (piece c :: p.1, p.2) := by
  by_cases named : c ∈ ['"', '\\', '\x08', '\t', '\n', '\x0c', '\r']
  · simp only [List.mem_cons, List.not_mem_nil, or_false] at named
    rcases named with rfl | rfl | rfl | rfl | rfl | rfl | rfl <;>
      cases read : pieces? rest <;> simp [escapeChar, pieces?, escaped?, piece, read]
  · simp only [List.mem_cons, List.not_mem_nil, or_false, not_or] at named
    by_cases control : c.toNat < 0x20
    · have unit := unit?_hexDigits c.toNat control
      cases read : pieces? rest <;> simp [escapeChar, pieces?, piece, named, control, unit, read]
    · have plain : escapeChar c ++ rest = c :: rest := by simp [escapeChar, named, control]
      rw [plain, pieces?.eq_def]
      cases read : pieces? rest <;> simp_all [piece]

theorem pieces?_escaped (cs r : List Char) :
    pieces? (cs.flatMap escapeChar ++ '"' :: r) = some (cs.map piece, r) := by
  induction cs with
  | nil => simp [pieces?]
  | cons c cs ih =>
    rw [List.flatMap_cons, List.append_assoc, pieces?_escapeChar, ih]
    rfl

/-- A unit too small to pair up stands for a character by itself. -/
theorem characters?_unit {u : Nat} (small : u < 0x20) (ps : List Piece) :
    characters? (.unit u :: ps) = (characters? ps).map (Char.ofNat u :: ·) := by
  have high : ¬ 0xD800 ≤ u := by omega
  have low : ¬ 0xDC00 ≤ u := by omega
  match ps with
  | [] => simp [characters?, high]
  | .char c :: ps => simp [characters?, high]
  | .unit v :: ps => simp [characters?, high, low]

/-- The pieces of a string stand for its characters. -/
theorem characters?_map_piece (cs : List Char) : characters? (cs.map piece) = some cs := by
  induction cs with
  | nil => rfl
  | cons c cs ih =>
    rw [List.map_cons, piece]
    split
    · next control =>
      rw [characters?_unit control.1, ih, Option.map_some, Char.ofNat_toNat]
    · rw [characters?, ih]
      rfl

theorem quote_append_inj {a b : String} (same : quote a ++ r = quote b ++ s) : a = b ∧ r = s := by
  have left := pieces?_escaped a.toList r
  have right := pieces?_escaped b.toList s
  have inner : a.toList.flatMap escapeChar ++ '"' :: r = b.toList.flatMap escapeChar ++ '"' :: s := by
    simpa [quote] using same
  rw [inner, right, Option.some.injEq, Prod.mk.injEq] at left
  have characters := characters?_map_piece a.toList
  rw [← left.1, characters?_map_piece, Option.some.injEq] at characters
  exact ⟨String.toList_inj.1 characters.symm, left.2.symm⟩

end Strings

/-! ## Numbers -/

section Numbers

variable {m n : Number} {cs ds r s : List Char}

/-- A minus sign in front of a text, or none. -/
def signed (negative : Bool) (cs : List Char) : List Char := if negative then '-' :: cs else cs

/-- A text that starts with a digit. -/
def Begins (cs : List Char) : Prop := ∃ d rest, cs = d :: rest ∧ d.isDigit = true

theorem signed_inj {negative negative' : Bool} (begins : Begins cs) (begins' : Begins ds)
    (same : signed negative cs = signed negative' ds) : negative = negative' ∧ cs = ds := by
  have unsigned {cs : List Char} (begins : Begins cs) (rest : List Char) : cs ≠ '-' :: rest := by
    rintro rfl
    obtain ⟨d, rest, shown, digit⟩ := begins
    cases shown
    cases digit
  cases negative <;> cases negative'
  · exact ⟨rfl, same⟩
  · exact absurd same (unsigned begins ds)
  · exact absurd same.symm (unsigned begins' cs)
  · exact ⟨rfl, List.tail_eq_of_cons_eq same⟩

/-- Whether a number is written with a minus sign. -/
def isNegative : Number → Bool
  | .int n => decide (n < 0)
  | .float x => x.negative

/-- The text of a number without its sign. -/
def magnitude : Number → List Char
  | .int n => Nat.toDigits 10 n.natAbs
  | .float x => Floating.magnitudeText .double x.ordinal

theorem numberText_eq (n : Number) : numberText n = signed (isNegative n) (magnitude n) := by
  cases n with
  | int n => simp [numberText, intText, signed, isNegative, magnitude]
  | float x => rfl

theorem begins_magnitude (n : Number) : Begins (magnitude n) := by
  cases n with
  | int n =>
    have digits := isDigit_toDigits n.natAbs
    change Begins (Nat.toDigits 10 n.natAbs)
    cases shown : Nat.toDigits 10 n.natAbs with
    | nil => exact absurd shown Nat.toDigits_ne_nil
    | cons d rest => exact ⟨d, rest, rfl, digits d (by simp [shown])⟩
  | float x => exact (Floating.marked_magnitudeText .double x.ordinal).head

theorem isNumeral_numberText (n : Number) : ∀ c ∈ numberText n, Floating.isNumeral c = true := by
  have magnitudes : ∀ c ∈ magnitude n, Floating.isNumeral c = true := by
    cases n with
    | int n => exact fun c member => Floating.isNumeral_of_isDigit (isDigit_toDigits n.natAbs c member)
    | float x => exact (Floating.marked_magnitudeText .double x.ordinal).chars
  rw [numberText_eq, signed]
  split
  · intro c member
    rcases List.mem_cons.1 member with rfl | member
    · rfl
    · exact magnitudes c member
  · exact magnitudes

theorem numberText_inj (same : numberText m = numberText n) : m = n := by
  have unmarked (k : Int) (x : Double) : Nat.toDigits 10 k.natAbs ≠ Floating.magnitudeText .double x.ordinal := by
    intro same
    obtain ⟨c, member, other⟩ := (Floating.marked_magnitudeText .double x.ordinal).mark
    rw [← same] at member
    rw [isDigit_toDigits _ c member] at other
    cases other
  rw [numberText_eq, numberText_eq] at same
  obtain ⟨signs, same⟩ := signed_inj (begins_magnitude m) (begins_magnitude n) same
  cases m with
  | int k =>
    cases n with
    | int l =>
      have sizes : k.natAbs = l.natAbs := by
        have values := congrArg digitsValue same
        rwa [magnitude, magnitude, digitsValue_toDigits, digitsValue_toDigits] at values
      simp only [isNegative, decide_eq_decide] at signs
      congr 1
      omega
    | float x => exact absurd same (unmarked k x)
  | float x =>
    cases n with
    | int l => exact absurd same.symm (unmarked l x)
    | float y =>
      have ordinals := Floating.magnitudeText_inj Format.written_double same
      obtain ⟨negative, ordinal⟩ := x
      obtain ⟨negative', ordinal'⟩ := y
      cases signs
      cases ordinals
      rfl

/-- A text that does not go on with a number. -/
def Ends (r : List Char) : Prop := ∀ c ∈ r.head?, Floating.isNumeral c = false

theorem ends_nil : Ends [] := by
  simp [Ends]

theorem ends_cons {c : Char} (other : Floating.isNumeral c = false) : Ends (c :: r) := by
  simpa [Ends] using other

theorem numberText_append_inj (rEnds : Ends r) (sEnds : Ends s) (same : numberText m ++ r = numberText n ++ s) :
    m = n ∧ r = s := by
  have front (n : Number) {r : List Char} (ends : Ends r) :
      (numberText n ++ r).takeWhile Floating.isNumeral = numberText n := by
    rw [List.takeWhile_append_of_pos (isNumeral_numberText n)]
    cases r with
    | nil => simp
    | cons c r =>
      have other : Floating.isNumeral c = false := ends c rfl
      simp [other]
  have texts : numberText m = numberText n := by rw [← front m rEnds, same, front n sEnds]
  rw [texts] at same
  exact ⟨numberText_inj texts, List.append_cancel_left same⟩

end Numbers

/-! ## Values -/

/-- The place of the type whose values' texts start with a character. -/
def start? (c : Char) : Option Nat :=
  if c = 'n' then some 0
  else if c = 't' ∨ c = 'f' then some 1
  else if c.isDigit ∨ c = '-' then some 2
  else if c = '"' then some 3
  else if c = '[' then some 4
  else if c = '\x7b' then some 5
  else none

/-- A text starts as those of its value's type do. -/
theorem exists_start (v : Json) : ∃ c rest, text v = c :: rest ∧ start? c = some v.rank := by
  cases v with
  | null => exact ⟨'n', _, rfl, rfl⟩
  | bool b =>
    cases b with
    | true => exact ⟨'t', _, rfl, rfl⟩
    | false => exact ⟨'f', _, rfl, rfl⟩
  | number n =>
    rw [text, numberText_eq, signed]
    split
    · exact ⟨'-', _, rfl, rfl⟩
    · obtain ⟨d, rest, shown, digit⟩ := begins_magnitude n
      refine ⟨d, rest, shown, ?_⟩
      have letters : d ≠ 'n' ∧ d ≠ 't' ∧ d ≠ 'f' := by
        refine ⟨?_, ?_, ?_⟩ <;> rintro rfl <;> cases digit
      simp [start?, letters, digit, rank]
  | string s => exact ⟨'"', _, rfl, rfl⟩
  | array items => cases items <;> exact ⟨'[', _, rfl, rfl⟩
  | object fields => cases fields <;> exact ⟨'\x7b', _, rfl, rfl⟩

/-- A text in front of another that no value's text starts like is none. -/
theorem text_append_ne {c : Char} (v : Json) (none : start? c = none) (r s : List Char) :
    c :: s ≠ text v ++ r := by
  obtain ⟨d, rest, shown, start⟩ := exists_start v
  rw [shown]
  intro same
  cases same
  rw [none] at start
  cases start

section Containers

variable {a b : Json} {r s : List Char} {as bs : List Json} {fs gs : List (String × Json)}

/-- In front of texts that no number goes on with, texts of two values are equal only if the values
are, and the rest is then the same. -/
def Separate (a b : Json) : Prop :=
  ∀ r s, Ends r → Ends s → text a ++ r = text b ++ s → a = b ∧ r = s

theorem ends_textItems (as : List Json) (r : List Char) : Ends (textItems as ++ r) := by
  cases as <;> exact ends_cons rfl

theorem ends_textFields (fs : List (String × Json)) (r : List Char) : Ends (textFields fs ++ r) := by
  cases fs <;> exact ends_cons rfl

theorem textItems_append_inj (items : ∀ a ∈ as, ∀ b ∈ bs, Separate a b)
    (same : textItems as ++ r = textItems bs ++ s) : as = bs ∧ r = s := by
  induction as generalizing bs with
  | nil =>
    cases bs with
    | nil => exact ⟨rfl, List.tail_eq_of_cons_eq same⟩
    | cons b bs => cases same
  | cons a as ih =>
    cases bs with
    | nil => cases same
    | cons b bs =>
      simp only [textItems, List.cons_append, List.append_assoc, List.cons.injEq, true_and] at same
      obtain ⟨first, rest⟩ := items a List.mem_cons_self b List.mem_cons_self _ _ (ends_textItems as r)
        (ends_textItems bs s) same
      have later : ∀ x ∈ as, ∀ y ∈ bs, Separate x y :=
        fun x xIn y yIn => items x (List.mem_cons_of_mem _ xIn) y (List.mem_cons_of_mem _ yIn)
      obtain ⟨others, behind⟩ := ih later rest
      exact ⟨by rw [first, others], behind⟩

/-- A name and a value in front of further fields. -/
theorem field_append_inj {f g : String × Json} (value : Separate f.2 g.2) {fs gs : List (String × Json)}
    (same : quote f.1 ++ ':' :: (text f.2 ++ (textFields fs ++ r)) =
      quote g.1 ++ ':' :: (text g.2 ++ (textFields gs ++ s))) :
    f = g ∧ textFields fs ++ r = textFields gs ++ s := by
  obtain ⟨named, inner⟩ := quote_append_inj same
  obtain ⟨valued, rest⟩ := value _ _ (ends_textFields fs r) (ends_textFields gs s) (List.cons.inj inner).2
  exact ⟨Prod.ext named valued, rest⟩

theorem textFields_append_inj (values : ∀ f ∈ fs, ∀ g ∈ gs, Separate f.2 g.2)
    (same : textFields fs ++ r = textFields gs ++ s) : fs = gs ∧ r = s := by
  induction fs generalizing gs with
  | nil =>
    cases gs with
    | nil => exact ⟨rfl, List.tail_eq_of_cons_eq same⟩
    | cons g gs => cases same
  | cons f fs ih =>
    cases gs with
    | nil => cases same
    | cons g gs =>
      simp only [textFields, List.cons_append, List.append_assoc, List.cons.injEq, true_and] at same
      obtain ⟨first, rest⟩ := field_append_inj (values f List.mem_cons_self g List.mem_cons_self) same
      have later : ∀ x ∈ fs, ∀ y ∈ gs, Separate x.2 y.2 :=
        fun x xIn y yIn => values x (List.mem_cons_of_mem _ xIn) y (List.mem_cons_of_mem _ yIn)
      obtain ⟨others, behind⟩ := ih later rest
      exact ⟨by rw [first, others], behind⟩

/-- Arrays are told apart if their items are: behind its first item an array goes on as one that
starts with a comma. -/
theorem separate_array (items : ∀ a ∈ as, ∀ b ∈ bs, Separate a b) : Separate (.array as) (.array bs) := by
  intro r s _ _ same
  cases as with
  | nil =>
    cases bs with
    | nil => exact ⟨rfl, List.append_cancel_left same⟩
    | cons b bs =>
      simp only [text, List.cons_append, List.append_assoc, List.cons.injEq, true_and] at same
      exact absurd same (text_append_ne b (by decide) _ _)
  | cons a as =>
    cases bs with
    | nil =>
      simp only [text, List.cons_append, List.append_assoc, List.cons.injEq, true_and] at same
      exact absurd same.symm (text_append_ne a (by decide) _ _)
    | cons b bs =>
      have lists : textItems (a :: as) ++ r = textItems (b :: bs) ++ s :=
        congrArg (',' :: ·) (List.tail_eq_of_cons_eq same)
      obtain ⟨whole, rest⟩ := textItems_append_inj items lists
      rw [whole]
      exact ⟨rfl, rest⟩

/-- So are objects if the values of their fields are. -/
theorem separate_object (values : ∀ f ∈ fs, ∀ g ∈ gs, Separate f.2 g.2) :
    Separate (.object fs) (.object gs) := by
  intro r s _ _ same
  cases fs with
  | nil =>
    cases gs with
    | nil => exact ⟨rfl, List.append_cancel_left same⟩
    | cons g gs => cases same
  | cons f fs =>
    cases gs with
    | nil => cases same
    | cons g gs =>
      have lists : textFields (f :: fs) ++ r = textFields (g :: gs) ++ s :=
        congrArg (',' :: ·) (List.tail_eq_of_cons_eq same)
      obtain ⟨whole, rest⟩ := textFields_append_inj values lists
      rw [whole]
      exact ⟨rfl, rest⟩

/-- **Texts tell values apart**, also in front of other texts. -/
theorem separate (a b : Json) : Separate a b := by
  induction a, b using sideBySide with
  | apart a b ranks =>
    intro r s _ _ same
    obtain ⟨c, rest, shown, start⟩ := exists_start a
    obtain ⟨d, rest', shown', start'⟩ := exists_start b
    rw [shown, shown'] at same
    obtain rfl : c = d := List.head_eq_of_cons_eq same
    rw [start, Option.some.injEq] at start'
    exact absurd start' ranks
  | null =>
    intro r s _ _ same
    exact ⟨rfl, List.append_cancel_left same⟩
  | bool x y =>
    intro r s _ _ same
    cases x <;> cases y
    · exact ⟨rfl, List.append_cancel_left same⟩
    · cases same
    · cases same
    · exact ⟨rfl, List.append_cancel_left same⟩
  | number m n =>
    intro r s rEnds sEnds same
    obtain ⟨rfl, rest⟩ := numberText_append_inj rEnds sEnds same
    exact ⟨rfl, rest⟩
  | string x y =>
    intro r s _ _ same
    obtain ⟨rfl, rest⟩ := quote_append_inj same
    exact ⟨rfl, rest⟩
  | array as bs ih => exact separate_array ih
  | object fs gs ih => exact separate_object ih

/-- Values with one text are one value. -/
theorem text_inj (same : text a = text b) : a = b := by
  have separate := separate a b [] [] ends_nil ends_nil
  rw [List.append_nil, List.append_nil] at separate
  exact (separate same).1

end Containers

end Collate.Json
