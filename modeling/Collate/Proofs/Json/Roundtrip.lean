import Collate.Json.Printer
import Collate.Proofs.Json.Numeral
import Collate.Proofs.Json.Reading
import Collate.Proofs.Text.Blank

/-!
# Reading a value's text gives the value

A text without blanks is taken apart into one literal, also in front of what may stand behind an item
or a field, and the literal stands for the value wherever containers may nest as deep as in it. So a
well-formed value of numbers that are read back, which nests within the limit, is read back from its
text (`Legible`). The text has no line break in it and does not start or end with a blank.
-/

set_option autoImplicit false

namespace Collate.Json

/-! ## Nesting -/

mutual
/-- How deep containers nest in a value. -/
def depth : Json → Nat
  | .array items => depthItems items + 1
  | .object fields => depthFields fields + 1
  | _ => 0
/-- The largest `depth` of some values. -/
def depthItems : List Json → Nat
  | [] => 0
  | item :: rest => max (depth item) (depthItems rest)
/-- The largest `depth` of the values of some fields. -/
def depthFields : List (String × Json) → Nat
  | [] => 0
  | (_, value) :: rest => max (depth value) (depthFields rest)
end

section Nesting

variable {room : Nat} {items : List Json} {fields : List (String × Json)}

theorem depth_array_le_iff : (Json.array items).depth ≤ room + 1 ↔ ∀ item ∈ items, item.depth ≤ room := by
  rw [depth, Nat.add_le_add_iff_right]
  induction items with
  | nil => simp [depthItems]
  | cons item rest ih => rw [depthItems, Nat.max_le, List.forall_mem_cons, ih]

theorem depth_object_le_iff : (Json.object fields).depth ≤ room + 1 ↔ ∀ field ∈ fields, field.2.depth ≤ room := by
  rw [depth, Nat.add_le_add_iff_right]
  induction fields with
  | nil => simp [depthFields]
  | cons field rest ih =>
    obtain ⟨name, value⟩ := field
    rw [depthFields, Nat.max_le, List.forall_mem_cons, ih]

end Nesting

/-! ## Taking texts apart -/

section Blanks

variable {c : Char}

theorem skipSpace_cons (other : isSpace c = false) (cs : List Char) : skipSpace (c :: cs) = c :: cs := by
  simp [skipSpace, other]

theorem isSpace_of_start {k : Nat} (start : start? c = some k) : isSpace c = false := by
  cases space : isSpace c with
  | false => rfl
  | true =>
    simp only [isSpace, Bool.or_eq_true, decide_eq_true_eq] at space
    rcases space with ((rfl | rfl) | rfl) | rfl <;> cases start

theorem skipSpace_text (v : Json) (r : List Char) : skipSpace (text v ++ r) = text v ++ r := by
  obtain ⟨c, rest, shown, start⟩ := exists_start v
  rw [shown, List.cons_append, skipSpace_cons (isSpace_of_start start)]

end Blanks

theorem length_text_pos (v : Json) : 0 < (text v).length := by
  obtain ⟨c, rest, shown, -⟩ := exists_start v
  rw [shown]
  exact Nat.succ_pos _

namespace Literal

variable {l : Literal} {v : Json}

/-- A literal is what a value's text is taken apart into, and it stands for the value. -/
structure Represents (l : Literal) (v : Json) : Prop where
  taken : ∀ fuel r, (text v).length ≤ fuel → Follows r → readValue fuel (text v ++ r) = some (l, r)
  meant : ∀ room, v.depth ≤ room → l.valueIn? room = some v

/-- A text is not empty, so there is fuel for one step. -/
theorem represents_of_step
    (taken : ∀ fuel r, (text v).length ≤ fuel + 1 → Follows r → readValue (fuel + 1) (text v ++ r) = some (l, r))
    (meant : ∀ room, v.depth ≤ room → l.valueIn? room = some v) : l.Represents v where
  taken := by
    intro fuel r enough follows
    cases fuel with
    | zero => exact absurd (length_text_pos v) (by omega)
    | succ fuel => exact taken fuel r enough follows
  meant := meant

end Literal

/-! ### Scalars -/

section Scalars

variable {fuel : Nat} {d : Char} {rest : List Char}

theorem represents_null : Literal.null.Represents .null :=
  Literal.represents_of_step (fun _ _ _ _ => rfl) fun _ _ => rfl

theorem represents_bool (b : Bool) : (Literal.bool b).Represents (.bool b) := by
  apply Literal.represents_of_step
  · intro fuel r _ _
    cases b <;> rfl
  · intro room _
    rfl

/-- What starts as a number is taken apart as one. -/
theorem readValue_numeral (start : start? d = some 2) :
    readValue (fuel + 1) (d :: rest) = (numeral? (d :: rest)).map fun (n, rest) => (.number n, rest) := by
  have space := skipSpace_cons (isSpace_of_start start) rest
  have other : d ≠ 'n' ∧ d ≠ 't' ∧ d ≠ 'f' ∧ d ≠ '"' ∧ d ≠ '[' ∧ d ≠ '\x7b' := by
    refine ⟨?_, ?_, ?_, ?_, ?_, ?_⟩ <;> rintro rfl <;> cases start
  simp [readValue, space, other]

theorem exists_literal_number {x : Number} (fits : x.Representable) (back : ReadBack x) :
    ∃ l : Literal, l.Represents (.number x) := by
  obtain ⟨n, proper, shown, -⟩ := Numeral.exists_numberText x fits
  have value : n.number? = some x := by
    rwa [ReadBack, proper.numeralOf?_eq shown] at back
  refine ⟨.number n, Literal.represents_of_step ?_ ?_⟩
  · intro fuel r _ follows
    obtain ⟨c, rest, first, start⟩ := exists_start (.number x)
    have read := proper.numeral?_text follows
    rw [shown, ← text, first, List.cons_append] at read
    rw [first, List.cons_append, readValue_numeral start, read]
    rfl
  · intro room _
    rw [Literal.valueIn?, value]
    rfl

theorem string?_map_piece (s : String) : string? (s.toList.map piece) = some s := by
  simp [string?, characters?_map_piece]

theorem represents_string (s : String) : (Literal.string (s.toList.map piece)).Represents (.string s) := by
  apply Literal.represents_of_step
  · intro fuel r _ _
    have pieces := pieces?_escaped s.toList r
    simp [readValue, text, quote, skipSpace, isSpace, pieces]
  · intro room _
    rw [Literal.valueIn?, string?_map_piece]
    rfl

end Scalars

/-! ### Containers -/

theorem follows_textItems (items : List Json) (r : List Char) : Follows (textItems items ++ r) := by
  cases items <;> simp [Follows, textItems]

theorem follows_textFields (fields : List (String × Json)) (r : List Char) : Follows (textFields fields ++ r) := by
  cases fields <;> simp [Follows, textFields]

/-- Some literals are what the text of items behind an array's bracket is taken apart into. -/
structure RepresentsItems (ls : List Literal) (item : Json) (rest : List Json) : Prop where
  taken : ∀ fuel r, (text item ++ textItems rest).length ≤ fuel →
    readItems fuel (text item ++ (textItems rest ++ r)) = some (ls, r)
  meant : ∀ room, (∀ i ∈ item :: rest, i.depth ≤ room) → Literal.itemsIn? room ls = some (item :: rest)

theorem exists_items (item : Json) (rest : List Json) (each : ∀ i ∈ item :: rest, ∃ l : Literal, l.Represents i) :
    ∃ ls, RepresentsItems ls item rest := by
  induction rest generalizing item with
  | nil =>
    obtain ⟨l, represents⟩ := each item List.mem_cons_self
    refine ⟨[l], ?_, ?_⟩
    · intro fuel r enough
      simp only [textItems, List.length_append, List.length_singleton] at enough
      obtain ⟨fuel, rfl⟩ : ∃ k, fuel = k + 1 := ⟨fuel - 1, by omega⟩
      rw [readItems, represents.taken fuel _ (by omega) (follows_textItems [] r)]
      rfl
    · intro room nested
      rw [Literal.itemsIn?, represents.meant room (nested item List.mem_cons_self)]
      rfl
  | cons next rest ih =>
    obtain ⟨l, represents⟩ := each item List.mem_cons_self
    obtain ⟨ls, others⟩ := ih next fun i member => each i (List.mem_cons_of_mem _ member)
    refine ⟨l :: ls, ?_, ?_⟩
    · intro fuel r enough
      simp only [textItems, List.length_append, List.length_cons] at enough
      obtain ⟨fuel, rfl⟩ : ∃ k, fuel = k + 1 := ⟨fuel - 1, by omega⟩
      have read := others.taken fuel r (by simp only [List.length_append]; omega)
      rw [readItems, represents.taken fuel _ (by omega) (follows_textItems _ r), textItems, List.cons_append,
        List.append_assoc]
      simp only [skipSpace_cons (show isSpace ',' = false from rfl), read, Option.map_some]
    · intro room nested
      rw [Literal.itemsIn?, represents.meant room (nested item List.mem_cons_self),
        others.meant room fun i member => nested i (List.mem_cons_of_mem _ member)]

/-- What does not start with a bracket is taken apart as items. -/
theorem readValue_items {fuel : Nat} (item : Json) (rest : List Char) :
    readValue (fuel + 1) ('[' :: (text item ++ rest)) =
      (readItems fuel (text item ++ rest)).map fun (items, rest) => (.array items, rest) := by
  have space := skipSpace_text item rest
  obtain ⟨c, more, shown, start⟩ := exists_start item
  have other : c ≠ ']' := by
    rintro rfl
    cases start
  rw [shown, List.cons_append] at space ⊢
  simp [readValue, skipSpace_cons (show isSpace '[' = false from rfl), space, other]

theorem exists_literal_array {items : List Json} (each : ∀ item ∈ items, ∃ l : Literal, l.Represents item) :
    ∃ l : Literal, l.Represents (.array items) := by
  cases items with
  | nil =>
    refine ⟨.array [], Literal.represents_of_step (fun _ _ _ _ => rfl) ?_⟩
    intro room nested
    cases room with
    | zero => exact absurd nested (Nat.not_succ_le_zero _)
    | succ room => rfl
  | cons item rest =>
    obtain ⟨ls, represents⟩ := exists_items item rest each
    refine ⟨.array ls, Literal.represents_of_step ?_ ?_⟩
    · intro fuel r enough _
      have read := represents.taken fuel r (by simpa [text] using enough)
      rw [text, List.cons_append, List.append_assoc, readValue_items, read]
      rfl
    · intro room nested
      cases room with
      | zero => exact absurd nested (Nat.not_succ_le_zero _)
      | succ room =>
        have meant := represents.meant room (depth_array_le_iff.1 nested)
        simp [Literal.valueIn?, meant]

/-- Some literals are what the text of fields behind an object's brace is taken apart into. -/
structure RepresentsFields (ls : List (List Piece × Literal)) (field : String × Json)
    (rest : List (String × Json)) : Prop where
  taken : ∀ fuel r, (quote field.1 ++ ':' :: (text field.2 ++ textFields rest)).length ≤ fuel →
    readFields fuel (quote field.1 ++ ':' :: (text field.2 ++ (textFields rest ++ r))) = some (ls, r)
  meant : ∀ room, (∀ f ∈ field :: rest, f.2.depth ≤ room) → Literal.fieldsIn? room ls = some (field :: rest)

theorem readField_text {fuel : Nat} {l : Literal} {v : Json} {r : List Char} (represents : l.Represents v) (name : String)
    (enough : (text v).length ≤ fuel) (follows : Follows r) :
    readField (fuel + 1) (quote name ++ ':' :: (text v ++ r)) = some ((name.toList.map piece, l), r) := by
  have pieces := pieces?_escaped name.toList (':' :: (text v ++ r))
  have read := represents.taken fuel r enough follows
  simp [readField, quote, skipSpace, isSpace, pieces, read]

theorem exists_fields (field : String × Json) (rest : List (String × Json))
    (each : ∀ f ∈ field :: rest, ∃ l : Literal, l.Represents f.2) : ∃ ls, RepresentsFields ls field rest := by
  induction rest generalizing field with
  | nil =>
    obtain ⟨l, represents⟩ := each field List.mem_cons_self
    refine ⟨[(field.1.toList.map piece, l)], ?_, ?_⟩
    · intro fuel r enough
      simp only [textFields, quote, List.length_append, List.length_cons, List.length_nil] at enough
      obtain ⟨fuel, rfl⟩ : ∃ k, fuel = k + 2 := ⟨fuel - 2, by omega⟩
      rw [readFields, readField_text represents _ (by omega) (follows_textFields [] r)]
      rfl
    · intro room nested
      rw [Literal.fieldsIn?, string?_map_piece, represents.meant room (nested field List.mem_cons_self)]
      rfl
  | cons next rest ih =>
    obtain ⟨l, represents⟩ := each field List.mem_cons_self
    obtain ⟨ls, others⟩ := ih next fun f member => each f (List.mem_cons_of_mem _ member)
    refine ⟨(field.1.toList.map piece, l) :: ls, ?_, ?_⟩
    · intro fuel r enough
      simp only [textFields, List.length_append, List.length_cons] at enough
      obtain ⟨fuel, rfl⟩ : ∃ k, fuel = k + 2 := ⟨fuel - 2, by omega⟩
      have read := others.taken (fuel + 1) r (by simp only [List.length_append, List.length_cons]; omega)
      rw [readFields, readField_text represents _ (by omega) (follows_textFields _ r), textFields]
      simp only [List.cons_append, List.append_assoc, skipSpace_cons (show isSpace ',' = false from rfl), read,
        Option.map_some]
    · intro room nested
      rw [Literal.fieldsIn?, string?_map_piece, represents.meant room (nested field List.mem_cons_self),
        others.meant room fun f member => nested f (List.mem_cons_of_mem _ member)]

theorem readValue_fields {fuel : Nat} (name : String) (rest : List Char) :
    readValue (fuel + 1) ('\x7b' :: (quote name ++ rest)) =
      (readFields fuel (quote name ++ rest)).map fun (fields, rest) => (.object fields, rest) := by
  simp [readValue, quote, skipSpace, isSpace]

theorem exists_literal_object {fields : List (String × Json)} (increasing : Increasing fields)
    (each : ∀ field ∈ fields, ∃ l : Literal, l.Represents field.2) : ∃ l : Literal, l.Represents (.object fields) := by
  cases fields with
  | nil =>
    refine ⟨.object [], Literal.represents_of_step (fun _ _ _ _ => rfl) ?_⟩
    intro room nested
    cases room with
    | zero => exact absurd nested (Nat.not_succ_le_zero _)
    | succ room => rfl
  | cons field rest =>
    obtain ⟨ls, represents⟩ := exists_fields field rest each
    obtain ⟨name, value⟩ := field
    refine ⟨.object ls, Literal.represents_of_step ?_ ?_⟩
    · intro fuel r enough _
      have read := represents.taken fuel r (by simpa [text] using enough)
      rw [text, List.cons_append, List.append_assoc, List.cons_append, List.append_assoc, readValue_fields, read]
      rfl
    · intro room nested
      cases room with
      | zero => exact absurd nested (Nat.not_succ_le_zero _)
      | succ room =>
        have meant := represents.meant room (depth_object_le_iff.1 nested)
        simp [Literal.valueIn?, meant, ofFields_eq increasing]

/-- **The text of every well-formed value is taken apart into a literal that stands for it.** -/
theorem exists_literal (v : Json) (wf : v.WellFormed) (back : v.Numbers ReadBack) : ∃ l : Literal, l.Represents v := by
  induction v with
  | null => exact ⟨_, represents_null⟩
  | bool b => exact ⟨_, represents_bool b⟩
  | number n => exact exists_literal_number (wellFormed_number_iff.1 wf) back
  | string s => exact ⟨_, represents_string s⟩
  | array items ih =>
    exact exists_literal_array fun item member =>
      ih item member (wellFormed_array_iff.1 wf item member) (numbers_array_iff.1 back item member)
  | object fields ih =>
    obtain ⟨increasing, values⟩ := wellFormed_object_iff.1 wf
    exact exists_literal_object increasing fun field member =>
      ih field member (values field member) (numbers_object_iff.1 back field member)

section Whole

/-- A well-formed value of numbers that are read back, which nests within the limit. -/
structure Legible (v : Json) : Prop where
  wellFormed : v.WellFormed
  numbers : v.Numbers ReadBack
  nested : v.depth ≤ depthLimit

variable {v : Json} {r : List Char}

theorem Legible.item {items : List Json} (legible : (Json.array items).Legible) : ∀ item ∈ items, item.Legible := by
  intro item member
  have nested := depth_array_le_iff.1 legible.nested item member
  exact ⟨wellFormed_array_iff.1 legible.wellFormed item member, numbers_array_iff.1 legible.numbers item member,
    Nat.le_succ_of_le nested⟩

theorem Legible.array {items : List Json} (each : ∀ item ∈ items, item.Legible)
    (nested : (Json.array items).depth ≤ depthLimit) : (Json.array items).Legible where
  wellFormed := wellFormed_array_iff.2 fun item member => (each item member).wellFormed
  numbers := numbers_array_iff.2 fun item member => (each item member).numbers
  nested := nested

/-- A value's text with something behind it reads as the value if that is blank, and else not at all. -/
theorem parseChars?_text_append (legible : v.Legible) (follows : Follows r) :
    parseChars? (text v ++ r) = if skipSpace r = [] then some v else none := by
  obtain ⟨l, represents⟩ := exists_literal v legible.wellFormed legible.numbers
  have enough : (text v).length ≤ 3 * (text v ++ r).length + 1 := by
    rw [List.length_append]
    omega
  have read := represents.taken _ r enough follows
  rw [parseChars?, literal?, read]
  simp only [List.isEmpty_iff]
  split
  · exact represents.meant depthLimit legible.nested
  · rfl

theorem parseChars?_text (legible : v.Legible) : parseChars? (text v) = some v := by
  have read := parseChars?_text_append legible follows_nil
  rwa [List.append_nil] at read

/-- **A legible value is read back from its text.** -/
theorem parse?_compact (legible : v.Legible) : parse? (compact v) = some v := by
  rw [parse?, compact, String.toList_ofList, parseChars?_text legible]

end Whole

/-! ## Characters -/

section Characters

variable {c : Char} {cs : List Char}

/-- No character of a text is a control. -/
def Printable (cs : List Char) : Prop := ∀ c ∈ cs, 0x20 ≤ c.toNat

theorem Printable.cons (printable : Printable cs) (first : 0x20 ≤ c.toNat) : Printable (c :: cs) :=
  List.forall_mem_cons.2 ⟨first, printable⟩

theorem Printable.append {ds : List Char} (printable : Printable cs) (printable' : Printable ds) :
    Printable (cs ++ ds) :=
  List.forall_mem_append.2 ⟨printable, printable'⟩

theorem printable_hexDigit : ∀ n < 16, 0x20 ≤ (hexDigit n).toNat := by
  decide

theorem printable_escapeChar (c : Char) : Printable (escapeChar c) := by
  by_cases named : c ∈ ['"', '\\', '\x08', '\t', '\n', '\x0c', '\r']
  · simp only [List.mem_cons, List.not_mem_nil, or_false] at named
    rcases named with rfl | rfl | rfl | rfl | rfl | rfl | rfl <;> simp [Printable, escapeChar]
  · simp only [List.mem_cons, List.not_mem_nil, or_false, not_or] at named
    by_cases control : c.toNat < 0x20
    · have high := printable_hexDigit (c.toNat / 16) (by omega)
      have low := printable_hexDigit (c.toNat % 16) (by omega)
      simp [Printable, escapeChar, named, control, high, low]
    · simp [Printable, escapeChar, named, control]
      omega

theorem printable_quote (s : String) : Printable (quote s) := by
  have characters : Printable (s.toList.flatMap escapeChar) := by
    intro c member
    obtain ⟨d, -, inside⟩ := List.mem_flatMap.1 member
    exact printable_escapeChar d c inside
  exact (characters.append (by simp [Printable])).cons (by decide)

theorem printable_numberText (x : Number) : Printable (numberText x) := by
  intro c member
  have numeral := isNumeral_numberText x c member
  simp only [Floating.isNumeral, Char.isDigit, Bool.or_eq_true, Bool.and_eq_true, decide_eq_true_eq,
    UInt32.le_iff_toNat_le] at numeral
  rcases numeral with (((digit | rfl) | rfl) | rfl) | rfl
  · have lower : 48 ≤ c.toNat := digit.1
    omega
  all_goals decide

theorem printable_textItems {items : List Json} (each : ∀ item ∈ items, Printable (text item)) :
    Printable (textItems items) := by
  induction items with
  | nil => simp [Printable, textItems]
  | cons item rest ih =>
    obtain ⟨first, others⟩ := List.forall_mem_cons.1 each
    exact (first.append (ih others)).cons (by decide)

theorem printable_textFields {fields : List (String × Json)} (each : ∀ field ∈ fields, Printable (text field.2)) :
    Printable (textFields fields) := by
  induction fields with
  | nil => simp [Printable, textFields]
  | cons field rest ih =>
    obtain ⟨first, others⟩ := List.forall_mem_cons.1 each
    exact ((printable_quote field.1).append ((first.append (ih others)).cons (by decide))).cons (by decide)

/-- **No line breaks**: the text of a value has no control in it. -/
theorem printable_text (v : Json) : Printable (text v) := by
  induction v with
  | null => simp [Printable, text]
  | bool b => cases b <;> simp [Printable, text]
  | number n => exact printable_numberText n
  | string s => exact printable_quote s
  | array items ih =>
    cases items with
    | nil => simp [Printable, text]
    | cons item rest =>
      obtain ⟨first, others⟩ := List.forall_mem_cons.1 ih
      exact (first.append (printable_textItems others)).cons (by decide)
  | object fields ih =>
    cases fields with
    | nil => simp [Printable, text]
    | cons field rest =>
      obtain ⟨first, others⟩ := List.forall_mem_cons.1 ih
      exact ((printable_quote field.1).append ((first.append (printable_textFields others)).cons (by decide))).cons
        (by decide)

theorem not_mem_text (control : c.toNat < 0x20) (v : Json) : c ∉ text v := by
  intro member
  have printable := printable_text v c member
  omega

theorem isBlank_of_start? {k : Nat} (start : start? c = some k) : Text.isBlank c = false := by
  simp only [start?] at start
  split_ifs at start with null bool number string array object
  · rw [null]
    rfl
  · rcases bool with rfl | rfl <;> rfl
  · rcases number with digit | rfl
    · exact isBlank_of_isDigit digit
    · rfl
  · rw [string]
    rfl
  · rw [array]
    rfl
  · rw [object]
    rfl

theorem isBlank_of_isNumeral (numeral : Floating.isNumeral c = true) : Text.isBlank c = false := by
  simp only [Floating.isNumeral, Bool.or_eq_true, decide_eq_true_eq] at numeral
  rcases numeral with (((digit | rfl) | rfl) | rfl) | rfl
  · exact isBlank_of_isDigit digit
  all_goals rfl

theorem getLast?_append_textItems (cs : List Char) (items : List Json) :
    (cs ++ textItems items).getLast? = some ']' := by
  induction items generalizing cs with
  | nil => exact List.getLast?_concat
  | cons item rest ih =>
    have last := ih (cs ++ ',' :: text item)
    rwa [List.append_assoc, List.cons_append] at last

theorem getLast?_append_textFields (cs : List Char) (fields : List (String × Json)) :
    (cs ++ textFields fields).getLast? = some '\x7d' := by
  induction fields generalizing cs with
  | nil => exact List.getLast?_concat
  | cons field rest ih =>
    have last := ih (cs ++ ',' :: (quote field.1 ++ ':' :: text field.2))
    simpa [textFields] using last

/-- **A text neither starts nor ends with a blank.** -/
theorem trimmed_text (v : Json) : Text.Trimmed (text v) where
  front := by
    intro c first
    obtain ⟨d, rest, shown, start⟩ := exists_start v
    rw [shown] at first
    cases first
    exact isBlank_of_start? start
  back := by
    intro c last
    cases v with
    | null =>
      cases last
      rfl
    | bool b => cases b <;> cases last <;> rfl
    | number x => exact isBlank_of_isNumeral (isNumeral_numberText x c (List.mem_of_getLast? last))
    | string s =>
      rw [text, quote, ← List.cons_append, List.getLast?_concat] at last
      cases last
      rfl
    | array items =>
      have closed : (text (.array items)).getLast? = some ']' := by
        cases items with
        | nil => rfl
        | cons item rest => exact getLast?_append_textItems ('[' :: text item) rest
      cases closed.symm.trans last
      rfl
    | object fields =>
      have closed : (text (.object fields)).getLast? = some '\x7d' := by
        cases fields with
        | nil => rfl
        | cons field rest =>
          have last := getLast?_append_textFields ('\x7b' :: (quote field.1 ++ ':' :: text field.2)) rest
          simpa [text] using last
      cases closed.symm.trans last
      rfl

/-- Only the text of an array starts with a bracket. -/
theorem head?_text_iff (v : Json) : (text v).head? = some '[' ↔ ∃ items, v = .array items := by
  obtain ⟨c, rest, shown, start⟩ := exists_start v
  rw [shown, List.head?_cons, Option.some.injEq]
  constructor
  · rintro rfl
    cases v with
    | array items => exact ⟨items, rfl⟩
    | _ => cases start
  · rintro ⟨items, rfl⟩
    cases items <;> exact (List.cons.inj shown).1.symm

end Characters

end Collate.Json
