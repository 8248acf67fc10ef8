import Collate.Proofs.Json.Roundtrip
import Collate.Proofs.Text.Blank
import Collate.Proofs.Text.Lines
import Collate.Query.Record

/-!
# Reading records gives those that were written

Records are written as one array or one to a line, with blanks in front of the array and between the
lines. Whatever makes values of texts and texts of values, as long as each undoes the other on the
records (`RoundTrip`), the array is always read back. Lines are read back unless the first record is
an array: then the whole text is taken for one, which can be any list of records but not the one
that was written.
-/

set_option autoImplicit false

namespace Collate.Query

/-- What reading records takes from a parser and a printer of JSON texts, on the values within the
parser's limit: the text of a value has no line break in it and no blank around it, and the value is
parsed back from it. -/
structure RoundTrip (parse : List Char → Option Json) (write : Json → List Char) (within : Json → Prop) : Prop where
  item : ∀ {items}, within (.array items) → ∀ v ∈ items, within v
  back : ∀ {v}, within v → parse (write v) = some v
  oneLine : ∀ {v}, within v → '\n' ∉ write v
  trimmed : ∀ {v}, within v → Text.Trimmed (write v)
  /-- Only arrays are written from a bracket on. -/
  bracket : ∀ {v}, within v → ((write v).head? = some '[' ↔ ∃ items, v = .array items)
  /-- An empty text is no value. -/
  empty : parse [] = none
  /-- An array's text with more behind it, cut off by a blank, is parsed as the array or not at all. -/
  behind : ∀ {items r w}, within (.array items) → Text.Parted r → parse (write (.array items) ++ r) = some w →
    w = .array items

/-- How a line ends. -/
inductive LineEnd where
  | feed
  | returnFeed
  deriving DecidableEq, Repr

def LineEnd.text : LineEnd → List Char
  | .feed => ['\n']
  | .returnFeed => ['\r', '\n']

/-- A text that writes records one to a line, with any blank lines between them. Every line but the
last has an end, and behind the last end may stand a record, blanks or nothing. -/
inductive JsonLines (write : Json → List Char) : List Json → List Char → Prop
  | record {vs : List Json} {cs : List Char} (v : Json) (ending : LineEnd) :
      JsonLines write vs cs → JsonLines write (v :: vs) (write v ++ (ending.text ++ cs))
  | blank {vs : List Json} {cs : List Char} (bs : List Char) (ending : LineEnd) :
      Text.allBlank bs = true → '\n' ∉ bs → JsonLines write vs cs → JsonLines write vs (bs ++ (ending.text ++ cs))
  | lastRecord (v : Json) : JsonLines write [v] (write v)
  | lastBlank (bs : List Char) : Text.allBlank bs = true → '\n' ∉ bs → JsonLines write [] bs

variable {parse : List Char → Option Json} {write : Json → List Char} {within : Json → Prop}
variable {v : Json} {vs : List Json} {cs bs : List Char}

/-! ## Lines -/

theorem LineEnd.isBlank_text (ending : LineEnd) : Text.allBlank ending.text = true := by
  cases ending <;> rfl

theorem LineEnd.parted (ending : LineEnd) (cs : List Char) : Text.Parted (ending.text ++ cs) := by
  cases ending <;> exact Text.parted_cons rfl _

/-- A line is cut off with its end. If this is a line feed, a carriage return goes with it. -/
theorem exists_lines_ended {line : List Char} (oneLine : '\n' ∉ line) (ending : LineEnd) (cs : List Char) :
    ∃ front, Text.lines (line ++ (ending.text ++ cs)) = front :: Text.lines cs ∧
      (front = line ∨ front = Text.dropReturn line) := by
  cases ending with
  | feed => exact ⟨_, Text.lines_append oneLine cs, Or.inr rfl⟩
  | returnFeed =>
    have inside : '\n' ∉ line ++ ['\r'] := by simp [oneLine]
    have cut := Text.lines_append inside cs
    rw [Text.dropReturn_append, List.append_assoc] at cut
    exact ⟨line, cut, Or.inl rfl⟩

/-- The records of a text are those of its first line and of the others. -/
theorem lineRecords?_step {line : List Char} (ds : List Char) (cut : Text.lines cs = line :: Text.lines ds) :
    lineRecords? parse cs = if Text.allBlank line then lineRecords? parse ds
      else (parse line).bind fun v => (lineRecords? parse ds).map (v :: ·) := by
  rw [lineRecords?, lineRecords?, cut, List.filter_cons]
  cases blank : Text.allBlank line with
  | true => rfl
  | false =>
    simp only [Bool.not_false, if_true, Bool.false_eq_true, if_false, List.mapM_cons]
    cases parse line with
    | none => rfl
    | some v => cases List.mapM parse ((Text.lines ds).filter fun line => !Text.allBlank line) <;> rfl

/-- A blank line gives no record. -/
theorem lineRecords?_blank (blank : Text.allBlank bs = true) (oneLine : '\n' ∉ bs) (ending : LineEnd) (cs : List Char) :
    lineRecords? parse (bs ++ (ending.text ++ cs)) = lineRecords? parse cs := by
  obtain ⟨front, cut, same⟩ := exists_lines_ended oneLine ending cs
  have blank' : Text.allBlank front = true := by
    rw [Text.allBlank, List.all_eq_true] at blank ⊢
    rcases same with rfl | rfl
    · exact blank
    · exact fun c member => blank c (Text.dropReturn_subset bs member)
  rw [lineRecords?_step cs cut, if_pos blank']

theorem lineRecords?_lastBlank (blank : Text.allBlank bs = true) (oneLine : '\n' ∉ bs) :
    lineRecords? parse bs = some [] := by
  by_cases none : bs = []
  · rw [none]
    rfl
  · rw [lineRecords?_step [] (Text.lines_of_not_mem oneLine none), if_pos blank]
    rfl

/-! ## Records on lines -/

section Trip

variable (trip : RoundTrip parse write within)
include trip

/-- A text that is parsed is not empty. -/
theorem RoundTrip.ne_nil (fits : within v) : write v ≠ [] := by
  intro none
  have back := trip.back fits
  rw [none, trip.empty] at back
  cases back

/-- A line with a record gives it. -/
theorem lineRecords?_record (fits : within v) (ending : LineEnd) (cs : List Char) :
    lineRecords? parse (write v ++ (ending.text ++ cs)) = (lineRecords? parse cs).map (v :: ·) := by
  have trimmed := trip.trimmed fits
  have noReturn : (write v).getLast? ≠ some '\r' := by
    intro last
    cases trimmed.back '\r' last
  obtain ⟨front, cut, same⟩ := exists_lines_ended (trip.oneLine fits) ending cs
  rw [Text.dropReturn_eq_self noReturn, or_self] at same
  rw [same] at cut
  rw [lineRecords?_step cs cut, trimmed.allBlank_eq_false (trip.ne_nil fits), trip.back fits]
  rfl

theorem lineRecords?_lastRecord (fits : within v) : lineRecords? parse (write v) = some [v] := by
  have some := trip.ne_nil fits
  rw [lineRecords?_step [] (Text.lines_of_not_mem (trip.oneLine fits) some),
    (trip.trimmed fits).allBlank_eq_false some, trip.back fits]
  rfl

/-- **Each line of records is read as the record that it was written for.** -/
theorem lineRecords?_of_jsonLines (fits : ∀ v ∈ vs, within v) (written : JsonLines write vs cs) :
    lineRecords? parse cs = some vs := by
  induction written with
  | record v ending rest ih =>
    obtain ⟨first, fits⟩ := List.forall_mem_cons.1 fits
    rw [lineRecords?_record trip first, ih fits]
    rfl
  | blank bs ending blank oneLine rest ih => rw [lineRecords?_blank blank oneLine, ih fits]
  | lastRecord v => exact lineRecords?_lastRecord trip (fits v List.mem_cons_self)
  | lastBlank bs blank oneLine => exact lineRecords?_lastBlank blank oneLine

/-! ## The first record -/

/-- Behind the blanks in front, a text starts with its first record. -/
theorem exists_trimStart (fits : ∀ v ∈ vs, within v) (written : JsonLines write vs cs) :
    (vs = [] ∧ Text.trimStart cs = []) ∨
      ∃ v rest r, vs = v :: rest ∧ Text.trimStart cs = write v ++ r ∧ Text.Parted r := by
  have front {v : Json} (fits : within v) (r : List Char) : Text.trimStart (write v ++ r) = write v ++ r :=
    (trip.trimmed fits).trimStart_append (trip.ne_nil fits) r
  induction written with
  | record v ending _ _ =>
    exact Or.inr ⟨v, _, _, rfl, front (fits v List.mem_cons_self) _, ending.parted _⟩
  | blank bs ending blank _ _ ih =>
    rw [Text.trimStart_append blank, Text.trimStart_append ending.isBlank_text]
    exact ih fits
  | lastRecord v =>
    have trimmed := front (fits v List.mem_cons_self) []
    rw [List.append_nil] at trimmed
    exact Or.inr ⟨v, [], [], rfl, by rw [trimmed, List.append_nil], nofun⟩
  | lastBlank bs blank _ =>
    have trimmed := Text.trimStart_append blank []
    rw [List.append_nil] at trimmed
    exact Or.inl ⟨rfl, trimmed⟩

theorem head?_write_append_iff (fits : within v) (r : List Char) :
    (write v ++ r).head? = some '[' ↔ ∃ items, v = .array items := by
  rw [List.head?_append_of_ne_nil _ (trip.ne_nil fits)]
  exact trip.bracket fits

/-- A text that starts with an array behind its blanks is read as the array's items, or not at all. -/
theorem eq_of_records?_array {source : String} {items records : List Json} {r : List Char}
    (trimmed : Text.trimStart source.toList = write (.array items) ++ r) (fits : within (.array items))
    (parted : Text.Parted r) (read : records? parse source = some records) : records = items := by
  rw [records?, trimmed, if_pos ((head?_write_append_iff trip fits r).2 ⟨items, rfl⟩), arrayRecords?] at read
  split at read
  · next found parsed =>
    cases read
    cases trip.behind fits parted parsed
    rfl
  · cases read

end Trip

/-- A list is no item of itself. -/
theorem ne_cons_array (items rest : List Json) : items ≠ .array items :: rest := by
  intro same
  have sizes := congrArg sizeOf same
  simp at sizes
  omega

theorem readRecords_eq_ok_iff {source : String} : readRecords parse source = .ok vs ↔ records? parse source = some vs := by
  unfold readRecords
  split <;> simp_all

/-- **Reading records gives those that were written**, as an array with blanks in front, and one to a line
with blank lines between them, unless the first record on a line is an array. -/
theorem records_read_back (trip : RoundTrip parse write within) (vs : List Json) (fits : within (.array vs)) :
    (∀ blanks : String, Text.allBlank blanks.toList = true →
      readRecords parse (blanks ++ String.ofList (write (.array vs))) = .ok vs) ∧
    ∀ source : String, JsonLines write vs source.toList →
      (readRecords parse source = .ok vs ↔ ∀ items, vs.head? ≠ some (.array items)) := by
  have each := trip.item fits
  constructor
  · intro blanks blank
    have front := Text.trimStart_eq_self (trip.trimmed fits).front
    have opens := (trip.bracket fits).2 ⟨vs, rfl⟩
    rw [readRecords_eq_ok_iff, records?, String.toList_append, Text.trimStart_append blank, String.toList_ofList, front,
      if_pos opens, arrayRecords?, trip.back fits]
  · intro source written
    have lines := lineRecords?_of_jsonLines trip each written
    rw [readRecords_eq_ok_iff]
    rcases exists_trimStart trip each written with ⟨rfl, trimmed⟩ | ⟨v, rest, r, rfl, trimmed, parted⟩
    · have read : records? parse source = some [] := by
        rw [records?, trimmed]
        exact lines
      simp [read]
    · have first := each v List.mem_cons_self
      by_cases array : ∃ items, v = .array items
      · obtain ⟨items, rfl⟩ := array
        constructor
        · intro read
          exact absurd (eq_of_records?_array trip trimmed first parted read).symm (ne_cons_array items rest)
        · intro other
          exact absurd rfl (other items)
      · have read : records? parse source = some (v :: rest) := by
          rw [records?, trimmed, if_neg (mt (head?_write_append_iff trip first r).1 array)]
          exact lines
        refine ⟨fun _ items first => array ⟨items, Option.some.inj first⟩, fun _ => read⟩

/-- What `parseRecords` is given undoes the compact texts of legible values. -/
theorem roundTrip_legible : RoundTrip Json.parseChars? Json.text Json.Legible where
  item legible := legible.item
  back legible := Json.parseChars?_text legible
  oneLine {v} _ := Json.not_mem_text (by decide) v
  trimmed {v} _ := Json.trimmed_text v
  bracket {v} _ := Json.head?_text_iff v
  empty := rfl
  behind := by
    intro items r w legible parted parsed
    have follows : Json.Follows r := fun c first => Or.inl (parted c first)
    rw [Json.parseChars?_text_append legible follows] at parsed
    split at parsed
    · exact (Option.some.inj parsed).symm
    · cases parsed

/-- An array of an integer and a half. -/
def halved : Json := .array [.number (.int (-7)), .number (.float ⟨false, Format.double.round 1 2⟩)]

/-- An object and an array. -/
def mixed : List Json := [.object [("a", .null), ("b", .string "\n")], halved]

theorem legible_mixed : ∀ v ∈ mixed, v.Legible := by
  have before : compare "a" "b" = .lt := by decide
  have finite : (⟨false, Format.double.round 1 2⟩ : Double).isFinite = true := by decide +kernel
  have half : Json.ReadBack (.float ⟨false, Format.double.round 1 2⟩) := by decide +kernel
  have seven : Json.ReadBack (.int (-7)) := by decide +kernel
  intro v member
  simp only [mixed, halved, List.mem_cons, List.not_mem_nil, or_false] at member
  rcases member with rfl | rfl
  · refine ⟨?_, ?_, by decide⟩
    · simp [Json.wellFormed_object_iff, Json.Increasing, before, Json.wellFormed_null, Json.wellFormed_string]
    · simp [Json.Numbers, Json.NumbersFields]
  · refine ⟨?_, ?_, by decide⟩
    · simp [Json.wellFormed_array_iff, Json.wellFormed_number_iff, Number.Representable, finite]
    · simp [Json.Numbers, Json.NumbersItems, half, seven]

/-- Beside the array form, the object may come first on a line and the array may not. -/
theorem records_read_back_mixed :
    RoundTrip Json.parseChars? Json.text Json.Legible ∧
      ((Json.array mixed).Legible ∧ (Json.array mixed.reverse).Legible) ∧
      parseRecords (" \n" ++ String.ofList (Json.array mixed).text) = .ok mixed ∧
      (JsonLines Json.text mixed "\t\n\x7b\"a\":null,\"b\":\"\\n\"\x7d\r\n\n[-7,0.5]".toList ∧
        parseRecords "\t\n\x7b\"a\":null,\"b\":\"\\n\"\x7d\r\n\n[-7,0.5]" = .ok mixed) ∧
      JsonLines Json.text mixed.reverse "[-7,0.5]\n\x7b\"a\":null,\"b\":\"\\n\"\x7d\r\n ".toList ∧
        parseRecords "[-7,0.5]\n\x7b\"a\":null,\"b\":\"\\n\"\x7d\r\n " ≠ .ok mixed.reverse := by
  have legible : (Json.array mixed).Legible := .array legible_mixed (by decide)
  have legible' : (Json.array mixed.reverse).Legible :=
    .array (fun v member => legible_mixed v (List.mem_reverse.1 member)) (by decide)
  have shown : halved.text = "[-7,0.5]".toList := by decide +kernel
  have lines : JsonLines Json.text mixed "\t\n\x7b\"a\":null,\"b\":\"\\n\"\x7d\r\n\n[-7,0.5]".toList := by
    have last : JsonLines Json.text [halved] "[-7,0.5]".toList := shown ▸ .lastRecord halved
    exact .blank ['\t'] .feed rfl (by decide) (.record _ .returnFeed (.blank [] .feed rfl (by decide) last))
  have lines' : JsonLines Json.text mixed.reverse "[-7,0.5]\n\x7b\"a\":null,\"b\":\"\\n\"\x7d\r\n ".toList := by
    have others : JsonLines Json.text [.object [("a", .null), ("b", .string "\n")]]
        "\x7b\"a\":null,\"b\":\"\\n\"\x7d\r\n ".toList :=
      .record _ .returnFeed (.lastBlank [' '] rfl (by decide))
    have first := JsonLines.record halved .feed others
    rw [shown] at first
    exact first
  obtain ⟨array, byLine⟩ := records_read_back roundTrip_legible mixed legible
  obtain ⟨-, byLine'⟩ := records_read_back roundTrip_legible mixed.reverse legible'
  refine ⟨roundTrip_legible, ⟨legible, legible'⟩, array " \n" rfl, ⟨lines, (byLine _ lines).2 ?_⟩, lines', ?_⟩
  · intro items first
    cases first
  · intro read
    exact (byLine' _ lines').1 read _ rfl

end Collate.Query
