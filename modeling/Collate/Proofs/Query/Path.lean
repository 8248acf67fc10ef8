import Collate.Proofs.Text.Blank
import Collate.Proofs.Text.Lines
import Collate.Query.Path

/-!
# What a key path is and where it leads

A text writes a path if, blanks at its ends left out, no dot stands at an end or behind another. The
path is then written by that text and no other, and two paths with a dot between them are the path
that goes the way of the first and from there the way of the second. Null is nowhere: a path that
leads there finds nothing, and no path leads on from there.
-/

set_option autoImplicit false

namespace Collate.Query.KeyPath

/-- A text has something before, between and behind its dots. -/
structure Dotted (cs : List Char) : Prop where
  some : cs ≠ []
  front : ¬ ['.'] <+: cs
  back : ¬ ['.'] <:+ cs
  between : ¬ ['.', '.'] <:+: cs

/-- The path with the pieces of a text between its dots. -/
def ofChars (cs : List Char) : KeyPath := ⟨(Text.splitAt '.' cs).map String.ofList⟩

section Writing

variable {s t : String} {p q : KeyPath} {cs ds : List Char}

theorem dotted_iff : Dotted cs ↔ cs ≠ [] ∧ [] ∉ Text.splitAt '.' cs := by
  rw [Text.nil_mem_splitAt_iff, not_or, not_or, not_or]
  constructor
  · intro dotted
    exact ⟨dotted.some, dotted.some, dotted.front, dotted.back, dotted.between⟩
  · rintro ⟨some, -, front, back, between⟩
    exact ⟨some, front, back, between⟩

theorem Dotted.append (left : Dotted cs) (right : Dotted ds) : Dotted (cs ++ '.' :: ds) := by
  rw [dotted_iff] at left right ⊢
  rw [Text.splitAt_append, List.mem_append, not_or]
  exact ⟨by simp, left.2, right.2⟩

theorem parse_eq_ok_iff :
    parse s = .ok p ↔ Dotted (Text.trim s.toList) ∧ p = ofChars (Text.trim s.toList) := by
  rw [dotted_iff, parse, ofChars]
  generalize Text.trim s.toList = cs
  have empty : (Text.splitAt '.' cs).any List.isEmpty = true ↔ [] ∈ Text.splitAt '.' cs := by
    simp [List.any_eq_true]
  dsimp only
  split
  · next none => simp [List.isEmpty_iff.1 none]
  · next some =>
    rw [List.isEmpty_iff] at some
    split
    · next piece => simp [empty.1 piece]
    · next pieces =>
      rw [empty] at pieces
      simp [some, pieces, eq_comm]

/-- A text that is trimmed is read as it stands. -/
theorem parse_ofList (trimmed : Text.Trimmed cs) (dotted : Dotted cs) :
    parse (String.ofList cs) = .ok (ofChars cs) := by
  rw [parse_eq_ok_iff, String.toList_ofList, trimmed.trim_eq]
  exact ⟨dotted, rfl⟩

theorem display_ofChars (cs : List Char) : (ofChars cs).display = String.ofList cs := by
  have pieces : (ofChars cs).segments.map String.toList = Text.splitAt '.' cs := by
    rw [ofChars, List.map_map]
    exact (List.map_congr_left fun piece _ => String.toList_ofList).trans (List.map_id _)
  rw [display, pieces, Text.joinWith_splitAt]

theorem ofChars_inj : ofChars cs = ofChars ds ↔ cs = ds := by
  constructor
  · intro same
    have shown := congrArg display same
    rwa [display_ofChars, display_ofChars, String.ofList_inj] at shown
  · rintro rfl
    rfl

theorem segments_ofChars_append (cs ds : List Char) :
    (ofChars (cs ++ '.' :: ds)).segments = (ofChars cs).segments ++ (ofChars ds).segments := by
  rw [ofChars, Text.splitAt_append, List.map_append]
  rfl

theorem segments_ofChars_ne_nil (cs : List Char) : (ofChars cs).segments ≠ [] := by
  obtain ⟨piece, pieces, cut⟩ := Text.exists_splitAt '.' cs
  simp [ofChars, cut]

/-- A path has a first segment. -/
theorem exists_segments (parsed : parse s = .ok p) : ∃ segment rest, p.segments = segment :: rest := by
  rw [(parse_eq_ok_iff.1 parsed).2]
  exact List.exists_cons_of_ne_nil (segments_ofChars_ne_nil _)

end Writing

section Walking

variable {p q both : KeyPath}

/-- From null no path leads on. -/
theorem lookup_null (some : q.segments ≠ []) : q.lookup .null = none := by
  obtain ⟨segments⟩ := q
  cases segments with
  | nil => exact absurd rfl some
  | cons segment rest => rfl

/-- Two paths one after the other. -/
theorem lookup_append (segments : both.segments = p.segments ++ q.segments) (some : q.segments ≠ []) (record : Json) :
    both.lookup record = (p.lookup record).bind q.lookup := by
  rw [lookup, lookup, segments, List.foldlM_append]
  cases p.segments.foldlM step record with
  | none => rfl
  | some value =>
    change q.lookup value = (present value).bind q.lookup
    cases value with
    | null => exact lookup_null some
    | _ => rfl

end Walking

/-- **What a path is and where it leads.** A text writes a path exactly if something stands before,
between and behind its dots, once it is trimmed. The path is displayed as the trimmed text and read
back from there, so two texts write one path exactly if they are the same trimmed. Two of them with
a dot between write the segments of both, and what they lead to is what the second leads to from
where the first leads; it is missing where that is missing or null. -/
theorem parse_grammar (s t : String) :
    ((∃ p, parse s = .ok p) ↔ Dotted (Text.trim s.toList)) ∧
    ∀ p, parse s = .ok p → p.display = String.ofList (Text.trim s.toList) ∧ parse p.display = .ok p ∧
      ∀ q, parse t = .ok q → (p = q ↔ Text.trim s.toList = Text.trim t.toList) ∧
        ∃ both, parse (String.ofList (Text.trim s.toList ++ '.' :: Text.trim t.toList)) = .ok both ∧
          both.segments = p.segments ++ q.segments ∧
          ∀ record, both.lookup record = (p.lookup record).bind q.lookup := by
  have sTrimmed := Text.trimmed_trim s.toList
  have tTrimmed := Text.trimmed_trim t.toList
  simp only [parse_eq_ok_iff (s := s), parse_eq_ok_iff (s := t)]
  generalize Text.trim s.toList = cs at sTrimmed ⊢
  generalize Text.trim t.toList = ds at tTrimmed ⊢
  refine ⟨⟨fun ⟨_, dotted, _⟩ => dotted, fun dotted => ⟨_, dotted, rfl⟩⟩, ?_⟩
  rintro _ ⟨sDotted, rfl⟩
  refine ⟨display_ofChars cs, by rw [display_ofChars, parse_ofList sTrimmed sDotted], ?_⟩
  rintro _ ⟨tDotted, rfl⟩
  have trimmed := sTrimmed.append tTrimmed sDotted.some tDotted.some ['.']
  have segments := segments_ofChars_append cs ds
  exact ⟨ofChars_inj, ofChars (cs ++ '.' :: ds), parse_ofList trimmed (sDotted.append tDotted), segments,
    lookup_append segments (segments_ofChars_ne_nil ds)⟩

/-- Blanks around a path do not count and those within do, and a number leads into an array. -/
theorem parse_grammar_within :
    let record := Json.object [("team", .object [("first names", .array [.null, .object [("short", .string "Al")]])])]
    parse " team.first names\t" = .ok ⟨["team", "first names"]⟩ ∧ parse "1.short" = .ok ⟨["1", "short"]⟩ ∧
      parse "team.first names" = .ok ⟨["team", "first names"]⟩ ∧ (¬ ∃ p, parse "team..names" = .ok p) ∧
      ∃ both, parse "team.first names.1.short" = .ok both ∧ both.segments = ["team", "first names", "1", "short"] ∧
        both.lookup record = some (.string "Al") := by
  intro record
  have first : parse " team.first names\t" = .ok ⟨["team", "first names"]⟩ := rfl
  have second : parse "1.short" = .ok ⟨["1", "short"]⟩ := rfl
  obtain ⟨-, again, paired⟩ := (parse_grammar " team.first names\t" "1.short").2 _ first
  obtain ⟨-, both, joined, segments, leads⟩ := paired _ second
  have refused : ¬ ∃ p, parse "team..names" = .ok p := by
    intro accepted
    have dotted := (parse_grammar "team..names" "1.short").1.1 accepted
    exact dotted.between ⟨"team".toList, "names".toList, rfl⟩
  exact ⟨first, second, again, refused, both, joined, segments, (leads record).trans rfl⟩

end Collate.Query.KeyPath
