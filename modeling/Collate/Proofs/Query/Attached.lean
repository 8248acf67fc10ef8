import Collate.Proofs.Json.Reading
import Collate.Proofs.Query.Path
import Collate.Query.Executor

/-!
# Attached fields and the paths that reach them

A join step puts its matches into a field whose name is taken as it is written, and a later step asks
for a field by a path, which is trimmed and cut at its dots. So a name leads to the field that it
names if it is trimmed and has no dot. Any other name leads past the field, though a step with such a
name is valid: the name written as a path starts with a segment that is not the name.
-/

set_option autoImplicit false

namespace Collate.Query

/-- A step that is valid with one field name is valid with every name that is not blank. -/
theorem JoinSpec.validate_into_iff {s : JoinSpec} {name : String} (accepted : s.validate name = .ok ())
    (field : String) : { s with into := field }.validate name = .ok () ↔ Text.trim field.toList ≠ [] := by
  rw [Ne, Text.trim_eq_nil_iff, JoinSpec.validate]
  rw [JoinSpec.validate] at accepted
  split at accepted
  · cases accepted
  · next inner =>
    rw [if_neg inner]
    split at accepted
    · cases accepted
    · split
      · next blank => simp [blank]
      · next visible => exact ⟨fun _ => visible, fun _ => accepted⟩

/-- A field name that is written alike as a path: it has no dot and no blanks at its ends. -/
structure Simple (field : String) : Prop where
  noDot : '.' ∉ field.toList
  trimmed : Text.trim field.toList = field.toList

section Reaching

variable {field segment : String} {rest : List String} {p : KeyPath}

/-- A name written as a path starts with itself only if it is simple. -/
theorem simple_of_head? (first : (KeyPath.ofChars (Text.trim field.toList)).segments.head? = some field) :
    Simple field := by
  rw [KeyPath.ofChars, List.head?_map, Option.map_eq_some_iff] at first
  obtain ⟨piece, first, named⟩ := first
  have chars : field.toList = piece := by rw [← named, String.toList_ofList]
  have short := (Text.prefix_of_head?_splitAt first).sublist
  rw [← chars] at first short
  exact ⟨Text.not_mem_of_mem_splitAt (List.mem_of_head? first), (Text.trim_sublist _).antisymm short⟩

/-- A simple name that is not empty is a path of one segment. -/
theorem Simple.parse_eq (simple : Simple field) (visible : Text.trim field.toList ≠ []) :
    KeyPath.parse field = .ok ⟨[field]⟩ := by
  have cut := Text.splitAt_of_not_mem simple.noDot
  rw [simple.trimmed] at visible
  rw [KeyPath.parse_eq_ok_iff, KeyPath.dotted_iff, KeyPath.ofChars, simple.trimmed, cut]
  exact ⟨⟨visible, by simpa using visible.symm⟩, by simp⟩

/-- A path that starts with another name does not see a field. -/
theorem lookup_attach (segments : p.segments = segment :: rest) (other : segment ≠ field) (record value : Json) :
    p.lookup (attach record field value) = p.lookup record := by
  cases record with
  | object fields =>
    have same : KeyPath.step (attach (.object fields) field value) segment = KeyPath.step (.object fields) segment := by
      rw [attach, KeyPath.step, KeyPath.step, Json.fieldOf?_insertField, if_neg other]
    rw [KeyPath.lookup, KeyPath.lookup, segments, List.foldlM_cons, List.foldlM_cons, same]
  | _ => rfl

/-- The path of one segment finds the field of that name. -/
theorem lookup_attach_self {record value : Json} (object : record.isObject = true) (present : value ≠ .null) :
    KeyPath.lookup ⟨[field]⟩ (attach record field value) = some value := by
  cases record with
  | object fields =>
    change ((Json.fieldOf? field (Json.insertField field value fields)).bind some).bind KeyPath.present = _
    rw [Json.fieldOf?_insertField, if_pos rfl]
    cases value <;> first | rfl | exact absurd rfl present
  | _ => cases object

/-- In a record without fields a path finds nothing. -/
theorem lookup_noFields (segments : p.segments = segment :: rest) : p.lookup (.object []) = none := by
  rw [KeyPath.lookup, segments]
  rfl

theorem attach_attach (record : Json) (field : String) (first second : Json) :
    attach (attach record field first) field second = attach record field second := by
  cases record with
  | object fields => exact congrArg Json.object (Json.insertField_insertField first)
  | _ => rfl

end Reaching

/-- **Attached fields are reached by their names if these are simple.** Every name that is not blank is
valid for a step that attaches. A field attached twice holds the second value, and no path that starts
with another name sees it. Its own name, read as a path, leads to the field in all records exactly if
it has no dot and no blanks at its ends; otherwise that path, if it is one, sees the field in none. -/
theorem attached_reached {s : JoinSpec} {name : String} (accepted : s.validate name = .ok ()) :
    (∀ field, { s with into := field }.validate name = .ok () ↔ Text.trim field.toList ≠ []) ∧
    ∀ field, Text.trim field.toList ≠ [] →
      (∀ record first second, attach (attach record field first) field second = attach record field second) ∧
      (∀ source p, KeyPath.parse source = .ok p → p.segments.head? ≠ some field →
        ∀ record value, p.lookup (attach record field value) = p.lookup record) ∧
      ((∃ p, KeyPath.parse field = .ok p ∧ ∀ record value, record.isObject = true → value ≠ .null →
        p.lookup (attach record field value) = some value) ↔ Simple field) ∧
      (¬ Simple field → ∀ p, KeyPath.parse field = .ok p →
        ∀ record value, p.lookup (attach record field value) = p.lookup record) := by
  refine ⟨JoinSpec.validate_into_iff accepted, fun field visible => ?_⟩
  have past : ∀ source p, KeyPath.parse source = .ok p → p.segments.head? ≠ some field →
      ∀ record value, p.lookup (attach record field value) = p.lookup record := by
    intro source p parsed other
    obtain ⟨segment, rest, segments⟩ := KeyPath.exists_segments parsed
    rw [segments] at other
    exact lookup_attach segments fun same => other (congrArg some same)
  have blind : ¬ Simple field → ∀ p, KeyPath.parse field = .ok p →
      ∀ record value, p.lookup (attach record field value) = p.lookup record := by
    intro twisted p parsed
    apply past field p parsed
    rw [(KeyPath.parse_eq_ok_iff.1 parsed).2]
    exact fun first => twisted (simple_of_head? first)
  refine ⟨fun record => attach_attach record field, past, ⟨?_, ?_⟩, blind⟩
  · rintro ⟨p, parsed, reached⟩
    by_contra twisted
    obtain ⟨segment, rest, segments⟩ := KeyPath.exists_segments parsed
    have found := reached (.object []) (.bool true) rfl nofun
    rw [blind twisted p parsed, lookup_noFields segments] at found
    cases found
  · intro simple
    exact ⟨⟨[field]⟩, simple.parse_eq visible, fun record value => lookup_attach_self⟩

/-- Players with their teams, each in a field of its own. -/
def matched : JoinSpec := ⟨"teams", "team", "number", "match", false⟩

/-- A team put into a field named with a dot, or with a blank in front, is there and not found by its name. -/
theorem attached_reached_twisted :
    let record := Json.object [("team", .bool false)]
    matched.validate "join" = .ok () ∧ { matched with into := "the.match" }.validate "join" = .ok () ∧
      { matched with into := " match" }.validate "join" = .ok () ∧
      KeyPath.parse "the.match" = .ok ⟨["the", "match"]⟩ ∧ KeyPath.parse " match" = .ok ⟨["match"]⟩ ∧
      KeyPath.lookup ⟨["the", "match"]⟩ (attach record "the.match" (.bool true)) = none ∧
      KeyPath.lookup ⟨["match"]⟩ (attach record " match" (.bool true)) = none ∧
      ∃ p, KeyPath.parse "match" = .ok p ∧ p.lookup (attach record "match" (.bool true)) = some (.bool true) := by
  intro record
  have accepted : matched.validate "join" = .ok () := rfl
  obtain ⟨valid, reached⟩ := attached_reached accepted
  obtain ⟨-, -, found, -⟩ := reached "match" (by decide)
  obtain ⟨p, parsed, finds⟩ := found.2 ⟨by decide, by decide⟩
  have dotted : KeyPath.parse "the.match" = .ok ⟨["the", "match"]⟩ := rfl
  have padded : KeyPath.parse " match" = .ok ⟨["match"]⟩ := rfl
  refine ⟨accepted, (valid _).2 (by decide), (valid _).2 (by decide), dotted, padded, ?_, ?_, p, parsed,
    finds record (.bool true) rfl nofun⟩
  · obtain ⟨-, -, -, blind⟩ := reached "the.match" (by decide)
    exact blind (fun simple => simple.noDot (by decide)) _ dotted record (.bool true)
  · obtain ⟨-, -, -, blind⟩ := reached " match" (by decide)
    exact blind (fun simple => absurd simple.trimmed (by decide)) _ padded record (.bool true)

end Collate.Query
