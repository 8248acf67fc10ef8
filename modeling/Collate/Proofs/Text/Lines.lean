import Collate.Text.Lines
import Mathlib.Data.List.Infix

/-!
# Pieces of a text

A text is cut at each occurrence of a character. Its pieces put together again are the text, and a
text of two with the character between them has the pieces of both. A piece is empty where the
character stands at an end of the text or twice in a row.
-/

set_option autoImplicit false

namespace Collate.Text

variable {sep c : Char} {cs ds piece : List Char}

theorem splitAt_cons_self (sep : Char) (cs : List Char) : splitAt sep (sep :: cs) = [] :: splitAt sep cs := by
  rw [splitAt, if_pos rfl]

/-- There is a first piece. -/
theorem exists_splitAt (sep : Char) (cs : List Char) : ∃ piece pieces, splitAt sep cs = piece :: pieces := by
  cases cs with
  | nil => exact ⟨_, _, rfl⟩
  | cons c cs =>
    rw [splitAt]
    split
    · exact ⟨_, _, rfl⟩
    · split <;> exact ⟨_, _, rfl⟩

theorem splitAt_cons (other : c ≠ sep) (cs : List Char) :
    splitAt sep (c :: cs) = (splitAt sep cs).modifyHead (c :: ·) := by
  obtain ⟨piece, pieces, cut⟩ := exists_splitAt sep cs
  rw [splitAt, if_neg other, cut]
  rfl

theorem splitAt_append (sep : Char) (cs ds : List Char) :
    splitAt sep (cs ++ sep :: ds) = splitAt sep cs ++ splitAt sep ds := by
  induction cs with
  | nil => exact splitAt_cons_self sep ds
  | cons c cs ih =>
    rw [List.cons_append]
    by_cases same : c = sep
    · rw [same, splitAt_cons_self, splitAt_cons_self, ih, List.cons_append]
    · obtain ⟨piece, pieces, cut⟩ := exists_splitAt sep cs
      rw [splitAt_cons same, splitAt_cons same, ih, cut]
      rfl

theorem splitAt_of_not_mem (none : sep ∉ cs) : splitAt sep cs = [cs] := by
  induction cs with
  | nil => rfl
  | cons c cs ih =>
    rw [splitAt_cons (Ne.symm (List.ne_of_not_mem_cons none)), ih (List.not_mem_of_not_mem_cons none)]
    rfl

theorem not_mem_of_mem_splitAt (member : piece ∈ splitAt sep cs) : sep ∉ piece := by
  induction cs generalizing piece with
  | nil =>
    rw [List.mem_singleton.1 member]
    exact List.not_mem_nil
  | cons c cs ih =>
    by_cases same : c = sep
    · rw [same, splitAt_cons_self] at member
      rcases List.mem_cons.1 member with rfl | later
      · exact List.not_mem_nil
      · exact ih later
    · obtain ⟨first, pieces, cut⟩ := exists_splitAt sep cs
      rw [splitAt_cons same, cut] at member
      rw [cut] at ih
      rcases List.mem_cons.1 member with rfl | later
      · exact List.not_mem_cons_of_ne_of_not_mem (Ne.symm same) (ih List.mem_cons_self)
      · exact ih (List.mem_cons_of_mem _ later)

/-- The pieces of a text put together are the text. -/
theorem joinWith_splitAt (sep : Char) (cs : List Char) : joinWith sep (splitAt sep cs) = cs := by
  induction cs with
  | nil => rfl
  | cons c cs ih =>
    obtain ⟨piece, pieces, cut⟩ := exists_splitAt sep cs
    rw [cut] at ih
    by_cases same : c = sep
    · rw [same, splitAt_cons_self, cut]
      exact congrArg (sep :: ·) ih
    · rw [splitAt_cons same, cut]
      cases pieces <;> exact congrArg (c :: ·) ih

theorem prefix_of_head?_splitAt (first : (splitAt sep cs).head? = some piece) : piece <+: cs := by
  obtain ⟨rest, cut⟩ := List.head?_eq_some_iff.1 first
  have whole := joinWith_splitAt sep cs
  rw [cut] at whole
  rw [← whole]
  cases rest with
  | nil => exact List.prefix_refl piece
  | cons next rest => exact List.prefix_append piece _

/-! ## Lines -/

theorem dropReturn_append (cs : List Char) : dropReturn (cs ++ ['\r']) = cs := by
  induction cs with
  | nil => rfl
  | cons c cs ih =>
    rw [List.cons_append, dropReturn, ih]
    rintro - same
    exact List.append_ne_nil_of_right_ne_nil cs (List.cons_ne_nil _ _) same

theorem dropReturn_eq_self (other : cs.getLast? ≠ some '\r') : dropReturn cs = cs := by
  induction cs with
  | nil => rfl
  | cons c cs ih =>
    cases cs with
    | nil =>
      rw [dropReturn, dropReturn]
      rintro rfl -
      exact other rfl
    | cons d cs =>
      rw [dropReturn, ih (by rwa [List.getLast?_cons_cons] at other)]
      rintro - ⟨⟩

theorem dropReturn_subset (cs : List Char) : dropReturn cs ⊆ cs := by
  induction cs with
  | nil => exact List.nil_subset _
  | cons c cs ih =>
    unfold dropReturn
    split
    case h_1 => exact List.nil_subset _
    case h_2 => exact List.nil_subset _
    case h_3 same =>
      cases same
      exact List.cons_subset_cons _ ih

/-- The first line of a text goes up to its first line feed. -/
theorem lines_append (oneLine : '\n' ∉ piece) (cs : List Char) :
    lines (piece ++ '\n' :: cs) = dropReturn piece :: lines cs := by
  obtain ⟨next, pieces, cut⟩ := exists_splitAt '\n' cs
  rw [lines, lines, splitAt_append, splitAt_of_not_mem oneLine, cut]
  rfl

theorem lines_of_not_mem (oneLine : '\n' ∉ piece) (some : piece ≠ []) : lines piece = [piece] := by
  rw [lines, splitAt_of_not_mem oneLine, closeLines, if_neg (by simpa using some)]

/-! ## Empty pieces -/

theorem head?_splitAt_eq_nil_iff : (splitAt sep cs).head? = some [] ↔ cs = [] ∨ [sep] <+: cs := by
  cases cs with
  | nil => simp [splitAt]
  | cons c cs =>
    by_cases same : c = sep
    · simp [same, splitAt_cons_self]
    · obtain ⟨piece, pieces, cut⟩ := exists_splitAt sep cs
      simp [splitAt_cons same, cut, Ne.symm same]

theorem nil_mem_iff_head?_or_tail {pieces : List (List Char)} :
    [] ∈ pieces ↔ pieces.head? = some [] ∨ [] ∈ pieces.tail := by
  cases pieces <;> simp [eq_comm]

/-- Behind the first piece, one is empty where the character ends the text or follows itself. -/
theorem nil_mem_tail_splitAt_iff : [] ∈ (splitAt sep cs).tail ↔ [sep] <:+ cs ∨ [sep, sep] <:+: cs := by
  induction cs with
  | nil => simp [splitAt]
  | cons c cs ih =>
    rw [List.suffix_cons_iff, List.infix_cons_iff]
    by_cases same : c = sep
    · rw [same, splitAt_cons_self, List.tail_cons, nil_mem_iff_head?_or_tail, head?_splitAt_eq_nil_iff, ih]
      simp only [List.cons.injEq, true_and, List.cons_prefix_cons, eq_comm (a := ([] : List Char))]
      tauto
    · rw [splitAt_cons same, List.tail_modifyHead, ih]
      simp [Ne.symm same]

theorem nil_mem_splitAt_iff :
    [] ∈ splitAt sep cs ↔ cs = [] ∨ [sep] <+: cs ∨ [sep] <:+ cs ∨ [sep, sep] <:+: cs := by
  rw [nil_mem_iff_head?_or_tail, head?_splitAt_eq_nil_iff, nil_mem_tail_splitAt_iff, or_assoc]

end Collate.Text
