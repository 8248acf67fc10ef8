import Collate.Text.Blank
import Mathlib.Data.List.Basic
import Mathlib.Data.List.TakeWhile

/-!
# Trimmed texts

A text is trimmed if it neither starts nor ends with a blank. Trimming gives such a text, and leaves
alone a text that is one.
-/

set_option autoImplicit false

namespace Collate.Text

variable {cs ds : List Char}

/-- Neither end of a text is blank. -/
structure Trimmed (cs : List Char) : Prop where
  front : ∀ c ∈ cs.head?, isBlank c = false
  back : ∀ c ∈ cs.getLast?, isBlank c = false

/-- A text without blanks. -/
def Solid (cs : List Char) : Prop := ∀ c ∈ cs, isBlank c = false

instance (cs : List Char) : Decidable (Solid cs) :=
  List.decidableBAll (fun c => isBlank c = false) cs

/-- A text that is empty or starts with a blank. -/
def Parted (cs : List Char) : Prop := ∀ c ∈ cs.head?, isBlank c = true

theorem parted_cons {c : Char} (blank : isBlank c = true) (cs : List Char) : Parted (c :: cs) := by
  simpa [Parted] using blank

/-- A text without blanks ends where a blank follows. -/
theorem Solid.append_inj {r s : List Char} (solid : Solid cs) (solid' : Solid ds) (parted : Parted r)
    (parted' : Parted s) (same : cs ++ r = ds ++ s) : cs = ds ∧ r = s := by
  have front {cs r : List Char} (solid : Solid cs) (parted : Parted r) :
      (cs ++ r).takeWhile (fun c => !isBlank c) = cs := by
    rw [List.takeWhile_append_of_pos fun c member => by simp [solid c member]]
    cases r with
    | nil => simp
    | cons c r =>
      have blank : isBlank c = true := parted c rfl
      simp [blank]
  have names : cs = ds := by rw [← front solid parted, same, front solid' parted']
  subst names
  exact ⟨rfl, List.append_cancel_left same⟩

theorem head?_trimStart (cs : List Char) : ∀ c ∈ (trimStart cs).head?, isBlank c = false := by
  intro c member
  have first := List.head?_dropWhile_not isBlank cs
  rw [trimStart] at member
  rw [Option.mem_def.1 member] at first
  exact first

theorem trimStart_suffix (cs : List Char) : trimStart cs <:+ cs := List.dropWhile_suffix isBlank

theorem prefix_trimEnd (cs : List Char) : trimEnd cs <+: cs := by
  rw [← List.reverse_suffix, trimEnd, List.reverse_reverse]
  exact List.dropWhile_suffix isBlank

theorem trim_sublist (cs : List Char) : (trim cs).Sublist cs :=
  (prefix_trimEnd _).sublist.trans (trimStart_suffix cs).sublist

theorem trimStart_eq_self (front : ∀ c ∈ cs.head?, isBlank c = false) : trimStart cs = cs := by
  cases cs with
  | nil => rfl
  | cons c cs => exact trimStart_of_not_isBlank (front c rfl)

/-- Blanks in front do not count. -/
theorem trimStart_append (blank : allBlank cs = true) (ds : List Char) : trimStart (cs ++ ds) = trimStart ds :=
  List.dropWhile_append_of_pos (List.all_eq_true.1 blank)

theorem trimEnd_eq_self (back : ∀ c ∈ cs.getLast?, isBlank c = false) : trimEnd cs = cs := by
  rw [← List.head?_reverse] at back
  have same : cs.reverse.dropWhile isBlank = cs.reverse := trimStart_eq_self back
  rw [trimEnd, same, List.reverse_reverse]

theorem Trimmed.trim_eq (trimmed : Trimmed cs) : trim cs = cs := by
  rw [trim, trimStart_eq_self trimmed.front, trimEnd_eq_self trimmed.back]

theorem trimmed_trim (cs : List Char) : Trimmed (trim cs) where
  front := by
    intro c member
    apply head?_trimStart cs
    obtain ⟨rest, first⟩ := List.head?_eq_some_iff.1 member
    obtain ⟨dropped, whole⟩ := prefix_trimEnd (trimStart cs)
    change trimEnd (trimStart cs) = c :: rest at first
    rw [← whole, first]
    rfl
  back := by
    intro c member
    rw [trim, trimEnd, List.getLast?_reverse] at member
    exact head?_trimStart _ c member

theorem Trimmed.trimStart_append (trimmed : Trimmed cs) (some : cs ≠ []) (r : List Char) :
    trimStart (cs ++ r) = cs ++ r := by
  apply trimStart_eq_self
  rw [List.head?_append_of_ne_nil _ some]
  exact trimmed.front

theorem Trimmed.allBlank_eq_false (trimmed : Trimmed cs) (some : cs ≠ []) : allBlank cs = false := by
  obtain ⟨c, rest, rfl⟩ := List.exists_cons_of_ne_nil some
  rw [allBlank, List.all_cons, trimmed.front c rfl, Bool.false_and]

/-- Two trimmed texts with something between them are one, if there is something in both. -/
theorem Trimmed.append (trimmed : Trimmed cs) (trimmed' : Trimmed ds) (some : cs ≠ []) (some' : ds ≠ [])
    (between : List Char) : Trimmed (cs ++ (between ++ ds)) where
  front := by
    intro c member
    rw [List.head?_append_of_ne_nil _ some] at member
    exact trimmed.front c member
  back := by
    intro c member
    rw [List.getLast?_append_of_ne_nil _ (by simp [some']), List.getLast?_append_of_ne_nil _ some'] at member
    exact trimmed'.back c member

theorem trim_eq_nil_iff : trim cs = [] ↔ allBlank cs = true := by
  rw [allBlank, List.all_eq_true, trim, trimEnd, List.reverse_eq_nil_iff, List.dropWhile_eq_nil_iff]
  simp only [List.mem_reverse]
  constructor
  · intro blank
    have none : trimStart cs = [] := by
      cases shown : trimStart cs with
      | nil => rfl
      | cons c rest =>
        have first := head?_trimStart cs c (by rw [shown]; rfl)
        rw [blank c (by rw [shown]; exact List.mem_cons_self)] at first
        cases first
    exact List.dropWhile_eq_nil_iff.1 none
  · intro blank c member
    exact blank c ((trimStart_suffix cs).subset member)

end Collate.Text
