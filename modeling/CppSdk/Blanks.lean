import Mathlib.Data.List.DropRight

/-!
Lists with elements that count as blank: the list without the blanks at its ends, the
list without any, and how the two agree.
-/
namespace CppSdk.Blanks

variable {α : Type}

/-- The list without the blanks at its ends. -/
def trimBy (blank : α → Bool) (text : List α) : List α := ((text.dropWhile blank).reverse.dropWhile blank).reverse
/-- The list without its blanks. -/
def stripBy (blank : α → Bool) (text : List α) : List α := text.filter (fun c => !blank c)

variable {blank : α → Bool} {text : List α}

theorem trimBy_within : trimBy blank text <:+: text := by
  have back : trimBy blank text <+: text.dropWhile blank := List.rdropWhile_prefix blank _
  exact back.isInfix.trans (List.dropWhile_suffix blank).isInfix
theorem stripBy_append (front back : List α) : stripBy blank (front ++ back) = stripBy blank front ++ stripBy blank back :=
  List.filter_append ..

theorem dropWhile_clean (clean : ∀ c ∈ text, blank c = false) : text.dropWhile blank = text := by
  cases text with
  | nil => rfl
  | cons c rest => rw [List.dropWhile_cons_of_neg (by simp [clean c])]
/-- A list without blanks is not trimmed. -/
theorem trimBy_clean (clean : ∀ c ∈ text, blank c = false) : trimBy blank text = text := by
  rw [trimBy,dropWhile_clean clean,dropWhile_clean (fun c member => clean c (List.mem_reverse.mp member)),List.reverse_reverse]
theorem stripBy_clean (clean : ∀ c ∈ text, blank c = false) : stripBy blank text = text :=
  List.filter_eq_self.mpr (fun c member => by rw [clean c member]; rfl)

theorem stripBy_dropWhile (text : List α) : stripBy blank (text.dropWhile blank) = stripBy blank text := by
  induction text with
  | nil => rfl
  | cons c rest ih =>
    by_cases space : blank c = true
    · rw [List.dropWhile_cons_of_pos space,ih,stripBy,stripBy,List.filter_cons_of_neg (by simp [space])]
    · rw [List.dropWhile_cons_of_neg space]
theorem stripBy_trimBy (text : List α) : stripBy blank (trimBy blank text) = stripBy blank text := by
  have reversed : ∀ t : List α, stripBy blank t.reverse = (stripBy blank t).reverse := fun t => List.filter_reverse
  rw [trimBy,reversed,stripBy_dropWhile,reversed,List.reverse_reverse,stripBy_dropWhile]
/-- Only blanks are trimmed to nothing. -/
theorem trimBy_nil : trimBy blank text = [] ↔ stripBy blank text = [] := by
  constructor
  · intro empty
    rw [← stripBy_trimBy,empty]
    rfl
  · intro empty
    have all : ∀ c ∈ text, blank c = true := by simpa [stripBy] using List.filter_eq_nil_iff.mp empty
    rw [trimBy,List.dropWhile_eq_nil_iff.mpr all]
    rfl

/-- A trimmed list begins with no blank. -/
theorem trimBy_begins {rest : List α} {c : α} (split : trimBy blank text = c :: rest) : blank c = false := by
  have front : c :: rest <+: text.dropWhile blank := split ▸ List.rdropWhile_prefix blank _
  obtain ⟨more,same⟩ := front
  have first := List.head?_dropWhile_not blank text
  rw [← same] at first
  exact first
/-- A trimmed list does not end in blanks. -/
theorem trimBy_ends {front blanks : List α} (split : trimBy blank text = front ++ blanks) (all : ∀ c ∈ blanks, blank c = true) :
    blanks = [] := by
  have again : (trimBy blank text).rdropWhile blank = trimBy blank text := List.rdropWhile_idempotent blank _
  induction blanks using List.reverseRecOn with
  | nil => rfl
  | append_singleton blanks c ih =>
    rw [split,← List.append_assoc,List.rdropWhile_concat_pos blank _ _ (all c (by simp))] at again
    have shorter := (List.rdropWhile_prefix blank (front ++ blanks)).length_le
    rw [again] at shorter
    simp only [List.length_append,List.length_singleton] at shorter
    omega

theorem trimBy_trimBy (text : List α) : trimBy blank (trimBy blank text) = trimBy blank text := by
  have front : (trimBy blank text).dropWhile blank = trimBy blank text := by
    cases split : trimBy blank text with
    | nil => rfl
    | cons c rest => rw [List.dropWhile_cons_of_neg (by simp [trimBy_begins split])]
  rw [trimBy,front]
  exact List.rdropWhile_idempotent blank _

/-- Lists with a separator that is no blank between them. -/
theorem stripBy_intercalate {sep : List α} (kept : stripBy blank sep = sep) (texts : List (List α)) :
    stripBy blank (sep.intercalate texts) = sep.intercalate (texts.map (stripBy blank)) := by
  induction texts with
  | nil => rfl
  | cons text rest ih =>
    cases rest with
    | nil => simp
    | cons next rest =>
      rw [List.map_cons] at ih
      rw [List.map_cons,List.map_cons,List.intercalate_cons_cons,List.intercalate_cons_cons,stripBy_append,stripBy_append,ih,kept]

end CppSdk.Blanks
