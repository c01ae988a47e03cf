import Mathlib.Tactic

set_option autoImplicit false

/-! # Lines of a text

A text is a list of characters and its lines are the pieces between a separator. What has no
separator of its own occurs within one line (`mem_lines_around`), and the lines of a joined text are
the lines of its parts (`lines_join`). `oddPieces` reads every second piece of a text that fences
cut up.
-/

/-- Texts as lists of characters. -/
abbrev Lib.Text := List Char

namespace Lib.Lines

variable {α : Type} [DecidableEq α] (sep : α)

/-- The parts with a separator between them. -/
def join (parts : List (List α)) : List α := [sep].intercalate parts

omit [DecidableEq α] in
theorem join_cons (part : List α) {parts : List (List α)} (h : parts ≠ []) :
    join sep (part :: parts) = part ++ sep :: join sep parts := by
  unfold join
  rw [List.intercalate_cons_of_ne_nil h]
  simp

theorem lines_join {parts : List (List α)} (h : parts ≠ []) :
    (join sep parts).splitOn sep = parts.flatMap fun part => part.splitOn sep := by
  induction parts with
  | nil => exact absurd rfl h
  | cons part parts ih =>
      by_cases hlast : parts = []
      · simp [hlast, join]
      · rw [join_cons sep part hlast, List.splitOn_append_cons_self, ih hlast, List.flatMap_cons]

/-- Every line of a text is a part of it. -/
theorem infix_of_mem_lines {text line : List α} (h : line ∈ text.splitOn sep) : line <:+: text := by
  induction hn : text.length using Nat.strong_induction_on generalizing text with
  | _ n ih =>
      by_cases hsep : sep ∈ text
      · obtain ⟨before, after, rfl⟩ := List.append_of_mem hsep
        rw [List.splitOn_append_cons_self] at h
        rw [List.length_append, List.length_cons] at hn
        rcases List.mem_append.mp h with hbefore | hafter
        · exact (ih _ (by omega) hbefore rfl).trans (List.prefix_append _ _).isInfix
        · have hsuffix : after <:+: before ++ sep :: after :=
            ⟨before ++ [sep], [], by simp⟩
          exact (ih _ (by omega) hafter rfl).trans hsuffix
      · rw [List.splitOn_eq_singleton hsep, List.mem_singleton] at h
        rw [h]

/-- The line that a text begins with. -/
def firstLine (text : List α) : List α := text.takeWhile (· ≠ sep)

/-- The line that a text ends with. -/
def lastLine (text : List α) : List α := (text.reverse.takeWhile (· ≠ sep)).reverse

theorem not_mem_firstLine (text : List α) : sep ∉ firstLine sep text := by
  intro h
  have := List.all_eq_true.mp (List.all_takeWhile (p := (· ≠ sep)) (l := text)) sep h
  simp at this

theorem not_mem_lastLine (text : List α) : sep ∉ lastLine sep text := by
  exact fun h => not_mem_firstLine sep text.reverse (List.mem_reverse.mp h)

theorem firstLine_spec (text : List α) :
    text = firstLine sep text ∨ ∃ rest, text = firstLine sep text ++ sep :: rest := by
  have hsplit := List.takeWhile_append_dropWhile (p := (· ≠ sep)) (l := text)
  cases hrest : text.dropWhile (· ≠ sep) with
  | nil =>
      rw [hrest, List.append_nil] at hsplit
      exact Or.inl hsplit.symm
  | cons c rest =>
      right
      have hc : c = sep := by
        have := List.head?_dropWhile_not (· ≠ sep) text
        rw [hrest] at this
        simpa using this
      refine ⟨rest, ?_⟩
      rw [hrest, hc] at hsplit
      exact hsplit.symm

theorem lastLine_spec (text : List α) :
    text = lastLine sep text ∨ ∃ rest, text = rest ++ sep :: lastLine sep text := by
  rcases firstLine_spec sep text.reverse with h | ⟨rest, h⟩
  · left
    have := congrArg List.reverse h
    simpa [firstLine, lastLine] using this
  · right
    refine ⟨rest.reverse, ?_⟩
    have := congrArg List.reverse h
    simpa [firstLine, lastLine] using this

/-- A line between two separators, or between a separator and an end of the text. -/
theorem mem_lines {before line after : List α} (hline : sep ∉ line)
    (hbefore : before = [] ∨ ∃ rest, before = rest ++ [sep])
    (hafter : after = [] ∨ ∃ rest, after = sep :: rest) :
    line ∈ (before ++ line ++ after).splitOn sep := by
  have hself := List.splitOn_eq_singleton hline
  have hend : line ∈ (line ++ after).splitOn sep := by
    rcases hafter with rfl | ⟨rest, rfl⟩
    · rw [List.append_nil, hself]
      exact List.mem_singleton_self line
    · rw [List.splitOn_append_cons_self, hself]
      exact List.mem_append_left _ (List.mem_singleton_self line)
  rcases hbefore with rfl | ⟨rest, rfl⟩
  · exact hend
  · have hshape : rest ++ [sep] ++ line ++ after = rest ++ sep :: (line ++ after) := by simp
    rw [hshape, List.splitOn_append_cons_self]
    exact List.mem_append_right _ hend

/-- What has no separator of its own lies within one line. -/
theorem mem_lines_around (before word after : List α) (hword : sep ∉ word) :
    lastLine sep before ++ word ++ firstLine sep after ∈
      (before ++ word ++ after).splitOn sep := by
  have hline : sep ∉ lastLine sep before ++ word ++ firstLine sep after := by
    simp [not_mem_firstLine, not_mem_lastLine, hword]
  have hb : ∃ front, before = front ++ lastLine sep before ∧
      (front = [] ∨ ∃ rest, front = rest ++ [sep]) := by
    rcases lastLine_spec sep before with h | ⟨rest, h⟩
    · exact ⟨[], h, Or.inl rfl⟩
    · exact ⟨rest ++ [sep], by simpa using h, Or.inr ⟨rest, rfl⟩⟩
  have ha : ∃ tail, after = firstLine sep after ++ tail ∧ (tail = [] ∨ ∃ rest, tail = sep :: rest) := by
    rcases firstLine_spec sep after with h | ⟨rest, h⟩
    · exact ⟨[], by simpa using h, Or.inl rfl⟩
    · exact ⟨sep :: rest, h, Or.inr ⟨rest, rfl⟩⟩
  obtain ⟨front, hb, hfront⟩ := hb
  obtain ⟨tail, ha, htail⟩ := ha
  have hshape : before ++ word ++ after =
      front ++ (lastLine sep before ++ word ++ firstLine sep after) ++ tail := by
    conv_lhs => rw [hb, ha]
    simp
  rw [hshape]
  exact mem_lines sep hline hfront htail

/-- Every second piece: what stands within the fences of a list that fences cut up. -/
def oddPieces {β : Type} : List β → List β
  | _ :: inside :: rest => inside :: oddPieces rest
  | _ => []

/-! ## What stands between two separators -/

omit [DecidableEq α] in
theorem join_append {before after : List (List α)} (hbefore : before ≠ []) (hafter : after ≠ []) :
    join sep (before ++ after) = join sep before ++ sep :: join sep after := by
  induction before with
  | nil => exact absurd rfl hbefore
  | cons part rest ih =>
      by_cases hrest : rest = []
      · subst hrest
        rw [List.singleton_append, join_cons sep part hafter]
        simp [join]
      · rw [List.cons_append, join_cons sep part (by simp [hrest]), ih hrest,
          join_cons sep part hrest]
        simp

/-- A word with a separator on either side is a part of a joined text that is neither the first
nor the last. -/
theorem fenced_infix_iff {parts : List (List α)} (hparts : ∀ part ∈ parts, sep ∉ part)
    (hne : parts ≠ []) {word : List α} (hword : sep ∉ word) :
    sep :: (word ++ [sep]) <:+: join sep parts ↔
      ∃ before after, before ≠ [] ∧ after ≠ [] ∧ parts = before ++ word :: after := by
  constructor
  · rintro ⟨front, tail, htext⟩
    have hshape : front ++ sep :: (word ++ [sep]) ++ tail
        = front ++ sep :: (word ++ sep :: tail) := by simp
    have hlines : (join sep parts).splitOn sep = parts := List.splitOn_intercalate sep hparts hne
    rw [← htext, hshape, List.splitOn_append_cons_self, List.splitOn_append_cons_self,
      List.splitOn_eq_singleton hword] at hlines
    exact ⟨front.splitOn sep, tail.splitOn sep, List.splitOn_ne_nil _ _, List.splitOn_ne_nil _ _,
      hlines.symm⟩
  · rintro ⟨before, after, hbefore, hafter, rfl⟩
    refine ⟨join sep before, join sep after, ?_⟩
    rw [join_append sep hbefore (by simp), join_cons sep word hafter]
    simp

omit [DecidableEq α] in
theorem map_join {β : Type} (f : α → β) (parts : List (List α)) :
    (join sep parts).map f = join (f sep) (parts.map (List.map f)) := by
  induction parts with
  | nil => rfl
  | cons part rest ih =>
      by_cases hrest : rest = []
      · subst hrest
        simp [join]
      · rw [join_cons sep part hrest, List.map_cons, join_cons _ _ (by simpa using hrest), ← ih]
        simp

end Lib.Lines
