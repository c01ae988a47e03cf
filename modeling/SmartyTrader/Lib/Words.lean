import Mathlib.Tactic

set_option autoImplicit false

/-! # Words at a place of a text

`matchWord fits word text` reads a word off the front of a text, with `fits` deciding which
characters a letter of the word stands for. A word that only begins with a certain character cannot
straddle two texts of which the second begins with that character (`matchWord_of_append`), so what
such words do to a joined text is what they do to its parts.
-/

namespace Lib.Words

variable {α β : Type} (fits : β → α → Bool)

/-- What was read and what is left. -/
def matchWord : List β → List α → Option (List α × List α)
  | [], text => some ([], text)
  | _ :: _, [] => none
  | p :: word, c :: text =>
      if fits p c then (matchWord word text).map fun read => (c :: read.1, read.2) else none

variable {fits} {word : List β}

theorem matchWord_eq_some_iff {text read rest : List α} :
    matchWord fits word text = some (read, rest) ↔
      text = read ++ rest ∧ List.Forall₂ (fun p c => fits p c = true) word read := by
  induction word generalizing text read with
  | nil =>
      simp only [matchWord, Option.some.injEq, Prod.mk.injEq, List.forall₂_nil_left_iff]
      constructor
      · rintro ⟨rfl, rfl⟩
        exact ⟨rfl, rfl⟩
      · rintro ⟨rfl, rfl⟩
        exact ⟨rfl, rfl⟩
  | cons p word ih =>
      cases text with
      | nil =>
          simp only [matchWord, reduceCtorEq, false_iff]
          rintro ⟨hnil, hall⟩
          cases hall
          cases hnil
      | cons c text =>
          simp only [matchWord]
          by_cases hfits : fits p c = true
          · rw [if_pos hfits, Option.map_eq_some_iff]
            constructor
            · rintro ⟨⟨read', rest'⟩, hread, heq⟩
              obtain ⟨rfl, rfl⟩ := Prod.mk.inj heq
              obtain ⟨rfl, hall⟩ := ih.mp hread
              exact ⟨rfl, .cons hfits hall⟩
            · rintro ⟨htext, hall⟩
              cases hall with
              | cons _ hall =>
                  obtain ⟨rfl, rfl⟩ := List.cons.inj htext
                  exact ⟨_, ih.mpr ⟨rfl, hall⟩, rfl⟩
          · rw [if_neg hfits]
            simp only [reduceCtorEq, false_iff]
            rintro ⟨htext, hall⟩
            cases hall with
            | cons hp _ =>
                obtain ⟨rfl, -⟩ := List.cons.inj htext
                exact hfits hp

/-- Each character that was read is one that a letter of the word stands for. -/
theorem exists_of_mem_read {read : List α} {c : α}
    (h : List.Forall₂ (fun p c => fits p c = true) word read) (hc : c ∈ read) :
    ∃ p ∈ word, fits p c = true := by
  induction h with
  | nil => cases hc
  | cons hfits _ ih =>
      rcases List.mem_cons.mp hc with rfl | hc
      · exact ⟨_, List.mem_cons_self, hfits⟩
      · obtain ⟨p, hp, hfits⟩ := ih hc
        exact ⟨p, List.mem_cons_of_mem _ hp, hfits⟩

/-- A longer text begins with the same word. -/
theorem matchWord_append {text read rest : List α} (more : List α)
    (h : matchWord fits word text = some (read, rest)) :
    matchWord fits word (text ++ more) = some (read, rest ++ more) := by
  obtain ⟨rfl, hall⟩ := matchWord_eq_some_iff.mp h
  exact matchWord_eq_some_iff.mpr ⟨List.append_assoc _ _ _, hall⟩

/-- A word whose later letters do not stand for `c` ends before a `c` that follows. -/
theorem matchWord_of_append {text read rest more : List α} {c : α} (hne : text ≠ [])
    (hword : ∀ p ∈ word.tail, fits p c = false)
    (h : matchWord fits word (text ++ c :: more) = some (read, rest)) :
    ∃ rest', matchWord fits word text = some (read, rest') ∧ rest = rest' ++ c :: more := by
  obtain ⟨heq, hall⟩ := matchWord_eq_some_iff.mp h
  rcases List.append_eq_append_iff.mp heq with ⟨extra, hread, hmore⟩ | ⟨rest', htext, hrest⟩
  · cases extra with
    | nil =>
        rw [List.append_nil] at hread
        refine ⟨[], matchWord_eq_some_iff.mpr ⟨?_, hall⟩, hmore.symm⟩
        rw [hread, List.append_nil]
    | cons d extra =>
        -- the word would reach the `c` with one of its later letters
        exfalso
        obtain ⟨rfl, -⟩ := List.cons.inj hmore
        obtain ⟨b, front, rfl⟩ := List.exists_cons_of_ne_nil hne
        rw [hread] at hall
        cases hall with
        | cons _ hall =>
            obtain ⟨p, hp, hfits⟩ := exists_of_mem_read hall (List.mem_append_right _ List.mem_cons_self)
            rw [hword p hp] at hfits
            cases hfits
  · exact ⟨rest', matchWord_eq_some_iff.mpr ⟨htext, hall⟩, hrest⟩

end Lib.Words
