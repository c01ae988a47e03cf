import Mathlib.Tactic

set_option autoImplicit false

/-! # Patterns over what is read character by character

A pattern is a list of items: one character, an edge of a word, or up to so many characters. What it
is matched against is given by how its next character is read, so the same pattern can be looked for
in a text and in a text that is read in another way. Two readings that keep in step find the same
(`search_congr`).
-/

namespace Lib.Pattern

variable {α σ τ : Type}

inductive Item (α : Type) where
  | one (p : α → Bool)
  /-- The edge of a word: `\b`. -/
  | edge
  | upTo (n : ℕ) (p : α → Bool)

/-- The next character, and where to read on. -/
abbrev Step (α σ : Type) := σ → Option (α × σ)

/-- A text, from its front. -/
def textStep : Step α (List α)
  | [] => none
  | c :: cs => some (c, cs)

section Match

variable (word : α → Bool) (step : Step α σ)

/-- Skips up to `n` characters that `p` holds of, wherever `go` holds behind them. -/
def skipThen (p : α → Bool) (go : Option α → σ → Bool) : ℕ → Option α → σ → Bool
  | 0, prev, s => go prev s
  | n + 1, prev, s =>
      go prev s ||
        match step s with
        | some (c, s') => p c && skipThen p go n (some c) s'
        | none => false

/-- Whether the items match here, behind the character `prev`. -/
def matchAt : List (Item α) → Option α → σ → Bool
  | [], _, _ => true
  | .one p :: items, _, s =>
      match step s with
      | some (c, s') => p c && matchAt items (some c) s'
      | none => false
  | .edge :: items, prev, s =>
      (prev.any word != (step s).any fun read => word read.1) && matchAt items prev s
  | .upTo n p :: items, prev, s => skipThen step p (matchAt items) n prev s

/-- Whether the items match here or up to `n` characters further on. -/
def search (items : List (Item α)) : ℕ → Option α → σ → Bool
  | 0, prev, s => matchAt word step items prev s
  | n + 1, prev, s =>
      matchAt word step items prev s ||
        match step s with
        | some (c, s') => search items n (some c) s'
        | none => false

end Match

/-! ## Readings that keep in step -/

section Tracks

variable {word : α → Bool} {step : Step α σ} {step' : Step α τ} {R : σ → τ → Prop}

/-- Where two readings are related, both end or both read the same character. -/
def Tracks (step : Step α σ) (step' : Step α τ) (R : σ → τ → Prop) : Prop :=
  ∀ s t, R s t → Option.Rel (fun read read' => read.1 = read'.1 ∧ R read.2 read'.2) (step s) (step' t)

theorem Tracks.cases (h : Tracks step step' R) {s : σ} {t : τ} (hst : R s t) :
    (step s = none ∧ step' t = none) ∨
      ∃ c s' t', step s = some (c, s') ∧ step' t = some (c, t') ∧ R s' t' := by
  have hrel := h s t hst
  cases hs : step s with
  | none =>
      rw [hs] at hrel
      cases ht : step' t with
      | none => exact Or.inl ⟨rfl, rfl⟩
      | some read' =>
          rw [ht] at hrel
          cases hrel
  | some read =>
      rw [hs] at hrel
      cases ht : step' t with
      | none =>
          rw [ht] at hrel
          cases hrel
      | some read' =>
          rw [ht] at hrel
          cases hrel with
          | some hread =>
              obtain ⟨c, s'⟩ := read
              obtain ⟨c', t'⟩ := read'
              obtain ⟨rfl, hR⟩ := hread
              exact Or.inr ⟨c, s', t', rfl, rfl, hR⟩

theorem skipThen_congr (h : Tracks step step' R) {p : α → Bool} {go : Option α → σ → Bool}
    {go' : Option α → τ → Bool} (hgo : ∀ prev s t, R s t → go prev s = go' prev t) (n : ℕ)
    (prev : Option α) {s : σ} {t : τ} (hst : R s t) :
    skipThen step p go n prev s = skipThen step' p go' n prev t := by
  induction n generalizing prev s t with
  | zero => exact hgo prev s t hst
  | succ n ih =>
      rw [skipThen, skipThen, hgo prev s t hst]
      rcases h.cases hst with ⟨hs, ht⟩ | ⟨c, s', t', hs, ht, hst'⟩
      · rw [hs, ht]
      · rw [hs, ht]
        dsimp only
        rw [ih (some c) hst']

theorem matchAt_congr (h : Tracks step step' R) (items : List (Item α)) (prev : Option α) {s : σ}
    {t : τ} (hst : R s t) : matchAt word step items prev s = matchAt word step' items prev t := by
  induction items generalizing prev s t with
  | nil => rfl
  | cons item items ih =>
      cases item with
      | one p =>
          rw [matchAt, matchAt]
          rcases h.cases hst with ⟨hs, ht⟩ | ⟨c, s', t', hs, ht, hst'⟩
          · rw [hs, ht]
          · rw [hs, ht]
            dsimp only
            rw [ih (some c) hst']
      | edge =>
          rw [matchAt, matchAt, ih prev hst]
          rcases h.cases hst with ⟨hs, ht⟩ | ⟨c, s', t', hs, ht, -⟩
          · rw [hs, ht]
            rfl
          · rw [hs, ht]
            rfl
      | upTo n p => exact skipThen_congr h (fun prev s t hst => ih prev hst) n prev hst

/-- Readings that keep in step find the same. -/
theorem search_congr (h : Tracks step step' R) (items : List (Item α)) (n : ℕ) (prev : Option α)
    {s : σ} {t : τ} (hst : R s t) :
    search word step items n prev s = search word step' items n prev t := by
  induction n generalizing prev s t with
  | zero => exact matchAt_congr h items prev hst
  | succ n ih =>
      rw [search, search, matchAt_congr h items prev hst]
      rcases h.cases hst with ⟨hs, ht⟩ | ⟨c, s', t', hs, ht, hst'⟩
      · rw [hs, ht]
      · rw [hs, ht]
        dsimp only
        rw [ih (some c) hst']

end Tracks

/-- In a text there is nothing to find behind its end. -/
theorem search_textStep_of_le {word : α → Bool} {items : List (Item α)} {n : ℕ} {text : List α}
    (prev : Option α) (h : text.length ≤ n) :
    search word textStep items n prev text =
      search word textStep items text.length prev text := by
  induction text generalizing n prev with
  | nil =>
      cases n with
      | zero => rfl
      | succ n => simp [search, textStep]
  | cons c text ih =>
      rw [List.length_cons] at h
      obtain ⟨n, rfl⟩ := Nat.exists_eq_succ_of_ne_zero (show n ≠ 0 by omega)
      rw [Nat.succ_eq_add_one, List.length_cons, search, search]
      dsimp only [textStep]
      rw [ih (some c) (by omega)]

end Lib.Pattern
