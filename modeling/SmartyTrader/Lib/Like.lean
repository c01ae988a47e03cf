import SmartyTrader.Lib.Lines

set_option autoImplicit false

/-! # The `LIKE` operator

A pattern of `LIKE` stands for a whole text: `%` for any piece of it, `_` for any character, and
every other character for itself, in either case. A pattern without these two that `%` encloses
asks whether it occurs in the text, up to case (`like_contains_iff`).
-/

namespace Lib

/-- Whether a text is like a pattern. -/
def like : Text → Text → Bool
  | [], text => text.isEmpty
  | c :: pattern, text =>
      if c = '%' then text.tails.any (like pattern)
      else
        match text with
        | [] => false
        | d :: text => (c = '_' || c.toLower = d.toLower) && like pattern text

/-- `'%' || s || '%'`, what a search for `s` asks for. -/
def containing (s : Text) : Text := '%' :: (s ++ ['%'])

/-- Without the characters that a pattern gives a meaning. -/
def Literal (s : Text) : Prop := '%' ∉ s ∧ '_' ∉ s

theorem like_percent (pattern text : Text) :
    like ('%' :: pattern) text = text.tails.any (like pattern) := by
  cases text <;> rfl

theorem like_cons {c : Char} (hc : c ≠ '%') (pattern : Text) (d : Char) (text : Text) :
    like (c :: pattern) (d :: text)
      = ((c = '_' || c.toLower = d.toLower) && like pattern text) := by
  simp [like, hc]

theorem like_any (text : Text) : like ['%'] text = true := by
  rw [like_percent, List.any_eq_true]
  exact ⟨[], List.mem_tails _ _ |>.mpr List.nil_suffix, rfl⟩

theorem like_append_any_iff {s : Text} (hs : Literal s) (text : Text) :
    like (s ++ ['%']) text = true ↔ s.map Char.toLower <+: text.map Char.toLower := by
  induction s generalizing text with
  | nil => simp [like_any]
  | cons c s ih =>
      have hc : c ≠ '%' ∧ c ≠ '_' := ⟨fun h => hs.1 (by simp [h]), fun h => hs.2 (by simp [h])⟩
      have hrest : Literal s :=
        ⟨fun h => hs.1 (List.mem_cons_of_mem _ h), fun h => hs.2 (List.mem_cons_of_mem _ h)⟩
      rw [List.cons_append]
      cases text with
      | nil => simp [like, hc.1]
      | cons d text =>
          rw [like_cons hc.1, List.map_cons, List.map_cons, List.cons_prefix_cons, ← ih hrest]
          simp [hc.2]

/-- **A search is a search for a piece, up to case.** -/
theorem like_contains_iff {s : Text} (hs : Literal s) (text : Text) :
    like (containing s) text = true ↔ s.map Char.toLower <:+: text.map Char.toLower := by
  rw [containing, like_percent, List.any_eq_true, List.infix_iff_prefix_suffix]
  constructor
  · rintro ⟨rest, hrest, hlike⟩
    exact ⟨rest.map Char.toLower, (like_append_any_iff hs rest).mp hlike,
      ((List.mem_tails _ _).mp hrest).map _⟩
  · rintro ⟨folded, hprefix, before, hsuffix⟩
    obtain ⟨front, rest, rfl, -, rfl⟩ := List.map_eq_append_iff.mp hsuffix.symm
    exact ⟨rest, (List.mem_tails _ _).mpr (List.suffix_append front rest),
      (like_append_any_iff hs rest).mpr hprefix⟩

end Lib
