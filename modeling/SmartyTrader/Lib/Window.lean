import Mathlib.Tactic

set_option autoImplicit false

/-! # Sums over a sliding window

`windowSum xs width i` is the sum of the `width` entries of `xs` that end with entry `i`. One more
entry enters the window and the oldest one leaves it when the window moves on by one.
-/

namespace Lib.Window

variable {α : Type} [AddCommGroup α]

def windowSum (xs : List α) (width i : ℕ) : α := ((xs.take (i + 1)).drop (i + 1 - width)).sum

/-- A window reads nothing behind the entry it ends with. -/
theorem windowSum_append (xs ys : List α) (width : ℕ) {i : ℕ} (hi : i < xs.length) :
    windowSum (xs ++ ys) width i = windowSum xs width i := by
  unfold windowSum
  rw [List.take_append_of_le_length (by omega)]

/-- A window as a difference of two prefix sums. -/
theorem windowSum_eq_sub (xs : List α) (width i : ℕ) :
    windowSum xs width i = (xs.take (i + 1)).sum - (xs.take (i + 1 - width)).sum := by
  have hsplit := List.sum_take_add_sum_drop (xs.take (i + 1)) (i + 1 - width)
  rw [List.take_take, Nat.min_eq_left (by omega)] at hsplit
  rw [← hsplit, windowSum]
  abel

theorem sum_take_succ_getD (xs : List α) {i : ℕ} (hi : i < xs.length) :
    (xs.take (i + 1)).sum = (xs.take i).sum + xs.getD i 0 := by
  rw [List.take_add_one, List.getElem?_eq_getElem hi, List.sum_append]
  simp [hi]

/-- Moving the window on by one: the new entry minus the one that falls out. -/
theorem windowSum_succ (xs : List α) {width i : ℕ} (hwidth : width ≤ i + 1)
    (hi : i + 1 < xs.length) :
    windowSum xs width (i + 1) =
      windowSum xs width i + (xs.getD (i + 1) 0 - xs.getD (i + 1 - width) 0) := by
  have hnew := sum_take_succ_getD xs hi
  cases width with
  | zero =>
      rw [windowSum_eq_sub, windowSum_eq_sub]
      simp
  | succ width =>
      have hold := sum_take_succ_getD xs (i := i - width) (by omega)
      rw [windowSum_eq_sub, windowSum_eq_sub]
      rw [show i + 1 + 1 - (width + 1) = i - width + 1 by omega]
      rw [show i + 1 - (width + 1) = i - width by omega, hnew, hold]
      abel

end Lib.Window
