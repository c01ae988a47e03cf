import SmartyTrader.Lib.Fifo
import Mathlib.Tactic

set_option autoImplicit false

/-! # Sales from a queue with a tolerance

A program that keeps lots in inexact numbers drops a lot once at most a tolerance `ε` of it is
left. `trim` is what such a sale leaves; it differs from the exact `drop` only when the sale cuts a
lot down to a remainder within the tolerance (`CutsDust`). A sale made in pieces takes and leaves
what one sale of the sum does, as long as no piece but the last cuts dust (`trim_drop`,
`measure_takes`).
-/

namespace Lib.Fifo

universe u v

variable {K : Type u} {δ : Type v} [Field K] [LinearOrder K]

/-- What a sale of `q` leaves when a cut lot with at most `ε` left is dropped. -/
def trim (ε q : K) : List (Lot K δ) → List (Lot K δ)
  | [] => []
  | l :: ls =>
      if q ≤ 0 then l :: ls
      else if l.quantity ≤ q then trim ε (q - l.quantity) ls
      else if l.quantity - q ≤ ε then ls
      else part l (l.quantity - q) :: ls

/-- A sale of `q` cuts a lot and leaves at most `ε` of it. -/
def CutsDust (ε q : K) : List (Lot K δ) → Prop
  | [] => False
  | l :: ls =>
      if q ≤ 0 then False
      else if l.quantity ≤ q then CutsDust ε (q - l.quantity) ls
      else l.quantity - q ≤ ε

instance decidableCutsDust (ε : K) :
    (q : K) → (ls : List (Lot K δ)) → Decidable (CutsDust ε q ls)
  | _, [] => inferInstanceAs (Decidable False)
  | q, l :: ls =>
      if h0 : q ≤ 0 then isFalse (by simp [CutsDust, h0])
      else if h1 : l.quantity ≤ q then
        have := decidableCutsDust ε (q - l.quantity) ls
        decidable_of_iff (CutsDust ε (q - l.quantity) ls) (by simp [CutsDust, h0, h1])
      else decidable_of_iff (l.quantity - q ≤ ε) (by simp [CutsDust, h0, h1])

theorem trim_of_nonpos (ε : K) {q : K} (ls : List (Lot K δ)) (h : q ≤ 0) : trim ε q ls = ls := by
  cases ls with
  | nil => rfl
  | cons l ls => simp [trim, h]

/-- Without dust the sale is the exact one. -/
theorem trim_eq_drop {ε : K} {ls : List (Lot K δ)} {q : K} (h : ¬ CutsDust ε q ls) :
    trim ε q ls = drop q ls := by
  induction ls generalizing q with
  | nil => rfl
  | cons l ls ih =>
      by_cases h0 : q ≤ 0
      · rw [trim_of_nonpos _ _ h0, drop_of_nonpos _ h0]
      · simp only [CutsDust, if_neg h0] at h
        by_cases h1 : l.quantity ≤ q
        · rw [if_pos h1] at h
          simp only [trim, drop, if_neg h0, if_pos h1]
          exact ih h
        · rw [if_neg h1] at h
          simp only [trim, drop, if_neg h0, if_neg h1, if_neg h]

variable [IsStrictOrderedRing K]

/-- A last piece that is not empty leaves what the sale of the sum leaves. -/
theorem trim_drop (ε : K) {ls : List (Lot K δ)} (h : Positive ls) {a b : K} (ha : 0 ≤ a)
    (hb : 0 < b) : trim ε b (drop a ls) = trim ε (a + b) ls := by
  induction ls generalizing a with
  | nil => rfl
  | cons l ls ih =>
      by_cases h1 : a ≤ 0
      · rw [drop_of_nonpos _ h1, le_antisymm h1 ha, zero_add]
      · have hab : ¬ a + b ≤ 0 := by linarith
        by_cases h2 : l.quantity ≤ a
        · have h3 : l.quantity ≤ a + b := by linarith
          simp only [drop, trim, if_neg h1, if_pos h2, if_neg hab, if_pos h3]
          rw [ih h.tail (by linarith), sub_add_eq_add_sub]
        · -- the second piece goes on with the lot that the first one cut
          have hne : l.quantity - a ≠ 0 := by
            intro hn
            exact h2 (by linarith)
          have h5 : l.quantity - a ≤ b ↔ l.quantity ≤ a + b := sub_le_iff_le_add'
          have h6 : b - (l.quantity - a) = a + b - l.quantity := by ring
          simp only [drop, trim, if_neg h1, if_neg h2, if_neg (not_le.mpr hb), if_neg hab,
            part_quantity, h5, h6, sub_sub, part_part l _ hne]

/-- What two pieces take, one after the other, weighs what the sale of the sum takes. -/
theorem measure_take_take {f : Lot K δ → K} (hf : Proportional f) {ls : List (Lot K δ)}
    (h : Positive ls) {a b : K} (ha : 0 ≤ a) (hb : 0 ≤ b) :
    measure f (take a ls) + measure f (take b (drop a ls)) = measure f (take (a + b) ls) := by
  have hfirst := measure_take_add_drop hf h a
  have hsecond := measure_take_add_drop hf (positive_drop a h) b
  have hboth := measure_take_add_drop hf h (a + b)
  rw [drop_drop h ha hb] at hsecond
  linarith

/-- On a queue and a sale that are multiples of a unit above the tolerance, nothing is dust. -/
theorem not_cutsDust {ε : K} {ls : List (Lot K δ)} {q : K} {G : AddSubgroup K}
    (hG : ∀ x ∈ G, 0 < x → ε < x) (hls : ∀ l ∈ ls, l.quantity ∈ G) (hq : q ∈ G) :
    ¬ CutsDust ε q ls := by
  induction ls generalizing q with
  | nil => exact id
  | cons l ls ih =>
      have hl := hls l List.mem_cons_self
      simp only [CutsDust]
      split_ifs with h0 h1
      · exact id
      · exact ih (fun m hm => hls m (List.mem_cons_of_mem _ hm)) (G.sub_mem hq hl)
      · exact not_le.mpr (hG _ (G.sub_mem hl hq) (sub_pos.mpr (not_le.mp h1)))

end Lib.Fifo
