import Mathlib.Tactic

set_option autoImplicit false

/-! # Grids and rounding down

The numbers that are whole multiples of a unit, and rounding down to them. Two facts carry
everything that follows: a positive number on a grid is at least one unit (`le_of_mem_grid`),
so a tolerance below the unit never confuses something with nothing, and rounding down gives
something exactly when there was one whole unit (`floorTo_pos_iff`).
-/

namespace Lib

variable {K : Type*} [Field K] [LinearOrder K] [IsStrictOrderedRing K]

omit [LinearOrder K] [IsStrictOrderedRing K] in
/-- The whole multiples of `u`. -/
def grid (u : K) : AddSubgroup K := AddSubgroup.zmultiples u

omit [LinearOrder K] [IsStrictOrderedRing K] in
theorem mem_grid_iff {u x : K} : x ∈ grid u ↔ ∃ n : ℤ, (n : K) * u = x := by
  simp only [grid, AddSubgroup.mem_zmultiples_iff, zsmul_eq_mul]

/-- A positive number on a grid is at least one unit. -/
theorem le_of_mem_grid {u x : K} (hu : 0 < u) (hx : 0 < x) (h : x ∈ grid u) : u ≤ x := by
  obtain ⟨n, rfl⟩ := mem_grid_iff.mp h
  have hn : (0 : K) < n := by
    by_contra hn
    exact absurd hx (not_lt.mpr (mul_nonpos_of_nonpos_of_nonneg (not_lt.mp hn) hu.le))
  have h1 : (1 : K) ≤ n := by
    have h0 : (0 : ℤ) < n := by exact_mod_cast hn
    exact_mod_cast h0
  calc u = 1 * u := (one_mul u).symm
    _ ≤ n * u := mul_le_mul_of_nonneg_right h1 hu.le

/-- On a grid wider than `ε`, what is at most `ε` is nothing. -/
theorem le_iff_nonpos_of_mem_grid {u ε x : K} (hε : 0 ≤ ε) (hu : ε < u) (h : x ∈ grid u) :
    x ≤ ε ↔ x ≤ 0 := by
  constructor
  · intro hx
    by_contra hn
    have := le_of_mem_grid (lt_of_le_of_lt hε hu) (not_le.mp hn) h
    linarith
  · intro hx
    linarith

variable [FloorRing K]

/-- `x` rounded down to a whole multiple of `u`. -/
def floorTo (u x : K) : K := ⌊x / u⌋ * u

omit [IsStrictOrderedRing K] in
theorem floorTo_mem_grid (u x : K) : floorTo u x ∈ grid u := mem_grid_iff.mpr ⟨_, rfl⟩

theorem floorTo_le {u : K} (hu : 0 < u) (x : K) : floorTo u x ≤ x := by
  calc floorTo u x = ⌊x / u⌋ * u := rfl
    _ ≤ x / u * u := mul_le_mul_of_nonneg_right (Int.floor_le _) hu.le
    _ = x := div_mul_cancel₀ x hu.ne'

theorem floorTo_nonneg {u x : K} (hu : 0 < u) (hx : 0 ≤ x) : 0 ≤ floorTo u x := by
  have h : (0 : ℤ) ≤ ⌊x / u⌋ := Int.floor_nonneg.mpr (div_nonneg hx hu.le)
  exact mul_nonneg (by exact_mod_cast h) hu.le

/-- Rounding down leaves something exactly when there was one whole unit. -/
theorem floorTo_pos_iff {u x : K} (hu : 0 < u) : 0 < floorTo u x ↔ u ≤ x := by
  rw [floorTo, mul_pos_iff_of_pos_right hu, ← one_le_div hu]
  constructor
  · intro h
    have h0 : (0 : ℤ) < ⌊x / u⌋ := by exact_mod_cast h
    have h1 : (1 : ℤ) ≤ ⌊x / u⌋ := h0
    exact_mod_cast Int.le_floor.mp h1
  · intro h
    have h1 : (1 : ℤ) ≤ ⌊x / u⌋ := Int.le_floor.mpr (by exact_mod_cast h)
    have h0 : (0 : ℤ) < ⌊x / u⌋ := h1
    exact_mod_cast h0

end Lib
