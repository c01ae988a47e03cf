import Mathlib.Tactic

set_option autoImplicit false

/-! # Declines of a curve

A decline of a curve is what it has lost, at some entry, of a positive entry that is not behind it,
as a part of that entry. On a curve without negative entries the largest decline that ends at an
entry starts from the highest entry so far (`isGreatest_declinesTo`), so the largest of all is found
in one pass that keeps the highest entry (`isGreatest_insert_declines_concat`).
-/

namespace Lib.Drawdown

variable {K : Type} [Field K]

/-- The part of a level that is lost at a value. -/
def decline (level value : K) : K := (level - value) / level

theorem decline_self {p : K} : decline p p = 0 := by
  rw [decline, sub_self, zero_div]

variable [LinearOrder K]

/-- The declines from a positive entry to itself or to a later one. -/
def declines (curve : List K) : Set K :=
  {d | ∃ i j : ℕ, i ≤ j ∧ ∃ p v, curve[i]? = some p ∧ curve[j]? = some v ∧ 0 < p ∧ d = decline p v}

/-- The declines from a positive entry to a given value. -/
def declinesTo (curve : List K) (value : K) : Set K :=
  {d | ∃ p ∈ curve, 0 < p ∧ d = decline p value}

theorem declines_nil : declines ([] : List K) = ∅ := by
  ext d
  simp [declines]

/-- The declines that one more entry adds all end at it. -/
theorem declines_concat (curve : List K) (value : K) :
    declines (curve ++ [value]) = declines curve ∪ declinesTo (curve ++ [value]) value := by
  ext d
  constructor
  · rintro ⟨i, j, hij, p, v, hp, hv, hpos, rfl⟩
    by_cases hj : j < curve.length
    · left
      rw [List.getElem?_append_left (by omega)] at hp
      rw [List.getElem?_append_left hj] at hv
      exact ⟨i, j, hij, p, v, hp, hv, hpos, rfl⟩
    · right
      have hlast : v ∈ [value] := by
        rw [List.getElem?_append_right (by omega)] at hv
        exact List.mem_of_getElem? hv
      obtain rfl := List.mem_singleton.mp hlast
      exact ⟨p, List.mem_of_getElem? hp, hpos, rfl⟩
  · rintro (⟨i, j, hij, p, v, hp, hv, hpos, rfl⟩ | ⟨p, hp, hpos, rfl⟩)
    · have hi := (List.getElem?_eq_some_iff.mp hp).1
      have hj := (List.getElem?_eq_some_iff.mp hv).1
      refine ⟨i, j, hij, p, v, ?_, ?_, hpos, rfl⟩
      · rw [List.getElem?_append_left hi, hp]
      · rw [List.getElem?_append_left hj, hv]
    · obtain ⟨i, hi⟩ := List.mem_iff_getElem?.mp hp
      have hlen := (List.getElem?_eq_some_iff.mp hi).1
      rw [List.length_append, List.length_singleton] at hlen
      exact ⟨i, curve.length, by omega, p, value, hi, List.getElem?_concat_length, hpos, rfl⟩

/-- The zero that the pass starts with is a decline itself as soon as there is one. -/
theorem isGreatest_declines {curve : List K} {worst : K}
    (hworst : IsGreatest (insert 0 (declines curve)) worst) (hsome : (declines curve).Nonempty) :
    IsGreatest (declines curve) worst := by
  obtain ⟨d, i, j, -, p, v, hp, -, hpos, -⟩ := hsome
  have hzero : 0 ∈ declines curve := ⟨i, i, le_rfl, p, p, hp, hp, hpos, decline_self.symm⟩
  rwa [Set.insert_eq_of_mem hzero] at hworst

section Order

variable [IsStrictOrderedRing K]

/-- A higher level has lost more of itself. -/
theorem decline_le_decline {p q v : K} (hv : 0 ≤ v) (hp : 0 < p) (hpq : p ≤ q) :
    decline p v ≤ decline q v := by
  have hq : 0 < q := hp.trans_le hpq
  have hparts : v / q ≤ v / p := div_le_div_of_nonneg_left hv hp hpq
  calc decline p v = 1 - v / p := by rw [decline, sub_div, div_self hp.ne']
    _ ≤ 1 - v / q := sub_le_sub_left hparts 1
    _ = decline q v := by rw [decline, sub_div, div_self hq.ne']

theorem decline_le_one {p v : K} (hv : 0 ≤ v) (hp : 0 < p) : decline p v ≤ 1 := by
  rw [decline, div_le_one hp]
  exact sub_le_self p hv

/-- The largest decline to a value starts from the peak. -/
theorem isGreatest_declinesTo {curve : List K} {peak value : K} (hvalue : 0 ≤ value)
    (hpeak : IsGreatest {p | p ∈ curve} peak) (hpos : 0 < peak) :
    IsGreatest (declinesTo curve value) (decline peak value) := by
  constructor
  · exact ⟨peak, hpeak.1, hpos, rfl⟩
  · rintro d ⟨p, hp, hpos', rfl⟩
    exact decline_le_decline hvalue hpos' (hpeak.2 hp)

/-- One step of the pass. `worst` is the largest decline so far, and zero where there is none. -/
theorem isGreatest_insert_declines_concat {curve : List K} {peak value worst : K}
    (hvalue : 0 ≤ value) (hpeak : IsGreatest {p | p ∈ curve ++ [value]} peak)
    (hworst : IsGreatest (insert 0 (declines curve)) worst) :
    IsGreatest (insert 0 (declines (curve ++ [value])))
      (if 0 < peak then max worst (decline peak value) else worst) := by
  rw [declines_concat, ← Set.insert_union]
  split_ifs with hpos
  · exact hworst.union (isGreatest_declinesTo hvalue hpeak hpos)
  · -- Without a positive entry nothing ends at the new one.
    have hnone : declinesTo (curve ++ [value]) value = ∅ := by
      ext d
      refine iff_of_false ?_ (Set.notMem_empty d)
      rintro ⟨p, hp, hpos', -⟩
      exact hpos (hpos'.trans_le (hpeak.2 hp))
    rw [hnone, Set.union_empty]
    exact hworst

end Order

end Lib.Drawdown
