import Mathlib.Data.List.Sort

set_option autoImplicit false

/-! # Sorting by a key

A stable sort keeps the elements of one key in their order. What is filtered out of a sorted list
is therefore the sort of what is filtered out of the list, and the elements up to a bound are a
prefix.
-/

namespace Lib

variable {α β : Type*} [LinearOrder β] (key : α → β)

/-- Sort by a key, elements of the same key in their order. -/
def sortBy (l : List α) : List α := l.insertionSort (fun a b => key a ≤ key b)

@[simp] theorem mem_sortBy {l : List α} {a : α} : a ∈ sortBy key l ↔ a ∈ l :=
  List.mem_insertionSort _

theorem sorted_sortBy (l : List α) : (sortBy key l).Pairwise (fun a b => key a ≤ key b) := by
  have htotal : Std.Total (fun a b : α => key a ≤ key b) := ⟨fun a b => le_total (key a) (key b)⟩
  have htrans : IsTrans α (fun a b => key a ≤ key b) := ⟨fun _ _ _ => le_trans⟩
  exact List.pairwise_insertionSort _ l

/-- What comes before every element is inserted in front. -/
theorem orderedInsert_of_forall_le (a : α) {l : List α} (h : ∀ b ∈ l, key a ≤ key b) :
    l.orderedInsert (fun a b => key a ≤ key b) a = a :: l := by
  cases l with
  | nil => rfl
  | cons b rest => exact List.orderedInsert_cons_of_le _ rest (h b List.mem_cons_self)

theorem filter_orderedInsert (p : α → Bool) (a : α) {l : List α}
    (hsorted : l.Pairwise (fun a b => key a ≤ key b)) :
    (l.orderedInsert (fun a b => key a ≤ key b) a).filter p
      = if p a then (l.filter p).orderedInsert (fun a b => key a ≤ key b) a else l.filter p := by
  induction l with
  | nil => cases h : p a <;> simp [h]
  | cons b rest ih =>
      obtain ⟨hb, hrest⟩ := List.pairwise_cons.mp hsorted
      rw [List.orderedInsert_cons]
      by_cases hab : key a ≤ key b
      · rw [if_pos hab, List.filter_cons]
        refine ite_congr rfl (fun _ => ?_) fun _ => rfl
        -- everything kept comes after `a` as well
        refine (orderedInsert_of_forall_le key a fun c hc => ?_).symm
        rcases List.mem_cons.mp (List.mem_filter.mp hc).1 with rfl | hc
        · exact hab
        · exact le_trans hab (hb c hc)
      · rw [if_neg hab, List.filter_cons, ih hrest, List.filter_cons]
        cases hpb : p b <;> cases hpa : p a <;> simp [hab]

theorem filter_sortBy (p : α → Bool) (l : List α) :
    (sortBy key l).filter p = sortBy key (l.filter p) := by
  induction l with
  | nil => rfl
  | cons a rest ih =>
      have hcons : sortBy key (a :: rest)
          = (sortBy key rest).orderedInsert (fun a b => key a ≤ key b) a := rfl
      rw [hcons, filter_orderedInsert key p a (sorted_sortBy key rest), ih, List.filter_cons]
      split_ifs <;> rfl

/-- The elements up to a bound are a prefix of a sorted list. -/
theorem takeWhile_sorted {l : List α} (hsorted : l.Pairwise (fun a b => key a ≤ key b)) (b : β) :
    l.takeWhile (fun a => key a ≤ b) = l.filter (fun a => key a ≤ b) := by
  induction l with
  | nil => rfl
  | cons a rest ih =>
      obtain ⟨ha, hrest⟩ := List.pairwise_cons.mp hsorted
      by_cases hab : key a ≤ b
      · simp [hab, ih hrest]
      · have hnone : rest.filter (fun c => key c ≤ b) = [] := by
          refine List.filter_eq_nil_iff.mpr fun c hc => ?_
          have hac := ha c hc
          simp only [decide_eq_true_eq, not_le]
          exact lt_of_lt_of_le (not_le.mp hab) hac
        simp [hab, hnone]

/-- What is left of a sorted list after the elements up to a bound is beyond it. -/
theorem lt_of_mem_dropWhile {l : List α} (hsorted : l.Pairwise (fun a b => key a ≤ key b)) (b : β)
    {a : α} (ha : a ∈ l.dropWhile (fun a => key a ≤ b)) : b < key a := by
  induction l with
  | nil => cases ha
  | cons c rest ih =>
      obtain ⟨hc, hrest⟩ := List.pairwise_cons.mp hsorted
      by_cases hcb : key c ≤ b
      · rw [List.dropWhile_cons_of_pos (by simpa using hcb)] at ha
        exact ih hrest ha
      · rw [List.dropWhile_cons_of_neg (by simpa using hcb)] at ha
        rcases List.mem_cons.mp ha with rfl | ha
        · exact not_le.mp hcb
        · exact lt_of_lt_of_le (not_le.mp hcb) (hc a ha)

/-- Where the keys tell the elements apart, the order before sorting does not matter. -/
theorem sortBy_eq_of_perm {l l' : List α} (h : l.Perm l')
    (hkey : ∀ a ∈ l, ∀ b ∈ l, key a = key b → a = b) : sortBy key l = sortBy key l' := by
  have hl : (sortBy key l).Perm l := List.perm_insertionSort _ l
  have hl' : (sortBy key l').Perm l' := List.perm_insertionSort _ l'
  refine List.Perm.eq_of_pairwise ?_ (sorted_sortBy key l) (sorted_sortBy key l')
    (hl.trans (h.trans hl'.symm))
  intro a b ha hb hab hba
  exact hkey a (hl.subset ha) b (h.symm.subset (hl'.subset hb)) (le_antisymm hab hba)

end Lib
