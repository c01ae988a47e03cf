import Mathlib.Tactic

set_option autoImplicit false

/-! # First-in first-out lots

A position kept as a queue of lots: a purchase appends a lot, a sale takes its quantity
from the front, lot by lot, and a lot that is used only in part keeps its price and the
share of its fee that belongs to what is left. The file defines the two halves of such a
sale, `take` (what leaves) and `drop` (what stays), and the rules they obey: nothing is
created or lost (`measure_take_add_drop`), two sales in a row are one sale of the sum
(`drop_drop`), and a sale covered by the front of the queue does not see
what was appended behind it (`drop_append`). The last rule gives the closed form of a whole
history (`run_eq_drop`): any history that never sells more than it holds ends with the
purchases in order, less the total sold.

Everything is over an arbitrary linearly ordered field and an arbitrary type of tags.
-/

namespace Lib.Fifo

universe u v

/-- A lot: so many units at a price, the fee paid for all of them, and a tag. -/
structure Lot (K : Type u) (δ : Type v) where
  quantity : K
  price : K
  fee : K
  tag : δ
  deriving DecidableEq

variable {K : Type u} {δ : Type v} [Field K]

/-- The part of `l` that has `r` units: same price and tag, and the fee in proportion. -/
def part (l : Lot K δ) (r : K) : Lot K δ :=
  { l with quantity := r, fee := l.fee * (r / l.quantity) }

@[simp] theorem part_quantity (l : Lot K δ) (r : K) : (part l r).quantity = r := rfl
@[simp] theorem part_price (l : Lot K δ) (r : K) : (part l r).price = l.price := rfl
@[simp] theorem part_tag (l : Lot K δ) (r : K) : (part l r).tag = l.tag := rfl

theorem part_part (l : Lot K δ) {a : K} (b : K) (ha : a ≠ 0) : part (part l a) b = part l b := by
  show ({ l with quantity := b, fee := l.fee * (a / l.quantity) * (b / a) } : Lot K δ) = _
  have : l.fee * (a / l.quantity) * (b / a) = l.fee * (b / l.quantity) := by
    field_simp
  rw [this]
  rfl

/-- The units in a queue. -/
def total (ls : List (Lot K δ)) : K := (ls.map Lot.quantity).sum

@[simp] theorem total_nil : total ([] : List (Lot K δ)) = 0 := rfl

@[simp] theorem total_cons (l : Lot K δ) (ls : List (Lot K δ)) :
    total (l :: ls) = l.quantity + total ls := by
  simp [total]

@[simp] theorem total_append (ls ms : List (Lot K δ)) : total (ls ++ ms) = total ls + total ms := by
  simp [total]

variable [LinearOrder K]

/-- What a sale of `q` takes from the front of the queue. -/
def take (q : K) : List (Lot K δ) → List (Lot K δ)
  | [] => []
  | l :: ls =>
      if q ≤ 0 then []
      else if l.quantity ≤ q then l :: take (q - l.quantity) ls
      else [part l q]

/-- What a sale of `q` leaves of the queue. -/
def drop (q : K) : List (Lot K δ) → List (Lot K δ)
  | [] => []
  | l :: ls =>
      if q ≤ 0 then l :: ls
      else if l.quantity ≤ q then drop (q - l.quantity) ls
      else part l (l.quantity - q) :: ls

/-- Every lot of the queue holds something. -/
def Positive (ls : List (Lot K δ)) : Prop := ∀ l ∈ ls, 0 < l.quantity

theorem Positive.nil : Positive ([] : List (Lot K δ)) := by
  intro l hl; cases hl

theorem Positive.cons {l : Lot K δ} {ls : List (Lot K δ)} (hl : 0 < l.quantity)
    (h : Positive ls) : Positive (l :: ls) := by
  intro m hm
  rcases List.mem_cons.mp hm with rfl | hm
  · exact hl
  · exact h m hm

theorem Positive.head {l : Lot K δ} {ls : List (Lot K δ)} (h : Positive (l :: ls)) :
    0 < l.quantity :=
  h l List.mem_cons_self

theorem Positive.tail {l : Lot K δ} {ls : List (Lot K δ)} (h : Positive (l :: ls)) :
    Positive ls :=
  fun m hm => h m (List.mem_cons_of_mem _ hm)

theorem Positive.append {ls ms : List (Lot K δ)} (hl : Positive ls) (hm : Positive ms) :
    Positive (ls ++ ms) := by
  intro l h
  rcases List.mem_append.mp h with h | h
  · exact hl l h
  · exact hm l h

@[simp] theorem drop_nil (q : K) : drop q ([] : List (Lot K δ)) = [] := rfl

theorem drop_of_nonpos {q : K} (ls : List (Lot K δ)) (h : q ≤ 0) : drop q ls = ls := by
  cases ls with
  | nil => rfl
  | cons l ls => simp [drop, h]

@[simp] theorem drop_zero (ls : List (Lot K δ)) : drop 0 ls = ls := drop_of_nonpos ls le_rfl

theorem take_of_nonpos {q : K} (ls : List (Lot K δ)) (h : q ≤ 0) : take q ls = [] := by
  cases ls with
  | nil => rfl
  | cons l ls => simp [take, h]

variable [IsStrictOrderedRing K]

theorem total_nonneg {ls : List (Lot K δ)} (h : Positive ls) : 0 ≤ total ls := by
  induction ls with
  | nil => simp
  | cons l ls ih =>
      have hl := h.head
      have ht := ih h.tail
      rw [total_cons]
      linarith

/-- A queue of positive lots that holds nothing is empty. -/
theorem eq_nil_of_total_nonpos {ls : List (Lot K δ)} (h : Positive ls) (ht : total ls ≤ 0) :
    ls = [] := by
  cases ls with
  | nil => rfl
  | cons l ls =>
      have hl := h.head
      have hn := total_nonneg h.tail
      rw [total_cons] at ht
      linarith

theorem positive_drop {ls : List (Lot K δ)} (q : K) (h : Positive ls) : Positive (drop q ls) := by
  induction ls generalizing q with
  | nil => exact h
  | cons l ls ih =>
      simp only [drop]
      split_ifs with h1 h2
      · exact h
      · exact ih _ h.tail
      · exact Positive.cons (sub_pos.mpr (not_le.mp h2)) h.tail

theorem drop_of_total_le {ls : List (Lot K δ)} {q : K} (h : Positive ls) (hq : total ls ≤ q) :
    drop q ls = [] := by
  induction ls generalizing q with
  | nil => rfl
  | cons l ls ih =>
      have hl := h.head
      have hn := total_nonneg h.tail
      rw [total_cons] at hq
      have h1 : ¬ q ≤ 0 := by intro h1; linarith
      have h2 : l.quantity ≤ q := by linarith
      simp only [drop, if_neg h1, if_pos h2]
      exact ih h.tail (by linarith)

theorem total_drop {ls : List (Lot K δ)} {q : K} (h0 : 0 ≤ q) (hq : q ≤ total ls) :
    total (drop q ls) = total ls - q := by
  induction ls generalizing q with
  | nil =>
      simp only [total_nil] at hq
      simp [le_antisymm hq h0]
  | cons l ls ih =>
      simp only [drop]
      split_ifs with h1 h2
      · rw [le_antisymm h1 h0, sub_zero]
      · rw [total_cons] at hq ⊢
        rw [ih (by linarith) (by linarith)]
        ring
      · rw [total_cons, total_cons, part_quantity]
        ring

/-- Two sales in a row leave what one sale of the sum leaves. -/
theorem drop_drop {ls : List (Lot K δ)} (h : Positive ls) {a b : K} (ha : 0 ≤ a) (hb : 0 ≤ b) :
    drop b (drop a ls) = drop (a + b) ls := by
  induction ls generalizing a with
  | nil => rfl
  | cons l ls ih =>
      have hl := h.head
      by_cases h1 : a ≤ 0
      · have h0 : a = 0 := le_antisymm h1 ha
        simp [h0]
      · have hab : ¬ a + b ≤ 0 := by intro hn; linarith
        by_cases h2 : l.quantity ≤ a
        · have h3 : l.quantity ≤ a + b := by linarith
          simp only [drop, if_neg h1, if_pos h2, if_neg hab, if_pos h3]
          rw [ih h.tail (by linarith), sub_add_eq_add_sub]
        · have hpart : drop b (part l (l.quantity - a) :: ls) = drop (a + b) (l :: ls) := by
            have hne : l.quantity - a ≠ 0 := by
              intro hn; exact h2 (by linarith)
            by_cases h4 : b ≤ 0
            · have hb0 : b = 0 := le_antisymm h4 hb
              rw [hb0, drop_zero, add_zero, drop, if_neg h1, if_neg h2]
            · have h5 : (part l (l.quantity - a)).quantity ≤ b ↔ l.quantity ≤ a + b := by
                rw [part_quantity, sub_le_iff_le_add']
              by_cases h6 : l.quantity ≤ a + b
              · rw [drop, drop, if_neg h4, if_neg hab, if_pos (h5.mpr h6), if_pos h6]
                congr 1
                rw [part_quantity]
                ring
              · rw [drop, drop, if_neg h4, if_neg hab, if_neg (h5.not.mpr h6), if_neg h6,
                  part_part l _ hne, part_quantity, sub_sub]
          rw [← hpart, drop, if_neg h1, if_neg h2]

/-- A sale covered by the front of the queue does not see what stands behind it. -/
theorem drop_append {ls : List (Lot K δ)} (ms : List (Lot K δ)) {q : K} (hq : q ≤ total ls) :
    drop q (ls ++ ms) = drop q ls ++ ms := by
  induction ls generalizing q with
  | nil => simpa using drop_of_nonpos ms hq
  | cons l ls ih =>
      simp only [List.cons_append, drop]
      split_ifs with h1 h2
      · rfl
      · rw [total_cons] at hq
        exact ih (by linarith)
      · rfl

/-! ## Fees

The fees of the lots do not decide what a sale leaves. -/

/-- The lot without its fee. -/
def feeFree (l : Lot K δ) : Lot K δ := { l with fee := 0 }

omit [LinearOrder K] [IsStrictOrderedRing K] in
@[simp] theorem feeFree_quantity (l : Lot K δ) : (feeFree l).quantity = l.quantity := rfl

omit [LinearOrder K] [IsStrictOrderedRing K] in
theorem feeFree_part (l : Lot K δ) (r : K) : feeFree (part l r) = part (feeFree l) r := by
  simp only [feeFree, part, zero_mul]

omit [LinearOrder K] [IsStrictOrderedRing K] in
theorem total_map_feeFree (ls : List (Lot K δ)) : total (ls.map feeFree) = total ls := by
  unfold total
  rw [List.map_map]
  rfl

omit [IsStrictOrderedRing K] in
theorem map_feeFree_drop (q : K) (ls : List (Lot K δ)) :
    (drop q ls).map feeFree = drop q (ls.map feeFree) := by
  induction ls generalizing q with
  | nil => rfl
  | cons l ls ih =>
      rw [List.map_cons, drop, drop, feeFree_quantity]
      split_ifs
      · rfl
      · exact ih _
      · rw [List.map_cons, feeFree_part]

/-! ## Measures

A measure of a lot that is proportional to its units (its units, its cost, its fee, the
units of one tag) is split by a sale between what leaves and what stays. -/

/-- `f` of a part is the same share of `f` of the lot. -/
def Proportional (f : Lot K δ → K) : Prop :=
  ∀ (l : Lot K δ) (r : K), 0 < l.quantity → f (part l r) = f l * (r / l.quantity)

omit [LinearOrder K] [IsStrictOrderedRing K] in
/-- The sum of `f` over a queue. -/
def measure (f : Lot K δ → K) (ls : List (Lot K δ)) : K := (ls.map f).sum

omit [LinearOrder K] [IsStrictOrderedRing K] in
@[simp] theorem measure_nil (f : Lot K δ → K) : measure f [] = 0 := rfl

omit [LinearOrder K] [IsStrictOrderedRing K] in
@[simp] theorem measure_cons (f : Lot K δ → K) (l : Lot K δ) (ls : List (Lot K δ)) :
    measure f (l :: ls) = f l + measure f ls := by
  simp [measure]

omit [LinearOrder K] [IsStrictOrderedRing K] in
@[simp] theorem measure_append (f : Lot K δ → K) (ls ms : List (Lot K δ)) :
    measure f (ls ++ ms) = measure f ls + measure f ms := by
  simp [measure]

omit [LinearOrder K] [IsStrictOrderedRing K] in
theorem measure_add (f g : Lot K δ → K) (ls : List (Lot K δ)) :
    measure (fun l => f l + g l) ls = measure f ls + measure g ls := List.sum_map_add

omit [LinearOrder K] [IsStrictOrderedRing K] in
theorem total_eq_measure (ls : List (Lot K δ)) : total ls = measure Lot.quantity ls := rfl

omit [IsStrictOrderedRing K] in
theorem proportional_quantity : Proportional (Lot.quantity : Lot K δ → K) := by
  intro l r h
  rw [part_quantity]
  field_simp

omit [IsStrictOrderedRing K] in
theorem proportional_fee : Proportional (Lot.fee : Lot K δ → K) :=
  fun _ _ _ => rfl

omit [IsStrictOrderedRing K] in
theorem proportional_cost : Proportional (fun l : Lot K δ => l.quantity * l.price) := by
  intro l r h
  simp only [part_quantity, part_price]
  field_simp

theorem Proportional.add {f g : Lot K δ → K} (hf : Proportional f) (hg : Proportional g) :
    Proportional (fun l => f l + g l) := by
  intro l r h
  simp only [hf l r h, hg l r h]
  ring

/-- What leaves and what stays make up the queue. -/
theorem measure_take_add_drop {f : Lot K δ → K} (hf : Proportional f) {ls : List (Lot K δ)}
    (h : Positive ls) (q : K) : measure f (take q ls) + measure f (drop q ls) = measure f ls := by
  induction ls generalizing q with
  | nil => simp [take]
  | cons l ls ih =>
      have hl := h.head
      simp only [take, drop]
      split_ifs with h1 h2
      · simp
      · have := ih h.tail (q - l.quantity)
        rw [measure_cons, measure_cons]
        linarith
      · simp only [measure_cons, measure_nil]
        rw [hf l q hl, hf l (l.quantity - q) hl]
        field_simp
        ring

/-- A sale takes as much as it asks for, when the queue holds it. -/
theorem total_take {ls : List (Lot K δ)} (h : Positive ls) {q : K} (h0 : 0 ≤ q)
    (hq : q ≤ total ls) : total (take q ls) = q := by
  have hm := measure_take_add_drop proportional_quantity h q
  rw [← total_eq_measure, ← total_eq_measure, ← total_eq_measure, total_drop h0 hq] at hm
  linarith

/-- `taken` is the front of a queue and `rest` what stays behind it. They meet between two lots,
or within one that is then split in proportion. -/
def FrontOf (lots taken rest : List (Lot K δ)) : Prop :=
  lots = taken ++ rest ∨
    ∃ before l after a, 0 < a ∧ a < l.quantity ∧ lots = before ++ l :: after ∧
      taken = before ++ [part l a] ∧ rest = part l (l.quantity - a) :: after

omit [IsStrictOrderedRing K] in
/-- A sale takes from the front. -/
theorem frontOf_take_drop (ls : List (Lot K δ)) (q : K) : FrontOf ls (take q ls) (drop q ls) := by
  induction ls generalizing q with
  | nil => exact Or.inl rfl
  | cons l ls ih =>
      by_cases h1 : q ≤ 0
      · rw [take_of_nonpos _ h1, drop_of_nonpos _ h1]
        exact Or.inl rfl
      · by_cases h2 : l.quantity ≤ q
        · simp only [take, drop, if_neg h1, if_pos h2]
          rcases ih (q - l.quantity) with hsplit | ⟨before, m, after, a, h0, ha, hsplit, ht, hd⟩
          · exact Or.inl (congrArg (l :: ·) hsplit)
          · exact Or.inr ⟨l :: before, m, after, a, h0, ha, congrArg (l :: ·) hsplit,
              congrArg (l :: ·) ht, hd⟩
        · simp only [take, drop, if_neg h1, if_neg h2]
          exact Or.inr ⟨[], l, ls, q, not_le.mp h1, not_le.mp h2, rfl, rfl, rfl⟩

/-! ## Histories -/

/-- A purchase or a sale. -/
inductive Event (K : Type u) (δ : Type v) where
  | buy (l : Lot K δ)
  | sell (q : K)

/-- The queue after one event. -/
def step (ls : List (Lot K δ)) : Event K δ → List (Lot K δ)
  | .buy l => ls ++ [l]
  | .sell q => drop q ls

/-- The queue after a history. -/
def run (ls : List (Lot K δ)) (es : List (Event K δ)) : List (Lot K δ) := es.foldl step ls

/-- Every purchase is positive and no sale asks for more than the queue holds. -/
def Valid : List (Lot K δ) → List (Event K δ) → Prop
  | _, [] => True
  | ls, .buy l :: es => 0 < l.quantity ∧ Valid (ls ++ [l]) es
  | ls, .sell q :: es => (0 ≤ q ∧ q ≤ total ls) ∧ Valid (drop q ls) es

omit [LinearOrder K] [IsStrictOrderedRing K] in
/-- The purchases of a history, in order. -/
def bought : List (Event K δ) → List (Lot K δ)
  | [] => []
  | .buy l :: es => l :: bought es
  | .sell _ :: es => bought es

omit [LinearOrder K] [IsStrictOrderedRing K] in
/-- The units sold in a history. -/
def sold : List (Event K δ) → K
  | [] => 0
  | .buy _ :: es => sold es
  | .sell q :: es => q + sold es

theorem sold_nonneg {es : List (Event K δ)} {ls : List (Lot K δ)} (h : Valid ls es) :
    0 ≤ sold es := by
  induction es generalizing ls with
  | nil => exact le_rfl
  | cons e es ih =>
      cases e with
      | buy l => exact ih h.2
      | sell q =>
          have hq := h.1.1
          have hr := ih h.2
          show 0 ≤ q + sold es
          linarith

omit [IsStrictOrderedRing K] in
theorem positive_bought {es : List (Event K δ)} {ls : List (Lot K δ)} (h : Valid ls es) :
    Positive (bought es) := by
  induction es generalizing ls with
  | nil => exact Positive.nil
  | cons e es ih =>
      cases e with
      | buy l => exact Positive.cons h.1 (ih h.2)
      | sell q => exact ih h.2

/-- **Closed form of a history.** A history that never sells more than it holds leaves the
purchases in order, less the total sold: when and in which order the sales came does not
matter. -/
theorem run_eq_drop {es : List (Event K δ)} {ls : List (Lot K δ)} (hp : Positive ls)
    (h : Valid ls es) : run ls es = drop (sold es) (ls ++ bought es) := by
  induction es generalizing ls with
  | nil => simp [run, sold, bought]
  | cons e es ih =>
      cases e with
      | buy l =>
          have hp' : Positive (ls ++ [l]) := hp.append (Positive.cons h.1 Positive.nil)
          have := ih hp' h.2
          simpa [run, step, sold, bought] using this
      | sell q =>
          have hsold := sold_nonneg h.2
          have hrest := ih (positive_drop q hp) h.2
          have hall : Positive (ls ++ bought es) := hp.append (positive_bought h.2)
          calc run ls (.sell q :: es) = run (drop q ls) es := rfl
            _ = drop (sold es) (drop q ls ++ bought es) := hrest
            _ = drop (sold es) (drop q (ls ++ bought es)) := by rw [drop_append _ h.1.2]
            _ = drop (q + sold es) (ls ++ bought es) := drop_drop hall h.1.1 hsold

/-- Two histories with the same purchases in the same order and the same total sold end with
the same queue. -/
theorem run_eq_run {es fs : List (Event K δ)} (he : Valid [] es) (hf : Valid [] fs)
    (hb : bought es = bought fs) (hs : sold es = sold fs) : run [] es = run [] fs := by
  rw [run_eq_drop Positive.nil he, run_eq_drop Positive.nil hf, hb, hs]

end Lib.Fifo
