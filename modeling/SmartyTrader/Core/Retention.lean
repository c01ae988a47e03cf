import SmartyTrader.Core.Rehydration
import SmartyTrader.Core.Settings

set_option autoImplicit false

/-! # Retention of the order history

Old order rows are deleted by their age alone, and only on books without real money. The ledger
is replayed from the rows that are left, so a symbol keeps its lots if it was flat at the
cutoff, or has been flat since.
-/

namespace SmartyTrader

open Lib

/-- The trading mode of a book. -/
inductive BookMode where
  | paper
  | demo
  | real
  deriving DecidableEq

/-- `StorageSettings`: the retention windows, in days. -/
structure StorageSettings where
  snapshotRetentionDays : ℤ
  historyRetentionDays : ℤ

/-- `prune`, on the order rows. A window of at most 0 days deletes nothing. -/
def OrderTable.prune (t : OrderTable) (snapshotDays historyDays : ℤ) (now : Time) : OrderTable :=
  if snapshotDays ≤ 0 ∧ historyDays ≤ 0 then t
  else if historyDays > 0 then t.filter (fun row => ¬ row.createdAt < now - days historyDays)
  else t

/-- `prune_storage`, on the order rows: the history of a real-money book is never pruned, and a
database that raises deletes nothing. -/
def pruneStorage (t : OrderTable) (settings : StorageSettings) (mode : Option BookMode)
    (now : Time) (db : Except PyError Unit) : OrderTable :=
  let historyDays :=
    if mode = some .real ∧ settings.historyRetentionDays > 0 then 0
    else settings.historyRetentionDays
  if settings.snapshotRetentionDays ≤ 0 ∧ historyDays ≤ 0 then t
  else
    match db with
    | .error _ => t
    | .ok _ => OrderTable.prune t settings.snapshotRetentionDays historyDays now

/-- The row is old enough to be deleted from this book. -/
def Expired (settings : StorageSettings) (mode : Option BookMode) (now : Time)
    (row : OrderRow) : Prop :=
  mode ≠ some .real ∧ 0 < settings.historyRetentionDays ∧
    row.createdAt < now - days settings.historyRetentionDays

instance (settings : StorageSettings) (mode : Option BookMode) (now : Time) (row : OrderRow) :
    Decidable (Expired settings mode now row) := by
  unfold Expired
  infer_instance

/-- A run deletes the expired rows. -/
theorem pruneStorage_ok (t : OrderTable) (settings : StorageSettings) (mode : Option BookMode)
    (now : Time) :
    pruneStorage t settings mode now (.ok ())
      = t.filter (fun row => ¬ Expired settings mode now row) := by
  have hkeep : ¬ (mode ≠ some .real ∧ 0 < settings.historyRetentionDays) →
      t.filter (fun row => ¬ Expired settings mode now row) = t := by
    intro hoff
    rw [List.filter_eq_self]
    intro row _
    exact decide_eq_true (fun h => hoff ⟨h.1, h.2.1⟩)
  unfold pruneStorage OrderTable.prune
  by_cases hmode : mode = some .real
  · rw [hkeep (fun h => h.1 hmode)]
    by_cases hpos : settings.historyRetentionDays > 0
    · simp [hmode, hpos]
    · simp [hmode, hpos]
  · by_cases hpos : settings.historyRetentionDays > 0
    · have hon : ¬ settings.historyRetentionDays ≤ 0 := not_le.mpr hpos
      simp [hmode, hpos, hon, Expired]
    · rw [hkeep (fun h => hpos h.2)]
      simp [hmode, hpos]

/-! ## Holdings -/

/-- The quantity held after a record, counted without lots. -/
def FillRecord.hold (f : FillRecord) (h : ℚ) : ℚ :=
  match f.side with
  | none => h
  | some .buy => h + max f.booked 0
  | some .sell => max (h - max f.quantity 0) 0

/-- The quantity of a symbol held after a row. -/
def holdRow (owner : LedgerOwner) (s : Symbol) (h : ℚ) (row : OrderRow) : ℚ :=
  match row.fillOf owner s with
  | none => h
  | some f => f.hold h

/-- The quantity of a symbol that the rows bought and did not sell again. -/
def holding (owner : LedgerOwner) (s : Symbol) (t : OrderTable) : ℚ :=
  t.foldl (holdRow owner s) 0

theorem hold_nonneg (f : FillRecord) {h : ℚ} (h0 : 0 ≤ h) : 0 ≤ f.hold h := by
  unfold FillRecord.hold
  rcases f.side with _ | _ | _
  · exact h0
  · exact add_nonneg h0 (le_max_right _ _)
  · exact le_max_right _ _

theorem hold_mono (f : FillRecord) {h k : ℚ} (hk : h ≤ k) : f.hold h ≤ f.hold k := by
  unfold FillRecord.hold
  rcases f.side with _ | _ | _
  · exact hk
  · exact add_le_add_left hk _
  · exact max_le_max (sub_le_sub_right hk _) le_rfl

/-- A holding that stays positive stays apart from a smaller one. -/
theorem hold_lt (f : FillRecord) {h k : ℚ} (hk : h < k) (hpos : f.hold k ≠ 0) :
    f.hold h < f.hold k := by
  unfold FillRecord.hold at hpos ⊢
  rcases hside : f.side with _ | _ | _
  · exact hk
  · dsimp only
    linarith
  · rw [hside] at hpos
    dsimp only at hpos ⊢
    have hleft : 0 < k - max f.quantity 0 := by
      by_contra hle
      exact hpos (max_eq_right (not_lt.mp hle))
    rw [max_eq_left hleft.le]
    exact max_lt (by linarith) hleft

/-- The lots never hold more than the count: what is left of a lot may be dropped. -/
theorem total_bookLots_le (f : FillRecord) {ls : List Lot} {h : ℚ} (hp : Fifo.Positive ls)
    (hle : Fifo.total ls ≤ h) : Fifo.total (f.bookLots ls) ≤ f.hold h := by
  unfold FillRecord.bookLots FillRecord.hold
  rcases f.side with _ | _ | _
  · exact hle
  · dsimp only
    split_ifs with hq
    · rw [max_eq_right hq, add_zero]
      exact hle
    · rw [max_eq_left (not_le.mp hq).le, Fifo.total_append, Fifo.total_cons, Fifo.total_nil]
      linarith
    · rw [max_eq_left (not_le.mp hq).le, Fifo.total_append, Fifo.total_cons, Fifo.total_nil]
      linarith
  · dsimp only
    split_ifs with ht
    · exact ht.trans (le_max_right _ _)
    · rcases le_total f.quantity 0 with hq | hq
      · rw [max_eq_right hq, sub_zero]
        exact (total_consume_le_total _ _ _ hp _ _).trans (hle.trans (le_max_left _ _))
      · rw [max_eq_left hq]
        exact (total_consume_le _ _ _ hp hq _).trans
          (max_le_max (sub_le_sub_right hle _) le_rfl)

/-- On a grid wider than the tolerance the lots hold exactly the count. -/
theorem total_bookLots {u : ℚ} (hu : lotEpsilon < u) {f : FillRecord} (hbooked : f.booked ∈ grid u)
    (hquantity : f.quantity ∈ grid u) {ls : List Lot} (hp : Fifo.Positive ls)
    (hg : ∀ l ∈ ls, l.quantity ∈ grid u) :
    Fifo.total (f.bookLots ls) = f.hold (Fifo.total ls) ∧
      ∀ l ∈ f.bookLots ls, l.quantity ∈ grid u := by
  have h0 := Fifo.total_nonneg hp
  unfold FillRecord.hold
  rcases hside : f.side with _ | _ | _
  · unfold FillRecord.bookLots
    rw [hside]
    exact ⟨rfl, hg⟩
  · unfold FillRecord.bookLots
    rw [hside]
    dsimp only
    by_cases hq : f.booked ≤ 0
    · rw [if_pos hq, max_eq_right hq, add_zero]
      exact ⟨rfl, hg⟩
    · rw [if_neg hq, max_eq_left (not_le.mp hq).le, Fifo.total_append, Fifo.total_cons,
        Fifo.total_nil, add_zero]
      refine ⟨rfl, ?_⟩
      intro l hl
      rcases List.mem_append.mp hl with hl | hl
      · exact hg l hl
      · obtain rfl := List.mem_singleton.mp hl
        exact hbooked
  · rw [bookLots_sell hu hside hquantity hp hg]
    refine ⟨?_, drop_mem_grid hg hquantity⟩
    dsimp only
    rcases le_total f.quantity 0 with hq | hq
    · rw [Fifo.drop_of_nonpos _ hq, max_eq_right hq, sub_zero, max_eq_left h0]
    · rw [max_eq_left hq]
      rcases le_total f.quantity (Fifo.total ls) with hle | hle
      · rw [Fifo.total_drop hq hle, max_eq_left (by linarith)]
      · rw [Fifo.drop_of_total_le hp hle, Fifo.total_nil, max_eq_right (by linarith)]

/-! ## Runs of rows -/

section Rows

variable (owner : LedgerOwner) (s : Symbol)

theorem holding_append (t t' : OrderTable) :
    holding owner s (t ++ t') = t'.foldl (holdRow owner s) (holding owner s t) :=
  List.foldl_append

theorem holdRows_nonneg (t : OrderTable) {h : ℚ} (h0 : 0 ≤ h) :
    0 ≤ t.foldl (holdRow owner s) h := by
  induction t generalizing h with
  | nil => exact h0
  | cons row rest ih =>
      refine ih ?_
      unfold holdRow
      split
      · exact h0
      · exact hold_nonneg _ h0

theorem holdRows_mono (t : OrderTable) {h k : ℚ} (hk : h ≤ k) :
    t.foldl (holdRow owner s) h ≤ t.foldl (holdRow owner s) k := by
  induction t generalizing h k with
  | nil => exact hk
  | cons row rest ih =>
      refine ih ?_
      unfold holdRow
      split
      · exact hk
      · exact hold_mono _ hk

/-- While the larger holding is never flat, the smaller one does not catch up. -/
theorem holdRows_lt (t : OrderTable) {h k : ℚ} (hk : h < k)
    (hpos : ∀ done rest, t = done ++ rest → done.foldl (holdRow owner s) k ≠ 0) :
    t.foldl (holdRow owner s) h < t.foldl (holdRow owner s) k := by
  induction t generalizing h k with
  | nil => exact hk
  | cons row rest ih =>
      have hstep : holdRow owner s k row ≠ 0 := hpos [row] rest rfl
      refine ih ?_ (fun done rest' h => hpos (row :: done) rest' (by rw [h, List.cons_append]))
      unfold holdRow at hstep ⊢
      split at hstep
      · exact hk
      · exact hold_lt _ hk hstep

/-- The lots of a symbol are positive and hold no more than the count. -/
theorem lots_le_holding (t : OrderTable) :
    Fifo.Positive (t.foldl (bookRow owner s) []) ∧
      Fifo.total (t.foldl (bookRow owner s) []) ≤ holding owner s t := by
  suffices hgen : ∀ ls h, Fifo.Positive ls → Fifo.total ls ≤ h →
      Fifo.Positive (t.foldl (bookRow owner s) ls) ∧
        Fifo.total (t.foldl (bookRow owner s) ls) ≤ t.foldl (holdRow owner s) h from
    hgen [] 0 Fifo.Positive.nil le_rfl
  induction t with
  | nil => exact fun ls h hp hle => ⟨hp, hle⟩
  | cons row rest ih =>
      intro ls h hp hle
      rw [List.foldl_cons, List.foldl_cons]
      unfold bookRow holdRow
      cases row.fillOf owner s with
      | none => exact ih ls h hp hle
      | some f => exact ih _ _ (positive_bookLots f hp) (total_bookLots_le f hp hle)

/-- The quantities that the replay books for a symbol are multiples of `u`. -/
def OnGrid (u : ℚ) (t : OrderTable) : Prop :=
  ∀ row ∈ t, ∀ f, row.fillOf owner s = some f → f.booked ∈ grid u ∧ f.quantity ∈ grid u

theorem lots_eq_holding {u : ℚ} (hu : lotEpsilon < u) {t : OrderTable} (hg : OnGrid owner s u t) :
    Fifo.total (t.foldl (bookRow owner s) []) = holding owner s t := by
  suffices hgen : ∀ ls, Fifo.Positive ls → (∀ l ∈ ls, l.quantity ∈ grid u) →
      Fifo.total (t.foldl (bookRow owner s) ls) = t.foldl (holdRow owner s) (Fifo.total ls) from
    hgen [] Fifo.Positive.nil (by simp)
  induction t with
  | nil => exact fun ls hp hl => rfl
  | cons row rest ih =>
      intro ls hp hl
      have hrest := ih (fun r hr => hg r (List.mem_cons_of_mem _ hr))
      rw [List.foldl_cons, List.foldl_cons]
      unfold bookRow holdRow
      cases hf : row.fillOf owner s with
      | none => exact hrest ls hp hl
      | some f =>
          obtain ⟨hbooked, hquantity⟩ := hg row List.mem_cons_self f hf
          obtain ⟨htotal, hl'⟩ := total_bookLots hu hbooked hquantity hp hl
          have := hrest _ (positive_bookLots f hp) hl'
          rw [htotal] at this
          exact this

end Rows

/-! ## What retention keeps -/

/-- From some row on nothing is deleted, and at that row the symbol is flat, counted over all
rows and counted over the rows that stay. -/
def FlatSince (owner : LedgerOwner) (s : Symbol) (keep : OrderRow → Bool) (t : OrderTable) :
    Prop :=
  ∃ before since, t = before ++ since ∧ (∀ row ∈ since, keep row) ∧
    holding owner s before = 0 ∧ holding owner s (before.filter keep) = 0

/-- The lots of a flat symbol are gone. -/
theorem lots_of_flat {owner : LedgerOwner} {s : Symbol} {t : OrderTable}
    (h : holding owner s t = 0) : t.foldl (bookRow owner s) [] = [] := by
  obtain ⟨hp, hle⟩ := lots_le_holding owner s t
  rw [h] at hle
  exact Fifo.eq_nil_of_total_nonpos hp hle

theorem lots_of_flatSince {owner : LedgerOwner} {s : Symbol} {keep : OrderRow → Bool}
    {t : OrderTable} (h : FlatSince owner s keep t) :
    (t.filter keep).foldl (bookRow owner s) [] = t.foldl (bookRow owner s) [] := by
  obtain ⟨before, since, rfl, hkeep, hall, hkept⟩ := h
  have hsince : since.filter keep = since := List.filter_eq_self.mpr hkeep
  calc ((before ++ since).filter keep).foldl (bookRow owner s) []
      = since.foldl (bookRow owner s) [] := by
        rw [List.filter_append, hsince, List.foldl_append, lots_of_flat hkept]
    _ = (before ++ since).foldl (bookRow owner s) [] := by
        rw [List.foldl_append, lots_of_flat hall]

/-- Rows in the order of their age: the old ones come first. -/
theorem old_rows_first {p : OrderRow → Bool} {t : OrderTable}
    (h : t.Pairwise (fun a b => p b → p a)) : t = t.filter p ++ t.filter (fun row => !p row) := by
  induction t with
  | nil => rfl
  | cons row rest ih =>
      obtain ⟨hrow, hrest⟩ := List.pairwise_cons.mp h
      by_cases hp : p row
      · rw [List.filter_cons_of_pos hp, List.filter_cons_of_neg (by simp [hp]), List.cons_append,
          ← ih hrest]
      · have hnone : rest.filter p = [] := by
          rw [List.filter_eq_nil_iff]
          exact fun b hb hpb => hp (hrow b hb hpb)
        have hall : rest.filter (fun row => !p row) = rest := by
          rw [List.filter_eq_self]
          intro b hb
          rw [Bool.not_eq_true']
          exact Bool.eq_false_iff.mpr (fun hpb => hp (hrow b hb hpb))
        rw [List.filter_cons_of_neg hp, List.filter_cons_of_pos (by simp [hp]), hnone, hall,
          List.nil_append]

/-- A position that was open at the cutoff and never flat since is lost. -/
theorem flatSince_of_lots {owner : LedgerOwner} {s : Symbol} {keep : OrderRow → Bool}
    {t : OrderTable} (hsorted : t.Pairwise (fun a b => keep a → keep b)) {u : ℚ}
    (hu : lotEpsilon < u) (hg : OnGrid owner s u t)
    (hlots : (t.filter keep).foldl (bookRow owner s) [] = t.foldl (bookRow owner s) []) :
    FlatSince owner s keep t := by
  by_contra hnot
  have hsplit : t = t.filter (fun row => !keep row) ++ t.filter keep := by
    have := old_rows_first (p := fun row => !keep row) (t := t) ?_
    · simpa using this
    · refine hsorted.imp ?_
      intro a b hab hb
      by_contra ha
      simp only [Bool.not_eq_true', Bool.not_eq_false] at ha hb
      rw [hab ha] at hb
      cases hb
  generalize hold : t.filter (fun row => !keep row) = old at hsplit
  generalize hkept : t.filter keep = kept at hsplit hlots
  have hgone : old.filter keep = [] := by
    rw [← hold, List.filter_filter]
    simp
  have hstays : ∀ row ∈ kept, keep row := by
    rw [← hkept]
    exact fun row hrow => (List.mem_filter.mp hrow).2
  -- A flat point since the cutoff is one that the statement asks for.
  have hpos : ∀ done rest, kept = done ++ rest →
      done.foldl (holdRow owner s) (holding owner s old) ≠ 0 := by
    rintro done rest rfl hzero
    apply hnot
    refine ⟨old ++ done, rest, ?_, ?_, ?_, ?_⟩
    · rw [hsplit, List.append_assoc]
    · exact fun row hrow => hstays row (List.mem_append_right _ hrow)
    · rw [holding_append]
      exact hzero
    · have hdone : done.filter keep = done :=
        List.filter_eq_self.mpr (fun row hrow => hstays row (List.mem_append_left _ hrow))
      rw [List.filter_append, hgone, hdone, List.nil_append]
      refine le_antisymm ?_ (holdRows_nonneg owner s done le_rfl)
      rw [← hzero]
      exact holdRows_mono owner s done (holdRows_nonneg owner s old le_rfl)
  have h0 : holding owner s old ≠ 0 := hpos [] kept rfl
  have hlt : holding owner s kept < holding owner s t := by
    rw [hsplit, holding_append]
    exact holdRows_lt owner s kept
      (lt_of_le_of_ne (holdRows_nonneg owner s old le_rfl) (Ne.symm h0)) hpos
  have hgk : OnGrid owner s u kept := by
    intro row hrow
    rw [← hkept] at hrow
    exact hg row (List.mem_filter.mp hrow).1
  have htotal := congrArg Fifo.total hlots
  rw [lots_eq_holding owner s hu hgk, lots_eq_holding owner s hu hg] at htotal
  exact absurd htotal hlt.ne

/-- **Retention and the ledger.** Deleting the expired rows keeps the lots of every symbol that
was flat at the cutoff or at some row since, whatever levels are read for the replay; and on
rows in the order of their age whose quantities lie on a grid wider than the tolerance, it keeps
the lots of no other symbol. -/
theorem retention_keeps_ledger (t : OrderTable) (settings : StorageSettings)
    (mode : Option BookMode) (now : Time) (owner : LedgerOwner)
    (levels levels' : Dict DecisionId ExitLevels) (s : Symbol) :
    let keep : OrderRow → Bool := fun row => ¬ Expired settings mode now row
    let kept := pruneStorage t settings mode now (.ok ())
    (FlatSince owner s keep t →
      (OrderTable.rebuild owner levels' kept).lotsOf s
        = (OrderTable.rebuild owner levels t).lotsOf s) ∧
    (t.Pairwise (fun a b => a.createdAt ≤ b.createdAt) →
      (∃ u > lotEpsilon, OnGrid owner s u t) →
      (OrderTable.rebuild owner levels' kept).lotsOf s
        = (OrderTable.rebuild owner levels t).lotsOf s →
      FlatSince owner s keep t) := by
  intro keep kept
  have hkept : kept = t.filter keep := pruneStorage_ok t settings mode now
  rw [lotsOf_rebuild, lotsOf_rebuild, hkept]
  constructor
  · exact lots_of_flatSince
  · rintro hsorted ⟨u, hu, hg⟩ hlots
    refine flatSince_of_lots (hsorted.imp ?_) hu hg hlots
    intro a b hab ha
    rw [decide_eq_true_eq] at ha ⊢
    rintro ⟨hmode, hon, hold⟩
    exact ha ⟨hmode, hon, lt_of_le_of_lt hab hold⟩

/-- A filled BUY of one unit at 100, stored at a time. -/
def boughtAt (createdAt : Time) : OrderRow where
  orderId := "1"
  symbol := "BTC/EUR"
  side := .buy
  quantity := 1
  price := some 100
  status := .filled
  decisionId := some 7
  filledAt := some createdAt
  createdAt := createdAt
  realizedPnl := none
  strategy := none
  feeBase := none
  feeQuote := none

/-- A position bought 100 days ago and still open is gone after 90 days of retention. -/
theorem pruned_open_position :
    let settings : StorageSettings := ⟨30, 90⟩
    let kept := pruneStorage [boughtAt 0] settings (some .demo) (days 100) (.ok ())
    (OrderTable.rebuild .venue Dict.empty [boughtAt 0]).lotsOf "BTC/EUR" = [⟨1, 100, 0, some 7⟩] ∧
      (OrderTable.rebuild .venue Dict.empty kept).lotsOf "BTC/EUR" = [] := by
  decide +kernel

end SmartyTrader
