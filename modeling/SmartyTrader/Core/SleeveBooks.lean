import Mathlib.Algebra.BigOperators.Group.Finset.Basic
import Mathlib.Algebra.BigOperators.Ring.Finset
import SmartyTrader.Storage.Sleeves

set_option autoImplicit false

/-! # The books of the sleeves

The capital of the agent is split when the weights are recorded (`ensureAllocation`), and from then
on the equity of a sleeve is its share, what it realized and the unrealized result of what it owns.
With a database that answers, every open position is in the book of exactly one configured sleeve
(`owners_total`), so that the books add up to the base, everything that was realized and the
unrealized result of the whole portfolio (`sum_equity`).
-/

namespace SmartyTrader

open Lib

/-! ## The allocation -/

namespace SleevesSettings

def names (s : SleevesSettings) : List String := s.strategies.map SleeveSpec.name

/-- The configured weights, under the names of their sleeves. -/
def weights (s : SleevesSettings) : Dict String ℚ :=
  s.strategies.foldl (fun d spec => d.set spec.name (spec.weight.getD 0)) Dict.empty

theorem mem_names_of_get {s : SleevesSettings} {name : String}
    (h : (s.get (some name)).isSome = true) : name ∈ s.names := by
  obtain ⟨spec, hspec⟩ := Option.isSome_iff_exists.mp h
  have hname := List.find?_some hspec
  simp only [Option.some.injEq, decide_eq_true_eq] at hname
  exact List.mem_map.mpr ⟨spec, List.mem_of_find?_eq_some hspec, hname⟩

theorem first_mem_names (s : SleevesSettings) : s.first.name ∈ s.names :=
  List.mem_map_of_mem List.mem_cons_self

end SleevesSettings

/-- Two dictionaries with the same weights, in whatever order. -/
def SameWeights (v w : Dict String ℚ) : Prop := ∀ name ∈ v.keys ++ w.keys, v.get? name = w.get? name

instance (v w : Dict String ℚ) : Decidable (SameWeights v w) :=
  inferInstanceAs (Decidable (∀ name ∈ v.keys ++ w.keys, v.get? name = w.get? name))

/-- Cash, cash committed to BUY orders, and open positions at their entry price. -/
def PortfolioState.costBasis (p : PortfolioState) : ℚ :=
  p.cash + p.pendingValue
    + (p.positions.map (fun q => q.quantity * q.avgEntryPrice * q.side.direction)).sum

/-- `Allocation` of a stored row. -/
def AllocationRow.allocation (row : AllocationRow) : Allocation where
  baseEquity := row.baseEquity
  weights := row.weights
  createdAt := row.createdAt

/-- The row `ensure_allocation` goes on with: the latest one, or a new one when the weights are
not those of the latest. -/
def allocationRow (t : AllocationTable) (weights : Dict String ℚ) (portfolio : PortfolioState)
    (now : Time) : AllocationRow × AllocationTable :=
  let fresh (reason : AllocationReason) : AllocationRow :=
    ⟨portfolio.costBasis, weights, reason, now⟩
  match t.getLatestAllocation with
  | none => (fresh .initial, t ++ [fresh .initial])
  | some row =>
      if SameWeights row.weights weights then (row, t)
      else (fresh .weightsChanged, t ++ [fresh .weightsChanged])

/-- `ensure_allocation`. -/
def SleeveBook.ensureAllocation (b : SleeveBook) (t : AllocationTable)
    (portfolio : PortfolioState) (now : Time) : SleeveBook × AllocationTable :=
  let r := allocationRow t b.settings.weights portfolio now
  ({ b with allocation := some r.1.allocation }, r.2)

/-! ## Owners -/

/-- A database that answers. -/
def ReadsRows (read : MetaRead) : Prop := ∀ ids, ∃ found, read ids = .ok found

theorem readsRows_getDecisionStrategies (t : DecisionTable) :
    ReadsRows (DecisionTable.getDecisionStrategies t) := fun _ => ⟨_, rfl⟩

namespace SleeveBook

variable {read : MetaRead}

theorem loadMeta_settings (b : SleeveBook) (read : MetaRead) (ids : List DecisionId) :
    (b.loadMeta read ids).2.settings = b.settings ∧
      (b.loadMeta read ids).2.allocation = b.allocation := by
  unfold loadMeta
  dsimp only
  split_ifs
  · exact ⟨rfl, rfl⟩
  · split <;> exact ⟨rfl, rfl⟩

theorem loadMeta_ok (hread : ReadsRows read) (b : SleeveBook) (ids : List DecisionId) :
    ∃ b', b.loadMeta read ids = (.ok (), b') ∧ b'.settings = b.settings := by
  have hsettings := (b.loadMeta_settings read ids).1
  unfold loadMeta at hsettings ⊢
  dsimp only at hsettings ⊢
  split_ifs
  · exact ⟨b, rfl, rfl⟩
  · obtain ⟨found, hfound⟩ := hread
      (ids.eraseDups.filter (fun i => !b.decisionMeta.contains i))
    rw [hfound]
    exact ⟨_, rfl, rfl⟩

theorem firstKnown_mem {b : SleeveBook} {ids : List DecisionId} {name : String}
    (h : b.firstKnown ids = some name) : name ∈ b.settings.names := by
  obtain ⟨id, -, hid⟩ := List.exists_of_findSome?_eq_some h
  split at hid
  · split_ifs at hid with hget
    cases hid
    exact SleevesSettings.mem_names_of_get hget
  · cases hid

/-- The sleeve that a list of decisions points to is configured. -/
theorem owner_mem (b : SleeveBook) (ids : List DecisionId) :
    (b.firstKnown ids).getD b.default ∈ b.settings.names := by
  cases h : b.firstKnown ids with
  | none => exact b.settings.first_mem_names
  | some name => exact firstKnown_mem h

/-- An open position has an owner. -/
theorem ownership_held (hread : ReadsRows read) (b : SleeveBook) (hooks : EntryHooks)
    {positions : List Position} {symbol : Symbol}
    (hheld : ∃ q ∈ positions, q.symbol = symbol ∧ 0 < q.quantity) :
    ∃ o b', b.ownership read hooks positions symbol = (.ok (some o), b') ∧
      o.strategy ∈ b.settings.names ∧ b'.settings = b.settings := by
  obtain ⟨q, hq, hsymbol, hpos⟩ := hheld
  have hany : positions.any (fun p => p.symbol = symbol ∧ p.quantity > 0) = true :=
    List.any_eq_true.mpr ⟨q, hq, by simp [hsymbol, hpos]⟩
  obtain ⟨b', hload, hsettings⟩ :=
    loadMeta_ok hread b ((hooks.entryDecisionIds symbol).filterMap id)
  unfold ownership
  rw [if_pos hany]
  simp only [hload]
  refine ⟨_, b', rfl, ?_, hsettings⟩
  rw [← hsettings]
  exact b'.owner_mem _

theorem ownersOf_total (hread : ReadsRows read) (hooks : EntryHooks) {positions : List Position}
    {symbols : List Symbol}
    (hheld : ∀ s ∈ symbols, ∃ q ∈ positions, q.symbol = s ∧ 0 < q.quantity) (b : SleeveBook)
    (acc : Dict Symbol String) :
    ∃ owners, (ownersOf read hooks positions symbols b acc).1 = .ok owners ∧
      ∀ s, (s ∈ symbols → ∃ name ∈ b.settings.names, owners.get? s = some name) ∧
        (s ∉ symbols → owners.get? s = acc.get? s) := by
  induction symbols generalizing b acc with
  | nil => exact ⟨acc, rfl, fun s => ⟨fun h => (List.not_mem_nil h).elim, fun _ => rfl⟩⟩
  | cons s ss ih =>
      obtain ⟨o, b', hown, hname, hsettings⟩ :=
        b.ownership_held hread hooks (hheld s List.mem_cons_self)
      obtain ⟨owners, howners, hspec⟩ := ih (fun t ht => hheld t (List.mem_cons_of_mem _ ht)) b'
        (acc.set s o.strategy)
      refine ⟨owners, ?_, fun t => ⟨fun ht => ?_, fun ht => ?_⟩⟩
      · unfold ownersOf
        simp only [hown]
        exact howners
      · by_cases hmem : t ∈ ss
        · rw [← hsettings]
          exact (hspec t).1 hmem
        · -- the head is not looked up again
          obtain rfl := (List.mem_cons.mp ht).resolve_right hmem
          exact ⟨o.strategy, hname, by rw [(hspec t).2 hmem, Dict.get?_set_self]⟩
      · rw [List.mem_cons, not_or] at ht
        rw [(hspec t).2 ht.2, Dict.get?_set_ne _ _ (Ne.symm ht.1)]

/-- **Owners.** With a database that answers, every open position has a configured owner. -/
theorem owners_total (hread : ReadsRows read) (b : SleeveBook) (hooks : EntryHooks)
    (positions : List Position) :
    ∃ owners, (b.owners read hooks positions).1 = .ok owners ∧
      ∀ q ∈ positions, 0 < q.quantity →
        ∃ name ∈ b.settings.names, owners.get? q.symbol = some name := by
  have hheld : ∀ s ∈ ((positions.filter (fun p => p.quantity > 0)).map Position.symbol).eraseDups,
      ∃ q ∈ positions.filter (fun p => p.quantity > 0), q.symbol = s ∧ 0 < q.quantity := by
    intro s hs
    obtain ⟨q, hq, rfl⟩ := List.mem_map.mp (List.mem_eraseDups.mp hs)
    exact ⟨q, hq, rfl, by simpa using (List.mem_filter.mp hq).2⟩
  obtain ⟨owners, howners, hspec⟩ := ownersOf_total hread hooks hheld b Dict.empty
  refine ⟨owners, howners, fun q hq hpos => (hspec q.symbol).1 ?_⟩
  exact List.mem_eraseDups.mpr
    (List.mem_map_of_mem (List.mem_filter.mpr ⟨hq, by simpa using hpos⟩))

end SleeveBook

/-! ## The sum of the books -/

/-- A sum over a list, split by a key that takes its values in a finite set. -/
theorem sum_map_filter_key {α κ : Type} [DecidableEq κ] (keys : Finset κ) (P : α → Prop)
    [DecidablePred P] (key : α → Option κ) (f : α → ℚ) (xs : List α)
    (h : ∀ x ∈ xs, P x → ∃ k ∈ keys, key x = some k) :
    ∑ k ∈ keys, ((xs.filter (fun x => P x ∧ key x = some k)).map f).sum
      = ((xs.filter P).map f).sum := by
  induction xs with
  | nil => simp
  | cons x xs ih =>
      have hrest := ih fun y hy => h y (List.mem_cons_of_mem _ hy)
      by_cases hx : P x
      · obtain ⟨k, hk, hkey⟩ := h x List.mem_cons_self hx
        have hsplit : ∀ j ∈ keys,
            (((x :: xs).filter (fun x => P x ∧ key x = some j)).map f).sum
              = (if k = j then f x else 0)
                + ((xs.filter (fun x => P x ∧ key x = some j)).map f).sum := by
          intro j _
          by_cases hj : k = j
          · rw [List.filter_cons_of_pos (by simp [hx, hkey, hj]), if_pos hj]
            simp
          · rw [List.filter_cons_of_neg (by simp [hkey, hj]), if_neg hj, zero_add]
        rw [Finset.sum_congr rfl hsplit, Finset.sum_add_distrib, hrest, Finset.sum_ite_eq,
          if_pos hk, List.filter_cons_of_pos (by simpa using hx)]
        simp
      · have hskip : ∀ j ∈ keys,
            (((x :: xs).filter (fun x => P x ∧ key x = some j)).map f).sum
              = ((xs.filter (fun x => P x ∧ key x = some j)).map f).sum := by
          intro j _
          rw [List.filter_cons_of_neg (by simp [hx])]
        rw [Finset.sum_congr rfl hskip, hrest, List.filter_cons_of_neg (by simpa using hx)]

namespace SleeveBook

variable {read : MetaRead}

/-- The equity of a sleeve: its share of the base, what it realized, and the unrealized result of
what it owns. -/
theorem sleeveEquity_totalValue {b : SleeveBook} {hooks : EntryHooks} {portfolio : PortfolioState}
    {owners : Dict Symbol String} (howners : (b.owners read hooks portfolio.positions).1 = .ok owners)
    (name : String) (allocation : Allocation) (realized : ℚ) :
    ∃ book, (b.sleeveEquity read hooks name portfolio allocation (.ok realized)).1 = .ok book ∧
      book.positions = portfolio.positions.filter
        (fun p => p.quantity > 0 ∧ owners.get? p.symbol = some name) ∧
      book.totalValue = (allocation.weights.get? name).getD 0 * allocation.baseEquity + realized
        + (book.positions.map Position.pnl).sum := by
  unfold sleeveEquity
  rcases hread : b.owners read hooks portfolio.positions with ⟨_ | found, b'⟩
  · rw [hread] at howners
    cases howners
  · rw [hread] at howners
    obtain rfl := Except.ok.inj howners
    refine ⟨_, rfl, rfl, ?_⟩
    unfold PortfolioState.totalValue PortfolioState.positionValue
    dsimp only
    ring

/-- **The sum of the books.** With a database that answers, each open position is in the book of
exactly one configured sleeve, and the equities add up to the weighted base, what all sleeves
realized and the unrealized result of the open positions. -/
theorem sum_equity (hread : ReadsRows read) (b : SleeveBook) (hooks : EntryHooks)
    (portfolio : PortfolioState) (allocation : Allocation) (realized : String → ℚ) :
    ∃ book : String → PortfolioState,
      (∀ name, (b.sleeveEquity read hooks name portfolio allocation (.ok (realized name))).1
        = .ok (book name)) ∧
      (∀ q ∈ portfolio.positions, 0 < q.quantity →
        ∃ name ∈ b.settings.names, ∀ other, q ∈ (book other).positions ↔ other = name) ∧
      ∑ name ∈ b.settings.names.toFinset, (book name).totalValue
        = (∑ name ∈ b.settings.names.toFinset, (allocation.weights.get? name).getD 0)
            * allocation.baseEquity
          + (∑ name ∈ b.settings.names.toFinset, realized name)
          + ((portfolio.positions.filter (fun q => q.quantity > 0)).map Position.pnl).sum := by
  obtain ⟨owners, howners, hspec⟩ := owners_total hread b hooks portfolio.positions
  choose book hbook hpositions hvalue using fun name =>
    sleeveEquity_totalValue howners name allocation (realized name)
  refine ⟨book, hbook, fun q hq hpos => ?_, ?_⟩
  · obtain ⟨name, hname, hown⟩ := hspec q hq hpos
    refine ⟨name, hname, fun other => ?_⟩
    rw [hpositions other, List.mem_filter]
    simp only [hq, hown, Option.some.injEq, decide_eq_true_eq, true_and, hpos]
    exact eq_comm
  · have hkeys : ∀ q ∈ portfolio.positions, q.quantity > 0 →
        ∃ k ∈ b.settings.names.toFinset, owners.get? q.symbol = some k := by
      intro q hq hpos
      obtain ⟨name, hname, hown⟩ := hspec q hq hpos
      exact ⟨name, List.mem_toFinset.mpr hname, hown⟩
    have hpnl := sum_map_filter_key b.settings.names.toFinset (fun q : Position => q.quantity > 0)
      (fun q => owners.get? q.symbol) Position.pnl portfolio.positions hkeys
    simp only [hvalue, hpositions]
    rw [Finset.sum_add_distrib, Finset.sum_add_distrib, ← Finset.sum_mul, hpnl]

end SleeveBook

end SmartyTrader
