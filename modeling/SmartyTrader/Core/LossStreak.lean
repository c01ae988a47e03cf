import SmartyTrader.Core.RiskEngine
import SmartyTrader.Lib.Runs
import SmartyTrader.Storage.Orders

set_option autoImplicit false

/-! # Rehydration of the loss streak

The live tracker counts closing fills in the order they resolve. Storage keeps them in the order
their rows were inserted, which for a resting order is the order of the placements. A streak
read back from the rows is the live one as long as an order that resolves late does not change
what the rows after it say.

With sleeves every sleeve has an engine. A fill at once is fed to the engine of the owner that the
pipeline names, a late one to that of the sleeve that made the order's decision, and both to the
default sleeve where there is none; the rows are read back by the strategy they were stored with.
The agent's own engine is fed nothing then, and is rehydrated from all rows.
-/

namespace SmartyTrader

open Lib

/-! ## Closing fills -/

/-- The profit and the time of a closing fill, `filled_at or created_at`. -/
abbrev Outcome := ℚ × Time

/-- A filled row that realized a profit or loss, of one sleeve if a strategy is given. -/
def OrderRow.closing (strategy : Option String) (row : OrderRow) : Option Outcome :=
  if row.status = .filled ∧ (strategy = none ∨ row.strategy = strategy) then
    row.realizedPnl.map (fun pnl => (pnl, row.filledAt.getD row.createdAt))
  else none

/-- The outcomes of all closing fills, newest row first. -/
def OrderTable.outcomes (strategy : Option String) (t : OrderTable) : List Outcome :=
  t.reverse.filterMap (OrderRow.closing strategy)

/-- `get_recent_closing_fills`. -/
def OrderTable.getRecentClosingFills (limit : ℕ) (strategy : Option String) (t : OrderTable) :
    List Outcome :=
  (OrderTable.outcomes strategy t).take limit

/-- `rehydrate_loss_streak`. -/
def rehydrateLossStreak (e : RiskEngine) (t : OrderTable) (strategy : Option String) :
    RiskEngine :=
  let losses := (OrderTable.getRecentClosingFills 50 strategy t).takeWhile (fun o => o.1 < 0)
  let streak : ℤ := losses.length
  let cooldownUntil :=
    match losses.head? with
    | some newest =>
        if streak ≥ e.settings.consecutiveLossesThreshold then
          some (newest.2 + minutes e.settings.consecutiveLossesCooldownMinutes)
        else none
    | none => none
  if streak ≠ 0 ∨ cooldownUntil ≠ none then e.restoreLossStreak streak cooldownUntil else e

/-! ## The tracker of a list of outcomes -/

/-- The losses since the last outcome that was none, newest first. -/
def trailing (outcomes : List Outcome) : List Outcome := outcomes.takeWhile (fun o => o.1 < 0)

/-- The tracker of a streak of losses, newest first. -/
def trackerOfLosses (s : RiskSettings) : List Outcome → ConsecutiveLossTracker
  | [] => ConsecutiveLossTracker.empty
  | newest :: rest =>
      { consecutiveLosses := rest.length + 1
        cooldownUntil :=
          if s.consecutiveLossesThreshold ≤ rest.length + 1 then
            some (newest.2 + minutes s.consecutiveLossesCooldownMinutes)
          else none }

/-- The tracker after outcomes, newest first. -/
def trackerOf (s : RiskSettings) (outcomes : List Outcome) : ConsecutiveLossTracker :=
  trackerOfLosses s (trailing outcomes)

theorem trailing_cons_of_loss {o : Outcome} (h : o.1 < 0) (rest : List Outcome) :
    trailing (o :: rest) = o :: trailing rest :=
  List.takeWhile_cons_of_pos (by simpa using h)

theorem trailing_cons_of_not_loss {o : Outcome} (h : ¬ o.1 < 0) (rest : List Outcome) :
    trailing (o :: rest) = [] :=
  List.takeWhile_cons_of_neg (by simpa using h)

theorem losses_trackerOfLosses (s : RiskSettings) (losses : List Outcome) :
    (trackerOfLosses s losses).consecutiveLosses = losses.length := by
  cases losses with
  | nil => rfl
  | cons newest rest => exact (Nat.cast_succ rest.length).symm

theorem trackerOfLosses_cons_eq_iff (s : RiskSettings) (a b : Outcome) (l m : List Outcome) :
    trackerOfLosses s (a :: l) = trackerOfLosses s (b :: m) ↔
      l.length = m.length ∧ (s.consecutiveLossesThreshold ≤ l.length + 1 → a.2 = b.2) := by
  unfold trackerOfLosses
  rw [ConsecutiveLossTracker.mk.injEq, add_left_inj, Nat.cast_inj]
  refine and_congr_right (fun hlen => ?_)
  rw [← hlen]
  split_ifs with hth
  · simp [hth]
  · simp [hth]

/-- The rows say what the tracker of their outcomes says, as long as the trailing losses fit in
the rows that are read. -/
theorem rehydrateLossStreak_tracker (s : RiskSettings) (t : OrderTable)
    (strategy : Option String) (hfit : (trailing (OrderTable.outcomes strategy t)).length ≤ 50) :
    (rehydrateLossStreak (RiskEngine.create s) t strategy).lossTracker
      = trackerOf s (OrderTable.outcomes strategy t) := by
  have hread : (OrderTable.getRecentClosingFills 50 strategy t).takeWhile (fun o => o.1 < 0)
      = trailing (OrderTable.outcomes strategy t) := by
    unfold OrderTable.getRecentClosingFills
    rw [← List.take_takeWhile]
    exact List.take_of_length_le hfit
  unfold rehydrateLossStreak trackerOf
  rw [hread]
  cases trailing (OrderTable.outcomes strategy t) with
  | nil => rfl
  | cons newest rest =>
      have hne : (((newest :: rest).length : ℕ) : ℤ) ≠ 0 := by
        rw [List.length_cons]
        omega
      simp only [if_pos (Or.inl hne)]
      rfl

/-- A new outcome is recorded like a new row is read. -/
theorem recordOutcome_trackerOf {e : RiskEngine} {outcomes : List Outcome} (o : Outcome)
    (h : e.lossTracker = trackerOf e.settings outcomes) :
    (e.recordOutcome (decide (0 ≤ o.1)) o.2).lossTracker
      = trackerOf e.settings (o :: outcomes) := by
  unfold RiskEngine.recordOutcome trackerOf
  by_cases hp : 0 ≤ o.1
  · rw [decide_eq_true hp, if_pos rfl, trailing_cons_of_not_loss (not_lt.mpr hp)]
    rfl
  · rw [decide_eq_false hp, if_neg (by decide), trailing_cons_of_loss (not_le.mp hp)]
    dsimp only
    rw [h]
    unfold trackerOf
    cases trailing outcomes with
    | nil => rfl
    | cons newest rest =>
        unfold ConsecutiveLossTracker.recordLoss trackerOfLosses
        simp only [List.length_cons, Nat.cast_add, Nat.cast_one, ge_iff_le,
          ConsecutiveLossTracker.mk.injEq, true_and]
        by_cases hth : e.settings.consecutiveLossesThreshold ≤ (rest.length : ℤ) + 1 + 1
        · rw [if_pos hth, if_pos hth]
        · -- Below the threshold the losses before have armed no cooldown either.
          have hbelow : ¬ e.settings.consecutiveLossesThreshold ≤ (rest.length : ℤ) + 1 := by
            omega
          rw [if_neg hth, if_neg hth, if_neg hbelow]

/-! ## An outcome behind newer rows -/

/-- An outcome that resolves behind newer rows is read like the newest one: there are no newer
closing fills; or it is no loss and neither is the newest one; or it is a loss, all newer ones
are losses, and it arms no cooldown or arms the one of the newest loss. -/
def Orderly (s : RiskSettings) (newer : List Outcome) (losses : ℤ) (o : Outcome) : Prop :=
  match newer.head? with
  | none => True
  | some newest =>
      if o.1 < 0 then
        (∀ c ∈ newer, c.1 < 0) ∧ (s.consecutiveLossesThreshold ≤ losses + 1 → newest.2 = o.2)
      else 0 ≤ newest.1

theorem trailing_append_of_all {newer : List Outcome} (h : ∀ c ∈ newer, c.1 < 0)
    (older : List Outcome) : trailing (newer ++ older) = newer ++ trailing older :=
  List.takeWhile_append_of_pos (fun c hc => by simpa using h c hc)

theorem trailing_append_of_not_all {newer : List Outcome} (h : ¬ ∀ c ∈ newer, c.1 < 0)
    (older : List Outcome) : trailing (newer ++ older) = trailing newer := by
  induction newer with
  | nil => exact absurd (by simp) h
  | cons c rest ih =>
      unfold trailing at ih ⊢
      by_cases hc : c.1 < 0
      · have hrest : ¬ ∀ d ∈ rest, d.1 < 0 := fun hr => h (List.forall_mem_cons.mpr ⟨hc, hr⟩)
        rw [List.cons_append, List.takeWhile_cons_of_pos (by simpa using hc),
          List.takeWhile_cons_of_pos (by simpa using hc), ih hrest]
      · rw [List.cons_append, List.takeWhile_cons_of_neg (by simpa using hc),
          List.takeWhile_cons_of_neg (by simpa using hc)]

/-- Where an outcome stands among the newer rows matters exactly unless it is orderly. -/
theorem trackerOf_insert_iff (s : RiskSettings) (newer older : List Outcome) (o : Outcome) :
    trackerOf s (o :: (newer ++ older)) = trackerOf s (newer ++ o :: older) ↔
      Orderly s newer (trackerOf s (newer ++ older)).consecutiveLosses o := by
  cases newer with
  | nil => simp [Orderly]
  | cons n ns =>
      unfold Orderly trackerOf
      rw [losses_trackerOfLosses]
      dsimp only [List.head?_cons]
      by_cases ho : o.1 < 0
      · rw [if_pos ho, trailing_cons_of_loss ho]
        by_cases hall : ∀ c ∈ n :: ns, c.1 < 0
        · -- The streak grows by one either way, and only its newest loss differs.
          rw [trailing_append_of_all hall, trailing_append_of_all hall, trailing_cons_of_loss ho,
            List.cons_append, List.cons_append, trackerOfLosses_cons_eq_iff]
          have hlen : (n :: (ns ++ trailing older)).length = (ns ++ o :: trailing older).length := by
            simp only [List.length_cons, List.length_append]
            omega
          exact ⟨fun h => ⟨hall, fun hth => (h.2 hth).symm⟩,
            fun h => ⟨hlen, fun hth => (h.2 hth).symm⟩⟩
        · rw [trailing_append_of_not_all hall, trailing_append_of_not_all hall]
          constructor
          · intro h
            have hlen := congrArg ConsecutiveLossTracker.consecutiveLosses h
            rw [losses_trackerOfLosses, losses_trackerOfLosses, List.length_cons] at hlen
            omega
          · exact fun h => absurd h.1 hall
      · rw [if_neg ho, trailing_cons_of_not_loss ho, List.cons_append]
        by_cases hn : n.1 < 0
        · rw [trailing_cons_of_loss hn]
          constructor
          · intro h
            have hlen := congrArg ConsecutiveLossTracker.consecutiveLosses h
            rw [losses_trackerOfLosses, losses_trackerOfLosses, List.length_cons,
              List.length_nil] at hlen
            omega
          · exact fun h => absurd hn (not_lt.mpr h)
        · rw [trailing_cons_of_not_loss hn]
          exact ⟨fun _ => not_lt.mp hn, fun _ => rfl⟩

/-- An outcome that is fed and not read back, or read back and not fed. -/
theorem trackerOf_cons_eq_iff (s : RiskSettings) (outcomes : List Outcome) (o : Outcome) :
    trackerOf s (o :: outcomes) = trackerOf s outcomes ↔
      0 ≤ o.1 ∧ (trackerOf s outcomes).consecutiveLosses = 0 := by
  unfold trackerOf
  by_cases ho : o.1 < 0
  · rw [trailing_cons_of_loss ho]
    constructor
    · intro h
      have hlen := congrArg ConsecutiveLossTracker.consecutiveLosses h
      rw [losses_trackerOfLosses, losses_trackerOfLosses, List.length_cons] at hlen
      omega
    · exact fun h => absurd ho (not_lt.mpr h.1)
  · rw [trailing_cons_of_not_loss ho, losses_trackerOfLosses]
    cases trailing outcomes with
    | nil => simpa using ho
    | cons newest rest =>
        constructor
        · intro h
          have hlen := congrArg ConsecutiveLossTracker.consecutiveLosses h
          rw [losses_trackerOfLosses, losses_trackerOfLosses, List.length_cons,
            List.length_nil] at hlen
          omega
        · rintro ⟨-, hzero⟩
          rw [List.length_cons] at hzero
          omega

/-- An outcome behind newer ones is not seen exactly when a newer one is no loss, or it is none
itself and the streak ends with the newer ones. -/
theorem trackerOf_hidden_iff (s : RiskSettings) (newer older : List Outcome) (o : Outcome) :
    trackerOf s (newer ++ older) = trackerOf s (newer ++ o :: older) ↔
      (∃ c ∈ newer, 0 ≤ c.1) ∨
        (0 ≤ o.1 ∧ (trackerOf s (newer ++ older)).consecutiveLosses = newer.length) := by
  unfold trackerOf
  rw [losses_trackerOfLosses]
  by_cases hall : ∀ c ∈ newer, c.1 < 0
  · have hnone : ¬∃ c ∈ newer, 0 ≤ c.1 := fun ⟨c, hc, hle⟩ => absurd (hall c hc) (not_lt.mpr hle)
    rw [trailing_append_of_all hall, trailing_append_of_all hall, or_iff_right hnone,
      List.length_append]
    by_cases ho : o.1 < 0
    · rw [trailing_cons_of_loss ho]
      constructor
      · intro h
        have hlen := congrArg ConsecutiveLossTracker.consecutiveLosses h
        rw [losses_trackerOfLosses, losses_trackerOfLosses, List.length_append, List.length_append,
          List.length_cons] at hlen
        omega
      · exact fun h => absurd ho (not_lt.mpr h.1)
    · rw [trailing_cons_of_not_loss ho, List.append_nil]
      constructor
      · intro h
        have hlen := congrArg ConsecutiveLossTracker.consecutiveLosses h
        rw [losses_trackerOfLosses, losses_trackerOfLosses, List.length_append] at hlen
        exact ⟨not_lt.mp ho, hlen⟩
      · rintro ⟨-, hlen⟩
        have hnil : trailing older = [] := List.length_eq_zero_iff.mp (by omega)
        rw [hnil, List.append_nil]
  · rw [trailing_append_of_not_all hall, trailing_append_of_not_all hall]
    push Not at hall
    exact ⟨fun _ => .inl hall, fun _ => rfl⟩

/-! ## Runs -/

/-- The configured sleeves, the first of which is the default, and the strategies that the
decisions are stored with. -/
structure SleeveNames where
  first : String
  rest : List String
  strategies : DecisionId → Option String

/-- `spec`: an unknown name is the default sleeve's. -/
def SleeveNames.spec (sleeves : SleeveNames) (name : Option String) : String :=
  match name with
  | some name => if name ∈ sleeves.first :: sleeves.rest then name else sleeves.first
  | none => sleeves.first

/-- The engine that is looked at. -/
inductive StreakView where
  /-- The agent's, without sleeves. -/
  | agent
  /-- The agent's own beside sleeves. -/
  | besideSleeves
  /-- The one of a sleeve. -/
  | sleeve (sleeves : SleeveNames) (name : String)

namespace StreakView

/-- The rows it is rehydrated from. -/
def strategy : StreakView → Option String
  | agent => none
  | besideSleeves => none
  | sleeve _ name => some name

/-- `_record_outcome`: whether the outcome of an owner is fed to the engine. -/
def feeds (v : StreakView) (owner : Option String) : Bool :=
  match v with
  | agent => true
  | besideSleeves => false
  | sleeve sleeves name => sleeves.spec owner = name

/-- `strategy_of_decision`, of the decision of an order. -/
def strategyOfDecision (v : StreakView) (decisionId : Option DecisionId) : Option String :=
  match v with
  | sleeve sleeves _ => some (sleeves.spec (decisionId.bind sleeves.strategies))
  | _ => none

end StreakView

/-- The order table and the live engine. -/
structure StreakRun where
  table : OrderTable
  engine : RiskEngine

/-- What happens to an order: its row is stored when it is placed, with the owner its pipeline
names, and patched when it resolves, with the decision that the executor remembers of it. An order
that fills at once is stored with its result. -/
inductive OrderEvent where
  | stored (row : OrderRow) (owner : Option String)
  | resolved (orderId : OrderId) (patch : OrderPatch) (decisionId : Option DecisionId)

/-- A closing fill that is fed counts toward the streak, at the time of the fill. -/
def countOutcome (fed : Bool) (o : Option Outcome) (e : RiskEngine) : RiskEngine :=
  match o with
  | none => e
  | some o => if fed then e.recordOutcome (decide (0 ≤ o.1)) o.2 else e

/-- The row that is written: only a filled one has a profit. -/
def OrderRow.placed (row : OrderRow) : OrderRow :=
  { row with realizedPnl := if row.status = .filled then row.realizedPnl else none }

/-- One event. Only a pending row is patched. -/
def StreakRun.step (v : StreakView) (event : OrderEvent) (r : StreakRun) : StreakRun :=
  match event with
  | .stored row owner =>
      let engine := countOutcome (v.feeds owner) (row.placed.closing none) r.engine
      match OrderTable.saveOrder r.table row.placed with
      | .error _ => ⟨r.table, engine⟩
      | .ok table => ⟨table, engine⟩
  | .resolved orderId patch decisionId =>
      match r.table.find? (fun row => row.orderId = orderId ∧ row.status = .pending) with
      | none => r
      | some row =>
          ⟨(OrderTable.updateOrderStatus r.table orderId patch).2,
            countOutcome (v.feeds (v.strategyOfDecision decisionId))
              ((patch.write row).closing none) r.engine⟩

def StreakRun.start (s : RiskSettings) : StreakRun := ⟨[], RiskEngine.create s⟩

/-- The rows stored after the row of an order. -/
def OrderTable.after (orderId : OrderId) (t : OrderTable) : OrderTable :=
  (t.reverse.takeWhile (fun row => row.orderId ≠ orderId)).reverse

/-- The row is one of those the engine is rehydrated from. -/
def OrderRow.Tagged (v : StreakView) (row : OrderRow) : Prop :=
  v.strategy = none ∨ row.strategy = v.strategy

instance (v : StreakView) (row : OrderRow) : Decidable (row.Tagged v) :=
  inferInstanceAs (Decidable (_ ∨ _))

/-- An outcome leaves the engine and the rows alike: it is fed and read and orderly; or it is fed
and not read, is no loss and there is no streak; or it is read and not fed, and either a newer one
is no loss, or it is none itself and the streak ends with the newer ones; or it is neither. -/
def Alike (s : RiskSettings) (newer : List Outcome) (losses : ℤ) (o : Outcome)
    (fed read : Bool) : Prop :=
  match fed, read with
  | true, true => Orderly s newer losses o
  | true, false => 0 ≤ o.1 ∧ losses = 0
  | false, true => (∃ c ∈ newer, 0 ≤ c.1) ∨ (0 ≤ o.1 ∧ losses = newer.length)
  | false, false => True

/-- A closing fill leaves the engine and the rows alike. -/
def InOrder (v : StreakView) (event : OrderEvent) (r : StreakRun) : Prop :=
  match event with
  | .stored row owner => ∀ o ∈ row.placed.closing none,
      Alike r.engine.settings [] r.engine.lossTracker.consecutiveLosses o (v.feeds owner)
        (decide (row.orderId ∉ r.table.map OrderRow.orderId ∧ row.Tagged v))
  | .resolved orderId patch decisionId =>
      ∀ row, r.table.find? (fun row => row.orderId = orderId ∧ row.status = .pending) = some row →
        ∀ o ∈ (patch.write row).closing none,
          Alike r.engine.settings
            (OrderTable.outcomes v.strategy (OrderTable.after orderId r.table))
            r.engine.lossTracker.consecutiveLosses o (v.feeds (v.strategyOfDecision decisionId))
            (decide (row.Tagged v))

/-- Order ids are unique, and the engine has its settings. -/
structure StreakRun.WellFormed (s : RiskSettings) (r : StreakRun) : Prop where
  nodup : (r.table.map OrderRow.orderId).Nodup
  settings : r.engine.settings = s

/-- The live tracker is the tracker of the stored outcomes. -/
def StreakRun.Mirrored (v : StreakView) (r : StreakRun) : Prop :=
  r.engine.lossTracker = trackerOf r.engine.settings (OrderTable.outcomes v.strategy r.table)

theorem countOutcome_settings (fed : Bool) (o : Option Outcome) (e : RiskEngine) :
    (countOutcome fed o e).settings = e.settings := by
  unfold countOutcome RiskEngine.recordOutcome
  cases o with
  | none => rfl
  | some o => dsimp only; split_ifs <;> rfl

theorem closing_eq (v : StreakView) (row : OrderRow) :
    row.closing v.strategy = if row.Tagged v then row.closing none else none := by
  by_cases htag : row.Tagged v
  · rw [if_pos htag]
    unfold OrderRow.closing
    unfold OrderRow.Tagged at htag
    simp [htag]
  · rw [if_neg htag]
    unfold OrderRow.closing
    unfold OrderRow.Tagged at htag
    simp [htag]

theorem outcomes_append (strategy : Option String) (t t' : OrderTable) :
    OrderTable.outcomes strategy (t ++ t')
      = OrderTable.outcomes strategy t' ++ OrderTable.outcomes strategy t := by
  simp [OrderTable.outcomes]

theorem outcomes_singleton (strategy : Option String) (row : OrderRow) :
    OrderTable.outcomes strategy [row] = (row.closing strategy).toList := by
  unfold OrderTable.outcomes
  cases h : row.closing strategy <;> simp [h]

theorem outcomes_split (strategy : Option String) (older : OrderTable) (row : OrderRow)
    (newer : OrderTable) :
    OrderTable.outcomes strategy (older ++ row :: newer)
      = OrderTable.outcomes strategy newer ++ ((row.closing strategy).toList
        ++ OrderTable.outcomes strategy older) := by
  rw [← List.singleton_append, outcomes_append, outcomes_append, outcomes_singleton,
    List.append_assoc]

theorem after_split {older newer : OrderTable} {row : OrderRow}
    (h : row.orderId ∉ newer.map OrderRow.orderId) :
    OrderTable.after row.orderId (older ++ row :: newer) = newer := by
  unfold OrderTable.after
  have hnewer : ∀ other ∈ newer.reverse, decide (other.orderId ≠ row.orderId) = true := by
    intro other hother
    rw [decide_eq_true_eq]
    intro heq
    exact h (heq ▸ List.mem_map_of_mem (List.mem_reverse.mp hother))
  rw [List.reverse_append, List.reverse_cons, List.append_assoc,
    List.takeWhile_append_of_pos hnewer, List.singleton_append,
    List.takeWhile_cons_of_neg (by simp), List.append_nil, List.reverse_reverse]

/-- What a patch of a pending row splits the table into. -/
theorem split_of_find {s : RiskSettings} {r : StreakRun} (hw : r.WellFormed s)
    {orderId : OrderId} {row : OrderRow}
    (hfind : r.table.find? (fun row => row.orderId = orderId ∧ row.status = .pending) = some row) :
    row.orderId = orderId ∧ row.status = .pending ∧ ∃ older newer,
      r.table = older ++ row :: newer ∧ row.orderId ∉ newer.map OrderRow.orderId := by
  obtain ⟨hp, older, newer, ht, -⟩ := List.find?_eq_some_iff_append.mp hfind
  obtain ⟨hid, hpending⟩ : row.orderId = orderId ∧ row.status = .pending := by simpa using hp
  have hnodup := hw.nodup
  rw [ht, List.map_append, List.map_cons, List.nodup_append, List.nodup_cons] at hnodup
  exact ⟨hid, hpending, older, newer, ht, hnodup.2.1.1⟩

/-- What an event does: at most one outcome is fed to the engine, and at most that one is put
between the stored outcomes. -/
theorem step_shape (v : StreakView) {s : RiskSettings} {r : StreakRun} (hw : r.WellFormed s)
    (event : OrderEvent) :
    ∃ (newer older : List Outcome) (o : Option Outcome) (fed read : Bool),
      OrderTable.outcomes v.strategy r.table = newer ++ older ∧
      OrderTable.outcomes v.strategy (r.step v event).table
        = newer ++ ((if read then o.toList else []) ++ older) ∧
      (r.step v event).engine = countOutcome fed o r.engine ∧
      (InOrder v event r ↔ ∀ x ∈ o,
        Alike s newer r.engine.lossTracker.consecutiveLosses x fed read) := by
  cases event with
  | stored row owner =>
      refine ⟨[], OrderTable.outcomes v.strategy r.table, row.placed.closing none, v.feeds owner,
        decide (row.orderId ∉ r.table.map OrderRow.orderId ∧ row.Tagged v), rfl, ?_, ?_, ?_⟩
      · unfold StreakRun.step
        dsimp only
        by_cases hdup : row.placed.orderId ∈ r.table.map OrderRow.orderId
        · obtain ⟨err, herr⟩ := saveOrder_of_mem hdup
          have hread :
              ¬decide (row.orderId ∉ r.table.map OrderRow.orderId ∧ row.Tagged v) = true := by
            rw [decide_eq_true_eq]
            exact fun hnew => hnew.1 hdup
          rw [herr, if_neg hread]
          rfl
        · rw [saveOrder_of_fresh hdup]
          dsimp only
          rw [outcomes_append, outcomes_singleton, closing_eq v row.placed]
          have htag : row.placed.Tagged v ↔ row.Tagged v := Iff.rfl
          have hnew : row.orderId ∉ r.table.map OrderRow.orderId := hdup
          by_cases ht : row.Tagged v
          · rw [if_pos (htag.mpr ht), if_pos (decide_eq_true ⟨hnew, ht⟩)]
            rfl
          · rw [if_neg (mt htag.mp ht), if_neg (by simp [ht])]
            rfl
      · unfold StreakRun.step
        dsimp only
        split <;> rfl
      · unfold InOrder
        rw [hw.settings]
  | resolved orderId patch decisionId =>
      cases hfind : r.table.find? (fun row => row.orderId = orderId ∧ row.status = .pending) with
      | none =>
          refine ⟨[], OrderTable.outcomes v.strategy r.table, none, false, false, rfl, ?_, ?_, ?_⟩
          · unfold StreakRun.step
            simp only [hfind]
            rfl
          · unfold StreakRun.step
            simp only [hfind]
            rfl
          · unfold InOrder
            simp only [hfind]
            exact ⟨fun _ x hx => (nomatch hx), fun _ row hrow => (nomatch hrow)⟩
      | some row =>
          obtain ⟨rfl, hpending, older, newer, ht, hnewer⟩ := split_of_find hw hfind
          have hnodup := hw.nodup
          rw [ht] at hnodup
          have hold : row.closing v.strategy = none := by
            unfold OrderRow.closing
            rw [if_neg (fun h => by rw [hpending] at h; cases h.1)]
          refine ⟨OrderTable.outcomes v.strategy newer, OrderTable.outcomes v.strategy older,
            (patch.write row).closing none, v.feeds (v.strategyOfDecision decisionId),
            decide (row.Tagged v), ?_, ?_, ?_, ?_⟩
          · rw [ht, outcomes_split, hold]
            rfl
          · unfold StreakRun.step
            simp only [hfind]
            rw [ht, updateOrderStatus_split patch hnodup, outcomes_split,
              closing_eq v (patch.write row)]
            have htag : (patch.write row).Tagged v ↔ row.Tagged v := Iff.rfl
            by_cases hrow : row.Tagged v
            · rw [if_pos (htag.mpr hrow), if_pos (decide_eq_true hrow)]
            · rw [if_neg (mt htag.mp hrow), if_neg (by simpa using hrow)]
              rfl
          · unfold StreakRun.step
            simp only [hfind]
          · unfold InOrder
            dsimp only
            rw [hw.settings]
            constructor
            · intro h
              have hrow := h row hfind
              rwa [ht, after_split hnewer] at hrow
            · intro h other hother
              rw [hfind] at hother
              obtain rfl := Option.some.inj hother
              rw [ht, after_split hnewer]
              exact h

theorem wellFormed_step (v : StreakView) {s : RiskSettings} {r : StreakRun}
    (hw : r.WellFormed s) (event : OrderEvent) : (r.step v event).WellFormed s := by
  constructor
  · cases event with
    | stored row owner =>
        unfold StreakRun.step
        dsimp only
        by_cases hdup : row.placed.orderId ∈ r.table.map OrderRow.orderId
        · obtain ⟨err, herr⟩ := saveOrder_of_mem hdup
          rw [herr]
          exact hw.nodup
        · rw [saveOrder_of_fresh hdup]
          dsimp only
          rw [List.map_append, List.map_singleton]
          refine List.nodup_append.mpr ⟨hw.nodup, List.nodup_singleton _, ?_⟩
          rintro x hx y hy rfl
          obtain rfl := List.mem_singleton.mp hy
          exact hdup hx
    | resolved orderId patch decisionId =>
        unfold StreakRun.step
        dsimp only
        cases hfind : r.table.find? (fun row => row.orderId = orderId ∧ row.status = .pending) with
        | none => exact hw.nodup
        | some row =>
            obtain ⟨rfl, -, older, newer, ht, -⟩ := split_of_find hw hfind
            have hnodup := hw.nodup
            rw [ht] at hnodup
            dsimp only
            rw [ht, updateOrderStatus_split patch hnodup]
            have hids : (older ++ patch.write row :: newer).map OrderRow.orderId
                = (older ++ row :: newer).map OrderRow.orderId := by
              rw [List.map_append, List.map_append, List.map_cons, List.map_cons]
              rfl
            rw [hids]
            exact hnodup
  · obtain ⟨-, -, o, fed, -, -, -, hengine, -⟩ := step_shape v hw event
    rw [hengine, countOutcome_settings]
    exact hw.settings

/-- One outcome that is fed or not and read or not keeps an engine the one of its outcomes exactly
if it leaves the two alike. -/
theorem mirrored_insert_iff {e : RiskEngine} {newer older : List Outcome} (o : Outcome)
    (fed read : Bool) (h : e.lossTracker = trackerOf e.settings (newer ++ older)) :
    (countOutcome fed (some o) e).lossTracker
        = trackerOf e.settings (newer ++ ((if read then [o] else []) ++ older)) ↔
      Alike e.settings newer e.lossTracker.consecutiveLosses o fed read := by
  unfold countOutcome Alike
  cases fed with
  | true =>
      have hcounted := recordOutcome_trackerOf o h
      cases read with
      | true =>
          dsimp only
          rw [if_pos rfl, if_pos rfl, hcounted, h]
          exact trackerOf_insert_iff e.settings newer older o
      | false =>
          dsimp only
          rw [if_pos rfl, if_neg (by decide), hcounted, h]
          exact trackerOf_cons_eq_iff e.settings (newer ++ older) o
  | false =>
      cases read with
      | true =>
          dsimp only
          rw [if_neg (by decide), if_pos rfl, h]
          exact trackerOf_hidden_iff e.settings newer older o
      | false =>
          dsimp only
          rw [if_neg (by decide), if_neg (by decide)]
          exact ⟨fun _ => trivial, fun _ => h⟩

/-- A step from a mirrored state ends in a mirrored state exactly if it is in order. -/
theorem mirrored_step_iff (v : StreakView) {s : RiskSettings} {r : StreakRun}
    (hw : r.WellFormed s) (hm : r.Mirrored v) (event : OrderEvent) :
    (r.step v event).Mirrored v ↔ InOrder v event r := by
  obtain ⟨newer, older, o, fed, read, hbefore, hafter, hengine, horder⟩ := step_shape v hw event
  unfold StreakRun.Mirrored at hm ⊢
  rw [hbefore] at hm
  rw [hengine, countOutcome_settings, hafter, horder, ← hw.settings]
  cases o with
  | none =>
      simp only [Option.toList_none, ite_self, List.nil_append, Option.not_mem_none,
        false_implies, implies_true, iff_true]
      exact hm
  | some x =>
      simp only [Option.mem_some_iff, forall_eq']
      exact mirrored_insert_iff x fed read hm

theorem mirrored_start (v : StreakView) (s : RiskSettings) : (StreakRun.start s).Mirrored v := rfl

theorem wellFormed_start (s : RiskSettings) : (StreakRun.start s).WellFormed s :=
  ⟨List.nodup_nil, rfl⟩

/-- The stored outcomes only grow in number. -/
theorem length_outcomes_step (v : StreakView) {s : RiskSettings} {r : StreakRun}
    (hw : r.WellFormed s) (event : OrderEvent) :
    (OrderTable.outcomes v.strategy r.table).length
      ≤ (OrderTable.outcomes v.strategy (r.step v event).table).length := by
  obtain ⟨newer, older, o, fed, read, hbefore, hafter, -, -⟩ := step_shape v hw event
  rw [hbefore, hafter]
  simp only [List.length_append]
  omega

/-- In a run whose states are all mirrored every step is in order. -/
theorem eachStep_inOrder (v : StreakView) {s : RiskSettings} {r : StreakRun}
    (hw : r.WellFormed s) (events : List OrderEvent)
    (hm : ∀ done rest, events = done ++ rest →
      (Lib.run (StreakRun.step v) done r).Mirrored v) :
    EachStep (StreakRun.step v) (InOrder v) events r := by
  induction events generalizing r with
  | nil => trivial
  | cons event events ih =>
      have hnow : r.Mirrored v := hm [] (event :: events) rfl
      have hnext : (r.step v event).Mirrored v := hm [event] events rfl
      refine ⟨(mirrored_step_iff v hw hnow event).mp hnext, ?_⟩
      refine ih (wellFormed_step v hw event) ?_
      rintro done rest rfl
      exact hm (event :: done) rest rfl

/-- The row of a SELL. -/
def sellRow (orderId : OrderId) (status : OrderStatus) (pnl : Option ℚ) (time : Time) :
    OrderRow where
  orderId := orderId
  symbol := orderId
  side := .sell
  quantity := 1
  price := some 100
  status := status
  decisionId := none
  filledAt := if status = .filled then some time else none
  createdAt := time
  realizedPnl := pnl
  strategy := none
  feeBase := none
  feeQuote := none

/-- A late fill. -/
def fillPatch (pnl : ℚ) (time : Time) : OrderPatch :=
  ⟨.filled, none, some time, some pnl, none, none, none⟩

end SmartyTrader
