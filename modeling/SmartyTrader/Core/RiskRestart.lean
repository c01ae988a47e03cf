import SmartyTrader.Core.LossStreak
import SmartyTrader.Core.RiskHistory
import SmartyTrader.Storage.Snapshots

set_option autoImplicit false

/-! # Restarts of the risk engine

The high-water mark and the daily baseline are kept in memory. A restarted engine reads them
back from the portfolio snapshots: the mark is the largest total ever stored, the baseline the
total of the day's earliest snapshot. The live engine observes equity at the gate, before a
trade, and after it; only the equity after the trade is stored, and a reconciliation stores a
snapshot that the live engine does not observe. A restart keeps the two rules exactly when
every turn of the agent stores what it has observed (`restart_keeps_rules`).
-/

namespace SmartyTrader

open Lib

/-! ## The restarted engine -/

/-- `rehydrate_risk_engine`. -/
def rehydrateRiskEngine (e : RiskEngine) (snapshots : SnapshotTable) (orders : OrderTable)
    (now : Time) : RiskEngine :=
  let e := match snapshots.getFirstPortfolioSnapshotOfDay now with
    | some row => e.restoreDailyBaseline row.totalValue now
    | none => e
  rehydrateLossStreak e orders none

/-- The engine of a new process. Without an operator's re-baseline the seed of the high-water
mark is the largest stored total. -/
def restartedEngine (s : RiskSettings) (snapshots : SnapshotTable) (orders : OrderTable)
    (now : Time) : RiskEngine :=
  rehydrateRiskEngine ((RiskEngine.create s).seedPeakEquity snapshots.getMaxPortfolioValue)
    snapshots orders now

/-- The baseline that an engine holds for a day. -/
def RiskEngine.baselineOn (e : RiskEngine) (day : ℤ) : Option ℚ :=
  if e.dailyTracker.currentDate = some day then e.dailyTracker.startOfDayValue else none

/-! ## Runs of an agent -/

/-- What an agent asks of its engine. -/
inductive EngineUse where
  | backstop (value limitPct : ℚ)
  | gate (signal : TradeSignal) (portfolio : PortfolioState)
      (plannedNotional currentPrice : Option ℚ) (now later : Time)
  | outcome (wasProfitable : Bool) (now : Time)
  | dailyValue (value : ℚ) (now : Time)

def EngineUse.call : EngineUse → Call
  | .backstop value limitPct => .checkBackstop value limitPct
  | .gate signal portfolio planned price now later =>
      .evaluate signal portfolio planned price now later
  | .outcome wasProfitable now => .recordOutcome wasProfitable now
  | .dailyValue value now => .updateDailyValue value now

/-- A turn of an agent. In the cycle of a symbol the pipeline asks the gate, and post-processing
notes the value and writes a snapshot; a reconciliation records outcomes and writes a snapshot.
Between two turns the agent may be restarted. -/
inductive RiskTurn where
  | work (uses : List EngineUse) (rows : List PortfolioSnapshot) (finish : Time)
  | restart (orders : OrderTable) (now : Time)

/-- The clock readings of a turn, in order. -/
def RiskTurn.times : RiskTurn → List Time
  | .work uses rows finish =>
      uses.flatMap (fun u => u.call.readings) ++ rows.map PortfolioSnapshot.timestamp ++ [finish]
  | .restart _ now => [now]

/-- The engine in memory, the stored snapshots, and the latest reading of the clock. -/
structure RiskRun where
  engine : RiskEngine
  snapshots : SnapshotTable
  clock : Time

namespace RiskRun

def start (s : RiskSettings) (now : Time) : RiskRun := ⟨RiskEngine.create s, [], now⟩

def step (s : RiskSettings) (turn : RiskTurn) (x : RiskRun) : RiskRun :=
  match turn with
  | .work uses rows finish =>
      { engine := (uses.map EngineUse.call).foldl (fun e c => c.apply e) x.engine
        snapshots := x.snapshots ++ rows
        clock := finish }
  | .restart orders now =>
      { x with engine := restartedEngine s x.snapshots orders now, clock := now }

/-- The clock does not run backwards. -/
def Clocked (turn : RiskTurn) (x : RiskRun) : Prop := (x.clock :: turn.times).Pairwise (· ≤ ·)

/-- A restart at `now` loosens neither rule: the seeded mark is at least the live one, and the
restored baseline of the day is the live one. -/
structure KeepsRules (s : RiskSettings) (orders : OrderTable) (now : Time) (x : RiskRun) :
    Prop where
  peak : ∀ p, x.engine.peakEquity = some p →
    ∃ q, (restartedEngine s x.snapshots orders now).peakEquity = some q ∧ p ≤ q
  baseline : (restartedEngine s x.snapshots orders now).baselineOn (utcDay now)
    = x.engine.baselineOn (utcDay now)

/-- The total of the first snapshot of a day. -/
def storedOn (day : ℤ) (rows : List PortfolioSnapshot) : Option ℚ :=
  (rows.find? (fun row => utcDay row.timestamp = day)).map PortfolioSnapshot.totalValue

/-- A turn stores what it observes: every equity it observes is at most some stored total, its
own snapshots included, and where it is the first of its day to store or to observe, it stores
the equity it observed first. -/
def Covered (turn : RiskTurn) (x : RiskRun) : Prop :=
  match turn with
  | .work uses rows finish =>
      (∀ u ∈ uses, ∀ v, u.call.equity = some v → 0 < v →
        ∃ row ∈ x.snapshots ++ rows, v ≤ row.totalValue) ∧
      (storedOn (utcDay finish) x.snapshots = none →
        uses.findSome? (fun u => u.call.observed (utcDay finish))
          = storedOn (utcDay finish) rows)
  | .restart _ _ => True

end RiskRun

/-! ## The first snapshot of a day -/

theorem SnapshotTable.earliest_of_sorted {rows : List PortfolioSnapshot}
    (h : rows.Pairwise (fun a b => a.timestamp ≤ b.timestamp)) : earliest rows = rows.head? := by
  induction rows with
  | nil => rfl
  | cons row rows ih =>
      obtain ⟨hfirst, hrest⟩ := List.pairwise_cons.mp h
      unfold earliest
      rw [ih hrest]
      cases rows with
      | nil => rfl
      | cons other rest =>
          dsimp only [List.head?_cons]
          rw [if_neg (not_lt.mpr (hfirst other List.mem_cons_self))]

/-- Where no snapshot is newer than the clock, the first one of the current day is the first one
in the table that is on it. -/
theorem getFirst_eq_storedOn {t : SnapshotTable} {now : Time}
    (hsorted : t.Pairwise (fun a b => a.timestamp ≤ b.timestamp))
    (hnow : ∀ row ∈ t, row.timestamp ≤ now) :
    (t.getFirstPortfolioSnapshotOfDay now).map PortfolioSnapshot.totalValue
      = RiskRun.storedOn (utcDay now) t := by
  unfold SnapshotTable.getFirstPortfolioSnapshotOfDay RiskRun.storedOn
  rw [SnapshotTable.earliest_of_sorted (hsorted.filter _), List.head?_filter]
  congr 1
  induction t with
  | nil => rfl
  | cons row rest ih =>
      have hle := utcDay_mono (hnow row List.mem_cons_self)
      have hrest := ih (List.pairwise_cons.mp hsorted).2
        (fun other hother => hnow other (List.mem_cons_of_mem _ hother))
      by_cases hday : utcDay row.timestamp = utcDay now
      · rw [List.find?_cons_of_pos (by simpa using hday.ge),
          List.find?_cons_of_pos (by simpa using hday)]
      · rw [List.find?_cons_of_neg (by simpa using lt_of_le_of_ne hle hday),
          List.find?_cons_of_neg (by simpa using hday), hrest]

theorem storedOn_append (day : ℤ) (rows rows' : List PortfolioSnapshot) :
    RiskRun.storedOn day (rows ++ rows')
      = (RiskRun.storedOn day rows).or (RiskRun.storedOn day rows') := by
  unfold RiskRun.storedOn
  rw [List.find?_append, Option.map_or]

theorem storedOn_later {day : ℤ} {rows : List PortfolioSnapshot}
    (h : ∀ row ∈ rows, utcDay row.timestamp < day) : RiskRun.storedOn day rows = none := by
  unfold RiskRun.storedOn
  rw [Option.map_eq_none_iff, List.find?_eq_none]
  intro row hrow
  simpa using (h row hrow).ne

/-! ## What a new process knows -/

theorem rehydrateLossStreak_cases (e : RiskEngine) (orders : OrderTable) :
    rehydrateLossStreak e orders none = e ∨
      ∃ losses cooldownUntil,
        rehydrateLossStreak e orders none = e.restoreLossStreak losses cooldownUntil := by
  unfold rehydrateLossStreak
  exact (ite_eq_or_eq _ _ _).symm.imp id (fun h => ⟨_, _, h⟩)

theorem rehydrateLossStreak_trackers (e : RiskEngine) (orders : OrderTable) :
    (rehydrateLossStreak e orders none).dailyTracker = e.dailyTracker ∧
      (rehydrateLossStreak e orders none).peakEquity = e.peakEquity := by
  rcases rehydrateLossStreak_cases e orders with h | ⟨losses, cooldownUntil, h⟩
  · rw [h]
    exact ⟨rfl, rfl⟩
  · rw [h]
    exact ⟨rfl, rfl⟩

theorem restarted_baselineOn (s : RiskSettings) (t : SnapshotTable) (orders : OrderTable)
    (now : Time) (day : ℤ) :
    (restartedEngine s t orders now).baselineOn day
      = if utcDay now = day then
          (t.getFirstPortfolioSnapshotOfDay now).map PortfolioSnapshot.totalValue
        else none := by
  unfold RiskEngine.baselineOn restartedEngine rehydrateRiskEngine
  dsimp only
  rw [(rehydrateLossStreak_trackers _ orders).1]
  have hseed : ((RiskEngine.create s).seedPeakEquity t.getMaxPortfolioValue).dailyTracker
      = (RiskEngine.create s).dailyTracker := by
    cases t.getMaxPortfolioValue with
    | none => rfl
    | some v => exact noteEquity_dailyTracker _ v
  cases t.getFirstPortfolioSnapshotOfDay now with
  | none =>
      dsimp only
      rw [hseed, Option.map_none, ite_self]
      exact if_neg (fun h => by cases h)
  | some row =>
      unfold RiskEngine.restoreDailyBaseline DailyLossTracker.restoreToday
      dsimp only
      rw [Option.map_some]
      simp only [Option.some.injEq]

theorem restarted_peak (s : RiskSettings) (t : SnapshotTable) (orders : OrderTable) (now : Time) :
    (restartedEngine s t orders now).peakEquity
      = t.getMaxPortfolioValue.filter (fun v => 0 < v) := by
  unfold restartedEngine rehydrateRiskEngine
  dsimp only
  rw [(rehydrateLossStreak_trackers _ orders).2]
  have hseed : ((RiskEngine.create s).seedPeakEquity t.getMaxPortfolioValue).peakEquity
      = t.getMaxPortfolioValue.filter (fun v => 0 < v) := by
    cases t.getMaxPortfolioValue with
    | none => rfl
    | some v =>
        unfold RiskEngine.seedPeakEquity
        rw [noteEquity_peak]
        by_cases hv : 0 < v
        · rw [if_pos hv, Option.filter_some_pos (by simpa using hv)]
          rfl
        · rw [if_neg hv, Option.filter_some_neg (by simpa using hv)]
          rfl
  cases t.getFirstPortfolioSnapshotOfDay now with
  | none => exact hseed
  | some row => exact hseed

/-! ## What the live engine knows -/

theorem exists_max?_of_mem {l : List ℚ} {v : ℚ} (h : v ∈ l) : ∃ m, l.max? = some m ∧ v ≤ m := by
  cases hm : l.max? with
  | none =>
      rw [List.max?_eq_none_iff.mp hm] at h
      cases h
  | some m => exact ⟨m, rfl, (List.max?_eq_some_iff.mp hm).2 v h⟩

theorem mem_of_peakOf {history : List Call} {p : ℚ} (h : peakOf history = some p) :
    0 < p ∧ ∃ c ∈ history, c.equity = some p := by
  obtain ⟨hmem, hpos⟩ := List.mem_filter.mp (List.max?_eq_some_iff.mp h).1
  obtain ⟨c, hc, hequity⟩ := List.mem_filterMap.mp hmem
  exact ⟨by simpa using hpos, c, hc, hequity⟩

theorem le_peakOf {history : List Call} {c : Call} {v : ℚ} (hc : c ∈ history)
    (hv : c.equity = some v) (hpos : 0 < v) : ∃ p, peakOf history = some p ∧ v ≤ p :=
  exists_max?_of_mem
    (List.mem_filter.mpr ⟨List.mem_filterMap.mpr ⟨c, hc, hv⟩, by simpa using hpos⟩)

/-- Every equity of the history is at most some stored total. -/
def PeakStored (history : List Call) (rows : List PortfolioSnapshot) : Prop :=
  ∀ c ∈ history, ∀ v, c.equity = some v → 0 < v → ∃ row ∈ rows, v ≤ row.totalValue

theorem peakStored_iff (history : List Call) (rows : SnapshotTable) :
    (∀ p, peakOf history = some p →
        ∃ q, rows.getMaxPortfolioValue.filter (fun v => 0 < v) = some q ∧ p ≤ q)
      ↔ PeakStored history rows := by
  constructor
  · intro h c hc v hv hpos
    obtain ⟨p, hp, hvp⟩ := le_peakOf hc hv hpos
    obtain ⟨q, hq, hpq⟩ := h p hp
    obtain ⟨hmax, -⟩ := Option.filter_eq_some_iff.mp hq
    obtain ⟨row, hrow, rfl⟩ := List.mem_map.mp (List.max?_eq_some_iff.mp hmax).1
    exact ⟨row, hrow, hvp.trans hpq⟩
  · intro h p hp
    obtain ⟨hpos, c, hc, hequity⟩ := mem_of_peakOf hp
    obtain ⟨row, hrow, hle⟩ := h c hc p hequity hpos
    obtain ⟨q, hq, hrq⟩ := exists_max?_of_mem
      (List.mem_map_of_mem (f := PortfolioSnapshot.totalValue) hrow)
    refine ⟨q, Option.filter_eq_some_iff.mpr ⟨hq, ?_⟩, hle.trans hrq⟩
    simpa using lt_of_lt_of_le hpos (hle.trans hrq)

theorem Tracks.baselineOn {s : RiskSettings} {history : List Call} {e : RiskEngine}
    (h : Tracks s history e) {day : ℤ} (hday : NotBefore day history) :
    e.baselineOn day = baselineOf day history := (h.day.baseline day hday).symm

/-- A day after all readings has no baseline yet. -/
theorem Tracks.baselineOf_later {s : RiskSettings} {history : List Call} {e : RiskEngine}
    (h : Tracks s history e) {day : ℤ} (hday : ∀ t ∈ readingsOf history, utcDay t < day) :
    baselineOf day history = none := by
  rw [h.day.baseline day (fun t ht => (hday t ht).le)]
  refine if_neg fun hcurrent => ?_
  obtain ⟨-, t, ht, hread⟩ := h.day.dayRead day hcurrent
  exact absurd hread (hday t ht).ne

/-- Calls under a clock that goes on from the history. -/
theorem Tracks.calls {s : RiskSettings} {history : List Call} {e : RiskEngine}
    (h : Tracks s history e) (calls : List Call)
    (hafter : ∀ r ∈ readingsOf history, ∀ t ∈ calls.flatMap Call.readings, r ≤ t)
    (hclock : (calls.flatMap Call.readings).Pairwise (· ≤ ·)) :
    Tracks s (calls.reverse ++ history) (calls.foldl (fun e c => c.apply e) e) := by
  induction calls generalizing history e with
  | nil => exact h
  | cons c rest ih =>
      rw [List.flatMap_cons] at hafter hclock
      obtain ⟨-, hrest, hcross⟩ := List.pairwise_append.mp hclock
      have hstep := h.step c fun t ht r hr =>
        utcDay_mono (hafter r hr t (List.mem_append_left _ ht))
      rw [List.reverse_cons, List.append_assoc, List.singleton_append, List.foldl_cons]
      refine ih hstep ?_ hrest
      intro r hr t ht
      rw [readingsOf, List.flatMap_cons] at hr
      rcases List.mem_append.mp hr with hr | hr
      · exact hcross r (List.mem_reverse.mp hr) t ht
      · exact hafter r hr t (List.mem_append_right _ ht)

/-- Calls that restore nothing add what they observe first. -/
theorem baselineOf_calls {day : ℤ} (calls : List Call) (history : List Call)
    (h : ∀ c ∈ calls, c.restored day = none) :
    baselineOf day (calls.reverse ++ history)
      = (baselineOf day history).or (calls.findSome? (Call.observed day)) := by
  induction calls generalizing history with
  | nil => rw [List.findSome?_nil, Option.or_none, List.reverse_nil, List.nil_append]
  | cons c rest ih =>
      rw [List.reverse_cons, List.append_assoc, List.singleton_append,
        ih _ (fun d hd => h d (List.mem_cons_of_mem _ hd)),
        baselineOf_cons (h c List.mem_cons_self), Option.or_assoc, List.findSome?_cons]
      cases c.observed day <;> rfl

/-! ## One turn -/

namespace RiskRun

/-- The engine has lived `history`, and nothing is newer than the clock. -/
structure Lived (s : RiskSettings) (x : RiskRun) (history : List Call) : Prop where
  tracks : Tracks s history x.engine
  read : ∀ t ∈ readingsOf history, t ≤ x.clock
  stored : ∀ row ∈ x.snapshots, row.timestamp ≤ x.clock
  sorted : x.snapshots.Pairwise (fun a b => a.timestamp ≤ b.timestamp)

theorem lived_start (s : RiskSettings) (now : Time) : Lived s (start s now) [] where
  tracks := tracks_create s
  read := by
    intro t ht
    cases ht
  stored := by
    intro row hrow
    cases hrow
  sorted := List.Pairwise.nil

/-- After a history the restart keeps both rules if and only if the snapshots cover the equity
of the history and hold the baseline of the day. -/
theorem Lived.keepsRules_iff {s : RiskSettings} {x : RiskRun} {history : List Call}
    (h : Lived s x history) :
    (∀ orders now, x.clock ≤ now → x.KeepsRules s orders now) ↔
      PeakStored history x.snapshots ∧
        baselineOf (utcDay x.clock) history = storedOn (utcDay x.clock) x.snapshots := by
  have hpeak : ∀ orders now, (∀ p, x.engine.peakEquity = some p → ∃ q,
      (restartedEngine s x.snapshots orders now).peakEquity = some q ∧ p ≤ q) ↔
      PeakStored history x.snapshots := by
    intro orders now
    rw [h.tracks.peak, restarted_peak]
    exact peakStored_iff history x.snapshots
  have hbaseline : ∀ orders now, x.clock ≤ now →
      ((restartedEngine s x.snapshots orders now).baselineOn (utcDay now)
          = x.engine.baselineOn (utcDay now) ↔
        storedOn (utcDay now) x.snapshots = baselineOf (utcDay now) history) := by
    intro orders now hnow
    have hread : NotBefore (utcDay now) history := fun t ht => utcDay_mono ((h.read t ht).trans hnow)
    rw [restarted_baselineOn, if_pos rfl, h.tracks.baselineOn hread,
      getFirst_eq_storedOn h.sorted (fun row hrow => (h.stored row hrow).trans hnow)]
  constructor
  · intro hkeeps
    have hclock := hkeeps [] x.clock le_rfl
    exact ⟨(hpeak [] x.clock).mp hclock.peak,
      ((hbaseline [] x.clock le_rfl).mp hclock.baseline).symm⟩
  · rintro ⟨hstored, hday⟩ orders now hnow
    refine ⟨(hpeak orders now).mpr hstored, (hbaseline orders now hnow).mpr ?_⟩
    rcases (utcDay_mono hnow).eq_or_lt with heq | hlt
    · rw [← heq]
      exact hday.symm
    · -- On a later day nothing is stored and nothing was observed.
      rw [h.tracks.baselineOf_later (fun t ht => lt_of_le_of_lt (utcDay_mono (h.read t ht)) hlt),
        storedOn_later (fun row hrow => lt_of_le_of_lt (utcDay_mono (h.stored row hrow)) hlt)]

theorem EngineUse.restored_call (u : EngineUse) (day : ℤ) : u.call.restored day = none := by
  cases u <;> rfl

theorem lived_work {s : RiskSettings} {x : RiskRun} {history : List Call} (h : Lived s x history)
    {uses : List EngineUse} {rows : List PortfolioSnapshot} {finish : Time}
    (hclock : Clocked (.work uses rows finish) x) :
    Lived s (step s (.work uses rows finish) x)
      ((uses.map EngineUse.call).reverse ++ history) := by
  unfold Clocked RiskTurn.times at hclock
  obtain ⟨hstart, htimes⟩ := List.pairwise_cons.mp hclock
  obtain ⟨hbefore, -, hfinish⟩ := List.pairwise_append.mp htimes
  obtain ⟨hcalls, hrows, hcross⟩ := List.pairwise_append.mp hbefore
  have hreadings : (uses.map EngineUse.call).flatMap Call.readings
      = uses.flatMap (fun u => u.call.readings) := List.flatMap_map ..
  have hend : ∀ t ∈ uses.flatMap (fun u => u.call.readings) ++ rows.map PortfolioSnapshot.timestamp,
      t ≤ finish := fun t ht => hfinish t ht finish (List.mem_singleton_self finish)
  have hlast : x.clock ≤ finish :=
    hstart finish (List.mem_append_right _ (List.mem_singleton_self finish))
  refine ⟨?_, ?_, ?_, ?_⟩
  · refine h.tracks.calls _ ?_ (hreadings ▸ hcalls)
    intro r hr t ht
    rw [hreadings] at ht
    exact (h.read r hr).trans
      (hstart t (List.mem_append_left _ (List.mem_append_left _ ht)))
  · intro t ht
    rw [readingsOf, List.flatMap_append] at ht
    rcases List.mem_append.mp ht with hnew | hold
    · obtain ⟨c, hc, htc⟩ := List.mem_flatMap.mp hnew
      refine hend t (List.mem_append_left _ ?_)
      rw [← hreadings]
      exact List.mem_flatMap.mpr ⟨c, List.mem_reverse.mp hc, List.mem_reverse.mp htc⟩
    · exact (h.read t hold).trans hlast
  · intro row hrow
    rcases List.mem_append.mp hrow with hold | hnew
    · exact (h.stored row hold).trans hlast
    · exact hend _ (List.mem_append_right _ (List.mem_map_of_mem hnew))
  · refine List.pairwise_append.mpr ⟨h.sorted, List.pairwise_map.mp hrows, ?_⟩
    intro old hold new hnew
    exact (h.stored old hold).trans (hstart _ (List.mem_append_left _
      (List.mem_append_right _ (List.mem_map_of_mem hnew))))

/-- The calls that rehydrate a new engine. -/
theorem restarted_calls (s : RiskSettings) (t : SnapshotTable) (orders : OrderTable) (now : Time) :
    ∃ streak, (∀ c ∈ streak, c.readings = []) ∧ Tracks s (streak
        ++ (t.getFirstPortfolioSnapshotOfDay now).toList.map
            (fun row => Call.restoreDailyBaseline row.totalValue now)
        ++ [.seedPeakEquity t.getMaxPortfolioValue])
      (restartedEngine s t orders now) := by
  have hseed := (tracks_create s).step (.seedPeakEquity t.getMaxPortfolioValue)
    (fun r hr => by cases hr)
  have hday : Tracks s ((t.getFirstPortfolioSnapshotOfDay now).toList.map
      (fun row => Call.restoreDailyBaseline row.totalValue now)
      ++ [.seedPeakEquity t.getMaxPortfolioValue])
      (match t.getFirstPortfolioSnapshotOfDay now with
        | some row => ((RiskEngine.create s).seedPeakEquity t.getMaxPortfolioValue
            ).restoreDailyBaseline row.totalValue now
        | none => (RiskEngine.create s).seedPeakEquity t.getMaxPortfolioValue) := by
    cases t.getFirstPortfolioSnapshotOfDay now with
    | none => exact hseed
    | some row =>
        refine hseed.step (.restoreDailyBaseline row.totalValue now) ?_
        intro r hr t' ht'
        cases ht'
  unfold restartedEngine rehydrateRiskEngine
  dsimp only
  rcases rehydrateLossStreak_cases _ orders with h | ⟨losses, cooldownUntil, h⟩
  · refine ⟨[], ?_, ?_⟩
    · intro c hc
      cases hc
    · rw [h]
      exact hday
  · refine ⟨[.restoreLossStreak losses cooldownUntil], ?_, ?_⟩
    · intro c hc
      rw [List.mem_singleton.mp hc]
      rfl
    · rw [h]
      exact hday.step (.restoreLossStreak losses cooldownUntil) (fun r hr => by cases hr)

theorem lived_restart {s : RiskSettings} {x : RiskRun} {history : List Call}
    (h : Lived s x history) (orders : OrderTable) {now : Time} (hclock : x.clock ≤ now) :
    ∃ history', Lived s (step s (.restart orders now) x) history' := by
  obtain ⟨streak, hstreak, htracks⟩ := restarted_calls s x.snapshots orders now
  refine ⟨_, htracks, ?_, fun row hrow => (h.stored row hrow).trans hclock, h.sorted⟩
  intro t ht
  obtain ⟨c, hc, htc⟩ := List.mem_flatMap.mp ht
  have hreading : t ∈ c.readings := List.mem_reverse.mp htc
  rcases List.mem_append.mp hc with hc | hc
  · rcases List.mem_append.mp hc with hc | hc
    · rw [hstreak c hc] at hreading
      cases hreading
    · obtain ⟨row, -, rfl⟩ := List.mem_map.mp hc
      rw [List.mem_singleton.mp hreading]
      exact le_rfl
  · rw [List.mem_singleton.mp hc] at hreading
    cases hreading

/-- Two restarts in a row keep the rules. -/
theorem keepsRules_restarted {s : RiskSettings} {x : RiskRun} {history : List Call}
    (h : Lived s x history) {orders : OrderTable} {now : Time} (hclock : x.clock ≤ now)
    {orders' : OrderTable} {now' : Time} (hnow : now ≤ now') :
    KeepsRules s orders' now' (step s (.restart orders now) x) := by
  have hfirst : ∀ t, now ≤ t → (x.snapshots.getFirstPortfolioSnapshotOfDay t).map
      PortfolioSnapshot.totalValue = storedOn (utcDay t) x.snapshots := fun t ht =>
    getFirst_eq_storedOn h.sorted (fun row hrow => ((h.stored row hrow).trans hclock).trans ht)
  constructor
  · intro p hp
    refine ⟨p, ?_, le_rfl⟩
    rw [← hp]
    unfold step
    dsimp only
    rw [restarted_peak, restarted_peak]
  · unfold step
    dsimp only
    rw [restarted_baselineOn, restarted_baselineOn, if_pos rfl, hfirst now' hnow]
    rcases (utcDay_mono hnow).eq_or_lt with heq | hlt
    · rw [if_pos heq, hfirst now le_rfl, heq]
    · rw [if_neg hlt.ne]
      exact storedOn_later fun row hrow =>
        lt_of_le_of_lt (utcDay_mono ((h.stored row hrow).trans hclock)) hlt

theorem or_eq_or_iff {α : Type} (a b c : Option α) : a.or b = a.or c ↔ (a = none → b = c) := by
  cases a with
  | none => simp
  | some a => simp

/-- **One turn.** Where a restart before the turn would keep both rules, one after it does if and
only if the turn stores what it observes. -/
theorem keepsRules_step {s : RiskSettings} {x : RiskRun} {history : List Call}
    (h : Lived s x history) (hkeeps : ∀ orders now, x.clock ≤ now → x.KeepsRules s orders now)
    {turn : RiskTurn} (hclock : Clocked turn x) :
    (∀ orders now, (step s turn x).clock ≤ now → (step s turn x).KeepsRules s orders now) ↔
      Covered turn x := by
  cases turn with
  | restart orders now =>
      have hnow : x.clock ≤ now := (List.pairwise_cons.mp hclock).1 now List.mem_cons_self
      exact ⟨fun _ => trivial, fun _ orders' now' hle => keepsRules_restarted h hnow hle⟩
  | work uses rows finish =>
      obtain ⟨hstored, hday⟩ := h.keepsRules_iff.mp hkeeps
      have hlast : x.clock ≤ finish := (List.pairwise_cons.mp hclock).1 finish
        (List.mem_append_right _ (List.mem_singleton_self finish))
      rw [(lived_work h hclock).keepsRules_iff]
      unfold Covered step
      dsimp only
      refine and_congr ?_ ?_
      · constructor
        · intro hall u hu v hv hpos
          exact hall u.call (List.mem_append_left _ (List.mem_reverse.mpr (List.mem_map_of_mem hu)))
            v hv hpos
        · intro huses c hc v hv hpos
          rcases List.mem_append.mp hc with hnew | hold
          · obtain ⟨u, hu, rfl⟩ := List.mem_map.mp (List.mem_reverse.mp hnew)
            exact huses u hu v hv hpos
          · obtain ⟨row, hrow, hle⟩ := hstored c hold v hv hpos
            exact ⟨row, List.mem_append_left _ hrow, hle⟩
      · have hopen : baselineOf (utcDay finish) history = storedOn (utcDay finish) x.snapshots := by
          rcases (utcDay_mono hlast).eq_or_lt with heq | hlt
          · rw [← heq]
            exact hday
          · rw [h.tracks.baselineOf_later
                (fun t ht => lt_of_le_of_lt (utcDay_mono (h.read t ht)) hlt),
              storedOn_later (fun row hrow => lt_of_le_of_lt (utcDay_mono (h.stored row hrow)) hlt)]
        have hnone : ∀ c ∈ uses.map EngineUse.call, c.restored (utcDay finish) = none := by
          intro c hc
          obtain ⟨u, -, rfl⟩ := List.mem_map.mp hc
          exact EngineUse.restored_call u _
        rw [baselineOf_calls _ _ hnone, storedOn_append, hopen, List.findSome?_map]
        exact or_eq_or_iff _ _ _

end RiskRun

/-! ## The gate after a restart -/

/-- The second history is at least as strict as the first: a higher mark, and the same baselines
from a day on. -/
structure AsStrict (day : ℤ) (live restarted : List Call) : Prop where
  peak : ∀ p, peakOf live = some p → ∃ q, peakOf restarted = some q ∧ p ≤ q
  baseline : ∀ d, day ≤ d → baselineOf d restarted = baselineOf d live

theorem AsStrict.cons {day : ℤ} {live restarted : List Call} (h : AsStrict day live restarted)
    (c : Call) : AsStrict day (c :: live) (c :: restarted) where
  peak := by
    intro p hp
    obtain ⟨hpos, c', hc', hequity⟩ := mem_of_peakOf hp
    rcases List.mem_cons.mp hc' with rfl | hold
    · exact le_peakOf List.mem_cons_self hequity hpos
    · obtain ⟨p', hp', hle⟩ := le_peakOf hold hequity hpos
      obtain ⟨q, hq, hpq⟩ := h.peak p' hp'
      obtain ⟨hq0, c'', hc'', hequity'⟩ := mem_of_peakOf hq
      obtain ⟨q', hq', hqq⟩ := le_peakOf (List.mem_cons_of_mem c hc'') hequity' hq0
      exact ⟨q', hq', (hle.trans hpq).trans hqq⟩
  baseline := by
    intro d hd
    cases hr : c.restored d with
    | some v => rw [baselineOf_cons_restored hr, baselineOf_cons_restored hr]
    | none => rw [baselineOf_cons hr, baselineOf_cons hr, h.baseline d hd]

theorem AsStrict.calls {day : ℤ} {live restarted : List Call} (h : AsStrict day live restarted)
    (calls : List Call) : AsStrict day (calls.reverse ++ live) (calls.reverse ++ restarted) := by
  induction calls generalizing live restarted with
  | nil => exact h
  | cons c rest ih =>
      rw [List.reverse_cons, List.append_assoc, List.append_assoc, List.singleton_append,
        List.singleton_append]
      exact ih (h.cons c)

/-- A larger mark means a larger drawdown. -/
theorem drawdown_le {p q v limit : ℚ} (hp : 0 < p) (hpq : p ≤ q) (hv : 0 < v)
    (h : (q - v) / q ≤ limit) : (p - v) / p ≤ limit := by
  have hq : 0 < q := lt_of_lt_of_le hp hpq
  have hshare : v / q ≤ v / p := div_le_div_of_nonneg_left hv.le hp hpq
  rw [sub_div, div_self hq.ne'] at h
  rw [sub_div, div_self hp.ne']
  linarith

/-- The daily-loss rule and the drawdown rule admit a BUY. -/
def RiskEngine.AdmitsLoss (e : RiskEngine) (portfolio : PortfolioState) (now : Time) : Prop :=
  (e.checkDailyLoss portfolio now).1 = .approved ∧
    ((e.checkDailyLoss portfolio now).2.checkDrawdown portfolio).1 = .approved

theorem admitsLoss_of_approved {e : RiskEngine} {signal : TradeSignal} {portfolio : PortfolioState}
    {planned price : Option ℚ} {now later : Time} (hbuy : signal.action = .buy)
    (h : (e.evaluate signal portfolio planned price now later).1 = .approved) :
    0 < portfolio.totalValue ∧ e.AdmitsLoss portfolio now := by
  unfold RiskEngine.evaluate at h
  simp only [hbuy, RiskResult.first_eq_approved_iff, List.mem_cons, List.not_mem_nil, or_false,
    forall_eq_or_imp, forall_eq, checkPositionSize_iff e signal portfolio hbuy] at h
  obtain ⟨-, -, ⟨hpos, -⟩, hloss, hdrawdown, -⟩ := h
  exact ⟨hpos, hloss, hdrawdown⟩

theorem admitsLoss_iff {s : RiskSettings} {history : List Call} {e : RiskEngine}
    (h : Tracks s history e) {signal : TradeSignal} (hbuy : signal.action = .buy)
    {portfolio : PortfolioState} (hpos : 0 < portfolio.totalValue) (planned price : Option ℚ)
    {now : Time} (later : Time) (hnow : NotBefore (utcDay now) history) :
    e.AdmitsLoss portfolio now ↔
      (∀ b, baselineOf (utcDay now)
          (.evaluate signal portfolio planned price now later :: history) = some b → b ≠ 0 →
        -(s.dailyLossLimitPct * (1 - RiskEngine.capTolerance))
          < (portfolio.totalValue - b) / b) ∧
      ∀ p, peakOf (.evaluate signal portfolio planned price now later :: history) = some p →
        (p - portfolio.totalValue) / p ≤ s.maxDrawdownPct := by
  have hbase := baselineOf_cons_observed h.day (v := portfolio.totalValue)
    (c := .evaluate signal portfolio planned price now later) hnow rfl
    (by simp [Call.observed, hbuy])
  have hpeak := peakOf_cons (.evaluate signal portfolio planned price now later) history
    (e.observeDay portfolio.totalValue now) h.peak (v := portfolio.totalValue)
    (by simp [Call.equity, hbuy])
  unfold RiskEngine.AdmitsLoss
  rw [checkDailyLoss_iff, checkDailyLoss_engine, checkDrawdown_iff _ _ hpos, ← hbase, hpeak,
    observeDay_settings, h.settings]

/-- **The gate.** What the stricter history admits, the live one admits. -/
theorem AsStrict.admitsLoss {s : RiskSettings} {live restarted : List Call} {e e' : RiskEngine}
    {now : Time} {day : ℤ} (h : AsStrict day live restarted) (hday : day ≤ utcDay now)
    (hlive : Tracks s live e)
    (hrestarted : Tracks s restarted e') (hbefore : NotBefore (utcDay now) live)
    (hbefore' : NotBefore (utcDay now) restarted) {signal : TradeSignal}
    {portfolio : PortfolioState} {planned price : Option ℚ} {later : Time}
    (hbuy : signal.action = .buy)
    (happroved : (e'.evaluate signal portfolio planned price now later).1 = .approved) :
    e.AdmitsLoss portfolio now := by
  obtain ⟨hpos, hadmits⟩ := admitsLoss_of_approved hbuy happroved
  obtain ⟨hloss, hdrawdown⟩ :=
    (admitsLoss_iff hrestarted hbuy hpos planned price later hbefore').mp hadmits
  have hnext := h.cons (.evaluate signal portfolio planned price now later)
  refine (admitsLoss_iff hlive hbuy hpos planned price later hbefore).mpr ⟨?_, ?_⟩
  · intro b hb
    exact hloss b ((hnext.baseline _ hday).trans hb)
  · intro p hp
    obtain ⟨q, hq, hpq⟩ := hnext.peak p hp
    exact drawdown_le (mem_of_peakOf hp).1 hpq hpos (hdrawdown q hq)

namespace RiskRun

/-- After a restart at `now` and the same calls of both engines, the live engine admits every BUY
for daily loss and drawdown that the restarted one approves. -/
def AdmitsNoMore (s : RiskSettings) (orders : OrderTable) (now : Time) (x : RiskRun) : Prop :=
  ∀ (calls : List Call) (signal : TradeSignal) (portfolio : PortfolioState)
    (planned price : Option ℚ) (t later : Time), signal.action = .buy →
    (now :: (calls.flatMap Call.readings ++ [t])).Pairwise (· ≤ ·) →
    ((calls.foldl (fun e c => c.apply e) (restartedEngine s x.snapshots orders now)).evaluate
      signal portfolio planned price t later).1 = .approved →
    (calls.foldl (fun e c => c.apply e) x.engine).AdmitsLoss portfolio t

theorem admitsNoMore_of_keepsRules {s : RiskSettings} {x : RiskRun} {history : List Call}
    (h : Lived s x history) {orders : OrderTable} {now : Time} (hnow : x.clock ≤ now)
    (hkeeps : x.KeepsRules s orders now) : x.AdmitsNoMore s orders now := by
  obtain ⟨history', h'⟩ := lived_restart h orders hnow
  have hread : ∀ r ∈ readingsOf history, r ≤ now := fun r hr => (h.read r hr).trans hnow
  have hread' : ∀ r ∈ readingsOf history', r ≤ now := h'.read
  have htracks : Tracks s history' (restartedEngine s x.snapshots orders now) := h'.tracks
  have hstrict : AsStrict (utcDay now) history history' := by
    constructor
    · rw [← h.tracks.peak, ← htracks.peak]
      exact hkeeps.peak
    · intro d hd
      rcases hd.eq_or_lt with rfl | hlt
      · rw [← h.tracks.baselineOn (fun t ht => utcDay_mono (hread t ht)),
          ← htracks.baselineOn (fun t ht => utcDay_mono (hread' t ht))]
        exact hkeeps.baseline
      · rw [h.tracks.baselineOf_later
            (fun t ht => lt_of_le_of_lt (utcDay_mono (hread t ht)) hlt),
          htracks.baselineOf_later
            (fun t ht => lt_of_le_of_lt (utcDay_mono (hread' t ht)) hlt)]
  intro calls signal portfolio planned price t later hbuy hclock happroved
  obtain ⟨hstart, htimes⟩ := List.pairwise_cons.mp hclock
  obtain ⟨hcalls, -, hlast⟩ := List.pairwise_append.mp htimes
  have hafter : ∀ r, r ≤ now → ∀ u ∈ calls.flatMap Call.readings, r ≤ u := fun r hr u hu =>
    hr.trans (hstart u (List.mem_append_left _ hu))
  have hnowt : now ≤ t := hstart t (List.mem_append_right _ (List.mem_singleton_self t))
  -- Both histories end before the evaluation.
  have hbefore : ∀ hist : List Call, (∀ r ∈ readingsOf hist, r ≤ now) →
      NotBefore (utcDay t) (calls.reverse ++ hist) := by
    intro hist hhist r hr
    rw [readingsOf, List.flatMap_append] at hr
    rcases List.mem_append.mp hr with hnew | hold
    · obtain ⟨c, hc, hrc⟩ := List.mem_flatMap.mp hnew
      refine utcDay_mono (hlast r ?_ t (List.mem_singleton_self t))
      exact List.mem_flatMap.mpr ⟨c, List.mem_reverse.mp hc, List.mem_reverse.mp hrc⟩
    · exact utcDay_mono ((hhist r hold).trans hnowt)
  exact (hstrict.calls calls).admitsLoss (utcDay_mono hnowt)
    (h.tracks.calls calls (fun r hr => hafter r (hread r hr)) hcalls)
    (htracks.calls calls (fun r hr => hafter r (hread' r hr)) hcalls)
    (hbefore history hread) (hbefore history' hread') hbuy happroved

theorem lived_step {s : RiskSettings} {turn : RiskTurn} {x : RiskRun} (hclock : Clocked turn x)
    (h : ∃ history, Lived s x history) : ∃ history, Lived s (step s turn x) history := by
  obtain ⟨history, h⟩ := h
  cases turn with
  | work uses rows finish => exact ⟨_, lived_work h hclock⟩
  | restart orders now =>
      exact lived_restart h orders ((List.pairwise_cons.mp hclock).1 now List.mem_cons_self)

theorem lived_run {s : RiskSettings} {now : Time} (turns : List RiskTurn)
    (hclock : EachStep (step s) Clocked turns (start s now)) :
    ∃ history, Lived s (Lib.run (step s) turns (start s now)) history :=
  run_preserves (I := fun x => ∃ history, Lived s x history) (fun _ _ => lived_step) turns hclock
    ⟨[], lived_start s now⟩

end RiskRun

/-- **Restarts and the loss rules.** In every run of turns under a clock that does not run
backwards, restarts at every point between two turns keep the high-water mark and the baseline
of the day if and only if every turn stores what it observes. Where a restart keeps them, it
approves no BUY that the uninterrupted engine rejects for drawdown or daily loss. -/
theorem restart_keeps_rules (s : RiskSettings) (now₀ : Time) (turns : List RiskTurn)
    (hclock : EachStep (RiskRun.step s) RiskRun.Clocked turns (RiskRun.start s now₀)) :
    ((∀ before after, turns = before ++ after → ∀ orders now,
        (Lib.run (RiskRun.step s) before (RiskRun.start s now₀)).clock ≤ now →
        (Lib.run (RiskRun.step s) before (RiskRun.start s now₀)).KeepsRules s orders now) ↔
      EachStep (RiskRun.step s) RiskRun.Covered turns (RiskRun.start s now₀)) ∧
    ∀ before after, turns = before ++ after → ∀ orders now,
      (Lib.run (RiskRun.step s) before (RiskRun.start s now₀)).clock ≤ now →
      (Lib.run (RiskRun.step s) before (RiskRun.start s now₀)).KeepsRules s orders now →
      (Lib.run (RiskRun.step s) before (RiskRun.start s now₀)).AdmitsNoMore s orders now := by
  constructor
  · refine forall_prefix_iff (I := fun x => ∃ history, RiskRun.Lived s x history)
      (J := fun x => ∀ orders now, x.clock ≤ now → x.KeepsRules s orders now) ?_ ?_ turns hclock
      ⟨[], RiskRun.lived_start s now₀⟩ ?_
    · exact fun _ _ => RiskRun.lived_step
    · rintro turn x hturn ⟨history, h⟩ hkeeps
      exact RiskRun.keepsRules_step h hkeeps hturn
    · refine (RiskRun.lived_start s now₀).keepsRules_iff.mpr ⟨?_, rfl⟩
      intro c hc
      cases hc
  · rintro before after rfl orders now hnow hkeeps
    obtain ⟨history, h⟩ := RiskRun.lived_run before hclock.left
    exact RiskRun.admitsNoMore_of_keepsRules h hnow hkeeps

/-- A portfolio of cash. -/
def cashOnly (cash : ℚ) : PortfolioState := ⟨cash, [], 0⟩

/-- A quiet cycle that stores the equity 1000, and one whose BUY costs a fee of 10. -/
def storedBuy : List RiskTurn :=
  [.work [.dailyValue 1000 10] [(cashOnly 1000).snapshot 11] 11,
    .work [.gate entrySignal (cashOnly 1000) (some 90) (some 100) 20 20, .dailyValue 990 21]
      [(cashOnly 990).snapshot 22] 22]

theorem restart_keeps_rules_storedBuy :
    (Lib.run (RiskRun.step RiskSettings.default) storedBuy
        (RiskRun.start RiskSettings.default 0)).engine.peakEquity = some 1000 ∧
      (Lib.run (RiskRun.step RiskSettings.default) storedBuy
        (RiskRun.start RiskSettings.default 0)).KeepsRules RiskSettings.default [] 30 := by
  have hclock : EachStep (RiskRun.step RiskSettings.default) RiskRun.Clocked storedBuy
      (RiskRun.start RiskSettings.default 0) := by
    refine ⟨?_, ?_, trivial⟩
    · unfold RiskRun.Clocked
      decide
    · unfold RiskRun.Clocked
      decide
  have hcovered : EachStep (RiskRun.step RiskSettings.default) RiskRun.Covered storedBuy
      (RiskRun.start RiskSettings.default 0) := by
    refine ⟨⟨?_, fun _ => by decide +kernel⟩, ⟨?_, fun h => absurd h (by decide +kernel)⟩, trivial⟩
    · intro u hu v hv _
      obtain rfl := List.mem_singleton.mp hu
      obtain rfl := Option.some.inj hv
      exact ⟨_, List.mem_singleton_self _, by decide +kernel⟩
    · intro u hu v hv _
      refine ⟨(cashOnly 1000).snapshot 11, List.mem_append_left _ (List.mem_singleton_self _), ?_⟩
      rcases List.mem_cons.mp hu with rfl | hu
      · obtain rfl := Option.some.inj hv
        decide +kernel
      · obtain rfl := List.mem_singleton.mp hu
        obtain rfl := Option.some.inj hv
        decide +kernel
  refine ⟨by decide +kernel, ?_⟩
  exact (restart_keeps_rules RiskSettings.default 0 storedBuy hclock).1.mpr hcovered storedBuy []
    (List.append_nil _).symm [] 30 (by decide)

/-- The first cycle of a new database buys and pays a fee of 10: the gate saw 1000, the snapshot
says 990. At 975 the live engine rejects a BUY for its daily loss, and a restarted one approves
it. -/
theorem fee_forgotten :
    let turns := [.work [.gate entrySignal (cashOnly 1000) (some 90) (some 100) 20 20,
      .dailyValue 990 21] [(cashOnly 990).snapshot 22] 22]
    let x := Lib.run (RiskRun.step RiskSettings.default) turns
      (RiskRun.start RiskSettings.default 0)
    let restarted := restartedEngine RiskSettings.default x.snapshots [] 30
    x.engine.peakEquity = some 1000 ∧ restarted.peakEquity = some 990 ∧
      x.engine.baselineOn 0 = some 1000 ∧ restarted.baselineOn 0 = some 990 ∧
      (restarted.evaluate entrySignal (cashOnly 975) (some 90) (some 100) 40 40).1 = .approved ∧
      (x.engine.checkDailyLoss (cashOnly 975) 40).1 ≠ .approved := by
  decide +kernel

end SmartyTrader
