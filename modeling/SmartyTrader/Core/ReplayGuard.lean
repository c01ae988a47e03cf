import SmartyTrader.Core.Backtester
import SmartyTrader.Core.EventGuard

set_option autoImplicit false

/-! # The event guard of the replay

The replay selects the events of a decision by its own ranges and asset rules, and then asks the
same rule as the live agent. Neither selection contains the other: the live reader looks as far
ahead as its settings say and takes events without an asset for everybody's, the replay takes
every macro event and never forgets a notice. The two verdicts agree unless an event that only one
of them selects decides alone.
-/

namespace SmartyTrader

open Lib

/-! ## The two selections -/

/-- The event lies within two days of now. -/
def MarketEvent.Near (event : MarketEvent) (now : Time) : Prop :=
  now - eventLookback ≤ event.time ∧ event.time ≤ now + eventLookback

/-- What the replay selects for a symbol. -/
def Replayed (symbol : Symbol) (now : Time) (event : MarketEvent) : Prop :=
  match event.kind with
  | .macroEvent => event.Near now
  | .earnings => event.Near now ∧ event.asset = some (baseAsset symbol)
  | .delisting => event.asset = some (baseAsset symbol) ∧ event.time ≤ now + days 1

/-- Only the live reader selects the event: it is more than two days ahead and not beyond the
look-ahead, or an earnings event of no asset. -/
def LiveOnly (c : ContextSettings) (symbol : Symbol) (now : Time) (event : MarketEvent) : Prop :=
  event.kind ≠ .delisting ∧ ReadLive c symbol now event ∧
    (now + eventLookback < event.time ∨ (event.kind = .earnings ∧ event.asset = none))

/-- Only the replay selects the event: a macro event of another asset, or a notice of more than a
year ago. -/
def ReplayOnly (symbol : Symbol) (now : Time) (event : MarketEvent) : Prop :=
  (event.kind = .macroEvent ∧ event.Near now ∧ ¬event.AppliesTo symbol) ∨
    (event.kind = .delisting ∧ event.asset = some (baseAsset symbol) ∧
      event.time < now - noticeLookback)

/-- A reader that does not raise looks ahead for two days at least. -/
theorem CanRead.eventLookback_le {c : ContextSettings} {reading : Option Time} {now : Time}
    (h : CanRead c reading now) : eventLookback ≤ c.ahead .macroEvent := by
  obtain ⟨span, hspan⟩ := h.lookahead
  unfold ContextSettings.ahead
  rw [hspan]
  exact Hours.le_of_toDelta hspan

theorem liveOnly_iff (c : ContextSettings) (symbol : Symbol) (now : Time) (event : MarketEvent) :
    LiveOnly c symbol now event ↔ ReadLive c symbol now event ∧ ¬Replayed symbol now event := by
  unfold LiveOnly ReadLive Replayed MarketEvent.AppliesTo MarketEvent.Near
  cases hk : event.kind with
  | macroEvent =>
      simp only [ContextSettings.back]
      grind
  | earnings =>
      simp only [ContextSettings.back]
      grind
  | delisting =>
      simp only [ContextSettings.ahead]
      grind

theorem replayOnly_iff {c : ContextSettings} {reading : Option Time} {now : Time}
    (hcan : CanRead c reading now) (symbol : Symbol) (event : MarketEvent) :
    ReplayOnly symbol now event ↔ Replayed symbol now event ∧ ¬ReadLive c symbol now event := by
  have hahead := hcan.eventLookback_le
  have hearnings : c.ahead .earnings = c.ahead .macroEvent := rfl
  have hnotices : c.ahead .delisting = days 1 := rfl
  have hday : 0 ≤ days 1 := by decide
  have hyear : 0 ≤ noticeLookback := by decide
  unfold ReplayOnly ReadLive Replayed MarketEvent.AppliesTo MarketEvent.Near
  cases hk : event.kind with
  | macroEvent =>
      simp only [ContextSettings.back]
      grind
  | earnings =>
      simp only [ContextSettings.back]
      grind
  | delisting =>
      simp only [ContextSettings.back]
      grind

/-! ## The verdict of the replay -/

/-- `_event_context` with the dates it forms. -/
def ReplayConfig.datedEventContext (cfg : ReplayConfig) (d : ReplayDecision) :
    Except PyError (Option SymbolContext) :=
  match cfg.eventContext d with
  | none => return none
  | some context => do
      let _ ← dateAdd d.timestamp (-eventLookback)
      let _ ← dateAdd d.timestamp eventLookback
      return some context

/-- The guard of the replay with the dates it forms. -/
def ReplayConfig.datedGuard (cfg : ReplayConfig) (e : RiskEngine) (d : ReplayDecision) :
    Except PyError RiskResult := do
  match ← cfg.datedEventContext d with
  | none => return .approved
  | some context => e.datedEventGuard d.signal (.ok context)

/-- The ends of the range of the replay are dates. -/
def ReplayDates (now : Time) : Prop := IsDate (now - eventLookback) ∧ IsDate (now + eventLookback)

section Verdict

variable (cfg : ReplayConfig) (e : RiskEngine) (stored : EventTable) (d : ReplayDecision)

/-- The context of a replayed BUY. -/
theorem eventContext_eq (hevents : cfg.events = some stored) (hbuy : d.action = .buy)
    (hsince : ∀ since ∈ cfg.eventGuardSince, since ≤ d.timestamp) :
    ∃ context, cfg.eventContext d = some context ∧ context.now = d.timestamp ∧ context.Sorted ∧
      ∀ p, context.Has p ↔ ∃ event ∈ stored, Replayed d.symbol d.timestamp event ∧ p event := by
  unfold ReplayConfig.eventContext
  rw [hevents]
  have happlies : ¬(d.action ≠ .buy ∨ ∃ since ∈ cfg.eventGuardSince, d.timestamp < since) := by
    rintro (hnot | ⟨since, hmem, hlt⟩)
    · exact hnot hbuy
    · exact absurd (hsince since hmem) (not_le.mpr hlt)
  dsimp only
  rw [if_neg happlies]
  refine ⟨_, rfl, rfl, ⟨?_, ?_⟩, fun p => ?_⟩
  · intro notice hm
    simp only [List.mem_filter, decide_eq_true_eq] at hm
    exact hm.2.1
  · intro event hm hk
    simp only [List.mem_filter, decide_eq_true_eq] at hm
    rw [hk] at hm
    obtain ⟨-, -, -, hmarket | ⟨hearnings, -⟩⟩ := hm
    · cases hmarket
    · cases hearnings
  · unfold SymbolContext.Has Replayed MarketEvent.Near
    simp only [List.mem_filter, mem_sortBy, decide_eq_true_eq]
    constructor
    · rintro (⟨event, ⟨hm, hsel⟩, hk, hp⟩ | ⟨event, ⟨hm, hsel⟩, hk, hp⟩)
      · refine ⟨event, hm, ?_, hp⟩
        rw [hk]
        exact hsel.2
      · refine ⟨event, hm, ?_, hp⟩
        obtain ⟨hfrom, hto, hmarket | ⟨hearn, hasset⟩⟩ := hsel
        · rw [hmarket]
          exact ⟨hfrom, hto⟩
        · rw [hearn]
          exact ⟨⟨hfrom, hto⟩, hasset⟩
    · rintro ⟨event, hm, hsel, hp⟩
      cases hk : event.kind with
      | macroEvent =>
          rw [hk] at hsel
          exact .inr ⟨event, ⟨hm, hsel.1, hsel.2, .inl hk⟩, by rw [hk]; decide, hp⟩
      | earnings =>
          rw [hk] at hsel
          exact .inr ⟨event, ⟨hm, hsel.1.1, hsel.1.2, .inr ⟨hk, hsel.2⟩⟩, by rw [hk]; decide, hp⟩
      | delisting =>
          rw [hk] at hsel
          exact .inl ⟨event, ⟨hm, hk, hsel⟩, hk, hp⟩

/-- The replay rejects a BUY exactly when an event blocks that it selects. -/
theorem guard_iff (hevents : cfg.events = some stored) (hbuy : d.action = .buy)
    (hsince : ∀ since ∈ cfg.eventGuardSince, since ≤ d.timestamp) :
    cfg.guard e d ≠ .approved ↔ e.settings.eventGuardEnabled ∧
      ∃ event ∈ stored, Replayed d.symbol d.timestamp event ∧
        e.settings.Blackout event d.timestamp := by
  obtain ⟨context, hcontext, hnow, -, hhas⟩ := eventContext_eq cfg stored d hevents hbuy hsince
  unfold ReplayConfig.guard
  rw [hcontext]
  dsimp only
  rw [rejects_iff e _ d.signal hbuy, hnow, hhas]

/-- A BUY does not pass the replay exactly when the replay cannot form its dates, or the guard is
on and the minutes of the macro window are no span of time or an event stops it that the replay
selects. -/
theorem datedGuard_iff (hevents : cfg.events = some stored) (hbuy : d.action = .buy)
    (hsince : ∀ since ∈ cfg.eventGuardSince, since ≤ d.timestamp) :
    cfg.datedGuard e d ≠ .ok .approved ↔ ¬ReplayDates d.timestamp ∨
      (e.settings.eventGuardEnabled ∧ (¬e.settings.MinutesFormable ∨
        ∃ event ∈ stored, Replayed d.symbol d.timestamp event ∧
          e.settings.Stops event d.timestamp)) := by
  obtain ⟨context, hcontext, hnow, hsorted, hhas⟩ :=
    eventContext_eq cfg stored d hevents hbuy hsince
  by_cases hdates : ReplayDates d.timestamp
  · have hguard : cfg.datedGuard e d = e.datedEventGuard d.signal (.ok context) := by
      unfold ReplayConfig.datedGuard ReplayConfig.datedEventContext
      rw [hcontext]
      dsimp only
      rw [(dateAdd_eq_ok_iff d.timestamp (-eventLookback) _).mpr ⟨hdates.1, rfl⟩,
        (dateAdd_eq_ok_iff d.timestamp eventLookback _).mpr ⟨hdates.2, rfl⟩]
      rfl
    rw [hguard, stops_iff e hsorted d.signal hbuy, hnow, hhas]
    simp [hdates]
  · refine ⟨fun _ => .inl hdates, fun _ hok => hdates ?_⟩
    unfold ReplayConfig.datedGuard ReplayConfig.datedEventContext at hok
    rw [hcontext, Lib.bind_eq_ok_iff] at hok
    obtain ⟨_, hread, -⟩ := hok
    simp only [Lib.bind_eq_ok_iff, dateAdd_eq_ok_iff] at hread
    obtain ⟨_, ⟨hfrom, -⟩, _, ⟨hto, -⟩, -⟩ := hread
    exact ⟨hfrom, hto⟩

end Verdict

/-! ## Agreement -/

/-- The events that let no BUY pass at a time. -/
def stopping (s : RiskSettings) (stored : EventTable) (now : Time) : Set MarketEvent :=
  {event | event ∈ stored ∧ s.Stops event now}

/-- The events that block entries at a time. -/
def blocking (s : RiskSettings) (stored : EventTable) (now : Time) : Set MarketEvent :=
  {event | event ∈ stored ∧ s.Blackout event now}

/-- Two selections of a set are empty alike when they share an element, or each has one of its own
just when the other does. -/
theorem exists_alike_iff {α : Type} (s : Set α) (p q : α → Prop) :
    ((∃ a ∈ s, p a) ↔ ∃ a ∈ s, q a) ↔
      (∃ a ∈ s, q a ∧ p a) ∨ ((∃ a ∈ s, q a ∧ ¬p a) ↔ ∃ a ∈ s, p a ∧ ¬q a) := by
  constructor
  · intro h
    by_cases hshared : ∃ a ∈ s, q a ∧ p a
    · exact .inl hshared
    · refine .inr ⟨fun ⟨a, ha, hqa, _⟩ => ?_, fun ⟨a, ha, hpa, _⟩ => ?_⟩
      · obtain ⟨b, hb, hpb⟩ := h.mpr ⟨a, ha, hqa⟩
        exact ⟨b, hb, hpb, fun hqb => hshared ⟨b, hb, hqb, hpb⟩⟩
      · obtain ⟨b, hb, hqb⟩ := h.mp ⟨a, ha, hpa⟩
        exact ⟨b, hb, hqb, fun hpb => hshared ⟨b, hb, hqb, hpb⟩⟩
  · rintro (⟨a, ha, hqa, hpa⟩ | h)
    · exact ⟨fun _ => ⟨a, ha, hqa⟩, fun _ => ⟨a, ha, hpa⟩⟩
    · constructor
      · rintro ⟨a, ha, hpa⟩
        by_cases hqa : q a
        · exact ⟨a, ha, hqa⟩
        · obtain ⟨b, hb, hqb, -⟩ := h.mpr ⟨a, ha, hpa, hqa⟩
          exact ⟨b, hb, hqb⟩
      · rintro ⟨a, ha, hqa⟩
        by_cases hpa : p a
        · exact ⟨a, ha, hpa⟩
        · obtain ⟨b, hb, hpb, -⟩ := h.mp ⟨a, ha, hqa, hpa⟩
          exact ⟨b, hb, hpb⟩

/-- A BUY of `AAPL` at time zero. -/
def replayedBuy : ReplayDecision where
  timestamp := 0
  symbol := "AAPL"
  action := .buy
  confidence := 7 / 10
  stopLoss := some 95
  takeProfit := some 120
  confidence_nonneg := by norm_num
  confidence_le_one := by norm_num

/-- A replay over stored events. -/
def guardedReplay (stored : EventTable) : ReplayConfig :=
  ⟨RiskSettings.default, 1000, CostModel.free, some stored, some 0⟩

/-- A reader that looks a week ahead. -/
def weekAhead : ContextSettings := { ContextSettings.default with
  lookaheadHours := .finite 168 (by norm_num) }

/-- Events as the providers store them: macro events concern every asset, the others one. -/
def Calendar (stored : EventTable) : Prop :=
  ∀ event ∈ stored, (event.kind = .macroEvent ↔ event.asset = none)

/-- No window reaches beyond what both select. -/
def WithinBoth (s : RiskSettings) (c : ContextSettings) : Prop :=
  (∀ kind, kind ≠ .delisting →
      s.before kind ≤ eventLookback ∨ c.ahead .macroEvent ≤ eventLookback) ∧
    s.after .delisting ≤ noticeLookback

/-- Under covering settings no event of a calendar decides alone. -/
theorem agree_of_withinBoth {s : RiskSettings} {c : ContextSettings} {stored : EventTable}
    (symbol : Symbol) {now : Time} (hwithin : WithinBoth s c) (hcalendar : Calendar stored)
    {event : MarketEvent} (hblocks : event ∈ blocking s stored now) :
    ¬LiveOnly c symbol now event ∧ ¬ReplayOnly symbol now event := by
  obtain ⟨hmem, -, hstart, hstop⟩ := hblocks
  have hkind := hcalendar event hmem
  constructor
  · rintro ⟨hnot, ⟨-, -, hahead⟩, hfar | ⟨hearnings, hnone⟩⟩
    · have hread : event.time ≤ now + c.ahead .macroEvent := by
        rwa [c.ahead_of_ne hnot] at hahead
      rcases hwithin.1 event.kind hnot with hbefore | hlook
      · linarith
      · linarith
    · have hmarket := hkind.mpr hnone
      rw [hearnings] at hmarket
      cases hmarket
  · rintro (⟨hmarket, -, hnot⟩ | ⟨hdelisting, -, hold⟩)
    · refine hnot (.inr ⟨hkind.mp hmarket, ?_⟩)
      rw [hmarket]
      decide
    · have hafter := hwithin.2
      rw [hdelisting] at hstop
      linarith

/-- An event of a kind as a provider stores it. -/
def calendarEvent (kind : EventKind) (symbol : Symbol) (time : Time) : MarketEvent :=
  { sampleEvent kind symbol time with
    asset := if kind = .macroEvent then none else some (baseAsset symbol) }

theorem calendar_singleton (kind : EventKind) (symbol : Symbol) (time : Time) :
    Calendar [calendarEvent kind symbol time] := by
  intro event hevent
  rw [List.mem_singleton.mp hevent]
  cases kind <;> simp [calendarEvent, sampleEvent]

/-- With the guard on, the verdicts at a time that the reader can read at are the same exactly when
both readers select a blocking event, or neither does. -/
theorem same_verdict_iff (cfg : ReplayConfig) (e : RiskEngine) {c : ContextSettings}
    {reading : Option Time} (stored : EventTable) (d : ReplayDecision)
    (hcan : CanRead c reading d.timestamp) (hevents : cfg.events = some stored)
    (hbuy : d.action = .buy) (hsince : ∀ since ∈ cfg.eventGuardSince, since ≤ d.timestamp) :
    (cfg.guard e d = .approved ↔
      e.checkContext d.signal (readContext c ⟨stored, reading⟩ d.symbol d.timestamp)
        = .approved) ↔
      (e.settings.eventGuardEnabled →
        ((∃ event ∈ blocking e.settings stored d.timestamp, Replayed d.symbol d.timestamp event) ↔
          ∃ event ∈ blocking e.settings stored d.timestamp,
            ReadLive c d.symbol d.timestamp event)) := by
  have hreplay := guard_iff cfg e stored d hevents hbuy hsince
  have hlive := live_rejects_iff e c ⟨stored, reading⟩ d.symbol d.timestamp d.signal hbuy
  refine (not_iff_not.symm.trans (iff_congr hreplay hlive)).trans ?_
  have hselected : ∀ p : MarketEvent → Prop,
      (∃ event ∈ stored, p event ∧ e.settings.Blackout event d.timestamp) ↔
        ∃ event ∈ blocking e.settings stored d.timestamp, p event := by
    intro p
    unfold blocking
    simp only [Set.mem_ofPred_eq]
    exact exists_congr fun event => by tauto
  rw [hselected, hselected]
  dsimp only
  cases e.settings.eventGuardEnabled <;> simp [hcan]

/-- **Settings of the two guards.** At a time that the reader can read at, the replay and the live
agent agree on every calendar and on every BUY of a symbol exactly when the guard is off, or no
blackout window reaches beyond what both of them select. -/
theorem replay_guard_agrees_iff (cfg : ReplayConfig) (e : RiskEngine) (c : ContextSettings)
    (reading : Option Time) (symbol : Symbol) (now : Time) (hcan : CanRead c reading now)
    (hsince : ∀ since ∈ cfg.eventGuardSince, since ≤ now) :
    (∀ stored : EventTable, Calendar stored → ∀ d : ReplayDecision, d.symbol = symbol →
      d.action = .buy → d.timestamp = now →
      ({ cfg with events := some stored }.guard e d = .approved ↔
        e.checkContext d.signal (readContext c ⟨stored, reading⟩ d.symbol d.timestamp)
          = .approved)) ↔
      (e.settings.eventGuardEnabled → WithinBoth e.settings c) := by
  constructor
  · intro hagree hon
    -- a BUY of the symbol at that time, and one event
    let d : ReplayDecision := { replayedBuy with
      timestamp := now
      symbol := symbol }
    have hone : ∀ kind time, e.settings.Blackout (calendarEvent kind symbol time) now →
        ¬LiveOnly c symbol now (calendarEvent kind symbol time) ∧
          ¬ReplayOnly symbol now (calendarEvent kind symbol time) := by
      intro kind time hblocks
      have hverdict := hagree _ (calendar_singleton kind symbol time) d rfl rfl rfl
      rw [same_verdict_iff { cfg with events := some [calendarEvent kind symbol time] } e
        [calendarEvent kind symbol time] d hcan rfl rfl hsince] at hverdict
      have hmem : calendarEvent kind symbol time
          ∈ blocking e.settings [calendarEvent kind symbol time] now :=
        ⟨List.mem_singleton_self _, hblocks⟩
      rw [liveOnly_iff, replayOnly_iff hcan]
      constructor
      · rintro ⟨hread, hnot⟩
        obtain ⟨event, hb, hreplayed⟩ := (hverdict hon).mpr ⟨_, hmem, hread⟩
        rw [List.mem_singleton.mp hb.1] at hreplayed
        exact hnot hreplayed
      · rintro ⟨hreplayed, hnot⟩
        obtain ⟨event, hb, hread⟩ := (hverdict hon).mp ⟨_, hmem, hreplayed⟩
        rw [List.mem_singleton.mp hb.1] at hread
        exact hnot hread
    have hblackout : ∀ kind time, time - e.settings.before kind ≤ now →
        now ≤ time + e.settings.after kind →
        e.settings.Blackout (calendarEvent kind symbol time) now :=
      fun kind time hstart hstop =>
        ⟨fun _ => EventImportance.rank_le_high _, hstart, hstop⟩
    have hbefore := e.settings.before_nonneg
    have hafter := e.settings.after_nonneg
    have hlookback : 0 ≤ eventLookback := by decide
    constructor
    · intro kind hnot
      by_contra hlong
      push Not at hlong
      obtain ⟨hwindow, hahead⟩ := hlong
      -- the event at whose window or look-ahead now lies
      let reach := min (e.settings.before kind) (c.ahead .macroEvent)
      have hreach : eventLookback < reach := lt_min hwindow hahead
      have hle : reach ≤ e.settings.before kind := min_le_left _ _
      have hle' : reach ≤ c.ahead .macroEvent := min_le_right _ _
      have hkind := hafter kind
      refine (hone kind (now + reach) (hblackout kind _ ?_ ?_)).1 ⟨hnot, ⟨?_, ?_, ?_⟩, .inl ?_⟩
      · linarith
      · linarith
      · cases kind with
        | macroEvent => exact .inr ⟨rfl, hnot⟩
        | earnings => exact .inl rfl
        | delisting => exact absurd rfl hnot
      · change now - ContextSettings.back kind ≤ now + reach
        rw [ContextSettings.back_of_ne hnot]
        linarith
      · change now + reach ≤ now + c.ahead kind
        rw [c.ahead_of_ne hnot]
        linarith
      · change now + eventLookback < now + reach
        linarith
    · by_contra hlong
      have hlong := not_le.mp hlong
      have hday := hbefore .delisting
      refine (hone .delisting (now - e.settings.after .delisting)
        (hblackout .delisting _ ?_ ?_)).2 (.inr ⟨rfl, rfl, ?_⟩)
      · linarith [hafter .delisting]
      · linarith
      · change now - e.settings.after .delisting < now - noticeLookback
        linarith
  · rintro hwithin stored hcalendar d hsymbol hbuy rfl
    refine (same_verdict_iff { cfg with events := some stored } e stored d hcan rfl hbuy hsince).mpr
      fun hon => exists_congr fun event => and_congr_right fun hb => ?_
    obtain ⟨hlive, hreplay⟩ := agree_of_withinBoth d.symbol (hwithin hon) hcalendar hb
    rw [liveOnly_iff] at hlive
    rw [replayOnly_iff hcan] at hreplay
    tauto

end SmartyTrader
