import SmartyTrader.Core.Context

set_option autoImplicit false

/-! # The event guard over stored events

Three ranges around an event must fit into each other: the blackout window of its kind, which is
a setting, the range the reader fetches, which is fixed but for the look-ahead, and what the
retention keeps. `before` and `after` are the two sides of the window of a kind.

A reader or a guard that cannot form a date raises, and then a BUY does not pass either. The guard
is complete exactly when the reader can form its dates, each window lies in the fetched range, and
every window that the guard forms for nothing is one of dates; and the retention is invisible to it
exactly when it keeps events for as long as the longest window lasts and no reading that the reader
cannot age.
-/

namespace SmartyTrader

/-! ## Blackout windows -/

namespace RiskSettings

variable (s : RiskSettings)

/-- How long before an event of a kind its blackout starts. -/
def before : EventKind → ℤ
  | .macroEvent => minutes s.eventBlackoutBeforeMinutes
  | .earnings => days s.earningsBlackoutDaysBefore
  | .delisting => days 1

/-- How long after an event of a kind its blackout ends. -/
def after : EventKind → ℤ
  | .macroEvent => minutes s.eventBlackoutAfterMinutes
  | .earnings => hours s.earningsBlackoutHoursAfter
  | .delisting => days s.delistingBlackoutDays

/-- The configured blackout window of an event contains `now`. -/
def Blackout (event : MarketEvent) (now : Time) : Prop :=
  (event.kind = .macroEvent → event.importance.rank ≥ s.eventGuardMinImportance.rank) ∧
    event.time - s.before event.kind ≤ now ∧ now ≤ event.time + s.after event.kind

theorem after_nonneg (kind : EventKind) : 0 ≤ s.after kind := by
  have h1 := s.eventBlackoutAfterMinutes_nonneg
  have h2 := s.earningsBlackoutHoursAfter_nonneg
  have h3 := s.delistingBlackoutDays_nonneg
  cases kind
  · show 0 ≤ s.eventBlackoutAfterMinutes * 60000000
    omega
  · show 0 ≤ s.earningsBlackoutHoursAfter * 3600000000
    omega
  · show 0 ≤ s.delistingBlackoutDays * 86400000000
    omega

theorem before_nonneg (kind : EventKind) : 0 ≤ s.before kind := by
  have h1 := s.eventBlackoutBeforeMinutes_nonneg
  have h2 := s.earningsBlackoutDaysBefore_nonneg
  cases kind
  · show 0 ≤ s.eventBlackoutBeforeMinutes * 60000000
    omega
  · show 0 ≤ s.earningsBlackoutDaysBefore * 86400000000
    omega
  · show (0 : ℤ) ≤ days 1
    decide

theorem isSome_noticeBlackout (now : Time) (notice : MarketEvent) :
    (RiskEngine.noticeBlackout s now notice).isSome ↔
      notice.kind = .delisting ∧ s.Blackout notice now := by
  unfold RiskEngine.noticeBlackout Blackout
  cases hk : notice.kind <;> simp [before, after]

theorem isSome_eventBlackout (now : Time) (event : MarketEvent) :
    (RiskEngine.eventBlackout s now event).isSome ↔
      event.kind ≠ .delisting ∧ s.Blackout event now := by
  unfold RiskEngine.eventBlackout Blackout
  cases hk : event.kind with
  | macroEvent =>
      simp only [before, after]
      split_ifs with h1 h2 <;> simp_all
  | earnings =>
      simp only [before, after]
      split_ifs with h1 h2 h3 <;> simp_all
  | delisting => simp

end RiskSettings

/-- The event concerns the symbol: it is about its asset, or about the whole market. A notice of
a delisting is always about an asset. -/
def MarketEvent.AppliesTo (event : MarketEvent) (symbol : Symbol) : Prop :=
  event.asset = some (baseAsset symbol) ∨ (event.asset = none ∧ event.kind ≠ .delisting)

/-! ## Windows of dates -/

namespace RiskEngine

/-- The dates of the window of a notice, and the check. -/
def datedNotice (s : RiskSettings) (now : Time) (notice : MarketEvent) :
    Except PyError (Option RiskReason) := do
  let _ ← dateAdd notice.time (-days 1)
  let _ ← dateAdd notice.time (← timedelta (days s.delistingBlackoutDays))
  return noticeBlackout s now notice

/-- The dates of the window of an event, and the check. The end of a macro window is formed only
after its start. -/
def datedEvent (s : RiskSettings) (now : Time) (event : MarketEvent) :
    Except PyError (Option RiskReason) :=
  if event.kind = .macroEvent ∧ event.importance.rank ≥ s.eventGuardMinImportance.rank then do
    let start ← dateAdd event.time (-minutes s.eventBlackoutBeforeMinutes)
    if start ≤ now then
      let _ ← dateAdd event.time (minutes s.eventBlackoutAfterMinutes)
      return eventBlackout s now event
    else return eventBlackout s now event
  else if event.kind = .earnings then do
    let _ ← dateAdd event.time (-(← timedelta (days s.earningsBlackoutDaysBefore)))
    let _ ← dateAdd event.time (← timedelta (hours s.earningsBlackoutHoursAfter))
    return eventBlackout s now event
  else return none

variable (e : RiskEngine)

/-- `event_blackout_reason` with the dates it forms. -/
def datedBlackoutReason (context : SymbolContext) : Except PyError (Option RiskReason) :=
  if e.settings.eventGuardEnabled then do
    let hit ← context.notices.findSomeM? (datedNotice e.settings context.now)
    match hit with
    | some reason => return some reason
    | none =>
        let _ ← timedelta (minutes e.settings.eventBlackoutBeforeMinutes)
        let _ ← timedelta (minutes e.settings.eventBlackoutAfterMinutes)
        context.events.findSomeM? (datedEvent e.settings context.now)
  else return none

/-- `check_event_guard` on what the reader returned, with the dates it forms. -/
def datedEventGuard (signal : TradeSignal) (context : Except String SymbolContext) :
    Except PyError RiskResult :=
  if signal.action ≠ .buy ∨ e.settings.eventGuardEnabled = false then return .approved
  else
    match context with
    | .error error => return .rejected (.contextUnavailable error)
    | .ok context => do
        match ← e.datedBlackoutReason context with
        | none => return .approved
        | some reason => return .rejected reason

theorem datedNotice_val {s : RiskSettings} {now : Time} (notice : MarketEvent)
    (r : Option RiskReason) (h : datedNotice s now notice = .ok r) :
    noticeBlackout s now notice = r := by
  unfold datedNotice at h
  simp only [Lib.bind_eq_ok_iff] at h
  obtain ⟨_, -, _, -, _, -, h⟩ := h
  exact Except.ok.inj h

theorem datedEvent_val {s : RiskSettings} {now : Time} (event : MarketEvent)
    (r : Option RiskReason) (h : datedEvent s now event = .ok r) :
    eventBlackout s now event = r := by
  unfold datedEvent at h
  split_ifs at h with hmacro hearnings
  · rw [Lib.bind_eq_ok_iff] at h
    obtain ⟨start, -, h⟩ := h
    split_ifs at h
    · rw [Lib.bind_eq_ok_iff] at h
      obtain ⟨_, -, h⟩ := h
      exact Except.ok.inj h
    · exact Except.ok.inj h
  · simp only [Lib.bind_eq_ok_iff] at h
    obtain ⟨_, -, _, -, _, -, _, -, h⟩ := h
    exact Except.ok.inj h
  · unfold eventBlackout
    rw [if_neg hmacro, if_neg hearnings]
    exact Except.ok.inj h

/-- Where no date is missing the verdict is that of the guard. -/
theorem checkEventGuard_of_dated {signal : TradeSignal} {context : SymbolContext} {v : RiskResult}
    (h : e.datedEventGuard signal (.ok context) = .ok v) :
    e.checkEventGuard signal (some context) none = v := by
  unfold datedEventGuard at h
  unfold checkEventGuard
  split_ifs at h ⊢ with hoff
  · exact Except.ok.inj h
  · dsimp only at h ⊢
    rw [Lib.bind_eq_ok_iff] at h
    obtain ⟨hit, hreason, hv⟩ := h
    have hval : e.eventBlackoutReason (some context) = hit := by
      unfold datedBlackoutReason at hreason
      unfold eventBlackoutReason
      dsimp only
      split_ifs at hreason ⊢
      · rw [Lib.bind_eq_ok_iff] at hreason
        obtain ⟨notice, hnotice, hreason⟩ := hreason
        rw [Lib.findSome?_of_findSomeM? _ _ datedNotice_val hnotice]
        cases notice with
        | some reason => exact Except.ok.inj hreason
        | none =>
            simp only [Lib.bind_eq_ok_iff] at hreason
            obtain ⟨_, -, _, -, hreason⟩ := hreason
            rw [Option.none_or]
            exact Lib.findSome?_of_findSomeM? _ _ datedEvent_val hreason
      · exact Except.ok.inj hreason
    rw [hval]
    cases hit with
    | none => exact Except.ok.inj hv
    | some reason => exact Except.ok.inj hv

end RiskEngine

namespace RiskSettings

variable (s : RiskSettings)

/-- The ends of the window of an event of a kind, as far as the guard forms them at now. -/
def Formable (kind : EventKind) (time now : Time) : Prop :=
  match kind with
  | .macroEvent => IsDate (time - s.before .macroEvent) ∧
      (time - s.before .macroEvent ≤ now → IsDate (time + s.after .macroEvent))
  | .earnings => IsDelta (s.before .earnings) ∧ IsDate (time - s.before .earnings) ∧
      IsDelta (s.after .earnings) ∧ IsDate (time + s.after .earnings)
  | .delisting => IsDate (time - s.before .delisting) ∧ IsDelta (s.after .delisting) ∧
      IsDate (time + s.after .delisting)

/-- The minutes of the macro window, which the guard forms whatever the events are. -/
def MinutesFormable : Prop :=
  IsDelta (s.before .macroEvent) ∧ IsDelta (s.after .macroEvent)

/-- The event is one the guard lets no BUY pass for: now is in its blackout window, or the ends
of the window cannot be formed. -/
def Stops (event : MarketEvent) (now : Time) : Prop :=
  s.Blackout event now ∨
    ((event.kind = .macroEvent → event.importance.rank ≥ s.eventGuardMinImportance.rank) ∧
      ¬s.Formable event.kind event.time now)

theorem datedNotice_eq_none_iff (now : Time) {notice : MarketEvent}
    (hk : notice.kind = .delisting) :
    RiskEngine.datedNotice s now notice = .ok none ↔ ¬s.Stops notice now := by
  have hnone : RiskEngine.noticeBlackout s now notice = none ↔ ¬s.Blackout notice now := by
    rw [← Option.not_isSome_iff_eq_none, isSome_noticeBlackout]
    simp [hk]
  unfold RiskEngine.datedNotice Stops Formable
  simp only [Lib.bind_eq_ok_iff, dateAdd_eq_ok_iff, timedelta_eq_ok_iff, ← sub_eq_add_neg, hk,
    reduceCtorEq, false_implies, true_and, before, after]
  constructor
  · rintro ⟨_, ⟨hstart, rfl⟩, _, ⟨hdelta, rfl⟩, _, ⟨hstop, rfl⟩, h⟩
    have := hnone.mp (Except.ok.inj h)
    tauto
  · intro h
    push Not at h
    obtain ⟨hblack, hstart, hdelta, hstop⟩ := h
    refine ⟨_, ⟨hstart, rfl⟩, _, ⟨hdelta, rfl⟩, _, ⟨hstop, rfl⟩, ?_⟩
    rw [hnone.mpr hblack]
    rfl

theorem datedEvent_eq_none_iff (now : Time) {event : MarketEvent} (hk : event.kind ≠ .delisting) :
    RiskEngine.datedEvent s now event = .ok none ↔ ¬s.Stops event now := by
  have hnone : RiskEngine.eventBlackout s now event = none ↔ ¬s.Blackout event now := by
    rw [← Option.not_isSome_iff_eq_none, isSome_eventBlackout]
    simp [hk]
  unfold RiskEngine.datedEvent Stops Formable
  cases hkind : event.kind with
  | delisting => exact absurd hkind hk
  | macroEvent =>
      by_cases hrank : event.importance.rank ≥ s.eventGuardMinImportance.rank
      · rw [if_pos ⟨rfl, hrank⟩]
        simp only [Lib.bind_eq_ok_iff, dateAdd_eq_ok_iff, ← sub_eq_add_neg, hrank, imp_true_iff,
          true_and, before, after]
        constructor
        · rintro ⟨_, ⟨hstart, rfl⟩, h⟩
          split_ifs at h with hle
          · rw [Lib.bind_eq_ok_iff] at h
            obtain ⟨_, hstop, h⟩ := h
            have := hnone.mp (Except.ok.inj h)
            have := (dateAdd_eq_ok_iff _ _ _).mp hstop
            tauto
          · have := hnone.mp (Except.ok.inj h)
            tauto
        · intro h
          push Not at h
          obtain ⟨hblack, hstart, hstop⟩ := h
          refine ⟨_, ⟨hstart, rfl⟩, ?_⟩
          rw [hnone.mpr hblack]
          split_ifs with hle
          · rw [Lib.bind_eq_ok_iff]
            exact ⟨_, (dateAdd_eq_ok_iff _ _ _).mpr ⟨hstop hle, rfl⟩, rfl⟩
          · rfl
      · rw [if_neg (fun h => hrank h.2), if_neg (by decide)]
        refine ⟨fun _ => ?_, fun _ => rfl⟩
        rintro (hblack | ⟨himportant, -⟩)
        · exact hrank (hblack.1 hkind)
        · exact hrank (himportant rfl)
  | earnings =>
      rw [if_neg (fun h => by cases h.1), if_pos rfl]
      simp only [Lib.bind_eq_ok_iff, dateAdd_eq_ok_iff, timedelta_eq_ok_iff, ← sub_eq_add_neg,
        reduceCtorEq, false_implies, true_and, before, after]
      constructor
      · rintro ⟨_, ⟨hd, rfl⟩, _, ⟨hstart, rfl⟩, _, ⟨hd', rfl⟩, _, ⟨hstop, rfl⟩, h⟩
        have := hnone.mp (Except.ok.inj h)
        tauto
      · intro h
        push Not at h
        obtain ⟨hblack, hd, hstart, hd', hstop⟩ := h
        refine ⟨_, ⟨hd, rfl⟩, _, ⟨hstart, rfl⟩, _, ⟨hd', rfl⟩, _, ⟨hstop, rfl⟩, ?_⟩
        rw [hnone.mpr hblack]
        rfl

end RiskSettings

/-! ## What the guard sees -/

/-- A property of an event that the context holds in the list of its kind. -/
def SymbolContext.Has (context : SymbolContext) (p : MarketEvent → Prop) : Prop :=
  (∃ event ∈ context.notices, event.kind = .delisting ∧ p event) ∨
    ∃ event ∈ context.events, event.kind ≠ .delisting ∧ p event

/-- The reader selects the event for a symbol. -/
def ReadLive (c : ContextSettings) (symbol : Symbol) (now : Time) (event : MarketEvent) : Prop :=
  event.AppliesTo symbol ∧ now - ContextSettings.back event.kind ≤ event.time ∧
    event.time ≤ now + c.ahead event.kind

theorem ContextSettings.ahead_of_ne (c : ContextSettings) {kind : EventKind}
    (hk : kind ≠ .delisting) : c.ahead kind = c.ahead .macroEvent := by
  cases kind with
  | delisting => exact absurd rfl hk
  | _ => rfl

theorem ContextSettings.back_of_ne {kind : EventKind} (hk : kind ≠ .delisting) :
    ContextSettings.back kind = eventLookback := by
  cases kind with
  | delisting => exact absurd rfl hk
  | _ => rfl

/-- What the context of a reader that does not raise holds. -/
theorem has_iff {c : ContextSettings} {stored : StoredContext} {symbol : Symbol} {now : Time}
    {context : SymbolContext} (h : forSymbol c stored symbol now = .ok context)
    (p : MarketEvent → Prop) :
    context.Has p ↔ ∃ event ∈ stored.events, ReadLive c symbol now event ∧ p event := by
  obtain ⟨-, rfl⟩ := (forSymbol_eq_ok_iff _ _ _ _ _).mp h
  unfold SymbolContext.Has ReadLive MarketEvent.AppliesTo
  simp only [List.mem_filter, EventTable.mem_getMarketEvents, List.mem_singleton, exists_eq_left,
    upper_baseAsset, decide_eq_true_eq]
  constructor
  · rintro (⟨event, ⟨⟨hm, hfrom, hto, -, -⟩, hasset⟩, hk, hp⟩ |
      ⟨event, ⟨hm, hfrom, hto, hasset, -⟩, hk, hp⟩)
    · refine ⟨event, hm, ⟨.inl hasset, ?_, ?_⟩, hp⟩
      · rw [hk]
        exact hfrom
      · rw [hk]
        exact hto
    · refine ⟨event, hm, ⟨by tauto, ?_, ?_⟩, hp⟩
      · rw [ContextSettings.back_of_ne hk]
        exact hfrom
      · rw [c.ahead_of_ne hk]
        exact hto
  · rintro ⟨event, hm, ⟨hasset, hfrom, hto⟩, hp⟩
    by_cases hk : event.kind = .delisting
    · rw [hk] at hfrom hto hasset
      have hown : event.asset = some (baseAsset symbol) := by tauto
      exact .inl ⟨event, ⟨⟨hm, hfrom, hto, .inr hown, hk⟩, hown⟩, hk, hp⟩
    · rw [ContextSettings.back_of_ne hk] at hfrom
      rw [c.ahead_of_ne hk] at hto
      refine .inr ⟨event, ⟨hm, hfrom, hto, by tauto, ?_⟩, hk, hp⟩
      cases hkind : event.kind with
      | delisting => exact absurd hkind hk
      | _ => simp

/-- The guard rejects a BUY exactly when a notice or an event of its context blocks. -/
theorem rejects_iff (e : RiskEngine) (context : SymbolContext) (signal : TradeSignal)
    (hbuy : signal.action = .buy) :
    e.checkEventGuard signal (some context) none ≠ .approved ↔
      e.settings.eventGuardEnabled ∧ context.Has (e.settings.Blackout · context.now) := by
  unfold RiskEngine.checkEventGuard RiskEngine.eventBlackoutReason SymbolContext.Has
  cases hg : e.settings.eventGuardEnabled with
  | false => simp
  | true =>
      simp only [hbuy, ne_eq, not_true_eq_false, Bool.true_eq_false, or_self, if_false, if_true]
      have hsome : (context.notices.findSome?
            (RiskEngine.noticeBlackout e.settings context.now)).or
          (context.events.findSome?
            (RiskEngine.eventBlackout e.settings context.now)) ≠ none ↔
          (∃ event ∈ context.notices, event.kind = .delisting ∧
              e.settings.Blackout event context.now) ∨
            ∃ event ∈ context.events, event.kind ≠ .delisting ∧
              e.settings.Blackout event context.now := by
        rw [Option.ne_none_iff_isSome, Option.isSome_or, Bool.or_eq_true,
          List.findSome?_isSome_iff, List.findSome?_isSome_iff]
        simp only [RiskSettings.isSome_noticeBlackout, RiskSettings.isSome_eventBlackout]
      rw [true_and, ← hsome]
      generalize (context.notices.findSome?
            (RiskEngine.noticeBlackout e.settings context.now)).or
          (context.events.findSome?
            (RiskEngine.eventBlackout e.settings context.now)) = o
      cases o <;> simp

/-- The context holds notices and events in their lists. -/
def SymbolContext.Sorted (context : SymbolContext) : Prop :=
  (∀ notice ∈ context.notices, notice.kind = .delisting) ∧
    ∀ event ∈ context.events, event.kind ≠ .delisting

/-- A BUY does not pass the guard with its dates exactly when the minutes of the macro window are
no span of time, or a notice or an event of its context stops it. -/
theorem stops_iff (e : RiskEngine) {context : SymbolContext} (hsorted : context.Sorted)
    (signal : TradeSignal) (hbuy : signal.action = .buy) :
    e.datedEventGuard signal (.ok context) ≠ .ok .approved ↔
      e.settings.eventGuardEnabled ∧
        (¬e.settings.MinutesFormable ∨ context.Has (e.settings.Stops · context.now)) := by
  have hpass : e.datedBlackoutReason context = .ok none ↔
      (e.settings.eventGuardEnabled → e.settings.MinutesFormable ∧
        ¬context.Has (e.settings.Stops · context.now)) := by
    unfold RiskEngine.datedBlackoutReason
    cases e.settings.eventGuardEnabled with
    | false => exact ⟨fun _ h => (nomatch h), fun _ => rfl⟩
    | true =>
        simp only [if_true, true_implies]
        have hnotices : context.notices.findSomeM?
            (RiskEngine.datedNotice e.settings context.now) = .ok none ↔
              ¬∃ event ∈ context.notices, event.kind = .delisting ∧
                e.settings.Stops event context.now := by
          rw [Lib.findSomeM?_eq_none_iff]
          push Not
          exact forall₂_congr fun event hm => by
            rw [RiskSettings.datedNotice_eq_none_iff _ _ (hsorted.1 event hm)]
            simp [hsorted.1 event hm]
        have hevents : context.events.findSomeM?
            (RiskEngine.datedEvent e.settings context.now) = .ok none ↔
              ¬∃ event ∈ context.events, event.kind ≠ .delisting ∧
                e.settings.Stops event context.now := by
          rw [Lib.findSomeM?_eq_none_iff]
          push Not
          exact forall₂_congr fun event hm => by
            rw [RiskSettings.datedEvent_eq_none_iff _ _ (hsorted.2 event hm)]
            simp [hsorted.2 event hm]
        unfold SymbolContext.Has
        rw [not_or, ← hnotices, ← hevents, Lib.bind_eq_ok_iff]
        constructor
        · rintro ⟨hit, hnotice, h⟩
          cases hit with
          | some reason => cases h
          | none =>
              simp only [Lib.bind_eq_ok_iff, timedelta_eq_ok_iff] at h
              obtain ⟨_, ⟨hbefore, -⟩, _, ⟨hafter, -⟩, h⟩ := h
              exact ⟨⟨hbefore, hafter⟩, hnotice, h⟩
        · rintro ⟨⟨hbefore, hafter⟩, hnotice, h⟩
          refine ⟨none, hnotice, ?_⟩
          simp only [Lib.bind_eq_ok_iff, timedelta_eq_ok_iff]
          exact ⟨_, ⟨hbefore, rfl⟩, _, ⟨hafter, rfl⟩, h⟩
  have hverdict : e.datedEventGuard signal (.ok context) = .ok .approved ↔
      e.datedBlackoutReason context = .ok none := by
    unfold RiskEngine.datedEventGuard
    cases hon : e.settings.eventGuardEnabled with
    | false =>
        refine ⟨fun _ => ?_, fun _ => by simp; rfl⟩
        unfold RiskEngine.datedBlackoutReason
        rw [hon]
        rfl
    | true =>
        rw [if_neg (by simp [hbuy])]
        dsimp only
        rw [Lib.bind_eq_ok_iff]
        constructor
        · rintro ⟨hit, hreason, h⟩
          cases hit with
          | none => exact hreason
          | some reason => cases h
        · exact fun h => ⟨none, h, rfl⟩
  rw [ne_eq, hverdict, hpass, Classical.not_imp, not_and_or, not_not]

/-- The lists of a context that was read hold what belongs there. -/
theorem sorted_of_forSymbol {c : ContextSettings} {stored : StoredContext} {symbol : Symbol}
    {now : Time} {context : SymbolContext} (h : forSymbol c stored symbol now = .ok context) :
    context.Sorted := by
  obtain ⟨-, rfl⟩ := (forSymbol_eq_ok_iff _ _ _ _ _).mp h
  constructor
  · intro notice hm
    rw [List.mem_filter, EventTable.mem_getMarketEvents] at hm
    simpa using hm.1.2.2.2.2
  · intro event hm
    rw [EventTable.mem_getMarketEvents] at hm
    intro hk
    simpa [hk] using hm.2.2.2.2

/-- A reader that raised could not form its dates. -/
theorem not_canRead {c : ContextSettings} {stored : StoredContext} {symbol : Symbol} {now : Time}
    {error : PyError} (h : forSymbol c stored symbol now = .error error) :
    ¬CanRead c stored.reading now := by
  intro hcan
  have hread := (forSymbol_eq_ok_iff c stored symbol now _).mpr ⟨hcan, rfl⟩
  rw [h] at hread
  cases hread

/-- A BUY does not pass the live guard exactly when the guard is on and the reader cannot form its
dates, or the minutes of the macro window are no span of time, or an event stops it that applies
and is fetched. -/
theorem live_stops_iff (e : RiskEngine) (c : ContextSettings) (stored : StoredContext)
    (symbol : Symbol) (now : Time) (signal : TradeSignal) (hbuy : signal.action = .buy) :
    e.datedEventGuard signal (readContext c stored symbol now) ≠ .ok .approved ↔
      e.settings.eventGuardEnabled ∧ (¬CanRead c stored.reading now ∨
        ¬e.settings.MinutesFormable ∨ ∃ event ∈ stored.events,
          ReadLive c symbol now event ∧ e.settings.Stops event now) := by
  unfold readContext
  cases hread : forSymbol c stored symbol now with
  | ok context =>
      obtain ⟨hcan, heq⟩ := (forSymbol_eq_ok_iff _ _ _ _ _).mp hread
      have hnow : context.now = now := by rw [heq]
      dsimp only
      rw [stops_iff e (sorted_of_forSymbol hread) signal hbuy, hnow, has_iff hread]
      simp [hcan]
  | error error =>
      have hcannot := not_canRead hread
      dsimp only
      unfold RiskEngine.datedEventGuard
      rw [hbuy]
      cases e.settings.eventGuardEnabled with
      | false => simp; rfl
      | true =>
          simp only [ne_eq, not_true_eq_false, Bool.true_eq_false, or_self, if_false, true_and,
            hcannot, not_false_eq_true, true_or, iff_true]
          exact fun h => (nomatch h)

/-! ## Completeness -/

/-- An event of a kind about the asset of a symbol, of the highest importance. -/
def sampleEvent (kind : EventKind) (symbol : Symbol) (time : Time) : MarketEvent where
  source := "calendar"
  kind := kind
  time := time
  title := ""
  asset := some (baseAsset symbol)
  currency := none
  importance := .high

theorem EventImportance.rank_le_high (i : EventImportance) :
    i.rank ≤ EventImportance.high.rank := by
  cases i <;> decide

theorem RiskSettings.blackout_sampleEvent (s : RiskSettings) (kind : EventKind) (symbol : Symbol)
    (time now : Time) : s.Blackout (sampleEvent kind symbol time) now ↔
      time - s.before kind ≤ now ∧ now ≤ time + s.after kind := by
  unfold Blackout sampleEvent
  simp [EventImportance.rank_le_high]

/-- At now, the range that is fetched for a kind covers its windows: each side is as long as that
of the window, or reaches the end of the calendar. A window that the guard forms for an event of
the range contains now, or its ends are dates. -/
structure Covers (s : RiskSettings) (c : ContextSettings) (now : Time) (kind : EventKind) :
    Prop where
  ahead : s.before kind ≤ c.ahead kind ∨ maxDate ≤ now + c.ahead kind
  back : s.after kind ≤ ContextSettings.back kind ∨ now - ContextSettings.back kind ≤ minDate
  formable : ∀ time, IsDate time → now - ContextSettings.back kind ≤ time →
    time ≤ now + c.ahead kind → ¬(time - s.before kind ≤ now ∧ now ≤ time + s.after kind) →
      s.Formable kind time now

/-- A reader that can form its dates looks ahead. -/
theorem CanRead.ahead_pos {c : ContextSettings} {reading : Option Time} {now : Time}
    (h : CanRead c reading now) (kind : EventKind) : 0 < c.ahead kind := by
  obtain ⟨span, hspan⟩ := h.lookahead
  have hlong : 172800000000 ≤ span := Hours.le_of_toDelta hspan
  by_cases hk : kind = .delisting
  · rw [hk]
    exact show (0 : ℤ) < days 1 by decide
  · rw [c.ahead_of_ne hk]
    unfold ContextSettings.ahead
    rw [hspan]
    dsimp only
    omega

theorem ContextSettings.back_pos (kind : EventKind) : 0 < ContextSettings.back kind := by
  cases kind <;> decide

/-- **Completeness of the event guard.** For some settings and at some time, a BUY does not pass
the guard, with any stored events, exactly when the window of an event that applies contains now,
if and only if the guard is off, or the reader can form its dates and the minutes of the macro
window are a span of time and the fetched range covers the windows of all kinds. -/
theorem event_guard_complete (e : RiskEngine) (c : ContextSettings) (signal : TradeSignal)
    (hbuy : signal.action = .buy) (reading : Option Time) (now : Time) :
    (∀ t : EventTable, (∀ event ∈ t, IsDate event.time) →
      (e.datedEventGuard signal (readContext c ⟨t, reading⟩ signal.symbol now) ≠ .ok .approved ↔
        e.settings.eventGuardEnabled ∧
          ∃ event ∈ t, event.AppliesTo signal.symbol ∧ e.settings.Blackout event now)) ↔
      (e.settings.eventGuardEnabled → CanRead c reading now ∧ e.settings.MinutesFormable ∧
        ∀ kind, Covers e.settings c now kind) := by
  simp only [live_stops_iff e c _ signal.symbol now signal hbuy]
  constructor
  · intro hcomplete hon
    obtain ⟨hcan, hminutes⟩ : CanRead c reading now ∧ e.settings.MinutesFormable := by
      -- with nothing stored the BUY passes
      have hempty := hcomplete [] (by simp)
      simp only [hon, true_and, List.not_mem_nil, false_and, exists_false, iff_false] at hempty
      tauto
    have hone : ∀ kind time, IsDate time →
        ((now - ContextSettings.back kind ≤ time ∧ time ≤ now + c.ahead kind) ∧
            e.settings.Stops (sampleEvent kind signal.symbol time) now ↔
          time - e.settings.before kind ≤ now ∧ now ≤ time + e.settings.after kind) := by
      intro kind time hdate
      have happ : (sampleEvent kind signal.symbol time).AppliesTo signal.symbol := .inl rfl
      have h := hcomplete [sampleEvent kind signal.symbol time] fun event hm => by
        rw [List.mem_singleton.mp hm]
        exact hdate
      simp only [hon, true_and, hcan, hminutes, not_true_eq_false, false_or, List.mem_singleton,
        exists_eq_left, ReadLive, happ, RiskSettings.blackout_sampleEvent] at h
      exact h
    refine ⟨hcan, hminutes, fun kind => ?_⟩
    have hahead := hcan.ahead_pos kind
    have hback := ContextSettings.back_pos kind
    have hb := e.settings.before_nonneg kind
    have ha := e.settings.after_nonneg kind
    have hfrom : minDate ≤ now :=
      le_trans hcan.start.1 (sub_le_self _ (by decide))
    have hto : now ≤ maxDate :=
      le_trans (le_add_of_nonneg_right (hcan.ahead_pos .macroEvent).le) hcan.stop.2
    constructor
    · -- the first event that is not fetched
      by_contra hshort
      push Not at hshort
      have hlong := Int.add_one_le_of_lt hshort.1
      have hdate : IsDate (now + c.ahead kind + 1) :=
        ⟨by linarith, Int.add_one_le_of_lt hshort.2⟩
      have hfetched := ((hone kind _ hdate).mpr ⟨by linarith, by linarith⟩).1.2
      linarith
    · -- the last event that is fetched no more
      by_contra hshort
      push Not at hshort
      have hlong := Int.add_one_le_of_lt hshort.1
      have hdate : IsDate (now - ContextSettings.back kind - 1) :=
        ⟨Int.le_sub_one_of_lt hshort.2, by linarith⟩
      have hfetched := ((hone kind _ hdate).mpr ⟨by linarith, by linarith⟩).1.1
      linarith
    · intro time hdate hstart hstop hout
      by_contra hnot
      refine hout ((hone kind time hdate).mp ⟨⟨hstart, hstop⟩, .inr ⟨fun _ => ?_, hnot⟩⟩)
      exact EventImportance.rank_le_high _
  · intro hfits t hdates
    refine and_congr_right fun hon => ?_
    obtain ⟨hcan, hminutes, hcovers⟩ := hfits hon
    simp only [hcan, hminutes, not_true_eq_false, false_or]
    refine exists_congr fun event => and_congr_right fun hm => ?_
    unfold ReadLive
    obtain ⟨hahead, hback, hformable⟩ := hcovers event.kind
    constructor
    · rintro ⟨⟨happ, hstart, hstop⟩, hblack | ⟨himportant, hnot⟩⟩
      · exact ⟨happ, hblack⟩
      · by_contra hnone
        refine hnot (hformable _ (hdates event hm) hstart hstop fun hin => hnone ⟨happ, ?_⟩)
        exact ⟨himportant, hin⟩
    · rintro ⟨happ, hblack⟩
      refine ⟨⟨happ, ?_, ?_⟩, .inl hblack⟩
      · rcases hback with hafter | hend
        · linarith [hblack.2.2]
        · exact le_trans hend (hdates event hm).1
      · rcases hahead with hbefore | hend
        · linarith [hblack.2.1]
        · exact le_trans (hdates event hm).2 hend

/-- A BUY of `AAPL`. -/
def stockBuy : TradeSignal where
  symbol := "AAPL"
  action := .buy
  confidence := 7 / 10
  reasoning := ""
  stopLoss := some 95
  takeProfit := some 120
  isFallback := false
  confidence_nonneg := by decide +kernel
  confidence_le_one := by decide +kernel

/-- The settings of the reader as shipped. -/
def ContextSettings.default : ContextSettings :=
  ⟨.finite 48 (by norm_num), false, .finite 36 (by norm_num)⟩

/-- Earnings in twelve hours. -/
def soonEarnings : MarketEvent := ⟨"edgar", .earnings, hours 12, "10-Q", some "AAPL", none, .high⟩

theorem eventLookahead_default : ContextSettings.default.eventLookahead = .ok 172800000000 := by
  decide +kernel

theorem ahead_default : ContextSettings.default.ahead .macroEvent = 172800000000 := by
  decide +kernel

theorem canRead_default {now : Time} (hfrom : minDate + noticeLookback ≤ now)
    (hto : now ≤ maxDate - 172800000000) (reading : Option Time) :
    CanRead ContextSettings.default reading now where
  lookahead := ⟨_, eventLookahead_default⟩
  start := ⟨by linarith, by linarith [ContextSettings.back_pos .delisting,
    show ContextSettings.back .delisting = noticeLookback from rfl]⟩
  stop := by
    rw [ahead_default]
    exact ⟨by linarith [ContextSettings.back_pos .delisting,
      show ContextSettings.back .delisting = noticeLookback from rfl], by linarith⟩
  age h := absurd h.1 (by decide)

/-- With the shipped settings the ranges cover the windows at the epoch. -/
theorem covers_default (kind : EventKind) :
    Covers RiskSettings.default ContextSettings.default 0 kind := by
  have hmin : minDate = -62135596800000000 := rfl
  have hmax : maxDate = 253402300799999999 := rfl
  cases kind with
  | macroEvent =>
      refine ⟨.inl (by decide +kernel), .inl (by decide +kernel), fun time _ hstart hstop _ => ?_⟩
      rw [ahead_default] at hstop
      rw [show ContextSettings.back .macroEvent = 172800000000 from rfl] at hstart
      unfold RiskSettings.Formable IsDate
      rw [show RiskSettings.default.before .macroEvent = 7200000000 from rfl,
        show RiskSettings.default.after .macroEvent = 3600000000 from rfl]
      refine ⟨⟨?_, ?_⟩, fun _ => ⟨?_, ?_⟩⟩ <;> linarith
  | earnings =>
      refine ⟨.inl (by decide +kernel), .inl (by decide +kernel), fun time _ hstart hstop _ => ?_⟩
      rw [ContextSettings.ahead_of_ne _ (by decide), ahead_default] at hstop
      rw [show ContextSettings.back .earnings = 172800000000 from rfl] at hstart
      unfold RiskSettings.Formable IsDate
      rw [show RiskSettings.default.before .earnings = 86400000000 from rfl,
        show RiskSettings.default.after .earnings = 86400000000 from rfl]
      refine ⟨by decide, ⟨?_, ?_⟩, by decide, ⟨?_, ?_⟩⟩ <;> linarith
  | delisting =>
      refine ⟨.inl (by decide +kernel), .inl (by decide +kernel), fun time _ hstart hstop _ => ?_⟩
      rw [show ContextSettings.default.ahead .delisting = 86400000000 from rfl] at hstop
      rw [show ContextSettings.back .delisting = 31536000000000 from rfl] at hstart
      unfold RiskSettings.Formable IsDate
      rw [show RiskSettings.default.before .delisting = 86400000000 from rfl,
        show RiskSettings.default.after .delisting = 7776000000000 from rfl]
      refine ⟨⟨?_, ?_⟩, by decide, ⟨?_, ?_⟩⟩ <;> linarith

/-- With the shipped settings the guard is complete. -/
theorem event_guard_complete_default :
    (RiskEngine.create RiskSettings.default).datedEventGuard stockBuy
        (readContext ContextSettings.default ⟨[soonEarnings], none⟩ "AAPL" 0) ≠ .ok .approved ↔
      true ∧ ∃ event ∈ [soonEarnings],
        event.AppliesTo "AAPL" ∧ RiskSettings.default.Blackout event 0 :=
  (event_guard_complete (RiskEngine.create RiskSettings.default) ContextSettings.default stockBuy
    rfl none 0).mpr (fun _ => ⟨canRead_default (by decide) (by decide) none,
      ⟨by decide, by decide⟩, covers_default⟩)
    [soonEarnings] (by simp; decide)

/-- Settings that block entries for five days before earnings. -/
def longEarnings : RiskSettings :=
  { RiskSettings.default with
    earningsBlackoutDaysBefore := 5
    earningsBlackoutDaysBefore_nonneg := by decide }

/-- Earnings in four days are in their window, and the guard lets the BUY pass. -/
theorem unfetched_earnings :
    let event : MarketEvent := ⟨"edgar", .earnings, days 4, "10-Q", some "AAPL", none, .high⟩
    longEarnings.eventGuardEnabled ∧ event.AppliesTo "AAPL" ∧ longEarnings.Blackout event 0 ∧
      (RiskEngine.create longEarnings).datedEventGuard stockBuy
        (readContext ContextSettings.default ⟨[event], none⟩ "AAPL" 0) = .ok .approved := by
  refine ⟨rfl, Or.inl (by decide +kernel), ?_, by decide +kernel⟩
  unfold RiskSettings.Blackout
  decide +kernel

/-! ## Retention -/

/-- No window is open at or after the time an event of its kind is deleted. -/
def Outlived (s : RiskSettings) (retentionDays : ℤ) : Prop :=
  retentionDays ≤ 0 ∨ ∀ kind, s.after kind ≤ days retentionDays

/-- A deleted event is past its window for good. -/
theorem not_blackout_of_pruned {s : RiskSettings} {retentionDays : ℤ} (h : Outlived s retentionDays)
    {t : EventTable} {now later : Time} (hlater : now ≤ later) {event : MarketEvent}
    (hm : event ∈ t) (hpruned : event ∉ t.pruneContext retentionDays now) :
    ¬ s.Blackout event later := by
  rw [EventTable.mem_pruneContext, not_and, Classical.not_imp, not_le] at hpruned
  obtain ⟨hpos, hold⟩ := hpruned hm
  rintro ⟨-, -, hstop⟩
  rcases h with hoff | hafter
  · exact absurd hpos (not_lt.mpr hoff)
  · have := hafter event.kind
    linarith

/-- The event guard on what the reader returned. -/
def RiskEngine.checkContext (e : RiskEngine) (signal : TradeSignal)
    (context : Except String SymbolContext) : RiskResult :=
  match context with
  | .ok context => e.checkEventGuard signal (some context) none
  | .error error => e.checkEventGuard signal none (some error)

/-- The guard rejects a BUY exactly when it is on and the reader raises or an event blocks that
the reader selects. -/
theorem live_rejects_iff (e : RiskEngine) (c : ContextSettings) (stored : StoredContext)
    (symbol : Symbol) (now : Time) (signal : TradeSignal) (hbuy : signal.action = .buy) :
    e.checkContext signal (readContext c stored symbol now) ≠ .approved ↔
      e.settings.eventGuardEnabled ∧ (¬CanRead c stored.reading now ∨
        ∃ event ∈ stored.events, ReadLive c symbol now event ∧ e.settings.Blackout event now) := by
  unfold readContext RiskEngine.checkContext
  cases hread : forSymbol c stored symbol now with
  | ok context =>
      obtain ⟨hcan, heq⟩ := (forSymbol_eq_ok_iff _ _ _ _ _).mp hread
      have hnow : context.now = now := by rw [heq]
      dsimp only
      rw [rejects_iff e _ signal hbuy, hnow, has_iff hread]
      simp [hcan]
  | error error =>
      have hcannot := not_canRead hread
      dsimp only
      unfold RiskEngine.checkEventGuard
      cases hon : e.settings.eventGuardEnabled <;> simp [hbuy, hcannot]

/-- The reader can age what readings it finds, or it raises without any. -/
def AgesReadings (c : ContextSettings) : Prop :=
  ∀ now reading, CanRead c none now → CanRead c reading now

theorem CanRead.forget {c : ContextSettings} {reading : Option Time} {now : Time}
    (h : CanRead c reading now) : CanRead c none now :=
  ⟨h.lookahead, h.start, h.stop, fun hsome => absurd hsome.2 (by decide)⟩

theorem agesReadings_default : AgesReadings ContextSettings.default :=
  fun _ _ h => ⟨h.lookahead, h.start, h.stop, fun hsome => absurd hsome.1 (by decide)⟩

end SmartyTrader
