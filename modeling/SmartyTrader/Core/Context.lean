import SmartyTrader.Core.Dates
import SmartyTrader.Core.RiskEngine
import SmartyTrader.Storage.Context

set_option autoImplicit false

/-! # Market context

`ContextReader.for_symbol`: what one decision sees of the stored events. The reader fetches a
range of its own around now; the windows of the event guard are settings of the risk engine. A
reader that cannot form its dates raises, and the pipeline then blocks entries.
-/

namespace SmartyTrader

/-- The settings of the reader that reach the events or can make it raise. -/
structure ContextSettings where
  lookaheadHours : Hours
  sentimentEnabled : Bool
  sentimentMaxAgeHours : Hours

/-- `base_asset`: the part before the first slash, stripped and in capitals. -/
def baseAsset (symbol : Symbol) : String :=
  upper (strip (String.ofList (symbol.toList.takeWhile (· ≠ '/'))))

theorem upper_baseAsset (symbol : Symbol) : upper (baseAsset symbol) = baseAsset symbol :=
  upper_upper _

/-- Past events the reader still returns. -/
def eventLookback : ℤ := days 2

/-- How far back delisting notices stay visible. -/
def noticeLookback : ℤ := days 365

/-- How far ahead events are read. -/
def ContextSettings.eventLookahead (c : ContextSettings) : Except PyError ℤ :=
  c.lookaheadHours.atLeastTwoDays.toDelta

/-- The age up to which a reading is shown, formed only where there is a reading. -/
def ContextSettings.sentimentAge (c : ContextSettings) (reading : Option Time) :
    Except PyError (Option ℤ) :=
  if c.sentimentEnabled ∧ reading.isSome then some <$> c.sentimentMaxAgeHours.toDelta
  else .ok none

/-- `for_symbol`. The sentiment and the card reach no check and are left out of the context. -/
def forSymbol (c : ContextSettings) (stored : StoredContext) (symbol : Symbol) (now : Time) :
    Except PyError SymbolContext := do
  let asset := baseAsset symbol
  let start ← dateAdd now (-eventLookback)
  let stop ← dateAdd now (← c.eventLookahead)
  let events := stored.events.getMarketEvents start stop [asset] [.macroEvent, .earnings]
  let start ← dateAdd now (-noticeLookback)
  let stop ← dateAdd now (days 1)
  let notices := stored.events.getMarketEvents start stop [asset] [.delisting]
  let _ ← c.sentimentAge stored.reading
  return {
    now := now
    events := events
    notices := notices.filter (fun n => n.asset = some asset) }

/-- `_read_context`: the context, or the text of the error. -/
def readContext (c : ContextSettings) (stored : StoredContext) (symbol : Symbol) (now : Time) :
    Except String SymbolContext :=
  match forSymbol c stored symbol now with
  | .ok context => .ok context
  | .error error => .error error.text

/-- How far ahead events of a kind are read, no time at all where the hours are no `timedelta`. -/
def ContextSettings.ahead (c : ContextSettings) : EventKind → ℤ
  | .delisting => days 1
  | _ => match c.eventLookahead with
      | .ok span => span
      | .error _ => 0

/-- How far back events of a kind are read. -/
def ContextSettings.back : EventKind → ℤ
  | .delisting => noticeLookback
  | _ => eventLookback

/-- The reader can form its dates: the ends of the ranges it reads, and the age of a stored
reading that it shows. -/
structure CanRead (c : ContextSettings) (reading : Option Time) (now : Time) : Prop where
  lookahead : ∃ span, c.eventLookahead = .ok span
  start : IsDate (now - noticeLookback)
  stop : IsDate (now + c.ahead .macroEvent)
  age : c.sentimentEnabled ∧ reading.isSome → ∃ span, c.sentimentMaxAgeHours.toDelta = .ok span

theorem sentimentAge_ok_iff (c : ContextSettings) (reading : Option Time) :
    (∃ age, c.sentimentAge reading = .ok age) ↔
      (c.sentimentEnabled ∧ reading.isSome →
        ∃ span, c.sentimentMaxAgeHours.toDelta = .ok span) := by
  unfold ContextSettings.sentimentAge
  split_ifs with h
  · rw [forall_prop_of_true h]
    cases c.sentimentMaxAgeHours.toDelta with
    | ok span => exact ⟨fun _ => ⟨span, rfl⟩, fun _ => ⟨some span, rfl⟩⟩
    | error e => exact ⟨fun ⟨_, h⟩ => (nomatch h), fun ⟨_, h⟩ => (nomatch h)⟩
  · exact ⟨fun _ hsome => absurd hsome h, fun _ => ⟨none, rfl⟩⟩

/-- What a reader that does not raise returns. -/
theorem forSymbol_eq_ok_iff (c : ContextSettings) (stored : StoredContext) (symbol : Symbol)
    (now : Time) (context : SymbolContext) :
    forSymbol c stored symbol now = .ok context ↔
      CanRead c stored.reading now ∧ context = {
        now := now
        events := stored.events.getMarketEvents (now - eventLookback)
          (now + c.ahead .macroEvent) [baseAsset symbol] [.macroEvent, .earnings]
        notices := (stored.events.getMarketEvents (now - noticeLookback) (now + days 1)
          [baseAsset symbol] [.delisting]).filter
            (fun n => n.asset = some (baseAsset symbol)) } := by
  unfold forSymbol
  simp only [Lib.bind_eq_ok_iff, dateAdd_eq_ok_iff, ← sub_eq_add_neg]
  constructor
  · rintro ⟨_, ⟨-, rfl⟩, span, hspan, _, ⟨hstop, rfl⟩, _, ⟨hstart, rfl⟩, _, ⟨-, rfl⟩, age, hage,
      hreturn⟩
    have hahead : c.ahead .macroEvent = span := by
      unfold ContextSettings.ahead
      rw [hspan]
    refine ⟨⟨⟨span, hspan⟩, hstart, ?_, (sentimentAge_ok_iff c _).mp ⟨age, hage⟩⟩, ?_⟩
    · rwa [hahead]
    · rw [hahead]
      exact (Except.ok.inj hreturn).symm
  · rintro ⟨⟨⟨span, hspan⟩, hstart, hstop, hage⟩, rfl⟩
    obtain ⟨age, hage⟩ := (sentimentAge_ok_iff c _).mpr hage
    have hahead : c.ahead .macroEvent = span := by
      unfold ContextSettings.ahead
      rw [hspan]
    rw [hahead] at hstop ⊢
    -- the other two dates lie between these two
    have hlong : 172800000000 ≤ span := Hours.le_of_toDelta hspan
    have hyear : noticeLookback = 31536000000000 := by decide
    have htwo : eventLookback = 172800000000 := by decide
    have hone : days 1 = 86400000000 := by decide
    have hback : IsDate (now - eventLookback) := hstart.between hstop (by linarith) (by linarith)
    have hday : IsDate (now + days 1) := hstart.between hstop (by linarith) (by linarith)
    exact ⟨_, ⟨hback, rfl⟩, span, hspan, _, ⟨hstop, rfl⟩, _, ⟨hstart, rfl⟩, _, ⟨hday, rfl⟩, age,
      hage, rfl⟩

end SmartyTrader
