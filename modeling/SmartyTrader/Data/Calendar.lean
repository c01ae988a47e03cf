import SmartyTrader.Analysis.Sanitize
import SmartyTrader.Core.Settings
import SmartyTrader.Lib.TextTable
import SmartyTrader.Storage.EventSync

set_option autoImplicit false

/-! # Scheduled macro events

The two calendar providers: the list of the operator, and the weekly feed. Both publish a window
with their events. That of the feed is the span of its dated entries. What white space is and what
the cases of letters are is a table.
-/

namespace SmartyTrader

open Lib

/-- What one provider fetched in one pass, the events of it. -/
structure ContextBatch where
  source : String
  events : List MarketEvent
  syncWindow : Option SyncWindow

def configSource : String := "config"

def forexFactorySource : String := "forexfactory"

/-- `_FF_IMPACT` -/
def ffImpact (impact : String) : Option EventImportance :=
  if impact = "high" then some .high
  else if impact = "medium" then some .medium
  else if impact = "low" then some .low
  else none

/-- `_wanted`. -/
def Wanted (currency : String) (importance : EventImportance) (currencies : List String)
    (floor : ℕ) : Prop :=
  currency ∈ currencies ∧ floor ≤ importance.rank

instance (currency : String) (importance : EventImportance) (currencies : List String)
    (floor : ℕ) : Decidable (Wanted currency importance currencies floor) :=
  inferInstanceAs (Decidable (_ ∧ _))

/-! ## The list of the operator -/

/-- An entry of `macro_calendar.events`. -/
structure MacroEntry where
  time : Time
  title : String
  currency : String
  importance : EventImportance

structure ConfigMacroProvider where
  events : List MacroEntry
  currencies : List String
  floor : EventImportance

/-- `ConfigMacroProvider.fetch`: it publishes everything from now on. -/
def ConfigMacroProvider.fetch (p : ConfigMacroProvider) (u : TextTable) (now : Time) :
    ContextBatch where
  source := configSource
  events := (p.events.filter (fun entry =>
    Wanted entry.currency entry.importance (p.currencies.map u.upper) p.floor.rank)).map
    fun entry =>
      { source := configSource, kind := .macroEvent, time := entry.time, title := entry.title,
        asset := none, currency := some entry.currency, importance := entry.importance }
  syncWindow := some { start := now, stop := none }

/-! ## The weekly feed -/

/-- An entry of the feed, as text. The date is absent or does not parse otherwise. -/
structure FeedEntry where
  date : Option Time
  impact : String
  country : String
  title : String

structure ForexFactoryProvider where
  currencies : List String
  floor : EventImportance

/-- The times of the dated entries. An entry that is no object is `none`. -/
def times (payload : List (Option FeedEntry)) : List Time :=
  payload.filterMap (fun entry => entry.bind FeedEntry.date)

/-- The event of an entry, if it is dated, has an importance and a title, and is wanted. -/
def ForexFactoryProvider.event (p : ForexFactoryProvider) (u : TextTable) (entry : FeedEntry) :
    Option MarketEvent := do
  let time ← entry.date
  let currency := u.upper (u.strip entry.country)
  let title := safeLabel entry.title 200
  let importance ← ffImpact (u.lower (u.strip entry.impact))
  if title = "" then none
  else if Wanted currency importance (p.currencies.map u.upper) p.floor.rank then
    some { source := forexFactorySource, kind := .macroEvent, time := time, title := title,
           asset := none, currency := some currency, importance := importance }
  else none

def ForexFactoryProvider.events (p : ForexFactoryProvider) (u : TextTable)
    (payload : List (Option FeedEntry)) : List MarketEvent :=
  payload.filterMap (fun entry => entry.bind (p.event u))

/-- The span of some times with a minute on either side. -/
def published (first : Time) (rest : List Time) : SyncWindow where
  start := rest.foldl min first - 60000000
  stop := some (rest.foldl max first + 60000000)

/-- `ForexFactoryProvider.fetch`, of a payload that is a list or is not. -/
def ForexFactoryProvider.fetch (p : ForexFactoryProvider) (u : TextTable)
    (payload : Option (List (Option FeedEntry))) : Except PyError ContextBatch :=
  match payload with
  | none => .error (.raised "forexfactory feed: expected a JSON list")
  | some payload =>
      match times payload with
      | [] => .error (.raised "forexfactory feed: no dated entries")
      | first :: rest =>
          .ok { source := forexFactorySource, events := p.events u payload,
                syncWindow := some (published first rest) }

end SmartyTrader
