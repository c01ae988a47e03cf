import SmartyTrader.Core.Settings

set_option autoImplicit false

/-! # Stored market events

The table of market events of one agent: the read of a time range and the retention. Of the
sentiment only the time of the latest reading is kept; news and cards reach no check and are left
out.
-/

namespace SmartyTrader

/-- The stored events. -/
abbrev EventTable := List MarketEvent

namespace EventTable

/-- `get_market_events`: events of the range, oldest first. `assets` limits the events of an
asset, those of the whole market are always included. -/
def getMarketEvents (t : EventTable) (start stop : Time) (assets : List String)
    (kinds : List EventKind) : List MarketEvent :=
  (t.filter (fun e => start ≤ e.time ∧ e.time ≤ stop
      ∧ (e.asset = none ∨ ∃ a ∈ assets, e.asset = some (upper a))
      ∧ e.kind ∈ kinds)).insertionSort (fun a b => a.time ≤ b.time)

/-- `prune_context` on the events: delete what lies `retentionDays` back. -/
def pruneContext (t : EventTable) (retentionDays : ℤ) (now : Time) : EventTable :=
  if retentionDays ≤ 0 then t
  else t.filter (fun e => ¬ e.time < now - days retentionDays)

theorem mem_getMarketEvents (t : EventTable) (start stop : Time) (assets : List String)
    (kinds : List EventKind) (e : MarketEvent) :
    e ∈ getMarketEvents t start stop assets kinds ↔
      e ∈ t ∧ start ≤ e.time ∧ e.time ≤ stop
        ∧ (e.asset = none ∨ ∃ a ∈ assets, e.asset = some (upper a)) ∧ e.kind ∈ kinds := by
  unfold getMarketEvents
  rw [List.mem_insertionSort, List.mem_filter]
  simp

theorem mem_pruneContext (t : EventTable) (retentionDays : ℤ) (now : Time) (e : MarketEvent) :
    e ∈ pruneContext t retentionDays now ↔
      e ∈ t ∧ (0 < retentionDays → now - days retentionDays ≤ e.time) := by
  unfold pruneContext
  split_ifs with h
  · simp [not_lt.mpr h]
  · simp [not_le.mp h]

end EventTable

/-- The context tables of an agent: its events, and the `as_of` of its latest sentiment reading. -/
structure StoredContext where
  events : EventTable
  reading : Option Time

/-- `prune_context`. -/
def StoredContext.pruneContext (stored : StoredContext) (retentionDays : ℤ) (now : Time) :
    StoredContext where
  events := stored.events.pruneContext retentionDays now
  reading :=
    if retentionDays ≤ 0 then stored.reading
    else stored.reading.filter fun asOf => ¬ asOf < now - days retentionDays

end SmartyTrader
