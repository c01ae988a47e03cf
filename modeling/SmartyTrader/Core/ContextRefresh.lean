import SmartyTrader.Core.CalendarSync
import SmartyTrader.Data.Calendar

set_option autoImplicit false

/-! # Refreshing the context

A pass persists what every provider fetched, one after the other. The weekly feed is synced over the
span of the entries it has this time, so a stored event of the same week that lies before the first
or after the last of them is out of reach. `refreshed_week_iff` says when two passes leave the
events of the second payload.
-/

namespace SmartyTrader

open Lib EventTable

/-- The stored events of a source. -/
def EventTable.ofSource (t : EventTable) (source : String) : EventTable :=
  t.filter (fun row => row.source = source)

theorem EventTable.mem_ofSource {t : EventTable} {source : String} {row : MarketEvent} :
    row ∈ t.ofSource source ↔ row ∈ t ∧ row.source = source := by
  unfold EventTable.ofSource
  rw [List.mem_filter, decide_eq_true_eq]

/-- A batch that has nothing to do with a source. -/
def ContextBatch.Apart (batch : ContextBatch) (source : String) : Prop :=
  batch.source ≠ source ∧ ∀ e ∈ batch.events, e.source ≠ source

/-- A digest under which events of two sources never have the same key. -/
structure SourceDigest (κ : Type) where
  key : EventIdentity → κ
  source_eq : ∀ i j, key i = key j → i.source = j.source

namespace ContextRefresher

variable {κ : Type} [DecidableEq κ] (digest : EventIdentity → κ)

/-- `_persist`, on the events of a batch. -/
def persist (t : EventTable) (batch : ContextBatch) : EventTable :=
  match batch.syncWindow with
  | some w => synced digest t batch.source batch.events w
  | none => (storeMarketEvents digest t batch.events).2

/-- `refresh`, from what every provider fetched or raised. -/
def refresh (t : EventTable) (outcomes : List (Except PyError ContextBatch)) : EventTable :=
  outcomes.foldl (fun t outcome =>
    match outcome with
    | .error _ => t
    | .ok batch => persist digest t batch) t

end ContextRefresher

open ContextRefresher

section Refresh

variable {κ : Type} [DecidableEq κ] (digest : EventIdentity → κ)

/-! ## Other sources -/

theorem mem_of_mem_unstored {t : EventTable} {events : List MarketEvent} {e : MarketEvent}
    (h : e ∈ EventTable.unstored digest t events) : e ∈ events :=
  ((byKey_spec digest events).1 _ _ ((mem_unstored digest).mp h).1).1

theorem ofSource_unstored (t : EventTable) {events : List MarketEvent} {source : String}
    (h : ∀ e ∈ events, e.source ≠ source) :
    EventTable.ofSource (EventTable.unstored digest t events) source = [] := by
  refine List.filter_eq_nil_iff.mpr fun e he => ?_
  simpa using h e (mem_of_mem_unstored digest he)

/-- Another source's batch leaves the events of a source alone. -/
theorem ofSource_persist (t : EventTable) {batch : ContextBatch} {source : String}
    (h : batch.Apart source) : (persist digest t batch).ofSource source = t.ofSource source := by
  obtain ⟨hsource, hevents⟩ := h
  unfold persist
  cases batch.syncWindow with
  | none =>
      have hnone := ofSource_unstored digest t hevents
      unfold EventTable.ofSource storeMarketEvents at *
      rw [List.filter_append, hnone, List.append_nil]
  | some w =>
      have hnone := ofSource_unstored digest
        (deleteMoved digest t batch.source batch.events w) hevents
      show (synced digest t batch.source batch.events w).ofSource source = _
      rw [synced_eq]
      unfold EventTable.ofSource at *
      rw [List.filter_append, hnone, List.append_nil, deleteMoved, List.filter_filter]
      refine List.filter_congr fun row _ => ?_
      by_cases hrow : row.source = source
      · -- A row of the source is not inside a window of another one.
        have hstays : ¬ Moved digest batch.source batch.events w row := by
          rintro ⟨⟨hother, -⟩, -⟩
          exact hsource (hother.symm.trans hrow)
        simp [hrow, hstays]
      · simp [hrow]

theorem ofSource_refresh (t : EventTable) {outcomes : List (Except PyError ContextBatch)}
    {source : String} (h : ∀ batch, .ok batch ∈ outcomes → batch.Apart source) :
    (refresh digest t outcomes).ofSource source = t.ofSource source := by
  induction outcomes generalizing t with
  | nil => rfl
  | cons outcome outcomes ih =>
      have hrest := fun t => ih t fun batch hbatch => h batch (List.mem_cons_of_mem _ hbatch)
      cases outcome with
      | error err => exact hrest t
      | ok batch =>
          calc (refresh digest (persist digest t batch) outcomes).ofSource source
              = (persist digest t batch).ofSource source := hrest _
            _ = t.ofSource source := ofSource_persist digest t (h batch List.mem_cons_self)

end Refresh

/-! ## The weekly feed -/

/-- A payload of the week: it has dated entries, all of them in the week. -/
structure WeekPayload (week : SyncWindow) where
  entries : List (Option FeedEntry)
  first : Time
  rest : List Time
  dated : times entries = first :: rest
  inside : ∀ time ∈ times entries, week.Holds time

/-- The window that is synced. -/
def WeekPayload.window {week : SyncWindow} (w : WeekPayload week) : SyncWindow :=
  published w.first w.rest

/-- A pass over all providers in which the feed answers with a payload of the week. -/
structure ContextPass (week : SyncWindow) where
  before : List (Except PyError ContextBatch)
  payload : WeekPayload week
  after : List (Except PyError ContextBatch)
  others : ∀ batch, .ok batch ∈ before ++ after → batch.Apart forexFactorySource

def ContextPass.outcomes {week : SyncWindow} (c : ContextPass week) (u : TextTable)
    (p : ForexFactoryProvider) : List (Except PyError ContextBatch) :=
  c.before ++ p.fetch u (some c.payload.entries) :: c.after

/-- What the feed has of the week. -/
def ContextPass.wanted {week : SyncWindow} (c : ContextPass week) (u : TextTable)
    (p : ForexFactoryProvider) : List MarketEvent := p.events u c.payload.entries

theorem ForexFactoryProvider.fetch_week (p : ForexFactoryProvider) (u : TextTable)
    {week : SyncWindow} (w : WeekPayload week) : p.fetch u (some w.entries) = .ok
      { source := forexFactorySource, events := p.events u w.entries,
        syncWindow := some w.window } := by
  unfold ForexFactoryProvider.fetch
  simp only [w.dated]
  rfl

/-- The list of the operator has nothing to do with the feed. -/
theorem ConfigMacroProvider.fetch_apart (p : ConfigMacroProvider) (u : TextTable) (now : Time) :
    (p.fetch u now).Apart forexFactorySource := by
  constructor
  · show configSource ≠ forexFactorySource
    decide
  · intro e he
    obtain ⟨entry, -, rfl⟩ := List.mem_map.mp he
    show configSource ≠ forexFactorySource
    decide

/-- An event of the feed is one of its source, at a time of the payload, and its title fits. -/
theorem ForexFactoryProvider.mem_events {p : ForexFactoryProvider} {u : TextTable}
    {payload : List (Option FeedEntry)} {e : MarketEvent} (h : e ∈ p.events u payload) :
    e.source = forexFactorySource ∧ e.time ∈ times payload ∧ e.title.length ≤ 200 := by
  obtain ⟨entry, hentry, hbind⟩ := List.mem_filterMap.mp h
  obtain ⟨entry, rfl, hevent⟩ := Option.bind_eq_some_iff.mp hbind
  unfold ForexFactoryProvider.event at hevent
  obtain ⟨time, hdate, hrest⟩ := Option.bind_eq_some_iff.mp hevent
  obtain ⟨importance, -, hwanted⟩ := Option.bind_eq_some_iff.mp hrest
  split_ifs at hwanted
  obtain rfl := Option.some.inj hwanted
  exact ⟨rfl, List.mem_filterMap.mpr ⟨some entry, hentry, hdate⟩, length_safeLabel _ _⟩

section Week

variable {κ : Type} [DecidableEq κ] (digest : SourceDigest κ)

omit [DecidableEq κ] in
/-- A key of the source is stored exactly if an event of the source has it. -/
theorem mem_keys_ofSource {t : EventTable} {e : MarketEvent} {source : String}
    (h : e.source = source) : e.dedupKey digest.key ∈ keys digest.key (t.ofSource source) ↔
      e.dedupKey digest.key ∈ keys digest.key t := by
  simp only [mem_keys, EventTable.mem_ofSource]
  constructor
  · rintro ⟨row, ⟨hrow, -⟩, hkey⟩
    exact ⟨row, hrow, hkey⟩
  · rintro ⟨row, hrow, hkey⟩
    exact ⟨row, ⟨hrow, (digest.source_eq _ _ hkey).trans h⟩, hkey⟩

/-- The events of a source after its sync are a matter of the events it had. -/
theorem ofSource_synced (t : EventTable) {source : String} {events : List MarketEvent}
    (w : SyncWindow) (h : ∀ e ∈ events, e.source = source) {row : MarketEvent} :
    row ∈ (synced digest.key t source events w).ofSource source ↔
      row ∈ synced digest.key (t.ofSource source) source events w := by
  rw [EventTable.mem_ofSource, mem_synced, mem_synced, EventTable.mem_ofSource]
  constructor
  · rintro ⟨⟨hrow, hkept⟩ | ⟨hget, hnew⟩, hsource⟩
    · exact Or.inl ⟨⟨hrow, hsource⟩, hkept⟩
    · exact Or.inr ⟨hget, fun hstored => hnew ((mem_keys_ofSource digest hsource).mp hstored)⟩
  · rintro (⟨⟨hrow, hsource⟩, hkept⟩ | ⟨hget, hnew⟩)
    · exact ⟨Or.inl ⟨hrow, hkept⟩, hsource⟩
    · have hsource := h row ((byKey_spec digest.key events).1 _ _ hget).1
      exact ⟨Or.inr ⟨hget, fun hstored => hnew ((mem_keys_ofSource digest hsource).mpr hstored)⟩,
        hsource⟩

/-! ## One pass -/

variable {week : SyncWindow} (u : TextTable) (p : ForexFactoryProvider) (t : EventTable)

/-- What a pass leaves of the feed: the stored events that it does not remove, and of those it
publishes the last one of each key that is not stored. -/
def StoredAfter (c : ContextPass week) (row : MarketEvent) : Prop :=
  row.source = forexFactorySource ∧
    ((row ∈ t ∧ ¬ Moved digest.key forexFactorySource (c.wanted u p) c.payload.window row) ∨
      ((byKey digest.key (c.wanted u p)).get? (row.dedupKey digest.key) = some row ∧
        row.dedupKey digest.key ∉ keys digest.key t))

theorem mem_pass (c : ContextPass week) (row : MarketEvent) :
    row ∈ (refresh digest.key t (c.outcomes u p)).ofSource forexFactorySource ↔
      StoredAfter digest u p t c row := by
  have hbefore : (refresh digest.key t c.before).ofSource forexFactorySource
      = t.ofSource forexFactorySource :=
    ofSource_refresh _ _ fun batch hbatch => c.others batch (List.mem_append_left _ hbatch)
  have hafter : ∀ s, (refresh digest.key s c.after).ofSource forexFactorySource
      = s.ofSource forexFactorySource := fun s =>
    ofSource_refresh _ _ fun batch hbatch => c.others batch (List.mem_append_right _ hbatch)
  have hevents : ∀ e ∈ c.wanted u p, e.source = forexFactorySource :=
    fun e he => (ForexFactoryProvider.mem_events he).1
  have hpass : refresh digest.key t (c.outcomes u p)
      = refresh digest.key (synced digest.key (refresh digest.key t c.before) forexFactorySource
          (c.wanted u p) c.payload.window) c.after := by
    unfold ContextPass.outcomes refresh
    rw [List.foldl_append, List.foldl_cons, p.fetch_week]
    rfl
  -- Before and after the feed's own batch its events do not change.
  rw [hpass, hafter, ofSource_synced digest _ _ hevents, hbefore,
    ← ofSource_synced digest _ _ hevents, EventTable.mem_ofSource, mem_synced, and_comm]
  rfl

/-- A pass leaves an event of the feed under a key exactly if one was stored or is published. -/
theorem mem_keys_pass (c : ContextPass week) {e : MarketEvent}
    (h : e.source = forexFactorySource) :
    e.dedupKey digest.key ∈ keys digest.key (refresh digest.key t (c.outcomes u p)) ↔
      ∃ row, StoredAfter digest u p t c row ∧ row.dedupKey digest.key = e.dedupKey digest.key := by
  rw [← mem_keys_ofSource digest h, mem_keys]
  simp only [mem_pass]

/-! ## Two passes -/

/-- The stored feed events of the week are, to a reader, the given ones. -/
def Exactly (week : SyncWindow) (events : List MarketEvent) : Prop :=
  ∀ o, (∃ row ∈ t, row.Inside forexFactorySource week ∧ row.observed = o) ↔
    ∃ e ∈ events, e.observed = o

/-- The second payload reaches what the first pass left: it spans every event of the week that it
has no key of, and under each key the two look the same. -/
structure Superseded (c c' : ContextPass week) : Prop where
  /-- What the second payload dropped lies in the span of its dated entries. -/
  spanned : ∀ row, StoredAfter digest u p t c row → week.Holds row.time →
    row.dedupKey digest.key ∉ keys digest.key (c'.wanted u p) → c'.payload.window.Holds row.time
  /-- What it kept has the look of one of its events. -/
  kept : ∀ row, StoredAfter digest u p t c row → week.Holds row.time →
    row.dedupKey digest.key ∈ keys digest.key (c'.wanted u p) →
      ∃ e ∈ c'.wanted u p, e.observed = row.observed
  /-- An event whose key is stored is stored in the week with its look. -/
  stored : ∀ e ∈ c'.wanted u p,
    (∃ row, StoredAfter digest u p t c row ∧ row.dedupKey digest.key = e.dedupKey digest.key) →
      ∃ row, StoredAfter digest u p t c row ∧ week.Holds row.time ∧ row.observed = e.observed
  /-- Of the events of a key that is not stored, the last one has the look of each. -/
  added : ∀ e ∈ c'.wanted u p,
    (¬ ∃ row, StoredAfter digest u p t c row ∧ row.dedupKey digest.key = e.dedupKey digest.key) →
      ∃ last, (byKey digest.key (c'.wanted u p)).get? (e.dedupKey digest.key) = some last ∧
        last.observed = e.observed

/-- What two passes leave of the feed in the week. -/
theorem mem_passes (c c' : ContextPass week) (row : MarketEvent) :
    StoredAfter digest u p (refresh digest.key t (c.outcomes u p)) c' row ↔
      (StoredAfter digest u p t c row ∧
        ¬ Moved digest.key forexFactorySource (c'.wanted u p) c'.payload.window row) ∨
      ((byKey digest.key (c'.wanted u p)).get? (row.dedupKey digest.key) = some row ∧
        ¬ ∃ old, StoredAfter digest u p t c old ∧
          old.dedupKey digest.key = row.dedupKey digest.key) := by
  constructor
  · rintro ⟨hsource, ⟨hrow, hkept⟩ | ⟨hget, hnew⟩⟩
    · exact Or.inl ⟨(mem_pass digest u p t c row).mp (EventTable.mem_ofSource.mpr ⟨hrow, hsource⟩),
        hkept⟩
    · exact Or.inr ⟨hget, fun hold => hnew ((mem_keys_pass digest u p t c hsource).mpr hold)⟩
  · rintro (⟨hstored, hkept⟩ | ⟨hget, hnew⟩)
    · obtain ⟨hrow, hsource⟩ := EventTable.mem_ofSource.mp ((mem_pass digest u p t c row).mpr hstored)
      exact ⟨hsource, Or.inl ⟨hrow, hkept⟩⟩
    · have hsource := (ForexFactoryProvider.mem_events
        ((byKey_spec digest.key (c'.wanted u p)).1 _ _ hget).1).1
      exact ⟨hsource, Or.inr ⟨hget, fun hold =>
        hnew ((mem_keys_pass digest u p t c hsource).mp hold)⟩⟩

/-- **When moved and cancelled events stop blocking.** After two payloads of a week the stored feed
events of the week are those of the second exactly when it supersedes what the first left. -/
theorem refreshed_week_iff (c c' : ContextPass week) :
    Exactly (refresh digest.key (refresh digest.key t (c.outcomes u p)) (c'.outcomes u p)) week
      (c'.wanted u p) ↔ Superseded digest u p t c c' := by
  have hrow : ∀ row, (row ∈ refresh digest.key (refresh digest.key t (c.outcomes u p)) (c'.outcomes u p)
      ∧ row.Inside forexFactorySource week) ↔
        StoredAfter digest u p (refresh digest.key t (c.outcomes u p)) c' row ∧
          week.Holds row.time := by
    intro row
    rw [← mem_pass, EventTable.mem_ofSource, and_assoc]
    rfl
  have hweek : ∀ e ∈ c'.wanted u p, week.Holds e.time := fun e he =>
    c'.payload.inside _ (ForexFactoryProvider.mem_events he).2.1
  unfold Exactly
  simp only [← and_assoc, hrow, mem_passes]
  constructor
  · intro h
    -- Every event of the second payload is found under its own key.
    have hfind : ∀ e ∈ c'.wanted u p, ∃ row, row.dedupKey digest.key = e.dedupKey digest.key ∧
        row.observed = e.observed ∧ week.Holds row.time ∧
        ((StoredAfter digest u p t c row ∧
          ¬ Moved digest.key forexFactorySource (c'.wanted u p) c'.payload.window row) ∨
        ((byKey digest.key (c'.wanted u p)).get? (row.dedupKey digest.key) = some row ∧
          ¬ ∃ old, StoredAfter digest u p t c old ∧
            old.dedupKey digest.key = row.dedupKey digest.key)) := by
      intro e he
      obtain ⟨row, ⟨hstored, hholds⟩, hlook⟩ := (h e.observed).mpr ⟨e, he, rfl⟩
      exact ⟨row, dedupKey_of_observed digest.key hlook, hlook, hholds, hstored⟩
    constructor
    · intro row hstored hholds hgone
      by_contra hout
      have hkept : ¬ Moved digest.key forexFactorySource (c'.wanted u p) c'.payload.window row :=
        fun hmoved => hout hmoved.1.2
      obtain ⟨e, he, hlook⟩ := (h row.observed).mp ⟨row, ⟨Or.inl ⟨hstored, hkept⟩, hholds⟩, rfl⟩
      exact hgone ((mem_keys digest.key).mpr ⟨e, he, dedupKey_of_observed digest.key hlook⟩)
    · intro row hstored hholds hkey
      exact (h row.observed).mp ⟨row, ⟨Or.inl ⟨hstored, fun hmoved => hmoved.2 hkey⟩, hholds⟩, rfl⟩
    · intro e he hold
      obtain ⟨row, hkey, hlook, hholds, ⟨hstored, -⟩ | ⟨-, hnew⟩⟩ := hfind e he
      · exact ⟨row, hstored, hholds, hlook⟩
      · exact absurd (hkey ▸ hold) hnew
    · intro e he hnew
      obtain ⟨row, hkey, hlook, -, ⟨hstored, -⟩ | ⟨hget, -⟩⟩ := hfind e he
      · exact absurd ⟨row, hstored, hkey⟩ hnew
      · exact ⟨row, hkey ▸ hget, hlook⟩
  · intro h o
    constructor
    · rintro ⟨row, ⟨⟨hstored, hkept⟩ | ⟨hget, -⟩, hholds⟩, rfl⟩
      · refine h.kept row hstored hholds ?_
        by_contra hgone
        exact hkept ⟨⟨hstored.1, h.spanned row hstored hholds hgone⟩, hgone⟩
      · exact ⟨row, ((byKey_spec digest.key (c'.wanted u p)).1 _ _ hget).1, rfl⟩
    · rintro ⟨e, he, rfl⟩
      by_cases hold : ∃ row, StoredAfter digest u p t c row ∧
          row.dedupKey digest.key = e.dedupKey digest.key
      · obtain ⟨row, hstored, hholds, hlook⟩ := h.stored e he hold
        refine ⟨row, ⟨Or.inl ⟨hstored, fun hmoved => hmoved.2 ?_⟩, hholds⟩, hlook⟩
        exact (mem_keys digest.key).mpr ⟨e, he, (dedupKey_of_observed digest.key hlook).symm⟩
      · obtain ⟨last, hlast, hlook⟩ := h.added e he hold
        have hkey := dedupKey_of_observed digest.key hlook
        have hmem := ((byKey_spec digest.key (c'.wanted u p)).1 _ _ hlast).1
        exact ⟨last, ⟨Or.inr ⟨hkey ▸ hlast, hkey ▸ hold⟩, hweek last hmem⟩, hlook⟩

end Week

/-! ## A cancelled print that keeps blocking -/

def sampleFeed : ForexFactoryProvider where
  currencies := ["USD"]
  floor := .high

/-- An entry of the week's feed. -/
def sampleEntry (time : Time) (title : String) : Option FeedEntry :=
  some { date := some time, impact := "High", country := "USD", title := title }

/-- Seven days. -/
def sampleWeek : SyncWindow where
  start := 0
  stop := some 604800000000

/-- A print on the first day and one on the third. -/
def earlyPass : ContextPass sampleWeek where
  before := []
  payload :=
    { entries := [sampleEntry 36000000000 "CPI", sampleEntry 208800000000 "GDP"]
      first := 36000000000, rest := [208800000000], dated := rfl, inside := by decide }
  after := []
  others := by simp

/-- The first one was cancelled. -/
def latePass : ContextPass sampleWeek where
  before := []
  payload :=
    { entries := [sampleEntry 208800000000 "GDP"]
      first := 208800000000, rest := [], dated := rfl, inside := by decide }
  after := []
  others := by simp

/-- The identity itself as its digest. -/
def plainDigest : SourceDigest EventIdentity where
  key := id
  source_eq _ _ h := congrArg EventIdentity.source h

/-- The feed no longer reaches back to the day of the cancelled print, so it stays. -/
theorem cancelled_print_kept : ¬ Exactly
    (refresh plainDigest.key (refresh plainDigest.key []
      (earlyPass.outcomes TextTable.ascii sampleFeed))
        (latePass.outcomes TextTable.ascii sampleFeed)) sampleWeek
      (latePass.wanted TextTable.ascii sampleFeed) := by
  intro h
  have hkept := (h (samplePrint 36000000000 .high).observed).mp
    ⟨samplePrint 36000000000 .high, by decide, by decide, rfl⟩
  revert hkept
  decide

end SmartyTrader
