import SmartyTrader.Storage.Context
import SmartyTrader.Lib.Dict

set_option autoImplicit false

/-! # Writes of the event table

Events are identified by a digest of some of their fields. An insert skips what is stored under the
same digest, and the sync of a calendar feed deletes the stored events of a window whose digest the
feed no longer has before it inserts. The digest is a parameter, so that nothing depends on which
hash it is, nor on how it strips the title and folds its case.
-/

namespace SmartyTrader

open Lib

/-- What the key of an event is a digest of. -/
structure EventIdentity where
  source : String
  kind : EventKind
  asset : String
  currency : String
  minute : ℤ
  title : String
  deriving DecidableEq

/-- The minute of a time. -/
def minuteOf (t : Time) : ℤ := t / 60000000

def MarketEvent.identity (e : MarketEvent) : EventIdentity where
  source := e.source
  kind := e.kind
  asset := e.asset.getD ""
  currency := e.currency.getD ""
  minute := minuteOf e.time
  title := e.title

/-- The published window of a feed, open-ended without a stop. -/
structure SyncWindow where
  start : Time
  stop : Option Time

/-- A time inside the window. -/
def SyncWindow.Holds (w : SyncWindow) (time : Time) : Prop :=
  w.start ≤ time ∧ ∀ stop ∈ w.stop, time ≤ stop

instance (w : SyncWindow) (time : Time) : Decidable (w.Holds time) := by
  unfold SyncWindow.Holds
  infer_instance

/-- An event of a source inside a window. -/
def MarketEvent.Inside (e : MarketEvent) (source : String) (w : SyncWindow) : Prop :=
  e.source = source ∧ w.Holds e.time

instance (e : MarketEvent) (source : String) (w : SyncWindow) : Decidable (e.Inside source w) :=
  inferInstanceAs (Decidable (_ ∧ _))

/-- The database steps of a sync: the transaction that deletes, then the one that inserts. -/
inductive SyncStep where
  | openDelete
  | delete
  | commitDelete
  | openInsert
  | readKeys
  | insert
  | commitInsert
  deriving DecidableEq

/-- A step of the first transaction. -/
def SyncStep.Deletes (s : SyncStep) : Prop := s = .openDelete ∨ s = .delete ∨ s = .commitDelete

instance (s : SyncStep) : Decidable s.Deletes := inferInstanceAs (Decidable (_ ∨ _))

section Digest

variable {κ : Type} [DecidableEq κ] (digest : EventIdentity → κ)

/-- `dedup_key`. -/
def MarketEvent.dedupKey (e : MarketEvent) : κ := digest e.identity

namespace EventTable

def keys (t : EventTable) : List κ := t.map (MarketEvent.dedupKey digest)

/-- The batch by key: the last event of a key, at the place of the first. -/
def byKey (events : List MarketEvent) : Dict κ MarketEvent :=
  events.foldl (fun d e => d.set (e.dedupKey digest) e) Dict.empty

/-- The events of the batch that are not stored yet. -/
def unstored (t : EventTable) (events : List MarketEvent) : List MarketEvent :=
  ((byKey digest events).entries.filter (fun entry => entry.1 ∉ keys digest t)).map Prod.snd

/-- `store_market_events`. -/
def storeMarketEvents (t : EventTable) (events : List MarketEvent) : ℕ × EventTable :=
  ((unstored digest t events).length, t ++ unstored digest t events)

/-- A stored event that the feed no longer publishes. -/
def Moved (source : String) (events : List MarketEvent) (w : SyncWindow) (row : MarketEvent) :
    Prop :=
  row.Inside source w ∧ row.dedupKey digest ∉ keys digest events

instance (source : String) (events : List MarketEvent) (w : SyncWindow) (row : MarketEvent) :
    Decidable (Moved digest source events w row) := inferInstanceAs (Decidable (_ ∧ _))

/-- The table without what the feed no longer publishes. -/
def deleteMoved (t : EventTable) (source : String) (events : List MarketEvent) (w : SyncWindow) :
    EventTable :=
  t.filter (fun row => ¬ Moved digest source events w row)

/-- A step of the second transaction raises. It counts only if it is taken: an empty batch opens no
second transaction, and with nothing new there is no insert. -/
def InsertRaises (failing : Option SyncStep) (t : EventTable) (events : List MarketEvent) : Prop :=
  events ≠ [] ∧ ∃ step ∈ failing, ¬ step.Deletes ∧
    (step = .insert → unstored digest t events ≠ [])

instance (failing : Option SyncStep) (t : EventTable) (events : List MarketEvent) :
    Decidable (InsertRaises digest failing t events) := by
  unfold InsertRaises
  infer_instance

/-- `sync_market_events`, with the database step that raises, if one does. -/
def syncMarketEvents (failing : Option SyncStep) (t : EventTable) (source : String)
    (events : List MarketEvent) (w : SyncWindow) : Except PyError (ℕ × ℕ) × EventTable :=
  let err : PyError := .raised "database"
  let kept := deleteMoved digest t source events w
  let deleted := t.length - kept.length
  if ∃ step ∈ failing, step.Deletes then (.error err, t)
  else if InsertRaises digest failing kept events then (.error err, kept)
  else
    let (inserted, t) := storeMarketEvents digest kept events
    (.ok (inserted, deleted), t)

end EventTable

end Digest

end SmartyTrader
