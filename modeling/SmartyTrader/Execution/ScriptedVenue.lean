import SmartyTrader.Execution.SaxoExecutor

set_option autoImplicit false

/-! # Scripted venues

Clients that answer from a script: each call takes the next answer of its kind, and raises
when none is left. They are used wherever a run against a concrete venue is shown.
-/

namespace SmartyTrader

/-- The answers still to come, by kind of call. -/
structure Script where
  creates : List (Except PyError RawOrder)
  fetches : List (Except PyError RawOrder)
  cancels : List (Except PyError Unit)
  createAlgos : List (Except PyError OrderId)
  fetchAlgos : List (Except PyError RawAlgo)
  cancelAlgos : List (Except PyError Unit)
  closedAlgos : List (List RawAlgo)

namespace Script

def empty : Script := ⟨[], [], [], [], [], [], []⟩

/-- The next answer of a list. -/
def next {α : Type} : List (Except PyError α) → Except PyError α
  | [] => .error (.raised "no answer")
  | a :: _ => a

/-- The venue of a script. It lists no markets, holds whatever the ledger says and has a free
balance of 1000. -/
def client : ExchangeClient Script where
  createOrder _ _ _ _ _ w := ((next w.creates).map some, { w with creates := w.creates.tail })
  fetchOrder := some fun _ _ w =>
    ((next w.fetches).map some, { w with fetches := w.fetches.tail })
  cancelOrder _ _ w := (next w.cancels, { w with cancels := w.cancels.tail })
  fetchBalance w := (.ok none, w)
  fetchFreeBalance w := (.ok (some (.amount 1000)), w)
  markets _ := none
  loadMarkets := none
  amountToPrecision := none
  priceToPrecision := none
  createAlgo _ _ _ _ _ _ w :=
    ((next w.createAlgos).map some, { w with createAlgos := w.createAlgos.tail })
  fetchAlgo _ _ w := ((next w.fetchAlgos).map some, { w with fetchAlgos := w.fetchAlgos.tail })
  cancelAlgo _ _ w := (next w.cancelAlgos, { w with cancelAlgos := w.cancelAlgos.tail })
  fetchOpenAlgos _ _ w := (.ok [], w)
  fetchClosedAlgos _ _ _ w :=
    (.ok (w.closedAlgos.headD []), { w with closedAlgos := w.closedAlgos.tail })

/-- An acknowledgement: the id and nothing else. -/
def ack (id : OrderId) : RawOrder := { RawOrder.empty with id := some id }

/-- A working order. -/
def working (id : OrderId) : RawOrder := { ack id with status := some "open" }

/-- A filled order. -/
def closed (id : OrderId) (filled price : ℚ) : RawOrder :=
  { ack id with
    status := some "closed"
    filled := some filled
    average := some price }

/-- A protective order that works, with the given state. -/
def algo (id : OrderId) (state : String) : RawAlgo :=
  { RawAlgo.empty with
    id := some id
    algoClOrdId := some "taprot1"
    state := some state }

end Script

/-- The audit entries still to come. -/
abbrev AuditLog := List (Except PyError (Option SaxoActivity))

/-- The Saxo client of an audit log, with one account and one instrument. -/
def AuditLog.client : SaxoClient AuditLog where
  getAccounts w := (.ok [⟨true, "key", none, "USD", none⟩], w)
  findInstruments keyword _ w := (.ok [⟨1, keyword, "USD"⟩], w)
  placeMarketOrder _ _ _ _ _ w := (.ok "1", w)
  getOrderActivity _ w := (Script.next w, w.tail)
  getNetPositions w := (.error (.raised "no answer"), w)
  getBalance _ _ w := (.ok (some 1000), w)
  cancelOrder _ _ w := (.ok (), w)

end SmartyTrader
