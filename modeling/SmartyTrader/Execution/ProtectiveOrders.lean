import SmartyTrader.Execution.ExchangeClient
import SmartyTrader.Execution.PositionTracker

set_option autoImplicit false

/-! # Venue-side protective orders

One trigger order per open spot position, kept at the venue. This part only talks to the
venue: place, cancel, poll and adopt at startup. The executor books what a fired order sold.
-/

namespace SmartyTrader

open Lib

/-- `algoClOrdId` prefix of this agent's protective orders. -/
def clientIdPrefix : String := "taprot"

/-- Algo states after which the order no longer protects anything without having sold. -/
def deadStates : List String := ["canceled", "order_failed"]

/-- A live protective order at the venue. -/
structure ProtectiveOrder where
  algoId : OrderId
  symbol : Symbol
  quantity : ℚ
  stopLoss : Option ℚ
  takeProfit : Option ℚ
  deriving DecidableEq

def ProtectiveOrder.matches (order : ProtectiveOrder) (quantity : ℚ) (levels : ExitLevels) :
    Bool :=
  |order.quantity - quantity| ≤ 1 / 1000000000000
    ∧ order.stopLoss = levels.1 ∧ order.takeProfit = levels.2

/-- A protective order that fired at the venue; `child` is its filled market order. -/
structure Triggered where
  symbol : Symbol
  algoId : OrderId
  childId : OrderId
  sideHit : String
  child : RawOrder

def Triggered.reason (t : Triggered) : OrderReason :=
  if t.sideHit = "sl" then .venueStopLoss
  else if t.sideHit = "tp" then .venueTakeProfit
  else .venueProtectiveOrder

namespace RawAlgo

/-- `_is_ours`. -/
def isOurs (raw : RawAlgo) : Bool :=
  clientIdPrefix.toList.isPrefixOf
    (orText raw.algoClOrdId (orText raw.clientOrderId "")).toList

/-- `_algo_state`. -/
def algoState (raw : RawAlgo) : String := orText raw.state ""

/-- `_child_id`. -/
def childId (raw : RawAlgo) : OrderId := orText raw.ordId (raw.ordIdList.head?.getD "")

end RawAlgo

/-- The live order of each symbol. The two lists record the history the source does not keep:
the ids of all orders placed, and of those the venue said were cancelled or dead. No function
reads them. -/
structure ProtectiveOrders where
  live : Dict Symbol ProtectiveOrder
  placed : List OrderId
  gone : List OrderId

namespace ProtectiveOrders

variable {W : Type} (c : ExchangeClient W)

def create : ProtectiveOrders := ⟨Dict.empty, [], []⟩

def get (p : ProtectiveOrders) (symbol : Symbol) : Option ProtectiveOrder := p.live.get? symbol

/-- `_state`: one status read, empty when it fails. -/
def state (order : ProtectiveOrder) (w : W) : String × W :=
  match c.fetchAlgo order.algoId order.symbol w with
  | (.error _, w) => ("", w)
  | (.ok raw, w) => ((raw.getD RawAlgo.empty).algoState, w)

/-- The second half of `_check`: the child order of a fired algo order. -/
def checkChild (order : ProtectiveOrder) (algo : RawAlgo) (w : W) : Option Triggered × W :=
  if algo.algoState ≠ "effective" ∨ algo.childId = "" then (none, w)
  else
    match c.fetchOrder with
    | none => (none, w)
    | some fetchOrder =>
        match fetchOrder algo.childId order.symbol w with
        | (.ok (some child), w) =>
            if orNumber child.filled 0 = 0 then (none, w)
            else (some ⟨order.symbol, order.algoId, algo.childId, orText algo.actualSide "",
              child⟩, w)
        | (_, w) => (none, w)

/-- `_check`: the filled child order of a fired protective order. -/
def check (order : ProtectiveOrder) (w : W) : Option Triggered × W :=
  match c.fetchAlgo order.algoId order.symbol w with
  | (.error _, w) => (none, w)
  | (.ok raw, w) => checkChild c order (raw.getD RawAlgo.empty) w

/-- `place`: an OCO, or a one-sided conditional, selling `quantity` at market. `price` rounds a
level to the venue's precision. -/
def place (price : Symbol → ℚ → ℚ) (symbol : Symbol) (quantity : ℚ) (levels : ExitLevels)
    (p : ProtectiveOrders) (w : W) : ProtectiveOrders × W :=
  let kind := if levels.1.isSome ∧ levels.2.isSome then AlgoKind.oco else AlgoKind.conditional
  match c.createAlgo symbol kind quantity (levels.1.map (price symbol))
    (levels.2.map (price symbol)) clientIdPrefix w with
  | (.error _, w) => (p, w)
  | (.ok id, w) =>
      let order : ProtectiveOrder := ⟨orText id "", symbol, quantity, levels.1, levels.2⟩
      ({ p with
        live := p.live.set symbol order
        placed := order.algoId :: p.placed }, w)

/-- What `cancel` does with an order whose cancel the venue refused. -/
def afterRefusal (symbol : Symbol) (order : ProtectiveOrder) (p : ProtectiveOrders) (w : W) :
    Option Triggered × ProtectiveOrders × W :=
  match check c order w with
  | (some triggered, w) => (some triggered, p, w)
  | (none, w) =>
      -- Not fired and not cancelled as far as we can tell.
      let s := state c order w
      if s.1 ≠ "" ∧ s.1 ∉ deadStates ∧ s.1 ≠ "effective" then
        (none, { p with live := p.live.set symbol order }, s.2)
      else if s.1 ∈ deadStates then (none, { p with gone := order.algoId :: p.gone }, s.2)
      else (none, p, s.2)

/-- `cancel`: withdraw the symbol's protective order before anything else sells the coins. -/
def cancel (symbol : Symbol) (p : ProtectiveOrders) (w : W) :
    Option Triggered × ProtectiveOrders × W :=
  match p.live.get? symbol with
  | none => (none, p, w)
  | some order =>
      let popped := { p with live := p.live.erase symbol }
      match c.cancelAlgo order.algoId symbol w with
      | (.ok _, w) => (none, { popped with gone := order.algoId :: popped.gone }, w)
      | (.error _, w) => afterRefusal c symbol order popped w

/-- One order of `poll`. -/
def pollOne (symbol : Symbol) (order : ProtectiveOrder) (p : ProtectiveOrders) (w : W) :
    Option Triggered × ProtectiveOrders × W :=
  let s := state c order w
  if s.1 = "effective" then
    match check c order s.2 with
    | (some triggered, w) => (some triggered, { p with live := p.live.erase symbol }, w)
    | (none, w) => (none, p, w)
  else if s.1 ∈ deadStates then
    (none, { p with live := p.live.erase symbol, gone := order.algoId :: p.gone }, s.2)
  else (none, p, s.2)

/-- The loop of `poll`. -/
def pollEach : List (Symbol × ProtectiveOrder) → ProtectiveOrders → W →
    List Triggered × ProtectiveOrders × W
  | [], p, w => ([], p, w)
  | (symbol, order) :: rest, p, w =>
      let r := pollOne c symbol order p w
      let rs := pollEach rest r.2.1 r.2.2
      (r.1.toList ++ rs.1, rs.2)

/-- `poll`: one status read per live order. -/
def poll (p : ProtectiveOrders) (w : W) : List Triggered × ProtectiveOrders × W :=
  pollEach c p.live.entries p w

/-! ## Startup -/

/-- `_listed`: the algo orders of both kinds; a list that cannot be read is empty. -/
def listed (fetch : AlgoKind → W → Except PyError (List RawAlgo) × W) (w : W) :
    List RawAlgo × W :=
  let r := fetch .oco w
  let s := fetch .conditional r.2
  ((r.1.toOption.getD []) ++ (s.1.toOption.getD []), s.2)

/-- The closed orders of one symbol: the fills not booked yet. -/
def adoptClosed (symbol : Symbol) (known : List OrderId) : List RawAlgo → W → List Triggered × W
  | [], w => ([], w)
  | raw :: rest, w =>
      if raw.isOurs = false ∨ raw.algoState ≠ "effective" ∨ raw.childId = ""
          ∨ raw.childId ∈ known then
        adoptClosed symbol known rest w
      else
        let r := checkChild c ⟨orText raw.id "", symbol, 0, none, none⟩ raw w
        let rs := adoptClosed symbol known rest r.2
        (r.1.toList ++ rs.1, rs.2)

/-- The open orders of one symbol are withdrawn. -/
def withdrawOpen (symbol : Symbol) : List RawAlgo → W → W
  | [], w => w
  | raw :: rest, w =>
      if raw.isOurs then withdrawOpen symbol rest (c.cancelAlgo (raw.id.getD "None") symbol w).2
      else withdrawOpen symbol rest w

/-- `adopt`: what our protective orders did while we were down. -/
def adopt (known : List OrderId) : List Symbol → W → List Triggered × W
  | [], w => ([], w)
  | symbol :: rest, w =>
      let closed := listed (c.fetchClosedAlgos symbol 100) w
      let fired := adoptClosed c symbol known closed.1 closed.2
      let opened := listed (c.fetchOpenAlgos symbol) fired.2
      let w := withdrawOpen c symbol opened.1 opened.2
      let rs := adopt known rest w
      (fired.1 ++ rs.1, rs.2)

end ProtectiveOrders

end SmartyTrader
