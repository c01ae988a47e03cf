import SmartyTrader.Core.RiskEngine
import SmartyTrader.Lib.Dict

set_option autoImplicit false

/-! # Strategy sleeves

A sleeve is a named trading style with its own risk engine and a share of the capital. Which
sleeve owns an open position is derived, not stored: each open lot of the executor's ledger
carries the decision that opened it, and the decision's row carries the sleeve. A position
whose lots name no configured sleeve belongs to the first one.
-/

namespace SmartyTrader

open Lib

/-- One sleeve as configured: its share of the capital and its holding limit. -/
structure SleeveSpec where
  name : String
  weight : Option ℚ
  maxHoldingHours : Option ℚ
  deriving DecidableEq

structure SleevesSettings where
  first : SleeveSpec
  rest : List SleeveSpec
  backstopMaxDrawdownPct : ℚ

namespace SleevesSettings

/-- The sleeves in configuration order; there is at least one. -/
def strategies (s : SleevesSettings) : List SleeveSpec := s.first :: s.rest

def get (s : SleevesSettings) (name : Option String) : Option SleeveSpec :=
  s.strategies.find? (fun spec => some spec.name = name)

end SleevesSettings

/-- What the row of a decision says: its sleeve and its time. -/
abbrev DecisionMeta := Option String × Option Time

/-- The latest capital split. -/
structure Allocation where
  baseEquity : ℚ
  weights : Dict String ℚ
  createdAt : Time

/-- The owner of an open position, and the time of its oldest lot with a known decision. -/
structure Ownership where
  strategy : String
  openedAt : Option Time
  deriving DecidableEq

/-- The sleeves of one agent: settings, cached decision rows, engines and allocation. -/
structure SleeveBook where
  settings : SleevesSettings
  decisionMeta : Dict DecisionId DecisionMeta
  engines : Dict String RiskEngine
  allocation : Option Allocation

/-- `get_decision_strategies`: the rows found among the ids asked for, or an exception. -/
abbrev MetaRead := List DecisionId → Except PyError (List (DecisionId × DecisionMeta))

/-- The hooks of an executor that name the decisions behind a symbol: its open lots, oldest
first, and its working BUY orders. -/
structure EntryHooks where
  entryDecisionIds : Symbol → List (Option DecisionId)
  pendingEntryDecisionIds : Symbol → List (Option DecisionId)

namespace SleeveBook

/-- The sleeve of unknown origin is the first configured one. -/
def default (b : SleeveBook) : String := b.settings.first.name

def spec (b : SleeveBook) (name : Option String) : SleeveSpec :=
  (b.settings.get name).getD b.settings.first

def engine (b : SleeveBook) (name : Option String) : Option RiskEngine :=
  b.engines.get? (b.spec name).name

/-- Read the rows of the ids not cached yet. Unknown ids are cached as such. -/
def loadMeta (b : SleeveBook) (read : MetaRead) (ids : List DecisionId) :
    Except PyError Unit × SleeveBook :=
  let missing := ids.eraseDups.filter (fun i => !b.decisionMeta.contains i)
  if missing = [] then (.ok (), b)
  else
    match read missing with
    | .error err => (.error err, b)
    | .ok found =>
        (.ok (), { b with
          decisionMeta := missing.foldl
            (fun d i => d.set i ((Dict.lookup i found).getD (none, none))) b.decisionMeta })

def metaOf (b : SleeveBook) (id : DecisionId) : DecisionMeta :=
  (b.decisionMeta.get? id).getD (none, none)

/-- The first configured sleeve among the names of the decisions. -/
def firstKnown (b : SleeveBook) (ids : List DecisionId) : Option String :=
  ids.findSome? (fun i =>
    match (b.metaOf i).1 with
    | some name => if (b.settings.get (some name)).isSome then some name else none
    | none => none)

/-- Owner of the open position in a symbol. A flat symbol with a working BUY is claimed by the
sleeve that placed it. -/
def ownership (b : SleeveBook) (read : MetaRead) (hooks : EntryHooks)
    (positions : List Position) (symbol : Symbol) :
    Except PyError (Option Ownership) × SleeveBook :=
  if positions.any (fun p => p.symbol = symbol ∧ p.quantity > 0) then
    let ids := (hooks.entryDecisionIds symbol).filterMap id
    match b.loadMeta read ids with
    | (.error err, b) => (.error err, b)
    | (.ok _, b) =>
        (.ok (some
          { strategy := (b.firstKnown ids).getD b.default
            openedAt := ids.findSome? (fun i => (b.metaOf i).2) }), b)
  else
    let pending := hooks.pendingEntryDecisionIds symbol
    if pending = [] then (.ok none, b)
    else
      let ids := pending.filterMap id
      match b.loadMeta read ids with
      | (.error err, b) => (.error err, b)
      | (.ok _, b) =>
          (.ok (some { strategy := (b.firstKnown ids).getD b.default, openedAt := none }), b)

/-- `owners`: the owning sleeve of each symbol, in order; the first failing read raises. -/
def ownersOf (read : MetaRead) (hooks : EntryHooks) (positions : List Position) :
    List Symbol → SleeveBook → Dict Symbol String → Except PyError (Dict Symbol String) × SleeveBook
  | [], b, acc => (.ok acc, b)
  | s :: ss, b, acc =>
      match b.ownership read hooks positions s with
      | (.error err, b) => (.error err, b)
      | (.ok none, b) => ownersOf read hooks positions ss b acc
      | (.ok (some o), b) => ownersOf read hooks positions ss b (acc.set s o.strategy)

def owners (b : SleeveBook) (read : MetaRead) (hooks : EntryHooks) (positions : List Position) :
    Except PyError (Dict Symbol String) × SleeveBook :=
  let held := positions.filter (fun p => p.quantity > 0)
  ownersOf read hooks held (held.map Position.symbol).eraseDups b Dict.empty

/-- The sleeve that made a decision; an unknown one counts for the default sleeve. -/
def strategyOfDecision (b : SleeveBook) (read : MetaRead) (id : Option DecisionId) :
    Except PyError String × SleeveBook :=
  match id with
  | none => (.ok b.default, b)
  | some i =>
      match b.loadMeta read [i] with
      | (.error err, b) => (.error err, b)
      | (.ok _, b) => (.ok ((b.firstKnown [i]).getD b.default), b)

/-- Has the owning sleeve's holding limit elapsed? -/
def timeStopDue (b : SleeveBook) (o : Ownership) (now : Time) : Bool :=
  match (b.spec (some o.strategy)).maxHoldingHours, o.openedAt with
  | some maxHours, some opened => ((now - opened : ℤ) : ℚ) ≥ maxHours * 3600000000
  | _, _ => false

/-- A sleeve's own book: its capital, what it realized since the allocation and the unrealized
result of the positions it owns. `realized` is the storage read of the realized part. -/
def sleeveEquity (b : SleeveBook) (read : MetaRead) (hooks : EntryHooks) (name : String)
    (agentPortfolio : PortfolioState) (allocation : Allocation) (realized : Except PyError ℚ) :
    Except PyError PortfolioState × SleeveBook :=
  match b.owners read hooks agentPortfolio.positions with
  | (.error err, b) => (.error err, b)
  | (.ok owners, b) =>
      match realized with
      | .error err => (.error err, b)
      | .ok realized =>
          let owned := agentPortfolio.positions.filter
            (fun p => p.quantity > 0 ∧ owners.get? p.symbol = some name)
          let equity := (allocation.weights.get? name).getD 0 * allocation.baseEquity + realized
            + (owned.map Position.pnl).sum
          let marketValue := (owned.map Position.marketValue).sum
          (.ok ⟨equity - marketValue, owned, 0⟩, b)

end SleeveBook

end SmartyTrader
