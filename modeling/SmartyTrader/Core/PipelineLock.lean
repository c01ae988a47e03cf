import SmartyTrader.Core.BarTiming
import SmartyTrader.Core.PipelineEffect

set_option autoImplicit false

/-! # The symbol lock of a cycle

With sleeves a cycle reads first who owns its symbol. The order of a signal is sent only if nobody
does or the sleeve of the pipeline, and what it is planned on is read after that (`run_locked`).
-/

namespace SmartyTrader

open Lib

variable {σ : Type}

namespace Pipeline

/-- What the ownership read lets the pipeline decide on. -/
def MayDecide (p : Pipeline) (owner : Except PyError (Option Ownership)) : Prop :=
  ∃ o, owner = .ok o ∧ ∀ own ∈ o, some own.strategy = p.strategy

/-- What a cycle did after the ownership read `own`. -/
inductive LockedOutcome (ex : Executor σ) (p : Pipeline) (input : CycleInput) (s₀ : σ)
    (own : Except PyError (Option Ownership) × PipelineState σ)
    (r : PipelineResult × PipelineState σ) : Prop where
  | quiet (reads : Reads ex s₀ r.2.executor)
  | close (s : σ) (req : OrderRequest) (reads : Reads ex s₀ s) (closes : Closes ex s req)
      (sent : r.2.executor = (ex.placeOrder s req input.stamp).2)
  | signal (may : p.MayDecide own.1) (plan : SignalPlan ex p input own.2)
      (told : Tells ex input plan.after plan.request p.strategy (some input.ownSignal) r)

variable (ex : Executor σ) (p : Pipeline) {input : CycleInput} {s₀ : σ}
  {own : Except PyError (Option Ownership) × PipelineState σ}
  {r : PipelineResult × PipelineState σ} {owner : Option String}

/-- The order of an outcome is a close, or that of a signal. -/
theorem CycleOutcome.locked (h : CycleOutcome ex p input own.2 owner r)
    (hreads : Reads ex s₀ own.2.executor) (hmay : r.1.signal ≠ none → p.MayDecide own.1) :
    LockedOutcome ex p input s₀ own r := by
  cases h with
  | quiet reads silent => exact .quiet (hreads.trans reads)
  | close plan told =>
      have hplan := plan.reads.positions
      rw [plan.readPositions] at hplan
      exact .close _ _ (hreads.trans hplan) plan.closes told.executor
  | signal plan told => exact .signal (hmay (by rw [told.signal]; exact Option.some_ne_none _)) plan told

/-- **The lock.** A cycle reads, closes a position, or sends the order of a signal that the owner of
the symbol lets it decide on. -/
theorem run_locked (input : CycleInput) (st : PipelineState σ) :
    LockedOutcome ex p input (input.marked ex st).executor
      (sleeveOwnership ex input (input.marked ex st)) (p.run ex input st) := by
  unfold run CycleInput.marked
  cases hsnap : input.snapshot with
  | error err => exact .quiet (Reads.refl _)
  | ok snapshot =>
      dsimp only
      cases hlast : snapshot.candles.getLast? with
      | none => exact .quiet (Reads.refl _)
      | some last =>
          dsimp only
          generalize markPositions ex input.symbol last.close st = st₀
          have hown := (quiet_sleeveOwnership ex input st₀).reads
          generalize sleeveOwnership ex input st₀ = own at hown ⊢
          rcases outcome_checkExitLevels ex p (Quiet.refl ex own.2) last.close (ownerName own.1)
            with ⟨st', he, hq⟩ | ⟨r, st', he, hout⟩
          · have hdecide : p.MayDecide own.1 → ∀ st'', Quiet ex own.2 st'' →
                LockedOutcome ex p input st₀.executor own
                  (p.afterExits ex input snapshot last.close st'') :=
              fun hmay st'' hq' => CycleOutcome.locked ex p
                (outcome_afterExits ex p hq' hsnap hlast none) hown fun _ => hmay
            rw [he]
            dsimp only
            split
            · exact .quiet (hown.trans hq.reads)
            · rename_i hfree
              exact hdecide ⟨none, hfree, fun o ho => by cases ho⟩ st' hq
            · rename_i o ho
              rcases outcome_checkTimeStop ex p hq last.close snapshot.fetchedAt o with
                ⟨st'', ht, hq'⟩ | ⟨r, st'', ht, hout⟩
              · rw [ht]
                dsimp only
                split_ifs with hlock
                · exact .quiet (hown.trans hq'.reads)
                · refine hdecide ⟨some o, ho, fun o' ho' => ?_⟩ st'' hq'
                  obtain rfl := Option.some.inj ho'
                  exact not_not.mp hlock
              · rw [ht]
                exact CycleOutcome.locked ex p hout hown
                  fun hsignal => absurd (checkTimeStop_signal ex p input ht) hsignal
          · rw [he]
            exact CycleOutcome.locked ex p hout hown
              fun hsignal => absurd (checkExitLevels_signal ex p input he) hsignal

end Pipeline

end SmartyTrader
