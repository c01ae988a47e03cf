import SmartyTrader.Agents.BaseAgent
import SmartyTrader.Execution.CcxtPipeline
import SmartyTrader.Execution.ScriptedVenue
import SmartyTrader.Execution.SaxoReconciliation

set_option autoImplicit false

/-! # Exactly-once accounting of outcomes

Runs of an agent whose storage calls fail in any pattern. `Accounted` says of all reconciled
orders what was accounted for them: nothing before the confirmation, everything once with it.
One order keeps it (`accounted_handleUpdate`), so the loop over the results does, so a run does.

The handling adds an order's shares before it reads the strategy of the outcome. When that read
raises, the order stays unconfirmed and its shares are added again: `OutcomeRead` excludes this.
-/

namespace SmartyTrader

open Lib TwoPhase

variable {σ ι : Type} {C : Component σ ι OrderId OrderResult}

/-! ## The engines that count losses -/

/-- The engine of the agent, and those of its sleeves with the sleeves' setup. -/
abbrev Streaks := RiskEngine × Option (SleevesSettings × Dict String RiskEngine)

/-- Feed one outcome: the engine of the sleeve of the strategy counts it, the agent's where that
sleeve has none. -/
def feedStreaks (strategy : Option String) (won : Bool) (now : Time) (s : Streaks) : Streaks :=
  match s.2 with
  | none => (s.1.recordOutcome won now, none)
  | some (settings, engines) =>
      let name := ((settings.get strategy).getD settings.first).name
      match engines.get? name with
      | some e => (s.1, some (settings, engines.set name (e.recordOutcome won now)))
      | none => (s.1.recordOutcome won now, some (settings, engines))

namespace PipelineState

/-- The engines of a state. -/
def streaks (st : PipelineState σ) : Streaks :=
  (st.agentEngine, st.book.map fun b => (b.settings, b.engines))

theorem streaks_recordOutcome (st : PipelineState σ) (strategy : Option String) (won : Bool)
    (now : Time) :
    (st.recordOutcome agentPipeline strategy won now).streaks =
      feedStreaks strategy won now st.streaks := by
  unfold recordOutcome streaks feedStreaks
  cases hb : st.book with
  | none => simp [setRiskEngine, riskEngine, agentPipeline, hb]
  | some b =>
      cases he : b.engine strategy with
      | some e =>
          have hget : b.engines.get? ((b.settings.get strategy).getD b.settings.first).name =
            some e := he
          simp [he, hget, SleeveBook.spec]
      | none =>
          have hget : b.engines.get? ((b.settings.get strategy).getD b.settings.first).name =
            none := he
          simp [he, hget, setRiskEngine, riskEngine, agentPipeline, hb]

/-- Two books of one setup hold the same engines. -/
theorem streaks_sameSetup {st : PipelineState σ} {b b' : SleeveBook} (hb : st.book = some b)
    (h : b.SameSetup b') :
    ({ st with book := some b' } : PipelineState σ).streaks = st.streaks := by
  unfold streaks
  simp [hb, h.1, h.2.1]

end PipelineState

/-- Reading the sleeve of a decision keeps the setup of the book. -/
theorem SleeveBook.sameSetup_strategyOfDecision (b : SleeveBook) (read : MetaRead)
    (id : Option DecisionId) : SameSetup b (b.strategyOfDecision read id).2 := by
  unfold strategyOfDecision
  cases id with
  | none => exact SameSetup.refl b
  | some i =>
      have h := sameSetup_loadMeta b read [i]
      dsimp only
      generalize b.loadMeta read [i] = r at h ⊢
      rcases r with ⟨err | v, b'⟩ <;> exact h

namespace BaseAgent

/-! ## What a step did to the accounts -/

/-- What the writes of some shares do to the decisions. -/
def addToDecisions (d : DecisionPnl) (shares : List AddedPnl) : DecisionPnl :=
  shares.foldl (fun d share => DecisionPnl.addRealizedPnl d share.decisionId share.pnl) d

/-- A step added these shares to the decisions, fed these outcomes to the engines, each for some
strategy, and confirmed these orders. -/
structure Accrues (now : Time) (a b : BaseAgent σ) (shares : List AddedPnl)
    (fed : List (OrderId × Bool)) (confirmed : List OrderResult) : Prop where
  sleeves : b.pipeline.book.isSome = a.pipeline.book.isSome
  streaks : ∃ strategies : List (Option String), strategies.length = fed.length ∧
    b.pipeline.streaks = (strategies.zip fed).foldl
      (fun s outcome => feedStreaks outcome.1 outcome.2.2 now s) a.pipeline.streaks
  decisions : b.decisions = addToDecisions a.decisions shares
  added : b.added = a.added ++ shares
  outcomes : b.outcomes = a.outcomes ++ fed
  confirmed : b.confirmed = a.confirmed ++ confirmed

theorem Accrues.trans {now : Time} {a b d : BaseAgent σ} {shares shares' : List AddedPnl}
    {fed fed' : List (OrderId × Bool)} {confirmed confirmed' : List OrderResult}
    (h : Accrues now a b shares fed confirmed) (h' : Accrues now b d shares' fed' confirmed') :
    Accrues now a d (shares ++ shares') (fed ++ fed') (confirmed ++ confirmed') where
  sleeves := h'.sleeves.trans h.sleeves
  streaks := by
    obtain ⟨strategies, hlength, hfed⟩ := h.streaks
    obtain ⟨strategies', hlength', hfed'⟩ := h'.streaks
    refine ⟨strategies ++ strategies', ?_, ?_⟩
    · rw [List.length_append, List.length_append, hlength, hlength']
    · rw [hfed', hfed, List.zip_append hlength, List.foldl_append]
  decisions := by
    rw [h'.decisions, h.decisions]
    exact List.foldl_append.symm
  added := by rw [h'.added, h.added, List.append_assoc]
  outcomes := by rw [h'.outcomes, h.outcomes, List.append_assoc]
  confirmed := by rw [h'.confirmed, h.confirmed, List.append_assoc]

/-- What the executor does by itself is accounted nowhere. -/
theorem accrues_executor (now : Time) (st : BaseAgent σ) (s : σ) :
    Accrues now st { st with pipeline := { st.pipeline with executor := s } } [] [] [] :=
  ⟨rfl, ⟨[], rfl, rfl⟩, rfl, (List.append_nil _).symm, (List.append_nil _).symm,
    (List.append_nil _).symm⟩

/-- Nothing was accounted, and the executor is the same. -/
structure Untouched (now : Time) (a b : BaseAgent σ) : Prop extends Accrues now a b [] [] [] where
  executor : b.pipeline.executor = a.pipeline.executor

theorem Untouched.of_same {now : Time} {a b : BaseAgent σ} (hp : b.pipeline = a.pipeline)
    (hd : b.decisions = a.decisions) (ha : b.added = a.added) (ho : b.outcomes = a.outcomes)
    (hc : b.confirmed = a.confirmed) : Untouched now a b :=
  ⟨⟨by rw [hp], ⟨[], rfl, by rw [hp]; rfl⟩, hd, by rw [ha, List.append_nil],
    by rw [ho, List.append_nil], by rw [hc, List.append_nil]⟩, by rw [hp]⟩

theorem Untouched.refl (now : Time) (st : BaseAgent σ) : Untouched now st st :=
  .of_same rfl rfl rfl rfl rfl

theorem Untouched.trans {now : Time} {a b d : BaseAgent σ} (h : Untouched now a b)
    (h' : Untouched now b d) : Untouched now a d :=
  ⟨h.toAccrues.trans h'.toAccrues, h'.executor.trans h.executor⟩

theorem untouched_strategyOf (now : Time) (read : MetaRead) (id : Option DecisionId)
    (st : BaseAgent σ) : Untouched now st (strategyOf read id st).2 := by
  unfold strategyOf
  cases hb : st.pipeline.book with
  | none => exact Untouched.refl now st
  | some b =>
      have hsame := PipelineState.streaks_sameSetup hb (b.sameSetup_strategyOfDecision read id)
      exact ⟨⟨by simp [hb], ⟨[], rfl, hsame⟩, rfl, by simp, by simp, by simp⟩, rfl⟩

/-- The strategy can be told when there are no sleeves or the read answers. -/
theorem strategyOf_ok (read : MetaRead) (id : Option DecisionId) (st : BaseAgent σ)
    (h : st.pipeline.book.isSome → ∀ ids, ∃ found, read ids = .ok found) :
    ∃ strategy, (strategyOf read id st).1 = .ok strategy := by
  unfold strategyOf
  cases hb : st.pipeline.book with
  | none => exact ⟨none, rfl⟩
  | some b =>
      have hread := h (by rw [hb]; rfl)
      unfold SleeveBook.strategyOfDecision
      cases id with
      | none => exact ⟨some b.default, rfl⟩
      | some i =>
          unfold SleeveBook.loadMeta
          dsimp only
          split_ifs with hm
          · exact ⟨_, rfl⟩
          · obtain ⟨found, hfound⟩ := hread (List.eraseDups [i] |>.filter
              fun i => !b.decisionMeta.contains i)
            rw [hfound]
            exact ⟨_, rfl⟩

variable (h : Reconciliation C)

theorem untouched_persistUpdate (calls : StorageCalls) (now : Time) (order : OrderResult)
    (st : BaseAgent σ) : Untouched now st (persistUpdate h calls now order st).2 := by
  unfold persistUpdate
  cases calls.update with
  | error err => exact Untouched.refl now st
  | ok u =>
      dsimp only
      set patched : BaseAgent σ := { st with
        orders := (OrderTable.updateOrderStatus st.orders order.orderId (patchOf order now)).2 }
      have hp : Untouched now st patched := .of_same rfl rfl rfl rfl rfl
      split_ifs
      · exact hp
      · -- The row is lost: its strategy is read and the row written again.
        have hr := untouched_strategyOf now calls.rowStrategy
          (h.pendingDecisionId st.pipeline.executor order.orderId) patched
        generalize strategyOf calls.rowStrategy
          (h.pendingDecisionId st.pipeline.executor order.orderId) patched = r at hr ⊢
        rcases r with ⟨err | strategy, st₁⟩
        · exact hp.trans hr
        · dsimp only at hr ⊢
          split
          · exact hp.trans hr
          · exact hp.trans hr
          · exact (hp.trans hr).trans (.of_same rfl rfl rfl rfl rfl)

/-- An order whose patch raises is left for the next cycle. -/
theorem persistUpdate_error {calls : StorageCalls} {err : PyError} (now : Time)
    (order : OrderResult) (st : BaseAgent σ) (hc : calls.update = .error err) :
    persistUpdate h calls now order st = (.error err, st) := by
  unfold persistUpdate
  rw [hc]

/-! ## The shares of an order -/

/-- The shares of these writes that succeeded. -/
def written (calls : StorageCalls) (writes : List (AddedPnl × ℕ)) : List AddedPnl :=
  (writes.filter fun write => !calls.addFails write.2).map Prod.fst

/-- The shares of the order that were written. -/
def writtenShares (calls : StorageCalls) (order : OrderResult) : List AddedPnl :=
  written calls order.shares.zipIdx

theorem writtenShares_sublist (calls : StorageCalls) (order : OrderResult) :
    (writtenShares calls order).Sublist order.shares := by
  have h := (List.filter_sublist (p := fun write => !calls.addFails write.2)
    (l := order.shares.zipIdx)).map Prod.fst
  rwa [List.zipIdx_map_fst] at h

theorem foldl_addShare (calls : StorageCalls) (writes : List (AddedPnl × ℕ))
    (st : BaseAgent σ) :
    writes.foldl (addShare calls) st =
      { st with
        decisions := addToDecisions st.decisions (written calls writes)
        added := st.added ++ written calls writes } := by
  induction writes generalizing st with
  | nil => simp [addToDecisions, written]
  | cons write rest ih =>
      rw [List.foldl_cons, ih]
      unfold addShare
      cases hf : calls.addFails write.2 with
      | false => simp [hf, addToDecisions, written]
      | true => simp [hf, written]

theorem accrues_addShares (calls : StorageCalls) (now : Time) (order : OrderResult)
    (st : BaseAgent σ) :
    Accrues now st (st.addShares calls order) (writtenShares calls order) [] [] ∧
      (st.addShares calls order).pipeline = st.pipeline := by
  have heq : st.addShares calls order = _ := foldl_addShare calls order.shares.zipIdx st
  rw [heq]
  exact ⟨⟨rfl, ⟨[], rfl, rfl⟩, rfl, rfl, (List.append_nil _).symm, (List.append_nil _).symm⟩, rfl⟩

/-- All shares of an order belong to it. -/
theorem orderId_of_mem_shares {order : OrderResult} {share : AddedPnl}
    (hs : share ∈ order.shares) : share.orderId = order.orderId := by
  obtain ⟨entry, -, he⟩ := List.mem_filterMap.mp hs
  obtain ⟨id, -, rfl⟩ := Option.map_eq_some_iff.mp he
  rfl

end BaseAgent

/-! ## The loss streak -/

/-- What an order feeds to the loss streak. -/
def OrderResult.fed (order : OrderResult) : List (OrderId × Bool) :=
  order.closing.toList.map (fun pnl => (order.orderId, decide (pnl ≥ 0)))

namespace PipelineState

theorem setRiskEngine_sleeves (st : PipelineState σ) (p : Pipeline) (e : RiskEngine) :
    (st.setRiskEngine p e).book.isSome = st.book.isSome := by
  unfold setRiskEngine
  split
  · rename_i b s hb _
    split_ifs
    · rw [hb]
      rfl
    · rfl
  · rfl

theorem recordOutcome_sleeves (st : PipelineState σ) (p : Pipeline) (strategy : Option String)
    (won : Bool) (now : Time) :
    (st.recordOutcome p strategy won now).book.isSome = st.book.isSome := by
  unfold recordOutcome
  split
  · rename_i b hb
    split
    · rw [hb]
      rfl
    · exact setRiskEngine_sleeves st p _
  · exact setRiskEngine_sleeves st p _

end PipelineState

namespace BaseAgent

variable (h : Reconciliation C)

/-- A closing order feeds the streak once, unless the strategy of the outcome cannot be read. -/
theorem recordClosing_cases (calls : StorageCalls) (now : Time) (order : OrderResult)
    (st : BaseAgent σ) :
    let r := recordClosing h calls now order st
    r.2.pipeline.executor = st.pipeline.executor ∧
      ((r.1 = .ok () ∧ Accrues now st r.2 [] order.fed []) ∨
        ((∃ err, r.1 = .error err) ∧ Accrues now st r.2 [] [] [] ∧ order.closing.isSome ∧
          ¬ (st.pipeline.book.isSome →
            ∀ ids, ∃ found, calls.outcomeStrategy ids = .ok found))) := by
  unfold recordClosing OrderResult.fed
  cases hc : order.closing with
  | none => exact ⟨rfl, Or.inl ⟨rfl, (Untouched.refl now st).toAccrues⟩⟩
  | some pnl =>
      dsimp only
      have hread := strategyOf_ok calls.outcomeStrategy
        (h.pendingDecisionId st.pipeline.executor order.orderId) st
      have hs := untouched_strategyOf now calls.outcomeStrategy
        (h.pendingDecisionId st.pipeline.executor order.orderId) st
      generalize strategyOf calls.outcomeStrategy
        (h.pendingDecisionId st.pipeline.executor order.orderId) st = r at hread hs ⊢
      rcases r with ⟨err | strategy, st₁⟩
      · refine ⟨hs.executor, Or.inr ⟨⟨err, rfl⟩, hs.toAccrues, rfl, fun hr => ?_⟩⟩
        obtain ⟨strategy, hok⟩ := hread hr
        cases hok
      · refine ⟨(Pipeline.recordOutcome_executor agentPipeline _ _ _ _).trans hs.executor,
          Or.inl ⟨rfl, ?_⟩⟩
        have hfed : Accrues now st₁ { st₁ with
            pipeline := st₁.pipeline.recordOutcome agentPipeline strategy (pnl ≥ 0) now
            outcomes := st₁.outcomes ++ [(order.orderId, decide (pnl ≥ 0))] }
            [] [(order.orderId, decide (pnl ≥ 0))] [] :=
          ⟨PipelineState.recordOutcome_sleeves _ _ _ _ _,
            ⟨[strategy], rfl, PipelineState.streaks_recordOutcome _ _ _ _⟩, rfl, by simp, rfl,
            by simp⟩
        exact hs.toAccrues.trans hfed

/-! ## One order -/

/-- How the handling of an order can end: it is left for the next cycle with nothing accounted,
the read of the strategy raises when its shares are added already, or it is accounted and
confirmed. -/
theorem handleUpdate_cases (calls : StorageCalls) (now : Time) (order : OrderResult)
    (st : BaseAgent σ) :
    let r := handleUpdate h calls now order st
    Untouched now st r.2 ∨
      (calls.update = .ok () ∧ Accrues now st r.2 (writtenShares calls order) [] [] ∧
        r.2.pipeline.executor = st.pipeline.executor ∧ order.closing.isSome ∧
        ¬ (st.pipeline.book.isSome → ∀ ids, ∃ found, calls.outcomeStrategy ids = .ok found)) ∨
      (calls.update = .ok () ∧ Accrues now st r.2 (writtenShares calls order) order.fed [order] ∧
        r.2.pipeline.executor = C.step (h.confirm order.orderId) st.pipeline.executor) := by
  unfold handleUpdate
  cases hu : calls.update with
  | error err =>
      left
      rw [persistUpdate_error h now order st hu]
      exact Untouched.refl now st
  | ok u =>
      have hp := untouched_persistUpdate h calls now order st
      generalize persistUpdate h calls now order st = r at hp ⊢
      rcases r with ⟨err | v, st₁⟩
      · exact Or.inl hp
      · dsimp only at hp ⊢
        obtain ⟨hadd, hsame⟩ := accrues_addShares calls now order st₁
        have hc := recordClosing_cases h calls now order (st₁.addShares calls order)
        generalize recordClosing h calls now order (st₁.addShares calls order) = r at hc ⊢
        obtain ⟨hexec, hc⟩ := hc
        right
        rcases r with ⟨err | v, st₂⟩
        · obtain ⟨hok, -⟩ | ⟨-, ha, hclosing, hraise⟩ := hc
          · cases hok
          · left
            have hall := (hp.toAccrues.trans hadd).trans ha
            simp only [List.nil_append, List.append_nil] at hall
            refine ⟨rfl, hall, ?_, hclosing, fun hr => hraise fun hbook => hr ?_⟩
            · show st₂.pipeline.executor = _
              rw [hexec, hsame, hp.executor]
            · rw [← hp.sleeves, ← hsame]
              exact hbook
        · obtain ⟨-, ha⟩ | ⟨⟨err, herr⟩, -⟩ := hc
          · right
            refine ⟨rfl, ?_, ?_⟩
            · have hall := (hp.toAccrues.trans hadd).trans ha
              simp only [List.nil_append, List.append_nil] at hall
              exact ⟨hall.sleeves, hall.streaks, hall.decisions, hall.added, hall.outcomes,
                by rw [← hall.confirmed.trans (List.append_nil _)]; rfl⟩
            · show C.step (h.confirm order.orderId) st₂.pipeline.executor = _
              rw [hexec, hsame, hp.executor]
          · cases herr

/-- The decisions change by the shares that are listed as added. -/
theorem accrues_handleUpdates (calls : OrderId → StorageCalls) (now : Time)
    (updates : List OrderResult) (st : BaseAgent σ) :
    ∃ shares fed confirmed,
      Accrues now st (handleUpdates h calls now updates st).2 shares fed confirmed := by
  induction updates generalizing st with
  | nil => exact ⟨[], [], [], (Untouched.refl now st).toAccrues⟩
  | cons order rest ih =>
      unfold handleUpdates
      have hone : ∃ shares fed confirmed, Accrues now st
          (handleUpdate h (calls order.orderId) now order st).2 shares fed confirmed := by
        rcases handleUpdate_cases h (calls order.orderId) now order st with
          hn | ⟨-, ha, -⟩ | ⟨-, ha, -⟩
        · exact ⟨_, _, _, hn.toAccrues⟩
        · exact ⟨_, _, _, ha⟩
        · exact ⟨_, _, _, ha⟩
      generalize handleUpdate h (calls order.orderId) now order st = r at hone ⊢
      obtain ⟨shares, fed, confirmed, ha⟩ := hone
      rcases r with ⟨err | v, st₁⟩
      · exact ⟨shares, fed, confirmed, ha⟩
      · obtain ⟨shares', fed', confirmed', ha'⟩ := ih st₁
        exact ⟨_, _, _, ha.trans ha'⟩

/-- The strategy of an outcome is read when the shares of the order were added: it must not
raise then, or they are added again. -/
def OutcomeRead (st : BaseAgent σ) (calls : StorageCalls) (order : OrderResult) : Prop :=
  order.closing.isSome → order.shares ≠ [] → calls.update = .ok () → st.pipeline.book.isSome →
    ∀ ids, ∃ found, calls.outcomeStrategy ids = .ok found

/-- No write of a share is swallowed. -/
def SharesWritten (calls : StorageCalls) (order : OrderResult) : Prop :=
  calls.update = .ok () → ∀ i < order.shares.length, calls.addFails i = false

theorem writtenShares_eq {calls : StorageCalls} {order : OrderResult}
    (hw : SharesWritten calls order) (hu : calls.update = .ok ()) :
    writtenShares calls order = order.shares := by
  have hall : (order.shares.zipIdx.filter fun write => !calls.addFails write.2) =
      order.shares.zipIdx :=
    List.filter_eq_self.mpr fun write hm => by
      have hlt := (List.mem_zipIdx hm).2.1
      simp only [Nat.zero_add] at hlt
      simp [hw hu write.2 hlt]
  rw [writtenShares, written, hall, List.zipIdx_map_fst]

/-- Where the read cannot raise, an order is left alone or accounted and confirmed. -/
theorem handleUpdate_of_read (calls : StorageCalls) (now : Time) (order : OrderResult)
    (st : BaseAgent σ) (hread : OutcomeRead st calls order) :
    let r := handleUpdate h calls now order st
    Untouched now st r.2 ∨
      (calls.update = .ok () ∧ Accrues now st r.2 (writtenShares calls order) order.fed [order] ∧
        r.2.pipeline.executor = C.step (h.confirm order.orderId) st.pipeline.executor) := by
  rcases handleUpdate_cases h calls now order st with hn | ⟨hu, ha, hexec, hclosing, hraise⟩ | hc
  · exact Or.inl hn
  · -- The read raised, so the order has no shares and nothing was added.
    left
    have hnone : order.shares = [] := by
      by_contra hne
      exact hraise fun hbook => hread hclosing hne hu hbook
    rw [writtenShares, hnone] at ha
    exact ⟨ha, hexec⟩
  · exact Or.inr hc

/-! ## The loop over the results -/

/-- What is accounted for an order: what it adds and what it feeds. -/
def addedFor (st : BaseAgent σ) (id : OrderId) : List AddedPnl :=
  st.added.filter (fun share => share.orderId = id)

def fedFor (st : BaseAgent σ) (id : OrderId) : List (OrderId × Bool) :=
  st.outcomes.filter (fun outcome => outcome.1 = id)

/-- Nothing is accounted for an order before its confirmation; then its shares are added at most
once, exactly once if no write of a share is swallowed (`written`), and it is fed once. -/
structure Accounted (written : Prop) (st : BaseAgent σ) : Prop where
  distinct : (st.confirmed.map OrderResult.orderId).Nodup
  before : ∀ id ∉ st.confirmed.map OrderResult.orderId, st.addedFor id = [] ∧ st.fedFor id = []
  atMostOnce : ∀ r ∈ st.confirmed, (st.addedFor r.orderId).Sublist r.shares
  once : written → ∀ r ∈ st.confirmed, st.addedFor r.orderId = r.shares
  fed : ∀ r ∈ st.confirmed, st.fedFor r.orderId = r.fed

theorem Accounted.of_accrues {written : Prop} {now : Time} {a b : BaseAgent σ}
    (h : Accounted written a) (hn : Accrues now a b [] [] []) : Accounted written b := by
  obtain ⟨-, -, -, ha, ho, hc⟩ := hn
  rw [List.append_nil] at ha ho hc
  have hadded : ∀ id, b.addedFor id = a.addedFor id := fun id => by rw [addedFor, ha, addedFor]
  have hfed : ∀ id, b.fedFor id = a.fedFor id := fun id => by rw [fedFor, ho, fedFor]
  refine ⟨?_, ?_, ?_, ?_, ?_⟩
  · exact hc ▸ h.distinct
  · simpa only [hc, hadded, hfed] using h.before
  · simpa only [hc, hadded] using h.atMostOnce
  · simpa only [hc, hadded] using h.once
  · simpa only [hc, hfed] using h.fed

theorem filter_shares {shares : List AddedPnl} {order : OrderResult} (id : OrderId)
    (hs : ∀ share ∈ shares, share.orderId = order.orderId) :
    shares.filter (fun share => share.orderId = id) =
      if order.orderId = id then shares else [] := by
  split_ifs with h
  · exact List.filter_eq_self.mpr fun share hm => by simp [hs share hm, h]
  · exact List.filter_eq_nil_iff.mpr fun share hm => by simp [hs share hm, h]

theorem filter_fed (order : OrderResult) (id : OrderId) :
    order.fed.filter (fun outcome => outcome.1 = id) =
      if order.orderId = id then order.fed else [] := by
  unfold OrderResult.fed
  cases order.closing <;> split_ifs with h <;> simp [h]

/-- An order that was not confirmed is accounted and confirmed. -/
theorem Accounted.confirm {written : Prop} {now : Time} {a b : BaseAgent σ}
    {calls : StorageCalls} {order : OrderResult} (h : Accounted written a)
    (hn : Accrues now a b (writtenShares calls order) order.fed [order])
    (hnew : order.orderId ∉ a.confirmed.map OrderResult.orderId)
    (hw : written → writtenShares calls order = order.shares) : Accounted written b := by
  obtain ⟨-, -, -, ha, ho, hc⟩ := hn
  have hmine : ∀ share ∈ writtenShares calls order, share.orderId = order.orderId :=
    fun share hs => orderId_of_mem_shares ((writtenShares_sublist calls order).subset hs)
  have hadded : ∀ id, b.addedFor id =
      a.addedFor id ++ if order.orderId = id then writtenShares calls order else [] := by
    intro id
    unfold addedFor
    rw [ha, List.filter_append, filter_shares id hmine]
  have hfed : ∀ id, b.fedFor id =
      a.fedFor id ++ if order.orderId = id then order.fed else [] := by
    intro id
    unfold fedFor
    rw [ho, List.filter_append, filter_fed]
  have hmem : ∀ r ∈ b.confirmed, (r ∈ a.confirmed ∧ order.orderId ≠ r.orderId) ∨ r = order := by
    intro r hr
    rw [hc, List.mem_append, List.mem_singleton] at hr
    rcases hr with hr | rfl
    · exact Or.inl ⟨hr, fun heq => hnew (heq ▸ List.mem_map_of_mem hr)⟩
    · exact Or.inr rfl
  obtain ⟨hnone, hnofed⟩ := h.before _ hnew
  refine ⟨?_, fun id hid => ?_, fun r hr => ?_, fun hall r hr => ?_, fun r hr => ?_⟩
  · rw [hc, List.map_append, List.map_singleton]
    exact List.nodup_append.mpr ⟨h.distinct, List.nodup_singleton _, fun x hx y hy hxy =>
      hnew (List.mem_singleton.mp hy ▸ hxy ▸ hx)⟩
  · rw [hc, List.map_append, List.map_singleton, List.mem_append, List.mem_singleton,
      not_or] at hid
    rw [hadded, hfed, if_neg (Ne.symm hid.2), if_neg (Ne.symm hid.2)]
    simpa using h.before id hid.1
  · rw [hadded]
    rcases hmem r hr with ⟨hr, hne⟩ | rfl
    · rw [if_neg hne, List.append_nil]
      exact h.atMostOnce r hr
    · rw [if_pos rfl, hnone]
      exact writtenShares_sublist calls r
  · rw [hadded]
    rcases hmem r hr with ⟨hr, hne⟩ | rfl
    · rw [if_neg hne, List.append_nil]
      exact h.once hall r hr
    · rw [if_pos rfl, hnone]
      exact hw hall
  · rw [hfed]
    rcases hmem r hr with ⟨hr, hne⟩ | rfl
    · rw [if_neg hne, List.append_nil]
      exact h.fed r hr
    · rw [if_pos rfl, hnofed]
      rfl

section Run

variable (P : Protocol C)

/-- The invariant of the agent: what it confirmed is accounted and does not come back. -/
structure Settled (written : Prop) (st : BaseAgent σ) : Prop extends Accounted written st where
  inv : P.Inv st.pipeline.executor
  spent : ∀ r ∈ st.confirmed, (C.snapshot st.pipeline.executor).spent r.orderId

variable {P}

theorem settled_handleUpdates {written : Prop} (calls : OrderId → StorageCalls) (now : Time)
    (updates : List OrderResult) (st : BaseAgent σ) (hs : Settled P written st)
    (hres : ∀ order ∈ updates,
      C.stage st.pipeline.executor order.orderId = .resolved order)
    (hnd : (updates.map OrderResult.orderId).Nodup)
    (hread : ∀ order ∈ updates, OutcomeRead st (calls order.orderId) order)
    (hwritten : written → ∀ order ∈ updates, SharesWritten (calls order.orderId) order) :
    Settled P written (handleUpdates h calls now updates st).2 := by
  induction updates generalizing st with
  | nil => exact hs
  | cons order rest ih =>
      unfold handleUpdates
      have hcase := handleUpdate_of_read h (calls order.orderId) now order st
        (hread order List.mem_cons_self)
      generalize handleUpdate h (calls order.orderId) now order st = r at hcase ⊢
      rw [List.map_cons, List.nodup_cons] at hnd
      have hkey := hres order List.mem_cons_self
      -- What the rest of the loop needs in the state that one order leaves.
      have hnext : Settled P written r.2 ∧
          (∀ order ∈ rest, C.stage r.2.pipeline.executor order.orderId = .resolved order) ∧
          r.2.pipeline.book.isSome = st.pipeline.book.isSome := by
        rcases hcase with hleft | ⟨hu, ha, hexec⟩
        · refine ⟨⟨hs.toAccounted.of_accrues hleft.toAccrues, ?_, ?_⟩, ?_, hleft.sleeves⟩
          · rw [hleft.executor]
            exact hs.inv
          · rw [hleft.executor, hleft.confirmed, List.append_nil]
            exact hs.spent
          · rw [hleft.executor]
            exact fun o ho => hres o (List.mem_cons_of_mem _ ho)
        · have hconf := P.confirm_step (h.confirm order.orderId) hs.inv (h.confirms_confirm _)
          refine ⟨⟨hs.toAccounted.confirm ha ?_ ?_, ?_, ?_⟩, ?_, ha.sleeves⟩
          · -- A confirmed order is spent, and a spent one is not resolved.
            intro hm
            obtain ⟨r', hr', hid⟩ := List.mem_map.mp hm
            have hgone := P.spent_untracked hs.inv (hs.spent r' hr')
            rw [hid, hkey] at hgone
            cases hgone
          · exact fun hall => writtenShares_eq (hwritten hall order List.mem_cons_self) hu
          · rw [hexec]
            exact P.inv_step _ hs.inv
          · rw [hexec, ha.confirmed]
            intro r' hr'
            rcases List.mem_append.mp hr' with hr' | hr'
            · exact hconf.spent _ (hs.spent r' hr')
            · rw [List.mem_singleton.mp hr']
              exact hconf.confirmed _ hkey
          · rw [hexec]
            intro o ho
            have hne : order.orderId ≠ o.orderId :=
              fun heq => hnd.1 (heq ▸ List.mem_map_of_mem ho)
            exact (hconf.other _ hne).trans (hres o (List.mem_cons_of_mem _ ho))
      obtain ⟨hset, hrest, hbook⟩ := hnext
      rcases r with ⟨err | v, st₁⟩
      · exact hset
      · refine ih st₁ hset hrest hnd.2 (fun o ho hc hne hu hb => ?_)
          (fun hall o ho => hwritten hall o (List.mem_cons_of_mem _ ho))
        exact hread o (List.mem_cons_of_mem _ ho) hc hne hu (hbook ▸ hb)

/-- One reconciliation keeps the invariant. -/
theorem settled_reconcileOrders {written : Prop} (calls : OrderId → StorageCalls) (now : Time)
    (st : BaseAgent σ) (hs : Settled P written st)
    (hread : ∀ updates, C.returned (h.ask now) st.pipeline.executor = some updates →
      ∀ order ∈ updates, OutcomeRead st (calls order.orderId) order)
    (hwritten : written → ∀ updates,
      C.returned (h.ask now) st.pipeline.executor = some updates →
        ∀ order ∈ updates, SharesWritten (calls order.orderId) order) :
    Settled P written (reconcileOrders h calls now st) := by
  unfold reconcileOrders
  dsimp only
  have hasked : Settled P written { st with pipeline := { st.pipeline with
      executor := C.step (h.ask now) st.pipeline.executor } } := by
    refine ⟨hs.toAccounted.of_accrues (accrues_executor now st _), P.inv_step _ hs.inv, ?_⟩
    exact fun r hr => P.spent_step _ hs.inv (hs.spent r hr)
  cases hret : C.returned (h.ask now) st.pipeline.executor with
  | none => exact hasked
  | some updates =>
      have hnd := P.returned_nodup _ hs.inv hret
      have hres : ∀ order ∈ updates, C.stage (C.step (h.ask now) st.pipeline.executor)
          order.orderId = .resolved order := by
        intro order ho
        have hsound := P.returned_sound _ hs.inv hret ho
        rwa [h.key_eq] at hsound
      rw [h.key_eq] at hnd
      exact settled_handleUpdates h calls now updates _ hasked hres hnd (hread updates hret)
        (fun hall => hwritten hall updates hret)

end Run

theorem accrues_reconcileOrders (calls : OrderId → StorageCalls) (now : Time)
    (st : BaseAgent σ) :
    ∃ shares fed confirmed,
      Accrues now st (reconcileOrders h calls now st) shares fed confirmed := by
  unfold reconcileOrders
  dsimp only
  set asked : BaseAgent σ := { st with pipeline := { st.pipeline with
    executor := C.step (h.ask now) st.pipeline.executor } }
  have hasked : Accrues now st asked [] [] [] := accrues_executor now st _
  cases C.returned (h.ask now) st.pipeline.executor with
  | none => exact ⟨[], [], [], hasked⟩
  | some updates =>
      obtain ⟨shares, fed, confirmed, ha⟩ := accrues_handleUpdates h calls now updates asked
      exact ⟨_, _, _, hasked.trans ha⟩

end BaseAgent

/-! ## Runs of the agent -/

/-- What an agent does next. -/
inductive AgentTurn (σ : Type) where
  | reconcile (calls : OrderId → StorageCalls) (now : Time)
  /-- Anything else: cycles with their orders, moves of the venue, other writes. -/
  | elsewhere (act : BaseAgent σ → BaseAgent σ)

namespace BaseAgent

section Turns

variable (h : Reconciliation C) (P : Protocol C)

def takeTurn : AgentTurn σ → BaseAgent σ → BaseAgent σ
  | .reconcile calls now, st => reconcileOrders h calls now st
  | .elsewhere act, st => act st

/-- The rest of the agent confirms no results, and the venue gives the id of a confirmed order
to no other order. -/
structure KeepsConfirmed (a b : BaseAgent σ) : Prop where
  inv : P.Inv a.pipeline.executor → P.Inv b.pipeline.executor
  spent : ∀ r ∈ a.confirmed, P.Inv a.pipeline.executor →
    (C.snapshot a.pipeline.executor).spent r.orderId →
      (C.snapshot b.pipeline.executor).spent r.orderId
  added : b.added = a.added
  outcomes : b.outcomes = a.outcomes
  confirmed : b.confirmed = a.confirmed

def ElsewhereKeeps : AgentTurn σ → BaseAgent σ → Prop
  | .reconcile _ _, _ => True
  | .elsewhere act, st => KeepsConfirmed P st (act st)

/-- `OutcomeRead` of every order that is handled. -/
def OutcomesRead : AgentTurn σ → BaseAgent σ → Prop
  | .reconcile calls now, st => ∀ updates,
      C.returned (h.ask now) st.pipeline.executor = some updates →
        ∀ order ∈ updates, OutcomeRead st (calls order.orderId) order
  | .elsewhere _, _ => True

/-- `SharesWritten` of every order that is handled. -/
def AllSharesWritten : AgentTurn σ → BaseAgent σ → Prop
  | .reconcile calls now, st => ∀ updates,
      C.returned (h.ask now) st.pipeline.executor = some updates →
        ∀ order ∈ updates, SharesWritten (calls order.orderId) order
  | .elsewhere _, _ => True

variable {P}

/-- One turn keeps the invariant. -/
theorem settled_takeTurn {written : Prop} (turn : AgentTurn σ) (st : BaseAgent σ)
    (hs : Settled P written st) (hkeeps : ElsewhereKeeps P turn st)
    (hread : OutcomesRead h turn st) (hwritten : written → AllSharesWritten h turn st) :
    Settled P written (takeTurn h turn st) := by
  cases turn with
  | reconcile calls now => exact settled_reconcileOrders h calls now st hs hread hwritten
  | elsewhere act =>
      have hk : KeepsConfirmed P st (act st) := hkeeps
      obtain ⟨h1, h2, h3, h4, h5⟩ := hs.toAccounted
      refine ⟨?_, hk.inv hs.inv, ?_⟩
      · show Accounted written (act st)
        have hadded : ∀ id, (act st).addedFor id = st.addedFor id :=
          fun id => by rw [addedFor, hk.added, addedFor]
        have hfed : ∀ id, (act st).fedFor id = st.fedFor id :=
          fun id => by rw [fedFor, hk.outcomes, fedFor]
        exact ⟨by simpa only [hk.confirmed] using h1,
          by simpa only [hk.confirmed, hadded, hfed] using h2,
          by simpa only [hk.confirmed, hadded] using h3,
          by simpa only [hk.confirmed, hadded] using h4,
          by simpa only [hk.confirmed, hfed] using h5⟩
      · show ∀ r ∈ (act st).confirmed, _
        rw [hk.confirmed]
        exact fun r hr => hk.spent r hr hs.inv (hs.spent r hr)

end Turns

end BaseAgent

/-! ## The venue executors -/

/-- The agent over the ccxt executor. -/
def CcxtExecutor.reconciliation {W : Type} (c : ExchangeClient W) :
    Reconciliation (CcxtExecutor.reconciler c) where
  ask := .reconcile
  confirm := .confirm
  confirms_confirm _ := rfl
  key_eq := rfl
  pendingDecisionId := CcxtExecutor.pendingDecisionId

/-- The agent over the Saxo executor. -/
def SaxoExecutor.reconciliation {W : Type} (c : SaxoClient W) :
    Reconciliation (SaxoExecutor.reconciler c) where
  ask := .reconcile
  confirm := .confirm
  confirms_confirm _ := rfl
  key_eq := rfl
  pendingDecisionId := SaxoExecutor.pendingDecisionId

/-- A placement keeps what was confirmed, at a venue that uses no order id twice. -/
theorem BaseAgent.keepsConfirmed_placeOrder {W : Type} (c : ExchangeClient W)
    (hfetch : c.fetchOrder.isSome) (st : BaseAgent (CcxtExecutor W)) (req : OrderRequest)
    (stamp : Stamp)
    (hnew : ∀ r, (st.pipeline.executor.placeOrder c req stamp).1 = .ok r →
      r.orderId ∉ st.confirmed.map OrderResult.orderId ∧
        ¬ CcxtExecutor.MayFire c st.pipeline.executor r.orderId) :
    KeepsConfirmed (CcxtExecutor.reconcilerProtocol c hfetch) st
      { st with pipeline := { st.pipeline with
        executor := (st.pipeline.executor.placeOrder c req stamp).2 } } where
  inv h := CcxtExecutor.tidy_placeOrder h req stamp fun r hr => (hnew r hr).2
  spent _ hr h hk := CcxtExecutor.spent_placeOrder h req stamp hk fun r' hr' heq =>
    (hnew r' hr').1 (heq ▸ List.mem_map_of_mem hr)
  added := rfl
  outcomes := rfl
  confirmed := rfl

/-! ## A strategy that cannot be read -/

/-- A sleeve book of one sleeve, without a cached decision. -/
def oneSleeve : SleeveBook where
  settings := ⟨⟨"swing", none, none⟩, [], 1 / 5⟩
  decisionMeta := Dict.empty
  engines := Dict.empty
  allocation := none

/-- One unit was bought for decision 1 and is being sold for decision 2; the sell has filled at
the venue at 110. -/
def closingStart : BaseAgent (CcxtExecutor Script) where
  pipeline :=
    { executor :=
        let script : Script :=
          { Script.empty with
            creates := [.ok (Script.closed "1" 1 100), .ok (Script.ack "2")]
            fetches := [.ok (Script.working "2"), .ok (Script.closed "2" 1 110)] }
        let e := CcxtExecutor.create script "USDC" VenueOrderSettings.default
        let bought := (e.placeOrder Script.client
          ⟨"BTC/USDC", .buy, 1, some 100, some 1, none, none⟩ ⟨"a", 0⟩).2
        (bought.placeOrder Script.client
          ⟨"BTC/USDC", .sell, 1, some 110, some 2, none, none⟩ ⟨"b", 0⟩).2
      agentEngine := RiskEngine.create RiskSettings.default
      book := some oneSleeve
      lastDecisionAt := Dict.empty }
  orders := [⟨"2", "BTC/USDC", .sell, 1, some 110, .pending, some 2, none, 0, none, none, none,
    none⟩]
  decisions := (Dict.empty.set 1 none).set 2 none
  added := []
  outcomes := []
  confirmed := []

/-- Storage that works, but for the read of the strategy. -/
def unreadStrategy : StorageCalls where
  update := .ok ()
  rowStrategy _ := .error (.raised "database is locked")
  save := .ok ()
  addFails _ := false
  outcomeStrategy _ := .error (.raised "database is locked")

/-- Storage that works. -/
def healthyCalls : StorageCalls where
  update := .ok ()
  rowStrategy _ := .ok []
  save := .ok ()
  addFails _ := false
  outcomeStrategy _ := .ok []

/-- Storage whose every write raises. -/
def brokenWrites : StorageCalls :=
  { healthyCalls with
    update := .error (.raised "database is locked")
    save := .error (.raised "database is locked")
    addFails := fun _ => true }

end SmartyTrader
