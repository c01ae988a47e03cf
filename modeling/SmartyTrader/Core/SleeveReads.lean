import SmartyTrader.Core.PipelineEffect
import SmartyTrader.Storage.Sleeves

set_option autoImplicit false

/-! # What a cycle does to the sleeves

A cycle changes the book of the sleeves in two ways: it caches the decision rows it reads, and it
writes the engines. Whatever these two keep, every cycle and every close-all keeps
(`run_keepsBook`, `closeAllPositions_keepsBook`). With a database that answers, each open position
has an owner among the configured sleeves.
-/

namespace SmartyTrader

open Lib

variable {σ : Type}

/-! ## Invariants of the book -/

/-- The decisions an executor names for a symbol: those of its open lots, or of its working BUY
orders. -/
def EntryHooks.Names (hooks : EntryHooks) (ids : List DecisionId) : Prop :=
  ∃ symbol, ids = (hooks.entryDecisionIds symbol).filterMap id ∨
    ids = (hooks.pendingEntryDecisionIds symbol).filterMap id

/-- What reads of the rows of `Asked` decisions and writes of the engines keep. -/
structure KeepsBook (read : MetaRead) (Asked : List DecisionId → Prop)
    (I : Option SleeveBook → Prop) : Prop where
  load : ∀ b ids, Asked ids → I (some b) → I (some (b.loadMeta read ids).2)
  engines : ∀ b engines, I (some b) → I (some { b with engines := engines })

namespace KeepsBook

variable {read : MetaRead} {Asked : List DecisionId → Prop} {I : Option SleeveBook → Prop}

theorem ownership (h : KeepsBook read Asked I) {hooks : EntryHooks}
    (hasked : ∀ ids, hooks.Names ids → Asked ids) (positions : List Position) (symbol : Symbol)
    {b : SleeveBook} (hb : I (some b)) :
    I (some (b.ownership read hooks positions symbol).2) := by
  have hload : ∀ ids, hooks.Names ids → I (some (b.loadMeta read ids).2) :=
    fun ids hids => h.load b ids (hasked ids hids) hb
  unfold SleeveBook.ownership
  split_ifs
  · have := hload _ ⟨symbol, .inl rfl⟩
    dsimp only
    split <;> (rename_i heq; rw [heq] at this; exact this)
  · dsimp only
    split_ifs
    · exact hb
    · have := hload _ ⟨symbol, .inr rfl⟩
      split <;> (rename_i heq; rw [heq] at this; exact this)

theorem ownersOf (h : KeepsBook read Asked I) {hooks : EntryHooks}
    (hasked : ∀ ids, hooks.Names ids → Asked ids) (positions : List Position)
    (symbols : List Symbol) {b : SleeveBook} (acc : Dict Symbol String) (hb : I (some b)) :
    I (some (SleeveBook.ownersOf read hooks positions symbols b acc).2) := by
  induction symbols generalizing b acc with
  | nil => exact hb
  | cons s ss ih =>
      have hown := h.ownership hasked positions s hb
      unfold SleeveBook.ownersOf
      split <;> (rename_i heq; rw [heq] at hown)
      · exact hown
      · exact ih acc hown
      · exact ih _ hown

theorem sleeveEquity (h : KeepsBook read Asked I) {hooks : EntryHooks}
    (hasked : ∀ ids, hooks.Names ids → Asked ids) (name : String) (portfolio : PortfolioState)
    (allocation : Allocation) (realized : Except PyError ℚ) {b : SleeveBook} (hb : I (some b)) :
    I (some (b.sleeveEquity read hooks name portfolio allocation realized).2) := by
  have howners : I (some (b.owners read hooks portfolio.positions).2) :=
    h.ownersOf hasked _ _ _ hb
  unfold SleeveBook.sleeveEquity
  split <;> (rename_i heq; rw [heq] at howners)
  · exact howners
  · split <;> exact howners

theorem setRiskEngine (h : KeepsBook read Asked I) (p : Pipeline) (e : RiskEngine)
    {st : PipelineState σ} (hst : I st.book) : I (st.setRiskEngine p e).book := by
  unfold PipelineState.setRiskEngine
  split
  · rename_i b s hb hs
    split_ifs
    · rw [hb] at hst
      exact h.engines b _ hst
    · exact hst
  · exact hst

theorem recordFill (h : KeepsBook read Asked I) (p : Pipeline) (strategy : Option String)
    (order : OrderResult) (now : Time) {st : PipelineState σ} (hst : I st.book) :
    I (st.recordFill p strategy order now).book := by
  unfold PipelineState.recordFill
  split
  · unfold PipelineState.recordOutcome
    split
    · rename_i b hb
      split
      · rw [hb] at hst
        exact h.engines b _ hst
      · exact h.setRiskEngine p _ hst
    · exact h.setRiskEngine p _ hst
  · exact hst

end KeepsBook

/-! ## A cycle -/

namespace Pipeline

section Cycle

variable (ex : Executor σ) (p : Pipeline) {input : CycleInput} {Asked : List DecisionId → Prop}
  {I : Option SleeveBook → Prop}

theorem closeForExit_keepsBook (h : KeepsBook input.metaRead Asked I) (position : Position)
    (mark : ℚ) (reason : ExitReason) (owner : Option String) {st : PipelineState σ}
    (hst : I st.book) : I (p.closeForExit ex input position mark reason owner st).2.book := by
  unfold closeForExit
  dsimp only
  split_ifs
  · exact hst
  · split
    · exact hst
    · exact h.recordFill p owner _ _ hst

theorem checkExitLevels_keepsBook (h : KeepsBook input.metaRead Asked I) (mark : ℚ)
    (owner : Option String) {st : PipelineState σ} (hst : I st.book) :
    I (p.checkExitLevels ex input mark owner st).2.book := by
  unfold checkExitLevels
  split_ifs
  · exact hst
  · split
    · exact hst
    · dsimp only
      split
      · exact hst
      · exact closeForExit_keepsBook ex p h _ mark _ owner hst

theorem checkTimeStop_keepsBook (h : KeepsBook input.metaRead Asked I) (mark : ℚ)
    (fetchedAt : Time) (ownership : Ownership) {st : PipelineState σ} (hst : I st.book) :
    I (p.checkTimeStop ex input mark fetchedAt ownership st).2.book := by
  unfold checkTimeStop
  split
  · exact hst
  · split_ifs
    · exact hst
    · split
      · exact hst
      · dsimp only
        split
        · exact hst
        · exact closeForExit_keepsBook ex p h _ mark _ _ hst

theorem gate_keepsBook (h : KeepsBook input.metaRead Asked I) (signal : TradeSignal)
    (portfolio book : PortfolioState) (planned : Option ℚ) (price : ℚ) {st : PipelineState σ}
    (hst : I st.book) : I (p.gate input signal portfolio book planned price st).2.book := by
  have hset := fun e => h.setRiskEngine p e hst
  unfold gate
  dsimp only
  split
  · split_ifs <;> exact hset _
  · split_ifs <;> exact hset _

theorem resolve_keepsBook (h : KeepsBook input.metaRead Asked I) (portfolio book : PortfolioState)
    (cashCap : Option ℚ) (price : ℚ) (fetchedAt : Time) {st : PipelineState σ} (hst : I st.book) :
    I (p.resolve ex input portfolio book cashCap price fetchedAt st).2.book := by
  have hgate := gate_keepsBook p h input.ownSignal portfolio book
    (p.plannedQuantity ex st input.ownSignal book price cashCap) price hst
  have hremember : ∀ s : PipelineState σ, I s.book → I (p.remember input fetchedAt s).book := by
    intro s hs
    unfold remember
    split_ifs <;> exact hs
  unfold resolve
  dsimp only
  split_ifs
  · exact hremember _ hgate
  · unfold execute
    split
    · exact hremember _ hgate
    · dsimp only
      split_ifs
      · exact hremember _ hgate
      · split
        · exact hremember _ hgate
        · exact h.recordFill p p.strategy _ _ (hremember _ hgate)

/-- The decisions that the executor names, wherever a cycle's reads have taken it. -/
def AsksFor (ex : Executor σ) (Asked : List DecisionId → Prop) (s : σ) : Prop :=
  ∀ t, Reads ex s t → ∀ ids, (ex.entryHooks t).Names ids → Asked ids

theorem AsksFor.reads {ex : Executor σ} {Asked : List DecisionId → Prop} {s t : σ}
    (h : AsksFor ex Asked s) (hreads : Reads ex s t) : AsksFor ex Asked t :=
  fun u hu => h u (hreads.trans hu)

theorem sleeveOwnership_keepsBook (h : KeepsBook input.metaRead Asked I) {st : PipelineState σ}
    (hasks : AsksFor ex Asked st.executor) (hst : I st.book) :
    I (sleeveOwnership ex input st).2.book := by
  unfold sleeveOwnership
  split
  · rename_i hb
    rwa [hb] at hst ⊢
  · rename_i b hb
    rw [hb] at hst
    have hread : Reads ex st.executor (ex.getPositions st.executor).2 := (Reads.refl _).positions
    split
    · rwa [hb]
    · rename_i positions s hs
      rw [hs] at hread
      exact h.ownership (hasks s hread) positions input.symbol hst

theorem decide_keepsBook (h : KeepsBook input.metaRead Asked I) (price : ℚ) (fetchedAt : Time)
    {st : PipelineState σ} (hasks : AsksFor ex Asked st.executor) (hst : I st.book) :
    I (p.decide ex input price fetchedAt st).2.book := by
  unfold decide readPortfolio
  dsimp only
  have hread : Reads ex st.executor (ex.getPositions st.executor).2 := (Reads.refl _).positions
  rcases hp : ex.getPositions st.executor with ⟨_ | positions, s⟩
  · exact hst
  · rw [hp] at hread
    have hcash : Reads ex st.executor (ex.getCash s).2 := hread.cash
    dsimp only
    rcases hc : ex.getCash s with ⟨_ | cash, s'⟩
    · exact hst
    · rw [hc] at hcash
      have hsleeve : I (p.sleevePortfolio ex input
          ⟨cash, positions, max (ex.pendingBuyValue s') 0⟩ { st with executor := s' }).2.book := by
        unfold sleevePortfolio
        split
        · rename_i b name hb _
          split
          · exact hst
          · have hb' : I (some b) := by
              rw [← hb]
              exact hst
            exact h.sleeveEquity (hasks s' hcash) _ _ _ _ hb'
        · exact hst
      dsimp only
      split
      · rename_i heq
        rw [heq] at hsleeve
        exact hsleeve
      · rename_i heq
        rw [heq] at hsleeve
        exact resolve_keepsBook ex p h _ _ _ price fetchedAt hsleeve

theorem afterExits_keepsBook (h : KeepsBook input.metaRead Asked I) (snapshot : MarketSnapshot)
    (mark : ℚ) {st : PipelineState σ} (hasks : AsksFor ex Asked st.executor) (hst : I st.book) :
    I (p.afterExits ex input snapshot mark st).2.book := by
  have hlast : (p.lastDecision input st).2.executor = st.executor ∧
      (p.lastDecision input st).2.book = st.book := by
    unfold lastDecision
    dsimp only
    split
    · exact ⟨rfl, rfl⟩
    · split <;> exact ⟨rfl, rfl⟩
  have hwait : ∀ closed, (p.awaitingNewBar input closed st).2.executor = st.executor ∧
      (p.awaitingNewBar input closed st).2.book = st.book := by
    intro closed
    unfold awaitingNewBar
    split
    · exact ⟨rfl, rfl⟩
    · exact hlast
  unfold afterExits
  dsimp only
  generalize hw : (if p.decideOnNewBarOnly = true then p.awaitingNewBar input
    (closedBars snapshot.candles input.timeframe snapshot.fetchedAt) st else (none, st)) = waiting
  have hkeep : waiting.2.executor = st.executor ∧ waiting.2.book = st.book := by
    rw [← hw]
    split_ifs
    · exact hwait _
    · exact ⟨rfl, rfl⟩
  have hwaiting : I waiting.2.book := by rwa [hkeep.2]
  split
  · exact hwaiting
  · split
    · exact hwaiting
    · exact decide_keepsBook ex p h mark _ (by rwa [hkeep.1]) hwaiting

/-- **Invariants of the book.** What reads of decision rows and writes of engines keep, a cycle
keeps. -/
theorem run_keepsBook (h : KeepsBook input.metaRead Asked I) {st : PipelineState σ}
    (hasks : AsksFor ex Asked (input.marked ex st).executor) (hst : I st.book) :
    I (p.run ex input st).2.book := by
  have hout : ∀ s : PipelineState σ, Quiet ex (input.marked ex st) s →
      AsksFor ex Asked s.executor := fun s hs => hasks.reads hs.reads
  unfold run
  unfold CycleInput.marked at hasks hout
  cases hsnap : input.snapshot with
  | error err => exact hst
  | ok snapshot =>
      rw [hsnap] at hasks hout
      dsimp only at hasks hout ⊢
      cases hlast : snapshot.candles.getLast? with
      | none => exact hst
      | some last =>
          rw [hlast] at hasks hout
          dsimp only at hasks hout ⊢
          have hmarked : I (markPositions ex input.symbol last.close st).book := by
            unfold markPositions
            split_ifs <;> exact hst
          generalize markPositions ex input.symbol last.close st = st₀ at hasks hout hmarked ⊢
          have hown := sleeveOwnership_keepsBook ex h hasks hmarked
          have hquiet := quiet_sleeveOwnership ex input st₀
          generalize sleeveOwnership ex input st₀ = own at hown hquiet ⊢
          have hlevels := checkExitLevels_keepsBook ex p h last.close (ownerName own.1) hown
          rcases outcome_checkExitLevels ex p hquiet last.close (ownerName own.1) with
            ⟨st', he, hq⟩ | ⟨r, st', he, -⟩
          · rw [he] at hlevels ⊢
            dsimp only
            split
            · exact hlevels
            · exact afterExits_keepsBook ex p h snapshot _ (hout _ hq) hlevels
            · rename_i o _
              have hstop := checkTimeStop_keepsBook ex p h last.close snapshot.fetchedAt o hlevels
              rcases outcome_checkTimeStop ex p hq last.close snapshot.fetchedAt o with
                ⟨st'', ht, hq'⟩ | ⟨r, st'', ht, -⟩
              · rw [ht] at hstop ⊢
                dsimp only
                split_ifs
                · exact hstop
                · exact afterExits_keepsBook ex p h snapshot _ (hout _ hq') hstop
              · rw [ht] at hstop ⊢
                exact hstop
          · rw [he] at hlevels ⊢
            exact hlevels

end Cycle

section CloseAll

variable (ex : Executor σ) (p : Pipeline) {read : MetaRead} {Asked : List DecisionId → Prop}
  {I : Option SleeveBook → Prop}

theorem closeEach_keepsBook (h : KeepsBook read Asked I) (owners : Dict Symbol String)
    (outcomeNow : Time) (todo : List (Position × Stamp)) {st : PipelineState σ}
    (hst : I st.book) : I (p.closeEach ex owners outcomeNow todo st).2.book := by
  induction todo generalizing st with
  | nil => exact hst
  | cons t rest ih =>
      obtain ⟨position, stamp⟩ := t
      have hone : I (p.closeOne ex owners stamp outcomeNow position st).2.book := by
        unfold closeOne
        split_ifs
        · exact hst
        · split
          · exact hst
          · exact h.recordFill p _ _ _ hst
      unfold closeEach
      split
      · rename_i heq
        rw [heq] at hone
        exact hone
      · rename_i order st' heq
        rw [heq] at hone
        have hrest := ih hone
        split
        · rename_i heq'
          rw [heq'] at hrest
          exact hrest
        · rename_i heq'
          rw [heq'] at hrest
          exact hrest

/-- **Invariants of the book**, of a close-all. -/
theorem closeAllPositions_keepsBook (h : KeepsBook read Asked I) (stamps : ℕ → Stamp)
    (outcomeNow : Time) {st : PipelineState σ} (hasks : AsksFor ex Asked st.executor)
    (hst : I st.book) : I (p.closeAllPositions ex read stamps outcomeNow st).2.book := by
  have hread : Reads ex st.executor (ex.getPositions st.executor).2 := (Reads.refl _).positions
  unfold closeAllPositions
  split
  · exact hst
  · rename_i positions s hs
    rw [hs] at hread
    refine closeEach_keepsBook ex p h _ outcomeNow _ ?_
    dsimp only
    split
    · rename_i hb
      exact hb ▸ hst
    · rename_i b hb
      have howners : I (some (b.owners read (ex.entryHooks s) positions).2) :=
        h.ownersOf (hasks s hread) _ _ _ (hb ▸ hst)
      split <;> (rename_i heq; rw [heq] at howners; exact howners)

end CloseAll

end Pipeline

end SmartyTrader
