import SmartyTrader.Execution.DatedCalls
import SmartyTrader.Execution.ProtectiveWatch
import SmartyTrader.Execution.Venue

set_option autoImplicit false

/-! # No protective order is lost

In every run of the executor each protective order that was placed, and that the venue did not
call cancelled or dead, is live or its child order was booked once, with its final quantity, as
long as every cancel and every poll of the run meets its condition. The condition is carried
through the calls of the executor (`SyncClear` and the ones after it).
-/

namespace SmartyTrader

open Lib

variable {W : Type}

/-! ## The condition on the calls of the executor -/

namespace CcxtExecutor

open ProtectiveOrders

section Clear

variable {c : ExchangeClient W} (v : AlgoVenue c)

/-- The condition on `_sync_protection`: on its cancel, after which it may place a new order. -/
def SyncClear (symbol : Symbol) (e : CcxtExecutor W) : Prop :=
  ∀ p current, e.protection = some p → .sell ∉ e.workingOrderSides symbol →
    p.get symbol = some current →
    (e.wantedProtection c symbol).any (fun q => current.matches q.1 q.2) = false →
    CancelClear v symbol (fun w => ∃ q levels, e.wantedProtection c symbol = some (q, levels) ∧
      Protects c (e.toPrice c) symbol q levels w) p e.world

/-- The condition on a sync of several symbols. -/
def SyncsClear (now : Time) (symbols : List Symbol) (e : CcxtExecutor W) : Prop :=
  EachStep (fun s e => syncProtection c s now e) (SyncClear v) symbols e

/-- The condition on a cancel before a SELL. -/
def WithdrawClear (symbol : Symbol) (e : CcxtExecutor W) : Prop :=
  ∀ p, e.protection = some p → CancelClear v symbol (fun _ => False) p e.world

/-- The condition on `_watch_protection`. -/
def WatchClear (now : Time) (e : CcxtExecutor W) : Prop :=
  ∀ p, e.protection = some p → PollsClear v p.live.entries p e.world ∧
    let r := p.poll c e.world
    let e := bookFired now r.1
      { e with
        protection := some r.2.1
        world := r.2.2 }
    SyncsClear v now e.tracker.symbols e

/-- The condition on one order that is reconciled: on the sync once it resolved. -/
def SettleClear (f : OrderId → Symbol → W → Except PyError (Option RawOrder) × W)
    (now : Time) (orderId : OrderId) (pending : PendingOrder) (e : CcxtExecutor W) : Prop :=
  ∀ raw status quantity reason e',
    pollOrder c f e orderId pending now = (some (raw, status, quantity, reason), e') →
    status ≠ .pending →
      let r := settle (e'.ensureMarkets c) orderId pending raw status quantity reason now
      SyncClear v pending.symbol (r.2.resolve orderId pending r.1)

/-- The condition on the loop. -/
def ReconcilesClear (f : OrderId → Symbol → W → Except PyError (Option RawOrder) × W)
    (now : Time) (entries : List (OrderId × PendingOrder)) (e : CcxtExecutor W) : Prop :=
  EachStep (reconcileEntry c f now)
    (fun entry e => entry.2.resolved = none → SettleClear v f now entry.1 entry.2 e) entries e

/-- The condition on `reconcile_open_orders`. -/
def ReconcileClear (now : Time) (e : CcxtExecutor W) : Prop :=
  WatchClear v now e ∧ ∀ f, c.fetchOrder = some f →
    ReconcilesClear v f now (watchProtection c now e).openOrders.entries (watchProtection c now e)

/-- The condition on the end of a placement: on the sync after a fill. -/
def CloseClear (req : OrderRequest) (orderId : OrderId) (amount : ℚ) (limit : Option ℚ)
    (raw : RawOrder) (now : Time) (e : CcxtExecutor W) : Prop :=
  let result := placedResult req orderId amount limit raw now
  ∀ price, result.status = .filled → result.price = some price →
    SyncClear v req.symbol (e.bookPlaced req orderId result.quantity price raw).2

/-- The condition on the answer to a placement. -/
def AnswerClear (req : OrderRequest) (amount : ℚ) (limit : Option ℚ) (raw : RawOrder)
    (now : Time) (e : CcxtExecutor W) : Prop :=
  let e := { e with orderSymbols := e.orderSymbols.set raw.orderId req.symbol }
  let polled :=
    if (resolveStatus raw amount).1 = .pending ∧ raw.orderId ≠ "" then
      e.confirmPlaced c raw.orderId req.symbol raw
    else (raw, e)
  CloseClear v req raw.orderId amount limit polled.1 now polled.2

/-- The condition on `place_order`: on its two dealings with the symbol's protective order. -/
def PlaceClear (req : OrderRequest) (now : Time) (e : CcxtExecutor W) : Prop :=
  (req.side = .sell → WithdrawClear v req.symbol (e.ensureMarkets c)) ∧
    let e := if req.side = .sell then withdrawProtection c req.symbol now (e.ensureMarkets c)
      else e.ensureMarkets c
    ∀ amount answer w, e.sendableAmount c req = .ok amount →
      c.createOrder req.symbol (e.orderTerms c req.symbol req.side req.price).1 req.side amount
        (e.orderTerms c req.symbol req.side req.price).2 e.world = (.ok answer, w) →
      AnswerClear v req amount (e.orderTerms c req.symbol req.side req.price).2
        (answer.getD RawOrder.empty) now { e with world := w }

end Clear

/-! ## Bookings -/

theorem fillsOf_writeOffDust (e : CcxtExecutor W) (s : Symbol) (id : OrderId) :
    fillsOf id (e.writeOffDust s).journal = fillsOf id e.journal := by
  rcases e.journal_writeOffDust s with h | h
  · rw [h]
  · rw [h, fillsOf_append, fillsOf_writeOff, List.append_nil]

theorem fillsOf_recordFill (e : CcxtExecutor W) (f : BookedFill) (id : OrderId) :
    fillsOf id (e.recordFill f).2.journal
      = fillsOf id e.journal ++ if f.orderId = id then [f] else [] := by
  have hbook : fillsOf id (e.book f).2.journal
      = fillsOf id e.journal ++ if f.orderId = id then [f] else [] := by
    show fillsOf id (e.journal ++ [.fill f]) = _
    rw [fillsOf_append, fillsOf_fill]
  rcases e.recordFill_cases f with h | ⟨-, h⟩
  · rw [h, hbook]
  · rw [h, fillsOf_writeOffDust, hbook]

/-- The journal after a fired order whose child has a price. -/
theorem fillsOf_bookTriggered (e : CcxtExecutor W) (t : Triggered) (now : Time)
    (hk : t.childId ∉ e.knownOrderIds) (hprice : t.child.fillPrice.isSome) :
    ∃ f : BookedFill, f.quantity = orNumber t.child.filled 0 ∧
      ∀ id, fillsOf id (e.bookTriggered t now).journal
        = fillsOf id e.journal ++ if t.childId = id then [f] else [] := by
  obtain ⟨price, hp⟩ := Option.isSome_iff_exists.mp hprice
  refine ⟨reportedFill t.childId t.symbol .sell (orNumber t.child.filled 0) price none t.child,
    rfl, fun id => ?_⟩
  have hj : (e.bookTriggered t now).journal = ((e.know t.childId).bookChild t now).2.journal := by
    unfold bookTriggered
    rw [if_neg hk]
    exact (ledger_dropFlatLevels _ _).2
  rw [hj]
  unfold bookChild
  rw [hp]
  exact fillsOf_recordFill (e.know t.childId) _ id

theorem fillsOf_bookTriggered_ne (e : CcxtExecutor W) (t : Triggered) (now : Time)
    {id : OrderId} (hne : t.childId ≠ id) :
    fillsOf id (e.bookTriggered t now).journal = fillsOf id e.journal := by
  unfold bookTriggered
  split_ifs
  · rfl
  · show fillsOf id (((e.know t.childId).bookChild t now).2.dropFlatLevels t.symbol).journal = _
    rw [(ledger_dropFlatLevels _ _).2]
    unfold bookChild
    dsimp only
    split
    · rfl
    · rw [fillsOf_recordFill, if_neg (show ¬ (reportedFill t.childId _ _ _ _ _ _).orderId = id
        from hne), List.append_nil]
      rfl

/-- An order that is no child is booked. -/
theorem fillsOf_ordinary {c : ExchangeClient W} (v : AlgoVenue c) (e : CcxtExecutor W)
    (f : BookedFill) (hf : ∀ a, f.orderId ≠ v.childOf a) (a : OrderId) :
    fillsOf (v.childOf a) (e.recordFill f).2.journal = fillsOf (v.childOf a) e.journal := by
  rw [fillsOf_recordFill, if_neg (hf a), List.append_nil]

/-! ## The calls keep the invariant -/

section Guarded

variable {c : ExchangeClient W} {v : AlgoVenue c} {e e' : CcxtExecutor W}

variable (v) in
/-- No tracked order that works is the child of a protective order. -/
def Ordinary (e : CcxtExecutor W) : Prop :=
  ∀ id q, e.openOrders.get? id = some q → q.resolved = none → ∀ a, id ≠ v.childOf a

variable (v) in
/-- The invariant while the fired orders `out` wait to be booked. -/
def GuardedBut (out : List Triggered) (e : CcxtExecutor W) : Prop :=
  (∃ p, e.protection = some p ∧ Watched v p out e.knownOrderIds e.journal e.world) ∧
    Ordinary v e

variable (v) in
/-- The invariant. -/
abbrev Guarded (e : CcxtExecutor W) : Prop := GuardedBut v [] e

/-- A step that books no child and leaves the protective orders alone. -/
theorem GuardedBut.step {out : List Triggered} (h : GuardedBut v out e)
    (hp : e'.protection = e.protection) (hk : e'.knownOrderIds = e.knownOrderIds)
    (hj : ∀ a, fillsOf (v.childOf a) e'.journal = fillsOf (v.childOf a) e.journal)
    (hw : v.algos e.world ⊆ v.algos e'.world) (ho : Ordinary v e') : GuardedBut v out e' := by
  obtain ⟨⟨p, hprot, hwatched⟩, -⟩ := h
  refine ⟨⟨p, hp.trans hprot, ?_⟩, ho⟩
  rw [hk]
  exact (hwatched.other hj).later hw

/-- Talk with the venue. -/
theorem GuardedBut.world {out : List Triggered} (h : GuardedBut v out e) {w : W}
    (hw : v.algos e.world ⊆ v.algos w) : GuardedBut v out { e with world := w } :=
  h.step rfl rfl (fun _ => rfl) hw h.2

/-- Whatever keeps all but the ledger, and books no child. -/
theorem GuardedBut.frame {out : List Triggered} (h : GuardedBut v out e) (hf : Frame e e')
    (hj : ∀ a, fillsOf (v.childOf a) e'.journal = fillsOf (v.childOf a) e.journal) :
    GuardedBut v out e' := by
  refine h.step hf.protection hf.knownOrderIds hj (by rw [hf.world]) ?_
  intro id q hget
  rw [hf.openOrders] at hget
  exact h.2 id q hget

theorem protection_ensureMarkets (e : CcxtExecutor W) :
    (e.ensureMarkets c).protection = e.protection := by
  unfold ensureMarkets
  split
  · rfl
  · split
    · rfl
    · split
      · rfl
      · split
        · rfl
        · split <;> rfl

theorem GuardedBut.ensureMarkets {out : List Triggered} (h : GuardedBut v out e) :
    GuardedBut v out (e.ensureMarkets c) := by
  have hq := quietly_ensureMarkets c e
  refine h.step (protection_ensureMarkets e) hq.knownOrderIds (fun a => by rw [hq.journal])
    (v.later hq.world) ?_
  intro id q hget
  rw [hq.openOrders] at hget
  exact h.2 id q hget

theorem GuardedBut.writeOffDust {out : List Triggered} (h : GuardedBut v out e) (s : Symbol) :
    GuardedBut v out (e.writeOffDust s) :=
  h.frame (frame_writeOffDust e s) fun _ => e.fillsOf_writeOffDust s _

/-- The first of the waiting orders is booked. -/
theorem GuardedBut.bookTriggered {t : Triggered} {out : List Triggered}
    (h : GuardedBut v (t :: out) e) (now : Time) : GuardedBut v out (e.bookTriggered t now) := by
  obtain ⟨⟨p, hprot, hwatched⟩, hordinary⟩ := h
  have hawaits := hwatched.awaiting t List.mem_cons_self
  have hk : t.childId ∉ e.knownOrderIds := by
    rw [hawaits.child]
    exact hawaits.unbooked.known
  obtain ⟨f, hf, hj⟩ := e.fillsOf_bookTriggered t now hk hawaits.price
  obtain ⟨r, -, horders⟩ := e.openOrders_bookTriggered t now hk
  have hworld : (e.bookTriggered t now).world = e.world := by
    unfold CcxtExecutor.bookTriggered
    rw [if_neg hk]
    exact ((frame_bookChild _ t now).trans (frame_dropFlatLevels _ t.symbol)).world
  refine ⟨⟨p, (protection_bookTriggered e t now).trans hprot, ?_⟩, ?_⟩
  · rw [e.knownOrderIds_bookTriggered t now hk, hworld]
    exact hwatched.booked hf hj
  · intro id q hget hr a
    rw [horders, Dict.get?_set] at hget
    split_ifs at hget
    · cases hget
      cases hr
    · exact hordinary id q hget hr a

theorem GuardedBut.bookFired {fired : List Triggered} (h : GuardedBut v fired e) (now : Time) :
    Guarded v (bookFired now fired e) := by
  induction fired generalizing e with
  | nil => exact h
  | cons t rest ih => exact ih (h.bookTriggered now)

/-- A call of the protective orders. -/
theorem GuardedBut.protected {p : ProtectiveOrders} {out : List Triggered} {w : W}
    (h : Ordinary v e) (hwatched : Watched v p out e.knownOrderIds e.journal w) :
    GuardedBut v out
      { e with
        protection := some p
        world := w } :=
  ⟨⟨p, rfl, hwatched⟩, h⟩

/-- What is wanted is placed, in a symbol that has no order or where the venue refuses it. -/
theorem guarded_placeProtection {p : ProtectiveOrders} {s : Symbol}
    {wanted : Option (ℚ × ExitLevels)} (h : Ordinary v e)
    (hwatched : Watched v p [] e.knownOrderIds e.journal e.world)
    (hfree : p.live.get? s = none ∨ ¬ ∃ q levels, wanted = some (q, levels) ∧
      Protects c (e.toPrice c) s q levels e.world) :
    Guarded v (e.placeProtection c p s wanted) := by
  unfold placeProtection
  cases wanted with
  | none => exact GuardedBut.protected h hwatched
  | some wanted =>
      obtain ⟨q, levels⟩ := wanted
      refine GuardedBut.protected h (watched_place (e.toPrice c) s q levels hwatched ?_)
      exact hfree.imp_right fun hn hs => hn ⟨q, levels, rfl, hs⟩

/-- A sync of a symbol that has no order at the venue. -/
theorem guarded_syncStep_free (again : CcxtExecutor W → CcxtExecutor W) (s : Symbol) (now : Time)
    (h : Guarded v e) (hfree : ∀ p, e.protection = some p → p.live.get? s = none) :
    Guarded v (syncStep c again s now e) := by
  obtain ⟨⟨p, hprot, hwatched⟩, hordinary⟩ := h
  unfold syncStep
  rw [hprot]
  dsimp only
  split_ifs
  · exact ⟨⟨p, hprot, hwatched⟩, hordinary⟩
  · rw [show p.get s = none from hfree p hprot]
    exact guarded_placeProtection hordinary hwatched (Or.inl (hfree p hprot))

/-- The sync of a symbol. -/
theorem guarded_syncProtection (s : Symbol) (now : Time) (h : Guarded v e)
    (hclear : SyncClear v s e) : Guarded v (syncProtection c s now e) := by
  obtain ⟨⟨p, hprot, hwatched⟩, hordinary⟩ := h
  unfold syncProtection
  generalize hagain : syncStep c id s now = again
  unfold syncStep
  rw [hprot]
  dsimp only
  by_cases hsell : OrderSide.sell ∈ e.workingOrderSides s
  · rw [if_pos hsell]
    exact ⟨⟨p, hprot, hwatched⟩, hordinary⟩
  rw [if_neg hsell]
  cases hget : p.get s with
  | none => exact guarded_placeProtection hordinary hwatched (Or.inl hget)
  | some current =>
      dsimp only
      split_ifs with hmatch
      · exact ⟨⟨p, hprot, hwatched⟩, hordinary⟩
      · obtain ⟨hcancelled, hfree⟩ := watched_cancel s _ hwatched
          (hclear p current hprot hsell hget (by simpa using hmatch))
        rcases hcancel : cancel c s p e.world with ⟨found, p', w'⟩
        rw [hcancel] at hcancelled hfree
        cases found with
        | some t =>
            have hgone : p'.live.get? s = none := by
              rcases hfree with hfree | ⟨hnone, -⟩
              · exact hfree
              · cases hnone
            dsimp only
            rw [← hagain]
            refine guarded_syncStep_free id s now
              (GuardedBut.bookTriggered (GuardedBut.protected hordinary hcancelled) now) ?_
            intro p'' hp''
            rw [protection_bookTriggered] at hp''
            cases hp''
            exact hgone
        | none => exact guarded_placeProtection hordinary hcancelled (hfree.imp_right And.right)

theorem guarded_syncEach (now : Time) (symbols : List Symbol) (h : Guarded v e)
    (hclear : SyncsClear v now symbols e) : Guarded v (syncEach c now symbols e) :=
  run_preserves (I := Guarded v) (fun s _ hs hg => guarded_syncProtection s now hg hs) symbols
    hclear h

theorem guarded_withdrawProtection (s : Symbol) (now : Time) (h : Guarded v e)
    (hclear : WithdrawClear v s e) : Guarded v (withdrawProtection c s now e) := by
  obtain ⟨⟨p, hprot, hwatched⟩, hordinary⟩ := h
  obtain ⟨hcancelled, -⟩ := watched_cancel s _ hwatched (hclear p hprot)
  unfold withdrawProtection
  rw [hprot]
  dsimp only
  rcases hcancel : cancel c s p e.world with ⟨found, p', w'⟩
  rw [hcancel] at hcancelled
  cases found with
  | some t =>
      exact GuardedBut.bookTriggered (GuardedBut.protected hordinary hcancelled) now
  | none => exact GuardedBut.protected hordinary hcancelled

theorem guarded_watchProtection (now : Time) (h : Guarded v e) (hclear : WatchClear v now e) :
    Guarded v (watchProtection c now e) := by
  obtain ⟨⟨p, hprot, hwatched⟩, hordinary⟩ := h
  obtain ⟨hpolls, hsyncs⟩ := hclear p hprot
  have hpolled := watched_poll hwatched hpolls
  unfold watchProtection
  rw [hprot]
  exact guarded_syncEach now _
    (GuardedBut.bookFired (GuardedBut.protected hordinary hpolled) now) hsyncs

/-! ### Reconciliation -/

theorem pollOrder_world {f : OrderId → Symbol → W → Except PyError (Option RawOrder) × W}
    (e : CcxtExecutor W) (id : OrderId) (q : PendingOrder) (now : Time) :
    ∃ w, (pollOrder c f e id q now).2 = { e with world := w } := by
  unfold pollOrder
  split
  · exact ⟨_, rfl⟩
  · dsimp only
    split_ifs
    · unfold cancelStale
      dsimp only
      split
      · rename_i heq
        split at heq
        · cases heq
          exact ⟨_, rfl⟩
        · cases heq
          exact ⟨_, rfl⟩
      · rename_i heq
        split at heq
        · cases heq
        · cases heq
          exact ⟨_, rfl⟩
    · exact ⟨_, rfl⟩

/-- An order that is no child resolves. -/
theorem guarded_settle {id : OrderId} (q : PendingOrder) (raw : RawOrder) (status : OrderStatus)
    (quantity : ℚ) (reason : Option OrderReason) (now : Time) (h : Guarded v e)
    (hid : ∀ a, id ≠ v.childOf a) :
    let r := e.settle id q raw status quantity reason now
    Guarded v (r.2.resolve id q r.1) := by
  have hsettled : Guarded v (e.settle id q raw status quantity reason now).2 := by
    refine h.frame (frame_settle e id q raw status quantity reason now) fun a => ?_
    by_cases hfill : status = .filled ∧ raw.fillPrice.isSome
    · obtain ⟨price, hp⟩ := Option.isSome_iff_exists.mp hfill.2
      rw [(e.settle_booked id q quantity reason now hfill.1 hp).2.1]
      exact fillsOf_ordinary v e _ hid a
    · rw [e.settle_unbooked id q quantity reason now fun hs => ?_]
      rw [not_and, Option.not_isSome_iff_eq_none] at hfill
      exact hfill hs
  refine hsettled.step rfl rfl (fun _ => rfl) (Finset.Subset.refl _) ?_
  intro id' q' hget hr
  change (((_ : CcxtExecutor W).openOrders).set id _).get? id' = some q' at hget
  rw [Dict.get?_set] at hget
  split_ifs at hget with he
  · cases hget
    cases hr
  · exact hsettled.2 id' q' hget hr

theorem guarded_reconcileOne {f : OrderId → Symbol → W → Except PyError (Option RawOrder) × W}
    (hf : c.fetchOrder = some f) {id : OrderId} (q : PendingOrder) (now : Time) (h : Guarded v e)
    (hid : ∀ a, id ≠ v.childOf a) (hclear : SettleClear v f now id q e) :
    Guarded v (reconcileOne c f id q now e).2 := by
  have hlater := v.later (pollOrder_spec c hf e id q now).1.world
  obtain ⟨w, hworld⟩ := pollOrder_world (c := c) (f := f) e id q now
  have hpolled : Guarded v (pollOrder c f e id q now).2 := by
    rw [hworld] at hlater ⊢
    exact h.world hlater
  unfold reconcileOne
  rcases hpoll : pollOrder c f e id q now with ⟨answer, e₁⟩
  rw [hpoll] at hpolled
  cases answer with
  | none => exact hpolled
  | some answer =>
      obtain ⟨raw, status, quantity, reason⟩ := answer
      dsimp only
      split_ifs with hs
      · exact hpolled
      · exact guarded_syncProtection _ now
          (guarded_settle q raw status quantity reason now hpolled.ensureMarkets hid)
          (hclear raw status quantity reason e₁ hpoll hs)

/-! ### Placement -/

theorem guarded_bookPlaced (req : OrderRequest) {id : OrderId} (q price : ℚ) (raw : RawOrder)
    (h : Guarded v e) (hid : ∀ a, id ≠ v.childOf a) :
    Guarded v (e.bookPlaced req id q price raw).2 := by
  refine h.frame (frame_bookPlaced e req id q price raw) fun a => ?_
  rw [(bookPlaced_booked e req id q price raw).2]
  exact fillsOf_ordinary v e _ hid a

theorem guarded_closePlacement (req : OrderRequest) {id : OrderId} (amount : ℚ)
    (limit : Option ℚ) (raw : RawOrder) (now : Time) (h : Guarded v e)
    (hid : ∀ a, id ≠ v.childOf a) (hclear : CloseClear v req id amount limit raw now e) :
    Guarded v (closePlacement c e req id amount limit raw now).2 := by
  unfold closePlacement
  dsimp only
  split
  · rename_i price hs hp
    exact guarded_syncProtection _ now (guarded_bookPlaced req _ price raw h hid)
      (hclear price hs hp)
  · split_ifs
    · refine h.step rfl rfl (fun _ => rfl) (Finset.Subset.refl _) ?_
      intro id' q' hget hr
      change (e.openOrders.set id _).get? id' = some q' at hget
      rw [Dict.get?_set] at hget
      split_ifs at hget with he
      · exact he ▸ hid
      · exact h.2 id' q' hget hr
    · exact h
  · exact h

/-! ### The calls with their errors -/

/-- A fired order that waits to be booked has a time that can be converted. -/
theorem GuardedBut.triggerDated {t : Triggered} {out : List Triggered}
    (h : GuardedBut v (t :: out) e) : TriggerDated t e := by
  obtain ⟨⟨p, -, hwatched⟩, -⟩ := h
  exact Or.inr (hwatched.awaiting t List.mem_cons_self).dated

theorem GuardedBut.firedDated {fired : List Triggered} (h : GuardedBut v fired e) (now : Time) :
    FiredDated now fired e := by
  induction fired generalizing e with
  | nil => trivial
  | cons t rest ih => exact ⟨h.triggerDated, ih (h.bookTriggered now)⟩

theorem syncDated_of_clear (s : Symbol) (h : Guarded v e) (hclear : SyncClear v s e) :
    SyncDated c s e := by
  obtain ⟨⟨p, hprot, hwatched⟩, -⟩ := h
  intro p' current hp' hsell hget hno t ht
  rw [hprot] at hp'
  cases hp'
  obtain ⟨hcancelled, -⟩ := watched_cancel s _ hwatched (hclear p current hprot hsell hget hno)
  rw [Option.mem_def.mp ht] at hcancelled
  exact Or.inr (hcancelled.awaiting t (List.mem_singleton_self t)).dated

theorem syncsDated_of_clear (now : Time) {symbols : List Symbol} (h : Guarded v e)
    (hclear : SyncsClear v now symbols e) : SyncsDated c now symbols e := by
  induction symbols generalizing e with
  | nil => trivial
  | cons s rest ih =>
      exact ⟨syncDated_of_clear s h hclear.1, ih (guarded_syncProtection s now h hclear.1) hclear.2⟩

theorem watchDated_of_clear (now : Time) (h : Guarded v e) (hclear : WatchClear v now e) :
    WatchDated c now e := by
  obtain ⟨⟨p, hprot, hwatched⟩, hordinary⟩ := h
  intro p' hp'
  rw [hprot] at hp'
  cases hp'
  obtain ⟨hpolls, hsyncs⟩ := hclear p hprot
  have hpolled := GuardedBut.protected hordinary (watched_poll hwatched hpolls)
  exact ⟨hpolled.firedDated now, syncsDated_of_clear now (hpolled.bookFired now) hsyncs⟩

/-- A sync that meets its condition does not raise. -/
theorem datedSyncProtection_of_clear (s : Symbol) (now : Time) (h : Guarded v e)
    (hclear : SyncClear v s e) :
    datedSyncProtection c s now e = (.ok (), syncProtection c s now e) :=
  (raisesUnless_syncProtection c s now e).done (syncDated_of_clear s h hclear)

theorem datedWithdrawProtection_of_clear (s : Symbol) (now : Time) (h : Guarded v e)
    (hclear : WithdrawClear v s e) :
    datedWithdrawProtection c s now e = (.ok (), withdrawProtection c s now e) := by
  obtain ⟨⟨p, hprot, hwatched⟩, -⟩ := h
  obtain ⟨hcancelled, -⟩ := watched_cancel s _ hwatched (hclear p hprot)
  unfold datedWithdrawProtection withdrawProtection
  rw [hprot]
  dsimp only
  rcases hcancel : cancel c s p e.world with ⟨found, p', w'⟩
  rw [hcancel] at hcancelled
  cases found with
  | none => rfl
  | some t =>
      have hdated := (hcancelled.awaiting t (List.mem_singleton_self t)).dated
      exact (raisesUnless_bookTriggered c _ t now).done (Or.inr hdated)

/-- An order that is reconciled: it raises where its own time cannot be converted, and does what
`reconcileOne` does elsewhere. -/
theorem guarded_datedReconcileOne
    {f : OrderId → Symbol → W → Except PyError (Option RawOrder) × W} (hf : c.fetchOrder = some f)
    {id : OrderId} (q : PendingOrder) (now : Time) (h : Guarded v e)
    (hid : ∀ a, id ≠ v.childOf a) (hclear : SettleClear v f now id q e) :
    Guarded v (datedReconcileOne c f id q now e).2 ∧
      ∀ r, (datedReconcileOne c f id q now e).1 = .ok r →
        (datedReconcileOne c f id q now e).2 = (reconcileOne c f id q now e).2 := by
  have hwhole := guarded_reconcileOne hf q now h hid hclear
  have hlater := v.later (pollOrder_spec c hf e id q now).1.world
  obtain ⟨w, hworld⟩ := pollOrder_world (c := c) (f := f) e id q now
  have hpolled : Guarded v (pollOrder c f e id q now).2 := by
    rw [hworld] at hlater ⊢
    exact h.world hlater
  unfold datedReconcileOne reconcileOne at *
  rcases hpoll : pollOrder c f e id q now with ⟨answer, e₁⟩
  rw [hpoll] at hpolled hwhole
  cases answer with
  | none => exact ⟨hpolled, fun _ _ => rfl⟩
  | some answer =>
      obtain ⟨raw, status, quantity, reason⟩ := answer
      dsimp only at hwhole ⊢
      by_cases hs : status = .pending
      · rw [if_pos hs, if_pos hs]
        exact ⟨hpolled, fun _ _ => rfl⟩
      rw [if_neg hs] at hwhole
      rw [if_neg hs, if_neg hs]
      split
      · exact ⟨hpolled.ensureMarkets, fun r hr => (nomatch hr)⟩
      · rw [datedSyncProtection_of_clear q.symbol now
          (guarded_settle q raw status quantity reason now hpolled.ensureMarkets hid)
          (hclear raw status quantity reason e₁ hpoll hs)]
        exact ⟨hwhole, fun _ _ => rfl⟩

theorem guarded_datedReconcileEach
    {f : OrderId → Symbol → W → Except PyError (Option RawOrder) × W} (hf : c.fetchOrder = some f)
    (now : Time) {entries : List (OrderId × PendingOrder)} (h : Guarded v e)
    (hentries : ∀ entry ∈ entries, entry.2.resolved = none → ∀ a, entry.1 ≠ v.childOf a)
    (hclear : ReconcilesClear v f now entries e) :
    Guarded v (datedReconcileEach c f now entries e).2 := by
  induction entries generalizing e with
  | nil => exact h
  | cons entry rest ih =>
      obtain ⟨id, q⟩ := entry
      have hothers := fun entry hmem => hentries entry (List.mem_cons_of_mem (id, q) hmem)
      obtain ⟨hsettle, hloop⟩ := hclear
      unfold reconcileEntry at hloop
      unfold datedReconcileEach
      by_cases hr : q.resolved.isSome = true
      · rw [if_pos hr] at hloop ⊢
        exact ih h hothers hloop
      · have hnone : q.resolved = none := by simpa using hr
        rw [if_neg hr] at hloop ⊢
        obtain ⟨hone, hstate⟩ := guarded_datedReconcileOne hf q now h
          (hentries (id, q) List.mem_cons_self hnone) (hsettle hnone)
        refine andThen_state hone fun r hret => ?_
        have hrest : Guarded v
            (datedReconcileEach c f now rest (datedReconcileOne c f id q now e).2).2 := by
          refine ih hone hothers ?_
          rw [hstate r hret]
          exact hloop
        exact andThen_state hrest fun _ _ => hrest

theorem guarded_datedReconcileOpenOrders (now : Time) (h : Guarded v e)
    (hclear : ReconcileClear v now e) : Guarded v (datedReconcileOpenOrders c now e).2 := by
  have hwatch := guarded_watchProtection now h hclear.1
  have hloop := hclear.2
  unfold datedReconcileOpenOrders
  rw [(raisesUnless_watchProtection c now e).done (watchDated_of_clear now h hclear.1), andThen_ok]
  generalize watchProtection c now e = e₁ at hwatch hloop ⊢
  dsimp only
  split_ifs
  · exact hwatch
  · cases hf : c.fetchOrder with
    | none => exact hwatch
    | some f =>
        have hall : Guarded v (datedReconcileEach c f now e₁.openOrders.entries e₁).2 := by
          refine guarded_datedReconcileEach hf now hwatch (fun entry hmem hr => ?_) (hloop f hf)
          exact hwatch.2 entry.1 entry.2 ((e₁.openOrders.mem_entries_iff _ _).mp hmem) hr
        exact andThen_state hall fun _ _ => hall

theorem guarded_datedClosePlacement (req : OrderRequest) {id : OrderId} (amount : ℚ)
    (limit : Option ℚ) (raw : RawOrder) (now : Time) (h : Guarded v e)
    (hid : ∀ a, id ≠ v.childOf a) (hclear : CloseClear v req id amount limit raw now e) :
    Guarded v (datedClosePlacement c e req id amount limit raw now).2 := by
  unfold datedClosePlacement
  dsimp only
  split
  · exact h
  · split
    · rename_i price hs hp
      have hbooked := guarded_bookPlaced req
        (placedResult req id amount limit raw now).quantity price raw h hid
      have hsync := guarded_syncProtection _ now hbooked (hclear price hs hp)
      rw [datedSyncProtection_of_clear _ now hbooked (hclear price hs hp)]
      exact hsync
    · exact guarded_closePlacement req amount limit raw now h hid hclear

theorem guarded_datedAcceptAnswer (req : OrderRequest) (amount : ℚ) (limit : Option ℚ)
    {raw : RawOrder} (now : Time) (h : Guarded v e) (hid : ∀ a, raw.orderId ≠ v.childOf a)
    (hclear : AnswerClear v req amount limit raw now e) :
    Guarded v (datedAcceptAnswer c e req amount limit raw now).2 := by
  unfold datedAcceptAnswer
  unfold AnswerClear at hclear
  dsimp only at hclear ⊢
  have hsent : Guarded v { e with orderSymbols := e.orderSymbols.set raw.orderId req.symbol } :=
    h.step rfl rfl (fun _ => rfl) (Finset.Subset.refl _) h.2
  split_ifs at hclear ⊢
  · obtain ⟨w, hpolled, hlater, -⟩ := confirmPlaced_spec c
      { e with orderSymbols := e.orderSymbols.set raw.orderId req.symbol }
      raw.orderId req.symbol raw
    refine guarded_datedClosePlacement req amount limit _ now ?_ hid hclear
    rw [hpolled]
    exact hsent.world (v.later hlater)
  · exact guarded_datedClosePlacement req amount limit raw now hsent hid hclear

theorem guarded_datedPlaceOrder (req : OrderRequest) (stamp : Stamp) (h : Guarded v e)
    (hclear : PlaceClear v req stamp.now e) : Guarded v (e.datedPlaceOrder c req stamp).2 := by
  obtain ⟨hwithdraw, hanswer⟩ := hclear
  have hready : Guarded v (if req.side = .sell then
      withdrawProtection c req.symbol stamp.now (e.ensureMarkets c) else e.ensureMarkets c) := by
    split_ifs with hsell
    · exact guarded_withdrawProtection _ _ h.ensureMarkets (hwithdraw hsell)
    · exact h.ensureMarkets
  have hfirst : (if req.side = .sell then
      datedWithdrawProtection c req.symbol stamp.now (e.ensureMarkets c)
        else (.ok (), e.ensureMarkets c)) = (.ok (), if req.side = .sell then
      withdrawProtection c req.symbol stamp.now (e.ensureMarkets c) else e.ensureMarkets c) := by
    split_ifs with hsell
    · exact datedWithdrawProtection_of_clear _ _ h.ensureMarkets (hwithdraw hsell)
    · rfl
  unfold datedPlaceOrder
  dsimp only at hanswer ⊢
  rw [hfirst, andThen_ok]
  generalize (if req.side = .sell then
      withdrawProtection c req.symbol stamp.now (e.ensureMarkets c) else e.ensureMarkets c)
    = e₁ at hready hanswer ⊢
  cases hs : e₁.sendableAmount c req with
  | error reason => exact hready
  | ok amount =>
      dsimp only
      have hordered := v.ordered req.symbol (e₁.orderTerms c req.symbol req.side req.price).1
        req.side amount (e₁.orderTerms c req.symbol req.side req.price).2 e₁.world
      rcases hc : c.createOrder req.symbol (e₁.orderTerms c req.symbol req.side req.price).1
        req.side amount (e₁.orderTerms c req.symbol req.side req.price).2 e₁.world with ⟨r, w⟩
      rw [hc] at hordered
      cases r with
      | error err => exact hready.world hordered
      | ok answer =>
          exact guarded_datedAcceptAnswer req amount _ stamp.now (hready.world hordered)
            (v.created hc) (hanswer amount answer w hs hc)

/-! ### Other calls -/

/-- Fewer orders are tracked. -/
theorem GuardedBut.forget (h : Guarded v e) (id : OrderId) :
    Guarded v { e with openOrders := e.openOrders.erase id } := by
  refine h.step rfl rfl (fun _ => rfl) (Finset.Subset.refl _) ?_
  intro id' q hget
  change (e.openOrders.erase id).get? id' = some q at hget
  rw [Dict.get?_erase] at hget
  split_ifs at hget
  exact h.2 id' q hget

theorem guarded_confirmReconciled (h : Guarded v e) (id : OrderId) :
    Guarded v (e.confirmReconciled id) := by
  unfold confirmReconciled
  split
  · split_ifs
    · exact h.forget id
    · exact h
  · exact h

theorem guarded_cancelOrder (h : Guarded v e) (id : OrderId) :
    Guarded v (e.cancelOrder c id).2 := by
  unfold cancelOrder
  split
  · exact h
  · rename_i s _
    have hcall := v.call (VenueCall.cancelOrder (c := c) id s e.world)
    split
    · rename_i heq
      rw [heq] at hcall
      exact h.world hcall
    · rename_i heq
      rw [heq] at hcall
      exact (h.world hcall).forget id

theorem guarded_getPositions (h : Guarded v e) : Guarded v (e.getPositions c).2 := by
  have hdust : ∀ (symbols : List Symbol) {e : CcxtExecutor W}, Guarded v e →
      Guarded v (symbols.foldl (fun e s => e.writeOffDust s) e) := by
    intro symbols
    induction symbols with
    | nil => exact fun h => h
    | cons s rest ih => exact fun h => ih (h.writeOffDust s)
  unfold getPositions
  dsimp only
  exact (hdust _ h.ensureMarkets).world (v.call (VenueCall.fetchBalance _))

theorem guarded_getCash (h : Guarded v e) : Guarded v (e.getCash c).2 := by
  have hcall := v.call (VenueCall.fetchFreeBalance (c := c) e.world)
  unfold getCash
  split
  · rename_i heq
    rw [heq] at hcall
    exact h.world hcall
  · rename_i heq
    rw [heq] at hcall
    exact h.world hcall

theorem guarded_updatePrice (h : Guarded v e) (s : Symbol) (price : ℚ) :
    Guarded v (e.updatePrice s price) := by
  unfold updatePrice
  split_ifs
  · exact h.step rfl rfl (fun _ => rfl) (Finset.Subset.refl _) h.2
  · exact h

end Guarded

/-! ## Startup -/

section Startup

variable {c : ExchangeClient W} (v : AlgoVenue c)

/-- What storage holds at startup: the child orders it names are those of protective orders that
exist, and the orders it holds as pending are no child orders. -/
structure StoredIds (w : W) (fills : List FillRecord) (pending : List PendingOrderRecord) :
    Prop where
  fills : ∀ f ∈ fills, ∀ a, f.orderId = some (v.childOf a) → a ∈ v.algos w
  pending : ∀ o ∈ pending, ∀ a, o.orderId ≠ v.childOf a

/-- Nothing is placed yet, and no child of an order still to come is known. -/
structure Unplaced (e : CcxtExecutor W) : Prop where
  protection : e.protection = some ProtectiveOrders.create
  fresh : ∀ id, id ∉ v.algos e.world → Unbooked v id e.knownOrderIds e.journal
  ordinary : Ordinary v e

/-- The executor of a new process, with what storage gives it. -/
def loaded (w : W) (quote : String) (orders : VenueOrderSettings) (fills : List FillRecord)
    (pending : List PendingOrderRecord) (now : Time) : CcxtExecutor W :=
  ((create w quote orders).loadFills fills).loadPendingOrders pending now

/-- The condition on `restore_protection`: on its syncs, if it gets there. -/
def RestoreClear (now : Time) (e : CcxtExecutor W) : Prop :=
  let e := e.ensureMarkets c
  let r := ProtectiveOrders.adopt c e.knownOrderIds e.tracker.symbols e.world
  let e := { e with world := r.2 }
  FiredDated now r.1 e →
    SyncsClear v now (bookFired now r.1 e).tracker.symbols (bookFired now r.1 e)

variable {v} {e : CcxtExecutor W}

theorem Unplaced.guarded (h : Unplaced v e) : Guarded v e :=
  ⟨⟨ProtectiveOrders.create, h.protection,
    { live := fun s order hget => by cases hget
      apart := fun s s' order order' hget => by cases hget
      awaiting := fun t ht => by cases ht
      once := List.nodup_nil
      issued := fun id hid => by cases hid
      fresh := h.fresh
      kept := fun id hid => by cases hid }⟩, h.ordinary⟩

theorem unplaced_loaded {w : W} (quote : String) {orders : VenueOrderSettings}
    {fills : List FillRecord} {pending : List PendingOrderRecord} (now : Time)
    (hon : orders.protectiveOrders = true) (hstored : StoredIds v w fills pending) :
    Unplaced v (loaded w quote orders fills pending now) := by
  have hfills : Unplaced v ((create w quote orders).loadFills fills) := by
    refine ⟨?_, fun id hid => ⟨fun hmem => ?_, rfl⟩, fun id q hget => by cases hget⟩
    · show (if orders.protectiveOrders then some ProtectiveOrders.create else none) = _
      rw [if_pos hon]
    · obtain ⟨f, hf, hid'⟩ := List.mem_filterMap.mp ((List.mem_append.mp hmem).resolve_right
        List.not_mem_nil)
      exact hid (hstored.fills f hf id (Option.mem_filter_iff.mp hid').1)
  have hpending := hstored.pending
  unfold loaded loadPendingOrders
  generalize (create w quote orders).loadFills fills = e₀ at hfills
  induction pending generalizing e₀ with
  | nil => exact hfills
  | cons o rest ih =>
      refine ih ⟨hstored.fills, fun o' ho' => hstored.pending o' (List.mem_cons_of_mem _ ho')⟩
        (fun o' ho' => hpending o' (List.mem_cons_of_mem _ ho')) _ ?_
      have ho := hpending o List.mem_cons_self
      dsimp only
      split_ifs
      · exact hfills
      · refine ⟨hfills.protection,
          fun id hid => ⟨fun hmem => ?_, (hfills.fresh id hid).journal⟩, ?_⟩
        · exact (List.mem_cons.mp hmem).elim (fun he => ho id he.symm) (hfills.fresh id hid).known
        · intro id q hget hr
          change (e₀.openOrders.setDefault o.orderId _).get? id = some q at hget
          rw [Dict.get?_setDefault] at hget
          split_ifs at hget with he
          · exact he ▸ ho
          · exact hfills.ordinary id q hget hr

/-- The closed orders the venue lists name child orders of protective orders that exist. -/
theorem listed_spec (s : Symbol) (n : ℕ) (w : W) :
    v.algos w ⊆ v.algos (listed (c.fetchClosedAlgos s n) w).2 ∧
      ∀ raw ∈ (listed (c.fetchClosedAlgos s n) w).1, raw.isOurs = true →
        raw.algoState = "effective" → raw.childId ≠ "" →
          ∃ a ∈ v.algos (listed (c.fetchClosedAlgos s n) w).2, raw.childId = v.childOf a := by
  have h₁ := v.call (VenueCall.fetchClosedAlgos (c := c) s n .oco w)
  have h₂ := v.call (VenueCall.fetchClosedAlgos (c := c) s n .conditional
    (c.fetchClosedAlgos s n .oco w).2)
  refine ⟨h₁.trans h₂, fun raw hraw hours hstate hid => ?_⟩
  have hread : ∀ (k : AlgoKind) (w : W), raw ∈ ((c.fetchClosedAlgos s n k w).1.toOption.getD []) →
      ∃ a ∈ v.algos (c.fetchClosedAlgos s n k w).2, raw.childId = v.childOf a := by
    intro k w hmem
    rcases hcall : c.fetchClosedAlgos s n k w with ⟨answer, w'⟩
    rw [hcall] at hmem
    cases answer with
    | error err => cases hmem
    | ok l => exact v.closed hcall raw hmem hours hstate hid
  rcases List.mem_append.mp hraw with hmem | hmem
  · obtain ⟨a, ha, he⟩ := hread _ _ hmem
    exact ⟨a, h₂ ha, he⟩
  · exact hread _ _ hmem

theorem adoptClosed_spec (s : Symbol) (known : List OrderId) {raws : List RawAlgo} {w : W}
    (hraws : ∀ raw ∈ raws, raw.isOurs = true → raw.algoState = "effective" → raw.childId ≠ "" →
      ∃ a ∈ v.algos w, raw.childId = v.childOf a) :
    v.algos w ⊆ v.algos (adoptClosed c s known raws w).2 ∧
      ∀ t ∈ (adoptClosed c s known raws w).1,
        ∃ a ∈ v.algos (adoptClosed c s known raws w).2, t.childId = v.childOf a := by
  induction raws generalizing w with
  | nil => exact ⟨Finset.Subset.refl _, fun t ht => by cases ht⟩
  | cons raw rest ih =>
      have hrest := fun raw' (hraw : raw' ∈ rest) => hraws raw' (List.mem_cons_of_mem _ hraw)
      unfold adoptClosed
      by_cases hskip : raw.isOurs = false ∨ raw.algoState ≠ "effective" ∨ raw.childId = ""
          ∨ raw.childId ∈ known
      · rw [if_pos hskip]
        exact ih hrest
      · rw [if_neg hskip]
        simp only [not_or, Bool.not_eq_false, not_not] at hskip
        obtain ⟨hours, hstate, hid, -⟩ := hskip
        obtain ⟨a, ha, hchild⟩ := hraws raw List.mem_cons_self hours hstate hid
        obtain ⟨hlater, hfound⟩ :=
          checkChild_spec c ⟨orText raw.id "", s, 0, none, none⟩ raw w
        have hsub := v.later hlater
        obtain ⟨hsub', hfound'⟩ := ih fun raw' hraw h1 h2 h3 =>
          (hrest raw' hraw h1 h2 h3).imp fun a ha => ⟨hsub ha.1, ha.2⟩
        refine ⟨hsub.trans hsub', fun t ht => ?_⟩
        rcases List.mem_append.mp ht with ht | ht
        · exact ⟨a, hsub' (hsub ha), (hfound t (Option.mem_toList.mp ht)).1.trans hchild⟩
        · exact hfound' t ht

theorem algos_withdrawOpen (s : Symbol) (raws : List RawAlgo) (w : W) :
    v.algos w ⊆ v.algos (withdrawOpen c s raws w) := by
  induction raws generalizing w with
  | nil => exact Finset.Subset.refl _
  | cons raw rest ih =>
      unfold withdrawOpen
      split_ifs
      · exact (v.call (VenueCall.cancelAlgo _ s w)).trans (ih _)
      · exact ih w

/-- What `adopt` finds are child orders of protective orders that exist. -/
theorem adopt_spec (known : List OrderId) (symbols : List Symbol) (w : W) :
    v.algos w ⊆ v.algos (adopt c known symbols w).2 ∧
      ∀ t ∈ (adopt c known symbols w).1,
        ∃ a ∈ v.algos (adopt c known symbols w).2, t.childId = v.childOf a := by
  induction symbols generalizing w with
  | nil => exact ⟨Finset.Subset.refl _, fun t ht => by cases ht⟩
  | cons s rest ih =>
      unfold adopt
      dsimp only
      obtain ⟨h₁, hclosed⟩ := listed_spec (v := v) s 100 w
      obtain ⟨h₂, hfound⟩ := adoptClosed_spec s known hclosed
      generalize adoptClosed c s known (listed (c.fetchClosedAlgos s 100) w).1
        (listed (c.fetchClosedAlgos s 100) w).2 = fired at h₂ hfound ⊢
      have h₃ : v.algos fired.2 ⊆ v.algos (listed (c.fetchOpenAlgos s) fired.2).2 :=
        (v.call (VenueCall.fetchOpenAlgos s .oco _)).trans
          (v.call (VenueCall.fetchOpenAlgos s .conditional _))
      have h₄ := algos_withdrawOpen (v := v) s (listed (c.fetchOpenAlgos s) fired.2).1
        (listed (c.fetchOpenAlgos s) fired.2).2
      obtain ⟨h₅, hrest⟩ := ih (withdrawOpen c s (listed (c.fetchOpenAlgos s) fired.2).1
        (listed (c.fetchOpenAlgos s) fired.2).2)
      have hafter := h₃.trans (h₄.trans h₅)
      refine ⟨h₁.trans (h₂.trans hafter), fun t ht => ?_⟩
      rcases List.mem_append.mp ht with ht | ht
      · obtain ⟨a, ha, hchild⟩ := hfound t ht
        exact ⟨a, hafter ha, hchild⟩
      · exact hrest t ht

/-- The child of an order that exists is booked before anything is placed. -/
theorem Unplaced.bookTriggered (h : Unplaced v e) {t : Triggered} (now : Time)
    (hchild : ∃ a ∈ v.algos e.world, t.childId = v.childOf a) :
    Unplaced v (e.bookTriggered t now) ∧ (e.bookTriggered t now).world = e.world := by
  by_cases hk : t.childId ∈ e.knownOrderIds
  · unfold CcxtExecutor.bookTriggered
    rw [if_pos hk]
    exact ⟨h, rfl⟩
  · have hworld : (e.bookTriggered t now).world = e.world := by
      unfold CcxtExecutor.bookTriggered
      rw [if_neg hk]
      exact ((frame_bookChild _ t now).trans (frame_dropFlatLevels _ t.symbol)).world
    obtain ⟨a, ha, hchild⟩ := hchild
    obtain ⟨r, -, horders⟩ := e.openOrders_bookTriggered t now hk
    refine ⟨⟨(protection_bookTriggered e t now).trans h.protection, ?_, ?_⟩, hworld⟩
    · intro id hid
      rw [hworld] at hid
      have hne : t.childId ≠ v.childOf id := by
        intro he
        obtain rfl := v.childOf_inj (hchild.symm.trans he)
        exact hid ha
      obtain ⟨hknown, hjournal⟩ := h.fresh id hid
      refine ⟨?_, (e.fillsOf_bookTriggered_ne t now hne).trans hjournal⟩
      rw [e.knownOrderIds_bookTriggered t now hk]
      exact fun hmem => (List.mem_cons.mp hmem).elim hne.symm hknown
    · intro id q hget hr
      rw [horders, Dict.get?_set] at hget
      split_ifs at hget
      · cases hget
        cases hr
      · exact h.ordinary id q hget hr

/-- The same where the time of the child may not be converted. -/
theorem Unplaced.datedBookTriggered (h : Unplaced v e) {t : Triggered} (now : Time)
    (hchild : ∃ a ∈ v.algos e.world, t.childId = v.childOf a) :
    Unplaced v (e.datedBookTriggered t now).2 ∧
      (e.datedBookTriggered t now).2.world = e.world := by
  unfold CcxtExecutor.datedBookTriggered
  split_ifs
  · exact ⟨h, rfl⟩
  · split
    · refine ⟨⟨h.protection, fun id hid => ⟨fun hmem => ?_, (h.fresh id hid).journal⟩,
        h.ordinary⟩, rfl⟩
      obtain ⟨a, ha, hchild⟩ := hchild
      refine (List.mem_cons.mp hmem).elim (fun heq => ?_) (h.fresh id hid).known
      obtain rfl := v.childOf_inj (heq.trans hchild)
      exact hid ha
    · exact h.bookTriggered now hchild

theorem Unplaced.datedBookFired (h : Unplaced v e) {fired : List Triggered} (now : Time)
    (hchild : ∀ t ∈ fired, ∃ a ∈ v.algos e.world, t.childId = v.childOf a) :
    Unplaced v (datedBookFired now fired e).2 := by
  refine (forEach_state (I := fun e' => Unplaced v e' ∧ e'.world = e.world) ?_ ⟨h, rfl⟩).1
  rintro t ht e' ⟨h', hworld⟩
  obtain ⟨hnext, hsame⟩ := h'.datedBookTriggered now (t := t) (by
    rw [hworld]
    exact hchild t ht)
  exact ⟨hnext, hsame.trans hworld⟩

/-- Another world in which no fewer protective orders exist. -/
theorem Unplaced.later (h : Unplaced v e) {w : W} (hw : v.algos e.world ⊆ v.algos w) :
    Unplaced v { e with world := w } :=
  ⟨h.protection, fun id hid => h.fresh id fun hmem => hid (hw hmem), h.ordinary⟩

theorem Unplaced.ensureMarkets (h : Unplaced v e) : Unplaced v (e.ensureMarkets c) := by
  have hq := quietly_ensureMarkets c e
  refine ⟨(protection_ensureMarkets e).trans h.protection, fun id hid => ?_, fun id q hget => ?_⟩
  · rw [hq.knownOrderIds, hq.journal]
    exact h.fresh id fun hmem => hid (v.later hq.world hmem)
  · rw [hq.openOrders] at hget
    exact h.ordinary id q hget

/-- Startup ends with the invariant, whether or not it raises. -/
theorem guarded_datedRestoreProtection (now : Time) (h : Unplaced v e)
    (hclear : RestoreClear v now e) : Guarded v (datedRestoreProtection c now e).2 := by
  unfold datedRestoreProtection
  rw [h.protection]
  obtain ⟨hsub, hfound⟩ := adopt_spec (v := v) (e.ensureMarkets c).knownOrderIds
    (e.ensureMarkets c).tracker.symbols (e.ensureMarkets c).world
  have hbooked := (h.ensureMarkets.later hsub).datedBookFired now hfound
  refine andThen_state hbooked.guarded fun u hu => ?_
  -- Where the bookings did not raise, they are those of the condition.
  obtain ⟨hdated, hsame⟩ := datedBookFired_ok c hu
  have hsyncs := hclear hdated
  rw [hsame] at hbooked ⊢
  rw [(raisesUnless_syncEach c now _ _).done (syncsDated_of_clear now hbooked.guarded hsyncs)]
  exact guarded_syncEach now _ hbooked.guarded hsyncs

theorem journal_loaded (w : W) (quote : String) (orders : VenueOrderSettings)
    (fills : List FillRecord) (pending : List PendingOrderRecord) (now : Time) :
    (loaded w quote orders fills pending now).journal = [] := by
  have hkeep : ∀ e : CcxtExecutor W, (e.loadPendingOrders pending now).journal = e.journal := by
    unfold loadPendingOrders
    induction pending with
    | nil => exact fun _ => rfl
    | cons o rest ih =>
        intro e
        rw [List.foldl_cons, ih]
        split_ifs <;> rfl
  exact hkeep _

end Startup

/-! ## Runs -/

/-- A call of the executor, or a move of the venue. -/
inductive ExecutorCall (W : Type) where
  | venue (w : W)
  | place (req : OrderRequest) (stamp : Stamp)
  | reconcile (now : Time)
  | confirm (id : OrderId)
  | cancel (id : OrderId)
  | positions
  | cash
  | price (symbol : Symbol) (price : ℚ)

section Run

variable {c : ExchangeClient W} (v : AlgoVenue c)

def callStep (c : ExchangeClient W) : ExecutorCall W → CcxtExecutor W → CcxtExecutor W
  | .venue w, e => { e with world := w }
  | .place req stamp, e => (e.datedPlaceOrder c req stamp).2
  | .reconcile now, e => (datedReconcileOpenOrders c now e).2
  | .confirm id, e => e.confirmReconciled id
  | .cancel id, e => (e.cancelOrder c id).2
  | .positions, e => (e.getPositions c).2
  | .cash, e => (e.getCash c).2
  | .price symbol price, e => e.updatePrice symbol price

/-- The condition on a call. Of a move of the venue it says that no id is forgotten. -/
def CallClear : ExecutorCall W → CcxtExecutor W → Prop
  | .venue w, e => v.algos e.world ⊆ v.algos w
  | .place req stamp, e => PlaceClear v req stamp.now e
  | .reconcile now, e => ReconcileClear v now e
  | _, _ => True

variable {v}

theorem guarded_call (call : ExecutorCall W) (e : CcxtExecutor W) (hclear : CallClear v call e)
    (h : Guarded v e) : Guarded v (callStep c call e) := by
  cases call with
  | venue w => exact h.world hclear
  | place req stamp => exact guarded_datedPlaceOrder req stamp h hclear
  | reconcile now => exact guarded_datedReconcileOpenOrders now h hclear
  | confirm id => exact guarded_confirmReconciled h id
  | cancel id => exact guarded_cancelOrder h id
  | positions => exact guarded_getPositions h
  | cash => exact guarded_getCash h
  | price symbol price => exact guarded_updatePrice h symbol price

theorem GuardedBut.kept {e : CcxtExecutor W} (h : Guarded v e) : NoneLost v e := by
  obtain ⟨⟨p, hprot, hwatched⟩, -⟩ := h
  intro p' hp' id hid hgone
  rw [hprot] at hp'
  cases hp'
  rcases hwatched.kept id hid hgone with hlive | ⟨t, ht, -⟩ | hbooked
  · exact Or.inl hlive
  · cases ht
  · exact Or.inr hbooked

/-- The ledger follows the journal in every call. -/
theorem journaled_call (call : ExecutorCall W) (e : CcxtExecutor W) :
    Journaled e (callStep c call e) := by
  cases call with
  | venue w => exact journaled_of_same rfl rfl
  | place req stamp => exact journaled_datedPlaceOrder c e req stamp
  | reconcile now => exact journaled_datedReconcileOpenOrders c now e
  | confirm id =>
      show Journaled e (e.confirmReconciled id)
      rcases e.confirmReconciled_cases id with ⟨-, he⟩ | ⟨-, he⟩
      · rw [he]
        exact journaled_of_same rfl rfl
      · rw [he]
        exact Journaled.refl e
  | cancel id =>
      show Journaled e (e.cancelOrder c id).2
      unfold cancelOrder
      split
      · exact Journaled.refl e
      · split <;> exact journaled_of_same rfl rfl
  | positions => exact (asides_getPositions c e).journaled
  | cash => exact (asides_getCash c e).journaled
  | price symbol price => exact (asides_updatePrice c e symbol price).journaled

variable (v) in
/-- Whenever the venue is asked about an order, it shows its child filled for good. -/
def AlwaysShows : Prop :=
  ∀ order w, ∃ child, Shows c order w child ∧ orNumber child.filled 0 ≠ 0 ∧ ShownFinal v order w

theorem AlwaysShows.cancelClear (h : AlwaysShows v) (s : Symbol) (replaced : W → Prop)
    (p : ProtectiveOrders) (w : W) : CancelClear v s replaced p w := by
  intro order err w' _ _
  obtain ⟨child, hshows, hfilled, hfinal⟩ := h order w'
  exact ⟨hfinal, Or.inl ⟨child, hshows, hfilled⟩⟩

theorem AlwaysShows.syncClear (h : AlwaysShows v) (s : Symbol) (e : CcxtExecutor W) :
    SyncClear v s e :=
  fun p _ _ _ _ _ => h.cancelClear s _ p e.world

theorem AlwaysShows.syncsClear (h : AlwaysShows v) (now : Time) (symbols : List Symbol)
    (e : CcxtExecutor W) : SyncsClear v now symbols e :=
  EachStep.of_forall h.syncClear symbols e

theorem AlwaysShows.answerClear (h : AlwaysShows v) (req : OrderRequest) (amount : ℚ)
    (limit : Option ℚ) (raw : RawOrder) (now : Time) (e : CcxtExecutor W) :
    AnswerClear v req amount limit raw now e :=
  fun _ _ _ => h.syncClear _ _

/-- Such a venue meets the condition on every call. -/
theorem AlwaysShows.callClear (h : AlwaysShows v) {call : ExecutorCall W}
    (hcall : ∀ w, call ≠ .venue w) (e : CcxtExecutor W) : CallClear v call e := by
  cases call with
  | venue w => exact absurd rfl (hcall w)
  | place req stamp =>
      exact ⟨fun _ p _ => h.cancelClear _ _ p _, fun amount answer w _ _ =>
        h.answerClear req amount _ _ stamp.now _⟩
  | reconcile now =>
      refine ⟨fun p _ => ⟨EachStep.of_forall ?_ _ _, h.syncsClear now _ _⟩, ?_⟩
      · intro entry x w' _
        obtain ⟨child, -, -, hfinal⟩ := h entry.2 w'
        exact hfinal
      · intro f _
        refine EachStep.of_forall ?_ _ _
        intro entry e' _ raw status quantity reason e'' _ _
        exact h.syncClear _ _
  | confirm id => trivial
  | cancel id => trivial
  | positions => trivial
  | cash => trivial
  | price symbol price => trivial

end Run

end CcxtExecutor

/-! ## A venue whose protective orders fire at once -/

namespace FiringVenue

open InstantVenue CcxtExecutor

/-- The child of an order has its id with a letter more. -/
def childOf (id : OrderId) : OrderId := String.ofList ('c' :: id.toList)

theorem childOf_inj {a b : OrderId} (h : childOf a = childOf b) : a = b := by
  have hlist := congrArg String.toList h
  rw [childOf, childOf, String.toList_ofList, String.toList_ofList] at hlist
  exact String.toList_inj.mp (List.cons.inj hlist).2

theorem tradeId_ne_childOf (n : ℕ) (a : OrderId) : tradeId n ≠ childOf a := by
  intro h
  have hlist := congrArg String.toList h
  rw [childOf, tradeId, String.toList_ofList, String.toList_ofList, List.replicate_succ] at hlist
  exact absurd (List.cons.inj hlist).1 (by decide)

/-- A filled order. -/
def filled (id : OrderId) (q price : ℚ) : RawOrder :=
  { RawOrder.empty with
    id := some id
    status := some "closed"
    filled := some q
    average := some price }

/-- The client, which counts the ids it has given. Orders are filled at once, at their limit. Every
protective order has fired, one coin for 90, and cannot be cancelled. Unless it `answers`,
questions about protective orders raise. -/
def client (answers : Bool) : ExchangeClient ℕ where
  createOrder _ _ _ q limit w :=
    (.ok (some (filled (tradeId w) q (limit.getD 1))), w + 1)
  fetchOrder := some fun id _ w => (.ok (some (filled id 1 90)), w)
  cancelOrder _ _ w := (.error (.raised "filled"), w)
  fetchBalance w := (.ok none, w)
  fetchFreeBalance w := (.ok (some (.amount 1000)), w)
  markets _ := none
  loadMarkets := none
  amountToPrecision := none
  priceToPrecision := none
  createAlgo _ _ _ _ _ _ w := (.ok (some (tradeId w)), w + 1)
  fetchAlgo id _ w :=
    (if answers then
      .ok (some { RawAlgo.empty with
        state := some "effective"
        ordId := some (childOf id) })
    else .error (.raised "timeout"), w)
  cancelAlgo _ _ w := (.error (.raised "fired"), w)
  fetchOpenAlgos _ _ w := (.ok [], w)
  fetchClosedAlgos _ _ _ w := (.ok [], w)

def venue (answers : Bool) : AlgoVenue (client answers) where
  algos w := (Finset.range w).image tradeId
  childOf := childOf
  final _ := 1
  childOf_inj := childOf_inj
  call {w w'} h := by
    have hle : w ≤ w' := by
      cases h with
      | fetchOrder hf => cases hf; exact le_rfl
      | loadMarkets hf => cases hf
      | createAlgo => exact Nat.le_succ w
      | _ => exact le_rfl
    exact Finset.image_subset_image (Finset.range_subset_range.mpr hle)
  ordered s t side q limit w :=
    Finset.image_subset_image (Finset.range_subset_range.mpr (Nat.le_succ w))
  created {s t side q limit w answer w'} h a := by
    cases h
    show orText (some (tradeId w)) _ ≠ childOf a
    rw [orText, if_neg (tradeId_ne w)]
    exact tradeId_ne_childOf w a
  placed {s k q a b t w id w'} h := by
    cases h
    rw [orText, if_neg (tradeId_ne w)]
    refine ⟨fun hmem => ?_, Finset.mem_image_of_mem _ (Finset.self_mem_range_succ w)⟩
    obtain ⟨n, hn, he⟩ := Finset.mem_image.mp hmem
    exact absurd (tradeId_inj he) (Finset.mem_range.mp hn).ne
  fired {id s w raw w'} h _ hne := by
    cases answers with
    | false => cases h
    | true =>
        cases h
        unfold RawAlgo.childId orText at hne ⊢
        dsimp only at hne ⊢
        split_ifs with hempty
        · rw [if_pos hempty] at hne
          exact absurd rfl hne
        · rfl
  closed {s n k w l w'} h := by
    cases h
    intro raw hraw
    cases hraw

theorem alwaysShows : AlwaysShows (venue true) := by
  intro order w
  have hne : childOf order.algoId ≠ "" := by
    intro h
    have hlist := congrArg String.toList h
    rw [childOf, String.toList_ofList] at hlist
    cases hlist
  have hid : RawAlgo.childId { RawAlgo.empty with
      state := some "effective"
      ordId := some (childOf order.algoId) } = childOf order.algoId := if_neg hne
  refine ⟨filled (childOf order.algoId) 1 90, ⟨_, w, _, w, rfl, rfl, ?_, rfl, ?_⟩, ?_, ?_⟩
  · rw [hid]
    exact hne
  · rw [hid]
  · show orNumber (some 1) 0 ≠ 0
    decide
  · rintro child ⟨raw, w₁, f, w₂, hfetch, -, -, hf, hchild⟩ -
    cases hf
    cases hchild
    refine ⟨rfl, rfl, ?_⟩
    rintro ms ⟨⟩

def settings : VenueOrderSettings := { VenueOrderSettings.default with protectiveOrders := true }

def buy : OrderRequest := ⟨"BTC/EUR", .buy, 1, some 100, some 1, some 90, none⟩

def sell : OrderRequest := ⟨"BTC/EUR", .sell, 1, some 100, none, none, none⟩

/-- The executor after its startup, with nothing in storage. -/
def start (answers : Bool) : CcxtExecutor ℕ :=
  (datedRestoreProtection (client answers) 0 (loaded 0 "EUR" settings [] [] 0)).2

end FiringVenue

end SmartyTrader
