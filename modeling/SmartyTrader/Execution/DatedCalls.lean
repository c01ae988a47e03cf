import SmartyTrader.Execution.CcxtReconciliation
import SmartyTrader.Lib.Raising

set_option autoImplicit false

/-! # Times that cannot be converted

A payload may carry a time past the year 9999. `_fill_time` then raises, outside of every `try` of
the executor: a reconciliation ends there and returns nothing, a placement books nothing, and a
fired protective order is remembered and not booked. The calls that read a time are written here
with this error. `RaisesUnless` connects them to the calls of `CcxtExecutor`: they do the same where
each time they read can be converted (`ReconcileDated` and the conditions before it), and raise
elsewhere.
-/

namespace SmartyTrader

open Lib TwoPhase

variable {W : Type}

namespace CcxtExecutor

/-! ## The calls -/

/-- The time of a result: it is read of a fill. -/
def datedFilledAt (status : OrderStatus) (raw : RawOrder) (now : Time) :
    Except PyError (Option Time) :=
  if status = .filled then (datedFillTime raw now).map some else .ok none

/-- `_book_triggered`: the child is remembered before its time is read. -/
def datedBookTriggered (e : CcxtExecutor W) (t : Triggered) (now : Time) :
    Except PyError Unit × CcxtExecutor W :=
  if t.childId ∈ e.knownOrderIds then (.ok (), e)
  else
    match datedFillTime t.child now with
    | .error err => (.error err, e.know t.childId)
    | .ok _ => (.ok (), e.bookTriggered t now)

/-- Book a list of fired orders. -/
def datedBookFired (now : Time) (fired : List Triggered) (e : CcxtExecutor W) :
    Except PyError Unit × CcxtExecutor W :=
  forEach (fun t e => e.datedBookTriggered t now) fired e

section Client

variable (c : ExchangeClient W)

/-- `_sync_protection`, with `again` for its call of itself. -/
def datedSyncStep (again : CcxtExecutor W → Except PyError Unit × CcxtExecutor W)
    (symbol : Symbol) (now : Time) (e : CcxtExecutor W) : Except PyError Unit × CcxtExecutor W :=
  match e.protection with
  | none => (.ok (), e)
  | some p =>
      if .sell ∈ e.workingOrderSides symbol then (.ok (), e)
      else
        let wanted := e.wantedProtection c symbol
        match p.get symbol with
        | none => (.ok (), e.placeProtection c p symbol wanted)
        | some current =>
            if wanted.any (fun q => current.matches q.1 q.2) then (.ok (), e)
            else
              match p.cancel c symbol e.world with
              | (some triggered, p, w) =>
                  andThen
                    (CcxtExecutor.datedBookTriggered
                      { e with
                        protection := some p
                        world := w } triggered now)
                    fun _ e => again e
              | (none, p, w) =>
                  (.ok (), CcxtExecutor.placeProtection c
                    { e with world := w } p symbol wanted)

/-- `_sync_protection`. -/
def datedSyncProtection (symbol : Symbol) (now : Time) (e : CcxtExecutor W) :
    Except PyError Unit × CcxtExecutor W :=
  datedSyncStep c (datedSyncStep c (fun e => (.ok (), e)) symbol now) symbol now e

/-- Sync a list of symbols. -/
def datedSyncEach (now : Time) (symbols : List Symbol) (e : CcxtExecutor W) :
    Except PyError Unit × CcxtExecutor W :=
  forEach (fun s e => datedSyncProtection c s now e) symbols e

/-- Withdraw the protective order before a SELL. -/
def datedWithdrawProtection (symbol : Symbol) (now : Time) (e : CcxtExecutor W) :
    Except PyError Unit × CcxtExecutor W :=
  match e.protection with
  | none => (.ok (), e)
  | some p =>
      match p.cancel c symbol e.world with
      | (some triggered, p, w) =>
          CcxtExecutor.datedBookTriggered
            { e with
              protection := some p
              world := w } triggered now
      | (none, p, w) =>
          (.ok (), { e with
            protection := some p
            world := w })

/-- `_watch_protection`. -/
def datedWatchProtection (now : Time) (e : CcxtExecutor W) :
    Except PyError Unit × CcxtExecutor W :=
  match e.protection with
  | none => (.ok (), e)
  | some p =>
      match p.poll c e.world with
      | (fired, p, w) =>
          andThen
            (datedBookFired now fired
              { e with
                protection := some p
                world := w })
            fun _ e => datedSyncEach c now e.tracker.symbols e

/-- `restore_protection`; the start of the agent goes on after an error. -/
def datedRestoreProtection (now : Time) (e : CcxtExecutor W) :
    Except PyError Unit × CcxtExecutor W :=
  match e.protection with
  | none => (.ok (), e)
  | some _ =>
      let e := e.ensureMarkets c
      let r := ProtectiveOrders.adopt c e.knownOrderIds e.tracker.symbols e.world
      andThen (datedBookFired now r.1 { e with world := r.2 })
        fun _ e => datedSyncEach c now e.tracker.symbols e

/-- What `place_order` does with the final word of the venue about the order. -/
def datedClosePlacement (e : CcxtExecutor W) (req : OrderRequest) (orderId : OrderId)
    (amount : ℚ) (limit : Option ℚ) (raw : RawOrder) (now : Time) :
    Except PyError OrderResult × CcxtExecutor W :=
  let result := placedResult req orderId amount limit raw now
  match datedFilledAt result.status raw now with
  | .error err => (.error err, e)
  | .ok _ =>
      match result.status, result.price with
      | .filled, some price =>
          let r := e.bookPlaced req orderId result.quantity price raw
          andThen (datedSyncProtection c req.symbol now r.2)
            fun _ e => (.ok (withFill result (reportedFees raw req.symbol) r.1), e)
      | _, _ =>
          let r := closePlacement c e req orderId amount limit raw now
          (.ok r.1, r.2)

/-- What `place_order` does with the answer of the venue. -/
def datedAcceptAnswer (e : CcxtExecutor W) (req : OrderRequest) (amount : ℚ) (limit : Option ℚ)
    (raw : RawOrder) (now : Time) : Except PyError OrderResult × CcxtExecutor W :=
  let orderId := raw.orderId
  let e := { e with orderSymbols := e.orderSymbols.set orderId req.symbol }
  let polled :=
    if (resolveStatus raw amount).1 = .pending ∧ orderId ≠ "" then
      e.confirmPlaced c orderId req.symbol raw
    else (raw, e)
  datedClosePlacement c polled.2 req orderId amount limit polled.1 now

/-- `place_order`. -/
def datedPlaceOrder (e : CcxtExecutor W) (req : OrderRequest) (stamp : Stamp) :
    Except PyError OrderResult × CcxtExecutor W :=
  let e := e.ensureMarkets c
  andThen (if req.side = .sell then datedWithdrawProtection c req.symbol stamp.now e
      else (.ok (), e))
    fun _ e =>
      match e.sendableAmount c req with
      | .error reason => (.ok (refuse req stamp reason), e)
      | .ok amount =>
          let terms := e.orderTerms c req.symbol req.side req.price
          match c.createOrder req.symbol terms.1 req.side amount terms.2 e.world with
          | (.error err, w) => (.error err, { e with world := w })
          | (.ok raw, w) =>
              datedAcceptAnswer c { e with world := w } req amount terms.2
                (raw.getD RawOrder.empty) stamp.now

/-- One order of the loop of `reconcile_open_orders`: the time of a fill is read before anything
is booked. -/
def datedReconcileOne (fetchOrder : OrderId → Symbol → W → Except PyError (Option RawOrder) × W)
    (orderId : OrderId) (pending : PendingOrder) (now : Time) (e : CcxtExecutor W) :
    Except PyError (Option OrderResult) × CcxtExecutor W :=
  match pollOrder c fetchOrder e orderId pending now with
  | (none, e) => (.ok none, e)
  | (some (raw, status, quantity, reason), e) =>
      if status = .pending then (.ok none, e)
      else
        match datedFilledAt status raw now with
        | .error err => (.error err, e.ensureMarkets c)
        | .ok _ =>
            let r := settle (e.ensureMarkets c) orderId pending raw status quantity reason now
            andThen (datedSyncProtection c pending.symbol now (r.2.resolve orderId pending r.1))
              fun _ e => (.ok (some r.1), e)

/-- The loop of `reconcile_open_orders`. -/
def datedReconcileEach (fetchOrder : OrderId → Symbol → W → Except PyError (Option RawOrder) × W)
    (now : Time) : List (OrderId × PendingOrder) → CcxtExecutor W →
      Except PyError (List OrderResult) × CcxtExecutor W
  | [], e => (.ok [], e)
  | (orderId, pending) :: rest, e =>
      if pending.resolved.isSome then datedReconcileEach fetchOrder now rest e
      else
        andThen (datedReconcileOne c fetchOrder orderId pending now e) fun r e =>
          andThen (datedReconcileEach fetchOrder now rest e) fun rs e => (.ok (r.toList ++ rs), e)

/-- `reconcile_open_orders`. -/
def datedReconcileOpenOrders (now : Time) (e : CcxtExecutor W) :
    Except PyError (List OrderResult) × CcxtExecutor W :=
  andThen (datedWatchProtection c now e) fun _ e =>
    if e.redelivered.length = e.openOrders.entries.length then (.ok e.redelivered, e)
    else
      match c.fetchOrder with
      | none => (.ok [], e)
      | some fetchOrder =>
          andThen (datedReconcileEach c fetchOrder now e.openOrders.entries e)
            fun rs e' => (.ok (e.redelivered ++ rs), e')

end Client

/-! ## The times that a call reads -/

/-- The time of a fired order is not read, or can be converted. -/
def TriggerDated (t : Triggered) (e : CcxtExecutor W) : Prop :=
  t.childId ∈ e.knownOrderIds ∨ t.child.Dated

section Dated

variable (c : ExchangeClient W)

/-- The condition on `_sync_protection`: on the order that turns out to have fired. -/
def SyncDated (symbol : Symbol) (e : CcxtExecutor W) : Prop :=
  ∀ p current, e.protection = some p → .sell ∉ e.workingOrderSides symbol →
    p.get symbol = some current →
    (e.wantedProtection c symbol).any (fun q => current.matches q.1 q.2) = false →
    ∀ t ∈ (p.cancel c symbol e.world).1, TriggerDated t e

/-- The condition on a sync of several symbols. -/
def SyncsDated (now : Time) (symbols : List Symbol) (e : CcxtExecutor W) : Prop :=
  EachStep (fun s e => syncProtection c s now e) (SyncDated c) symbols e

/-- The condition on fired orders that are booked. -/
def FiredDated (now : Time) (fired : List Triggered) (e : CcxtExecutor W) : Prop :=
  EachStep (fun t e => e.bookTriggered t now) TriggerDated fired e

/-- The condition on `_watch_protection`. -/
def WatchDated (now : Time) (e : CcxtExecutor W) : Prop :=
  ∀ p, e.protection = some p →
    let r := p.poll c e.world
    let e := { e with
      protection := some r.2.1
      world := r.2.2 }
    FiredDated now r.1 e ∧
      SyncsDated c now (bookFired now r.1 e).tracker.symbols (bookFired now r.1 e)

/-- The condition on one order that is reconciled: on its fill, and on the sync behind it. -/
def SettleDated (f : OrderId → Symbol → W → Except PyError (Option RawOrder) × W)
    (now : Time) (orderId : OrderId) (pending : PendingOrder) (e : CcxtExecutor W) : Prop :=
  ∀ raw status quantity reason e',
    pollOrder c f e orderId pending now = (some (raw, status, quantity, reason), e') →
    status ≠ .pending →
      (status = .filled → raw.Dated) ∧
        let r := settle (e'.ensureMarkets c) orderId pending raw status quantity reason now
        SyncDated c pending.symbol (r.2.resolve orderId pending r.1)

/-- One order of the loop of `reconcile_open_orders` as a step. -/
def reconcileEntry (f : OrderId → Symbol → W → Except PyError (Option RawOrder) × W) (now : Time)
    (entry : OrderId × PendingOrder) (e : CcxtExecutor W) : CcxtExecutor W :=
  if entry.2.resolved.isSome then e else (reconcileOne c f entry.1 entry.2 now e).2

/-- The condition on the loop. -/
def ReconcilesDated (f : OrderId → Symbol → W → Except PyError (Option RawOrder) × W)
    (now : Time) (entries : List (OrderId × PendingOrder)) (e : CcxtExecutor W) : Prop :=
  EachStep (reconcileEntry c f now)
    (fun entry e => entry.2.resolved = none → SettleDated c f now entry.1 entry.2 e) entries e

/-- The condition on `reconcile_open_orders`: each time that it reads can be converted. -/
def ReconcileDated (now : Time) (e : CcxtExecutor W) : Prop :=
  WatchDated c now e ∧
    let e := watchProtection c now e
    e.redelivered.length ≠ e.openOrders.entries.length → ∀ f, c.fetchOrder = some f →
      ReconcilesDated c f now e.openOrders.entries e

end Dated

/-! ## What a call leaves behind when it raises -/

/-- The state after a call that raised: it made moves, and perhaps it remembered a child that it
did not book. -/
inductive Halted (c : ExchangeClient W) (e : CcxtExecutor W) : CcxtExecutor W → Prop where
  | moved {e' : CcxtExecutor W} (h : Moves c e e') : Halted c e e'
  | remembered {e' : CcxtExecutor W} (h : Moves c e e') (t : Triggered) :
      Halted c e (e'.know t.childId)

section Halted

variable {c : ExchangeClient W} {a e e' : CcxtExecutor W}

theorem Halted.after (h : Moves c a e) (h' : Halted c e e') : Halted c a e' := by
  cases h' with
  | moved h' => exact .moved (h.trans h')
  | remembered h' t => exact .remembered (h.trans h') t

theorem Halted.advance (ht : Tidy c e) (h : Halted c e e') : Advance c e e' := by
  cases h with
  | moved h => exact h.advance ht
  | @remembered e₁ h t =>
      have hmoved := h.advance ht
      refine hmoved.trans ⟨advances_of_same (fun _ => rfl) ?_ (fun _ => rfl), ?_⟩
      · exact fun id hs => ⟨hs.1, fun hf => List.mem_cons_of_mem _ (hs.2 hf)⟩
      · intro id p hget
        obtain ⟨h1, h2⟩ := hmoved.tidy id p hget
        exact ⟨h1, fun hf => ⟨(h2 hf).1, List.mem_cons_of_mem _ (h2 hf).2⟩⟩

end Halted

/-! ## Raising calls of the protective orders -/

section Protection

variable (c : ExchangeClient W)

/-- A protective order that fired is not watched any more. -/
theorem get?_of_cancel_fired (s : Symbol) (p : ProtectiveOrders) (w : W) {t : Triggered}
    (h : (p.cancel c s w).1 = some t) : (p.cancel c s w).2.1.get s = none := by
  unfold ProtectiveOrders.cancel at h ⊢
  cases hget : p.live.get? s with
  | none =>
      rw [hget] at h
      cases h
  | some order =>
      rw [hget] at h
      dsimp only at h ⊢
      split at h
      · cases h
      next err w' _ =>
        unfold ProtectiveOrders.afterRefusal at h ⊢
        split at h
        · exact Dict.get?_erase_self _ _
        · dsimp only at h
          split_ifs at h

theorem datedFillTime_of_dated {raw : RawOrder} (h : raw.Dated) (now : Time) :
    datedFillTime raw now = .ok (fillTime raw now) := if_pos h

theorem datedFillTime_of_not_dated {raw : RawOrder} (h : ¬raw.Dated) (now : Time) :
    ∃ err, datedFillTime raw now = .error err := ⟨_, if_neg h⟩

theorem datedFilledAt_of_dated {status : OrderStatus} {raw : RawOrder}
    (h : status = .filled → raw.Dated) (now : Time) :
    ∃ time, datedFilledAt status raw now = .ok time := by
  unfold datedFilledAt
  by_cases hfilled : status = .filled
  · rw [if_pos hfilled, datedFillTime_of_dated (h hfilled)]
    exact ⟨_, rfl⟩
  · rw [if_neg hfilled]
    exact ⟨_, rfl⟩

theorem raisesUnless_bookTriggered (e : CcxtExecutor W) (t : Triggered) (now : Time) :
    RaisesUnless (TriggerDated t e) (Halted c e) (e.datedBookTriggered t now)
      ((), e.bookTriggered t now) := by
  unfold datedBookTriggered
  by_cases hk : t.childId ∈ e.knownOrderIds
  · have hsame : e.bookTriggered t now = e := if_pos hk
    rw [if_pos hk, hsame]
    exact raisesUnless_ok (Or.inl hk) ((), e)
  · rw [if_neg hk]
    by_cases hd : t.child.Dated
    · rw [datedFillTime_of_dated hd]
      exact raisesUnless_ok (Or.inr hd) ((), e.bookTriggered t now)
    · obtain ⟨err, herr⟩ := datedFillTime_of_not_dated hd now
      rw [herr]
      exact ⟨fun h => absurd h (not_or.mpr ⟨hk, hd⟩),
        fun _ => ⟨⟨err, rfl⟩, .remembered Relation.ReflTransGen.refl t⟩⟩

theorem raisesUnless_bookFired (now : Time) {fired : List Triggered} {e : CcxtExecutor W}
    (hp : e.protection.isSome) (hc : ∀ t ∈ fired, IsChild c t.childId) :
    RaisesUnless (FiredDated now fired e) (Halted c e) (datedBookFired now fired e)
      ((), bookFired now fired e) := by
  refine raisesUnless_forEach (I := fun e' => e'.protection.isSome ∧ Moves c e e') ?_
    ⟨hp, Relation.ReflTransGen.refl⟩
  rintro t ht e' ⟨hp', hmoves⟩
  refine ⟨(raisesUnless_bookTriggered c e' t now).imp fun _ h => h.after hmoves, ?_,
    hmoves.trans (asides_bookTriggered c e' t now hp' (hc t ht)).moves⟩
  rw [protection_bookTriggered]
  exact hp'

/-- Fired orders that are booked without an error are booked as by `bookFired`. -/
theorem datedBookFired_ok (c : ExchangeClient W) {now : Time} {fired : List Triggered}
    {e : CcxtExecutor W} {u : Unit} (h : (datedBookFired now fired e).1 = .ok u) :
    FiredDated now fired e ∧ (datedBookFired now fired e).2 = bookFired now fired e := by
  have hraises : RaisesUnless (FiredDated now fired e) (fun _ => True)
      (datedBookFired now fired e) ((), bookFired now fired e) := by
    refine raisesUnless_forEach (I := fun _ => True) ?_ trivial
    exact fun t _ e' _ =>
      ⟨(raisesUnless_bookTriggered c e' t now).imp fun _ _ => trivial, trivial⟩
  obtain ⟨hdated, hsame⟩ := hraises.eq_of_ok h
  exact ⟨hdated, congrArg Prod.snd hsame⟩

/-- A symbol without an order at the venue is synced without a question. -/
theorem datedSyncStep_of_free (again : CcxtExecutor W → Except PyError Unit × CcxtExecutor W)
    (again' : CcxtExecutor W → CcxtExecutor W) (s : Symbol) (now : Time) {e : CcxtExecutor W}
    (hfree : ∀ p, e.protection = some p → p.get s = none) :
    datedSyncStep c again s now e = (.ok (), syncStep c again' s now e) := by
  unfold datedSyncStep syncStep
  cases hp : e.protection with
  | none => rfl
  | some p =>
      dsimp only
      split_ifs
      · rfl
      · rw [hfree p hp]

theorem raisesUnless_syncProtection (s : Symbol) (now : Time) (e : CcxtExecutor W) :
    RaisesUnless (SyncDated c s e) (Halted c e) (datedSyncProtection c s now e)
      ((), syncProtection c s now e) := by
  unfold datedSyncProtection syncProtection
  generalize hdated : datedSyncStep c (fun e => (.ok (), e)) s now = dated
  generalize hagain : syncStep c id s now = again
  unfold datedSyncStep syncStep SyncDated
  cases hp : e.protection with
  | none => exact raisesUnless_ok (fun _ _ h => (nomatch h)) ((), e)
  | some p =>
      dsimp only
      by_cases hsell : OrderSide.sell ∈ e.workingOrderSides s
      · rw [if_pos hsell, if_pos hsell]
        exact raisesUnless_ok (fun _ _ _ h => absurd hsell h) ((), e)
      rw [if_neg hsell, if_neg hsell]
      cases hget : p.get s with
      | none =>
          refine raisesUnless_ok ?_ ((), e.placeProtection c p s (e.wantedProtection c s))
          intro p' current hp' _ hget'
          cases hp'
          rw [hget] at hget'
          cases hget'
      | some current =>
          dsimp only
          by_cases hmatch : (e.wantedProtection c s).any (fun q => current.matches q.1 q.2) = true
          · rw [if_pos hmatch, if_pos hmatch]
            refine raisesUnless_ok ?_ ((), e)
            intro p' current' hp' _ hget' hno
            cases hp'
            rw [hget] at hget'
            cases hget'
            rw [hmatch] at hno
            cases hno
          rw [if_neg hmatch, if_neg hmatch]
          -- The condition is about this order alone.
          have hiff : (∀ p' current', some p = some p' → .sell ∉ e.workingOrderSides s →
              p'.get s = some current' →
              (e.wantedProtection c s).any (fun q => current'.matches q.1 q.2) = false →
              ∀ t ∈ (p'.cancel c s e.world).1, TriggerDated t e) ↔
              ∀ t ∈ (p.cancel c s e.world).1, TriggerDated t e := by
            constructor
            · exact fun h => h p current rfl hsell hget (Bool.not_eq_true _ ▸ hmatch)
            · rintro h p' current' ⟨⟩ - - -
              exact h
          obtain ⟨hlater, hchild⟩ := ProtectiveOrders.cancel_spec c s p e.world
          have hfree := fun t => get?_of_cancel_fired c s p e.world (t := t)
          rcases hcancel : p.cancel c s e.world with ⟨found, p', w'⟩
          rw [hcancel] at hiff hlater hchild hfree
          have hsome : e.protection.isSome := by rw [hp]; rfl
          cases found with
          | none =>
              exact raisesUnless_ok (hiff.mpr fun t ht => (nomatch ht))
                ((), CcxtExecutor.placeProtection c { e with world := w' } p' s
                  (e.wantedProtection c s))
          | some t =>
              have hmoves := (asides_protection c e hsome p' hlater).moves
              have hbook := (raisesUnless_bookTriggered c
                { e with
                  protection := some p'
                  world := w' } t now).imp fun _ h => h.after hmoves
              refine RaisesUnless.of_iff (P := _ ∧ True)
                (hbook.andThen (z := ((), _)) fun _ => ?_) ?_
              · refine ⟨fun _ => ?_, fun h => absurd trivial h⟩
                rw [← hdated, ← hagain]
                refine datedSyncStep_of_free c _ id s now fun p'' hp'' => ?_
                rw [protection_bookTriggered] at hp''
                cases hp''
                exact hfree t rfl
              · rw [hiff, and_true]
                exact ⟨fun h => h t rfl, fun h t' ht' => by cases ht'; exact h⟩

theorem raisesUnless_syncEach (now : Time) (symbols : List Symbol) (e : CcxtExecutor W) :
    RaisesUnless (SyncsDated c now symbols e) (Halted c e) (datedSyncEach c now symbols e)
      ((), syncEach c now symbols e) := by
  refine raisesUnless_forEach (I := Moves c e) ?_ Relation.ReflTransGen.refl
  intro s _ e' hmoves
  exact ⟨(raisesUnless_syncProtection c s now e').imp fun _ h => h.after hmoves,
    hmoves.trans (asides_syncProtection c s now e').moves⟩

theorem raisesUnless_watchProtection (now : Time) (e : CcxtExecutor W) :
    RaisesUnless (WatchDated c now e) (Halted c e) (datedWatchProtection c now e)
      ((), watchProtection c now e) := by
  unfold datedWatchProtection watchProtection WatchDated
  cases hp : e.protection with
  | none => exact raisesUnless_ok (fun _ h => (nomatch h)) ((), e)
  | some p =>
      obtain ⟨hlater, hchild⟩ := ProtectiveOrders.pollEach_spec c p.live.entries p e.world
      have hsome : e.protection.isSome := by rw [hp]; rfl
      have hmoves := (asides_protection c e hsome (p.poll c e.world).2.1 hlater).moves
      have hbook := (raisesUnless_bookFired c now (e := { e with
        protection := some (p.poll c e.world).2.1
        world := (p.poll c e.world).2.2 }) rfl hchild).imp fun _ h => h.after hmoves
      refine RaisesUnless.of_iff (hbook.andThen fun _ => ?_)
        ⟨fun h => h p rfl, fun h _ heq => by cases heq; exact h⟩
      refine (raisesUnless_syncEach c now _ _).imp fun _ h => h.after ?_
      exact hmoves.trans (asides_bookFired c now _ _ rfl hchild).moves

end Protection

/-! ## Raising reconciliations -/

section Reconcile

variable (c : ExchangeClient W)

/-- One order of the loop. -/
theorem raisesUnless_reconcileOne
    {f : OrderId → Symbol → W → Except PyError (Option RawOrder) × W} (hf : c.fetchOrder = some f)
    (now : Time) {id : OrderId} {p : PendingOrder} {e : CcxtExecutor W}
    (hget : e.openOrders.get? id = some p) (hp : p.resolved = none) :
    RaisesUnless (SettleDated c f now id p e) (Halted c e) (datedReconcileOne c f id p now e)
      (reconcileOne c f id p now e) := by
  obtain ⟨hquiet, hheard⟩ := pollOrder_spec c hf e id p now
  unfold datedReconcileOne reconcileOne SettleDated
  rcases hpoll : pollOrder c f e id p now with ⟨answer, e₁⟩
  rw [hpoll] at hquiet hheard
  cases answer with
  | none => exact raisesUnless_ok (fun _ _ _ _ _ h => (nomatch h)) (none, e₁)
  | some answer =>
      obtain ⟨raw, status, q, reason⟩ := answer
      dsimp only at hquiet hheard ⊢
      by_cases hs : status = .pending
      · rw [if_pos hs, if_pos hs]
        refine raisesUnless_ok ?_ (none, e₁)
        intro raw' status' q' reason' e' heq hs'
        cases heq
        exact absurd hs hs'
      rw [if_neg hs, if_neg hs]
      have hready := hquiet.trans (quietly_ensureMarkets c e₁)
      by_cases hdated : status = .filled → raw.Dated
      · obtain ⟨time, htime⟩ := datedFilledAt_of_dated hdated now
        rw [htime]
        dsimp only
        -- The order settles, and its protection follows.
        have hsettled : Moves c e
            ((settle (e₁.ensureMarkets c) id p raw status q reason now).2.resolve id p
              (settle (e₁.ensureMarkets c) id p raw status q reason now).1) := by
          obtain ⟨rfl, rfl, g, w₀, a, w₁, h1, h2, h3, h4⟩ := hheard raw status q reason rfl
          have hget' : (e₁.ensureMarkets c).openOrders.get? id = some p := by
            rw [hready.openOrders]
            exact hget
          refine hready.asides.moves.tail
            (Move.settles id p (settled (e₁.ensureMarkets c) id p raw reason now).1 ?_)
          exact Settles.intro _ raw reason now hget' hp hs
            ⟨g, w₀, a, w₁, h1, h2, h3, h4.trans (quietly_ensureMarkets c e₁).world⟩ rfl
        have hsync := (raisesUnless_syncProtection c p.symbol now
          ((settle (e₁.ensureMarkets c) id p raw status q reason now).2.resolve id p
            (settle (e₁.ensureMarkets c) id p raw status q reason now).1)).imp
              fun _ h => h.after hsettled
        refine RaisesUnless.of_iff (P := _ ∧ True) (hsync.andThen fun _ => ?_) ?_
        · exact raisesUnless_ok trivial (some _, _)
        · rw [and_true]
          constructor
          · exact fun h => (h raw status q reason e₁ rfl hs).2
          · intro h raw' status' q' reason' e' heq _
            cases heq
            exact ⟨hdated, h⟩
      · have hfilled : status = .filled := by
          by_contra hn
          exact hdated fun hf => absurd hf hn
        obtain ⟨err, herr⟩ := datedFillTime_of_not_dated (fun h => hdated fun _ => h) now
        have hread : datedFilledAt status raw now = .error err := by
          unfold datedFilledAt
          rw [if_pos hfilled, herr]
          rfl
        rw [hread]
        refine ⟨fun h => ?_, fun _ => ⟨⟨err, rfl⟩, .moved hready.asides.moves⟩⟩
        exact absurd (h raw status q reason e₁ rfl hs).1 hdated

/-- The loop. -/
theorem raisesUnless_reconcileEach
    {f : OrderId → Symbol → W → Except PyError (Option RawOrder) × W} (hf : c.fetchOrder = some f)
    (now : Time) (entries : List (OrderId × PendingOrder)) {e : CcxtExecutor W} (h : Tidy c e)
    (hpolls : Polls e entries) :
    RaisesUnless (ReconcilesDated c f now entries e) (Halted c e)
      (datedReconcileEach c f now entries e) (reconcileEach c f now entries e) := by
  induction entries generalizing e with
  | nil => exact raisesUnless_ok trivial ([], e)
  | cons entry rest ih =>
      obtain ⟨id, p⟩ := entry
      unfold datedReconcileEach reconcileEach ReconcilesDated EachStep reconcileEntry
      by_cases hres : p.resolved.isSome = true
      · rw [if_pos hres, if_pos hres, if_pos hres]
        refine (ih h hpolls.tail).of_iff ⟨And.right, fun hrest => ⟨fun hn => ?_, hrest⟩⟩
        rw [hn] at hres
        cases hres
      · have hp : p.resolved = none := by simpa using hres
        rw [if_neg hres, if_neg hres, if_neg hres]
        have hone := raisesUnless_reconcileOne c hf now
          (hpolls.2 id p List.mem_cons_self hp) hp
        obtain ⟨hmoves, hpolls', -⟩ := moves_reconcileOne c hf now h hpolls hp
        have hrest := (ih (hmoves.advance h).tidy hpolls').imp fun _ h => h.after hmoves
        refine RaisesUnless.of_iff (P := _ ∧ (_ ∧ True)) (hone.andThen fun _ => hrest.andThen
          fun _ => raisesUnless_ok trivial (_ ++ _, _)) ?_
        rw [and_true]
        exact and_congr_left' ⟨fun hall => hall hp, fun hall _ => hall⟩

/-- **A reconciliation raises exactly where it reads a time that cannot be converted**; elsewhere
it does what `reconcileOpenOrders` does. -/
theorem raisesUnless_reconcileOpenOrders (now : Time) (e : CcxtExecutor W) (h : Tidy c e) :
    RaisesUnless (ReconcileDated c now e) (Halted c e) (datedReconcileOpenOrders c now e)
      (reconcileOpenOrders c now e) := by
  have hwatch := raisesUnless_watchProtection c now e
  have hmoves := (asides_watchProtection c now e)
  have htidy := (hmoves.advance h).tidy
  unfold datedReconcileOpenOrders reconcileOpenOrders ReconcileDated
  refine hwatch.andThen fun _ => ?_
  dsimp only
  generalize watchProtection c now e = e₁ at hmoves htidy ⊢
  by_cases hall : e₁.redelivered.length = e₁.openOrders.entries.length
  · rw [if_pos hall, if_pos hall]
    exact raisesUnless_ok (fun hn => absurd hall hn) (e₁.redelivered, e₁)
  rw [if_neg hall, if_neg hall]
  cases hf : c.fetchOrder with
  | none => exact raisesUnless_ok (fun _ f h => (nomatch h)) (([] : List OrderResult), e₁)
  | some f =>
      have hpolls : Polls e₁ e₁.openOrders.entries :=
        ⟨e₁.openOrders.nodup, fun id p hm _ => (Dict.mem_entries_iff _ _ _).mp hm⟩
      have hloop := (raisesUnless_reconcileEach c hf now _ htidy hpolls).imp
        fun _ h => h.after hmoves.moves
      refine RaisesUnless.of_iff (P := _ ∧ True) (hloop.andThen
        fun _ => raisesUnless_ok trivial (e₁.redelivered ++ _, _)) ?_
      rw [and_true]
      exact ⟨fun h => h hall f rfl, fun h _ f' hf' => by cases hf'; exact h⟩

/-- Raised or not, a reconciliation advances the orders. -/
theorem advance_datedReconcileOpenOrders (now : Time) (e : CcxtExecutor W) (h : Tidy c e) :
    Advance c e (datedReconcileOpenOrders c now e).2 := by
  have hraises := raisesUnless_reconcileOpenOrders c now e h
  by_cases hdated : ReconcileDated c now e
  · rw [hraises.done hdated]
    exact (moves_reconcileOpenOrders c now e h).advance h
  · exact (hraises.raised hdated).2.advance h

/-- What a reconciliation returns is what `reconcileOpenOrders` returns. -/
theorem datedReconcileOpenOrders_ok {now : Time} {e : CcxtExecutor W} (h : Tidy c e)
    {rs : List OrderResult} (hok : (datedReconcileOpenOrders c now e).1.toOption = some rs) :
    (reconcileOpenOrders c now e).1 = rs ∧
      (datedReconcileOpenOrders c now e).2 = (reconcileOpenOrders c now e).2 := by
  cases hret : (datedReconcileOpenOrders c now e).1 with
  | error err =>
      rw [hret] at hok
      cases hok
  | ok rs' =>
      obtain ⟨-, hsame⟩ := (raisesUnless_reconcileOpenOrders c now e h).eq_of_ok hret
      rw [hsame] at hok ⊢
      exact ⟨Option.some.inj hok, rfl⟩

end Reconcile

/-! ## Placements without protective orders -/

section Unprotected

variable (c : ExchangeClient W) {e : CcxtExecutor W}

/-- Without protective orders a placement reads the time of its fill alone. -/
theorem datedClosePlacement_of_dated (h : e.protection = none) (req : OrderRequest) (id : OrderId)
    (amount : ℚ) (limit : Option ℚ) {raw : RawOrder} (hraw : raw.Dated) (now : Time) :
    datedClosePlacement c e req id amount limit raw now =
      (.ok (closePlacement c e req id amount limit raw now).1,
        (closePlacement c e req id amount limit raw now).2) := by
  unfold datedClosePlacement
  dsimp only
  have hread : ∃ time, datedFilledAt (placedResult req id amount limit raw now).status raw now =
      .ok time := datedFilledAt_of_dated (fun _ => hraw) now
  obtain ⟨time, htime⟩ := hread
  rw [htime]
  dsimp only
  split
  next price hstatus hprice =>
    have hprot : (e.bookPlaced req id (placedResult req id amount limit raw now).quantity price
        raw).2.protection = none :=
      (frame_bookPlaced e req id _ price raw).protection.trans h
    have hsync := (raisesUnless_syncProtection c req.symbol now _).done
      (fun p _ hp => by rw [hprot] at hp; cases hp)
    rw [hsync, andThen_ok]
    unfold closePlacement
    dsimp only
    rw [hstatus, hprice]
  · rfl

/-- The same of the answer of the venue, which may be polled once more. -/
theorem datedAcceptAnswer_of_dated (h : e.protection = none) (req : OrderRequest) (amount : ℚ)
    (limit : Option ℚ) {raw : RawOrder} (hraw : raw.Dated)
    (hpoll : ∀ w answer, Later c e.world w → Heard c w raw.orderId req.symbol answer →
      answer.Dated) (now : Time) :
    datedAcceptAnswer c e req amount limit raw now =
      (.ok (acceptAnswer c e req amount limit raw now).1,
        (acceptAnswer c e req amount limit raw now).2) := by
  unfold datedAcceptAnswer acceptAnswer
  dsimp only
  split_ifs
  · obtain ⟨w, hpolled, hlater, hanswer⟩ := confirmPlaced_spec c
      { e with orderSymbols := e.orderSymbols.set raw.orderId req.symbol }
      raw.orderId req.symbol raw
    refine datedClosePlacement_of_dated c (by rw [hpolled]; exact h) req _ amount limit ?_ now
    rcases hanswer with heq | hheard
    · rw [heq]
      exact hraw
    · exact hpoll w _ hlater hheard
  · refine datedClosePlacement_of_dated c ?_ req _ amount limit hraw now
    exact h

end Unprotected

/-! ## Raised or not, the ledger follows the journal -/

theorem journaled_datedBookTriggered (e : CcxtExecutor W) (t : Triggered) (now : Time) :
    Journaled e (e.datedBookTriggered t now).2 := by
  unfold datedBookTriggered
  split_ifs
  · exact Journaled.refl e
  · split
    · exact journaled_of_same rfl rfl
    · exact journaled_bookTriggered e t now

theorem journaled_datedBookFired (now : Time) (fired : List Triggered) (e : CcxtExecutor W) :
    Journaled e (datedBookFired now fired e).2 :=
  forEach_state (I := Journaled e)
    (fun t _ e' hj => hj.trans (journaled_datedBookTriggered e' t now)) (Journaled.refl e)

section Ledger

variable (c : ExchangeClient W)

theorem journaled_placeProtection (e : CcxtExecutor W) (p : ProtectiveOrders) (s : Symbol)
    (wanted : Option (ℚ × ExitLevels)) : Journaled e (e.placeProtection c p s wanted) := by
  unfold placeProtection
  split <;> exact journaled_of_same rfl rfl

theorem journaled_datedSyncStep {again : CcxtExecutor W → Except PyError Unit × CcxtExecutor W}
    (hagain : ∀ e, Journaled e (again e).2) (s : Symbol) (now : Time) (e : CcxtExecutor W) :
    Journaled e (datedSyncStep c again s now e).2 := by
  unfold datedSyncStep
  split
  · exact Journaled.refl e
  · split_ifs
    · exact Journaled.refl e
    · dsimp only
      split
      · exact journaled_placeProtection c e _ s _
      · split_ifs
        · exact Journaled.refl e
        · split
          next t p' w' _ =>
            have hbook : Journaled e (CcxtExecutor.datedBookTriggered
                { e with
                  protection := some p'
                  world := w' } t now).2 :=
              (journaled_of_same rfl rfl).trans (journaled_datedBookTriggered _ t now)
            exact andThen_state hbook fun _ _ => hbook.trans (hagain _)
          next p' w' _ =>
            exact (journaled_of_same rfl rfl).trans
              (journaled_placeProtection c { e with world := w' } p' s _)

theorem journaled_datedSyncProtection (s : Symbol) (now : Time) (e : CcxtExecutor W) :
    Journaled e (datedSyncProtection c s now e).2 :=
  journaled_datedSyncStep c (journaled_datedSyncStep c Journaled.refl s now) s now e

theorem journaled_datedSyncEach (now : Time) (symbols : List Symbol) (e : CcxtExecutor W) :
    Journaled e (datedSyncEach c now symbols e).2 :=
  forEach_state (I := Journaled e)
    (fun s _ e' hj => hj.trans (journaled_datedSyncProtection c s now e')) (Journaled.refl e)

theorem journaled_datedWithdrawProtection (s : Symbol) (now : Time) (e : CcxtExecutor W) :
    Journaled e (datedWithdrawProtection c s now e).2 := by
  unfold datedWithdrawProtection
  split
  · exact Journaled.refl e
  · split
    · exact (journaled_of_same rfl rfl).trans (journaled_datedBookTriggered _ _ now)
    · exact journaled_of_same rfl rfl

/-- Fired orders are booked, and then every symbol is synced. -/
theorem journaled_booked_synced {a e : CcxtExecutor W} (now : Time) (fired : List Triggered)
    (h : Journaled a e) : Journaled a (andThen (datedBookFired now fired e)
      fun _ e => datedSyncEach c now e.tracker.symbols e).2 := by
  have hbook := h.trans (journaled_datedBookFired now fired e)
  exact andThen_state hbook fun _ _ => hbook.trans (journaled_datedSyncEach c now _ _)

theorem journaled_datedWatchProtection (now : Time) (e : CcxtExecutor W) :
    Journaled e (datedWatchProtection c now e).2 := by
  unfold datedWatchProtection
  split
  · exact Journaled.refl e
  · exact journaled_booked_synced c now _ (journaled_of_same rfl rfl)

theorem journaled_datedRestoreProtection (now : Time) (e : CcxtExecutor W) :
    Journaled e (datedRestoreProtection c now e).2 := by
  unfold datedRestoreProtection
  split
  · exact Journaled.refl e
  · have hmarkets := (quietly_ensureMarkets c e).asides.journaled
    exact journaled_booked_synced c now _ (hmarkets.trans (journaled_of_same rfl rfl))

theorem journaled_datedReconcileOne
    {f : OrderId → Symbol → W → Except PyError (Option RawOrder) × W} (hf : c.fetchOrder = some f)
    (id : OrderId) (p : PendingOrder) (now : Time) (e : CcxtExecutor W) :
    Journaled e (datedReconcileOne c f id p now e).2 := by
  obtain ⟨hquiet, hheard⟩ := pollOrder_spec c hf e id p now
  unfold datedReconcileOne
  rcases hpoll : pollOrder c f e id p now with ⟨answer, e₁⟩
  rw [hpoll] at hquiet hheard
  cases answer with
  | none => exact hquiet.asides.journaled
  | some answer =>
      obtain ⟨raw, status, q, reason⟩ := answer
      obtain ⟨rfl, rfl, -⟩ := hheard raw status q reason rfl
      dsimp only
      split_ifs
      · exact hquiet.asides.journaled
      · have hready := (hquiet.trans (quietly_ensureMarkets c e₁)).asides.journaled
        split
        · exact hready
        · have hsettled := hready.trans (journaled_settled (e₁.ensureMarkets c) id p raw reason now)
          have hsync := hsettled.trans (journaled_datedSyncProtection c p.symbol now _)
          exact andThen_state hsync fun _ _ => hsync

theorem journaled_datedReconcileEach
    {f : OrderId → Symbol → W → Except PyError (Option RawOrder) × W} (hf : c.fetchOrder = some f)
    (now : Time) (entries : List (OrderId × PendingOrder)) (e : CcxtExecutor W) :
    Journaled e (datedReconcileEach c f now entries e).2 := by
  induction entries generalizing e with
  | nil => exact Journaled.refl e
  | cons entry rest ih =>
      obtain ⟨id, p⟩ := entry
      unfold datedReconcileEach
      split_ifs
      · exact ih e
      · have hone := journaled_datedReconcileOne c hf id p now e
        have hrest := hone.trans (ih _)
        exact andThen_state hone fun _ _ => andThen_state hrest fun _ _ => hrest

theorem journaled_datedReconcileOpenOrders (now : Time) (e : CcxtExecutor W) :
    Journaled e (datedReconcileOpenOrders c now e).2 := by
  have hwatch := journaled_datedWatchProtection c now e
  unfold datedReconcileOpenOrders
  refine andThen_state hwatch fun _ _ => ?_
  split_ifs
  · exact hwatch
  · split
    · exact hwatch
    next f hf =>
      have hloop := hwatch.trans (journaled_datedReconcileEach c hf now
        (datedWatchProtection c now e).2.openOrders.entries _)
      exact andThen_state hloop fun _ _ => hloop

theorem journaled_closePlacement (e : CcxtExecutor W) (req : OrderRequest) (id : OrderId)
    (amount : ℚ) (limit : Option ℚ) (raw : RawOrder) (now : Time) :
    Journaled e (closePlacement c e req id amount limit raw now).2 := by
  unfold closePlacement
  dsimp only
  split
  · exact (e.journaled_bookPlaced req id _ _ raw).trans
      (asides_syncProtection c _ now _).journaled
  · split_ifs
    · exact journaled_of_same rfl rfl
    · exact Journaled.refl e
  · exact Journaled.refl e

theorem journaled_datedAcceptAnswer (e : CcxtExecutor W) (req : OrderRequest) (amount : ℚ)
    (limit : Option ℚ) (raw : RawOrder) (now : Time) :
    Journaled e (datedAcceptAnswer c e req amount limit raw now).2 := by
  have hclose : ∀ (e' : CcxtExecutor W) (answer : RawOrder), Journaled e e' →
      Journaled e (datedClosePlacement c e' req raw.orderId amount limit answer now).2 := by
    intro e' answer hj
    unfold datedClosePlacement
    dsimp only
    split
    · exact hj
    · split
      next price _ _ =>
        have hbook := hj.trans (e'.journaled_bookPlaced req raw.orderId
          (placedResult req raw.orderId amount limit answer now).quantity price answer)
        have hsync := hbook.trans (journaled_datedSyncProtection c req.symbol now _)
        exact andThen_state hsync fun _ _ => hsync
      · exact hj.trans (journaled_closePlacement c e' req raw.orderId amount limit answer now)
  unfold datedAcceptAnswer
  dsimp only
  split_ifs
  · obtain ⟨w, hpolled, -⟩ := confirmPlaced_spec c
      { e with orderSymbols := e.orderSymbols.set raw.orderId req.symbol }
      raw.orderId req.symbol raw
    rw [hpolled]
    exact hclose _ _ (journaled_of_same rfl rfl)
  · exact hclose _ _ (journaled_of_same rfl rfl)

theorem journaled_datedPlaceOrder (e : CcxtExecutor W) (req : OrderRequest) (stamp : Stamp) :
    Journaled e (e.datedPlaceOrder c req stamp).2 := by
  have hmarkets := (quietly_ensureMarkets c e).asides.journaled
  have hready : Journaled e (if req.side = .sell then
      datedWithdrawProtection c req.symbol stamp.now (e.ensureMarkets c)
    else (.ok (), e.ensureMarkets c)).2 := by
    split_ifs
    · exact hmarkets.trans (journaled_datedWithdrawProtection c req.symbol stamp.now _)
    · exact hmarkets
  unfold datedPlaceOrder
  refine andThen_state hready fun _ _ => ?_
  dsimp only
  split
  · exact hready
  · split
    · exact hready.trans (journaled_of_same rfl rfl)
    next answer w _ =>
      refine Journaled.trans (hready.trans ?_)
        (journaled_datedAcceptAnswer c _ req _ _ (answer.getD RawOrder.empty) stamp.now)
      exact journaled_of_same rfl rfl

end Ledger

/-! ## The two-phase component -/

section Component

variable (c : ExchangeClient W)

/-- What happens to an executor that is only reconciled: the venue moves, in any way at all, and
the agent asks for results or confirms one. -/
inductive ReconcileInput (W : Type) where
  | venue (move : W → W)
  | reconcile (now : Time)
  | confirm (id : OrderId)

def reconcileStep : ReconcileInput W → CcxtExecutor W → CcxtExecutor W
  | .venue move, e => { e with world := move e.world }
  | .reconcile now, e => (datedReconcileOpenOrders c now e).2
  | .confirm id, e => e.confirmReconciled id

/-- The executor under reconciliation. -/
def reconciler : Component (CcxtExecutor W) (ReconcileInput W) OrderId OrderResult where
  step := reconcileStep c
  snapshot := snapshot c
  confirms i :=
    match i with
    | .confirm id => some id
    | _ => none
  asks i :=
    match i with
    | .reconcile _ => True
    | _ => False
  answers i e :=
    match i with
    | .reconcile now => ReconcileDated c now e
    | _ => True
  returned i e :=
    match i with
    | .reconcile now => (datedReconcileOpenOrders c now e).1.toOption
    | _ => none
  key := OrderResult.orderId

/-- The executor follows the two-phase protocol. -/
def reconcilerProtocol (hfetch : c.fetchOrder.isSome) : Protocol (reconciler c) where
  Inv := Tidy c
  inv_step := by
    intro e i h
    cases i with
    | venue move => exact h
    | reconcile now => exact (advance_datedReconcileOpenOrders c now e h).tidy
    | confirm id => exact tidy_confirmReconciled c e h id
  spent_untracked := by
    intro e k _ hk
    exact (e.stage_eq_untracked_iff k).mpr hk.1
  advance_step := by
    intro e i h hi
    cases i with
    | venue move => exact (advance_of_same h rfl rfl rfl (fun _ => rfl)).toAdvances
    | reconcile now => exact (advance_datedReconcileOpenOrders c now e h).toAdvances
    | confirm id => cases hi
  confirm_step := by
    intro e k i h hi
    cases i with
    | venue move => cases hi
    | reconcile now => cases hi
    | confirm id =>
        obtain rfl : id = k := Option.some.inj hi
        exact confirms_confirmReconciled c e h id
  returned_answers := by
    intro e i h
    cases i with
    | venue move => exact ⟨fun hn => (nomatch hn), fun hn => hn.1.elim⟩
    | reconcile now =>
        show ((datedReconcileOpenOrders c now e).1.toOption).isSome ↔ True ∧ ReconcileDated c now e
        rw [true_and, ← (raisesUnless_reconcileOpenOrders c now e h).isOk_iff]
        cases (datedReconcileOpenOrders c now e).1 with
        | error err => exact ⟨fun hn => (nomatch hn), fun ⟨_, hn⟩ => (nomatch hn)⟩
        | ok rs => exact ⟨fun _ => ⟨rs, rfl⟩, fun _ => rfl⟩
    | confirm id => exact ⟨fun hn => (nomatch hn), fun hn => hn.1.elim⟩
  returned_complete := by
    intro e k r rs i h hi hk
    cases i with
    | venue move => cases hi
    | reconcile now =>
        obtain ⟨rfl, -⟩ := datedReconcileOpenOrders_ok c h hi
        exact (advance_reconcileOpenOrders c hfetch now e h).2.1 k r hk
    | confirm id => cases hi
  returned_sound := by
    intro e r rs i h hi hr
    cases i with
    | venue move => cases hi
    | reconcile now =>
        obtain ⟨rfl, hstate⟩ := datedReconcileOpenOrders_ok c h hi
        show stage (datedReconcileOpenOrders c now e).2 _ = _
        rw [hstate]
        exact (advance_reconcileOpenOrders c hfetch now e h).2.2 r hr
    | confirm id => cases hi
  returned_nodup := by
    intro e rs i h hi
    cases i with
    | venue move => cases hi
    | reconcile now =>
        obtain ⟨rfl, -⟩ := datedReconcileOpenOrders_ok c h hi
        exact nodup_reconcileOpenOrders c now e h
    | confirm id => cases hi
  returned_confirms := by
    intro e i hi
    cases i with
    | venue move => cases hi
    | reconcile now => rfl
    | confirm id => cases hi

/-- In every run the ledger follows the journal. -/
theorem journaled_reconciler (inputs : List (ReconcileInput W)) {e : CcxtExecutor W}
    (h : Tidy c e) : Journaled e (Lib.run (reconciler c).step inputs e) := by
  refine (run_invariant (I := fun e' => Tidy c e' ∧ Journaled e e') ?_ inputs
    ⟨h, Journaled.refl e⟩).2
  rintro i e' ⟨htidy, hj⟩
  cases i with
  | venue move => exact ⟨htidy, hj.trans (journaled_of_same rfl rfl)⟩
  | reconcile now =>
      exact ⟨(advance_datedReconcileOpenOrders c now e' htidy).tidy,
        hj.trans (journaled_datedReconcileOpenOrders c now e')⟩
  | confirm id =>
      refine ⟨tidy_confirmReconciled c e' htidy id, hj.trans ?_⟩
      show Journaled e' (e'.confirmReconciled id)
      rcases e'.confirmReconciled_cases id with ⟨-, he⟩ | ⟨-, he⟩
      · rw [he]
        exact journaled_of_same rfl rfl
      · rw [he]
        exact Journaled.refl e'

end Component

end CcxtExecutor

end SmartyTrader
