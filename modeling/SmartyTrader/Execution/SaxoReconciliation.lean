import SmartyTrader.Execution.DatedCalls
import SmartyTrader.Execution.ScriptedVenue

set_option autoImplicit false

/-! # Two-phase reconciliation of the Saxo executor

The same component as in `DatedCalls`, over the simpler loop of the Saxo executor: it has no
protective orders, so an order that is not tracked is never tracked again while nothing is placed,
and it takes the time of a fill from its own clock, so no answer makes it raise.
-/

namespace SmartyTrader

open Lib TwoPhase

variable {W : Type}

namespace SaxoExecutor

def stage (e : SaxoExecutor W) (id : OrderId) : Stage OrderResult :=
  PendingOrder.stage (e.openOrders.get? id)

theorem stage_eq_resolved_iff (e : SaxoExecutor W) (id : OrderId) (r : OrderResult) :
    e.stage id = .resolved r ↔
      ∃ p, e.openOrders.get? id = some p ∧ p.resolved = some r := by
  unfold stage PendingOrder.stage
  cases e.openOrders.get? id with
  | none => simp
  | some p => cases h : p.resolved <;> simp [h]

/-- Results carry the id they are tracked under. -/
def Tidy (e : SaxoExecutor W) : Prop :=
  ∀ id p, e.openOrders.get? id = some p → ∀ r, p.resolved = some r → r.orderId = id

/-- What can be seen of the tracked orders. -/
def snapshot (e : SaxoExecutor W) : Snapshot OrderId OrderResult :=
  ⟨e.stage, fun id => e.openOrders.get? id = none, fun id => bookings id e.journal⟩

theorem Tidy.key {e : SaxoExecutor W} (h : Tidy e) {id : OrderId} {r : OrderResult}
    (hr : e.stage id = .resolved r) : r.orderId = id := by
  obtain ⟨p, hg, hp⟩ := (e.stage_eq_resolved_iff _ _).mp hr
  exact h id p hg r hp

/-! ## Settling one order -/

/-- The ledger of the executor follows its journal. -/
def Journaled (e e' : SaxoExecutor W) : Prop :=
  CcxtExecutor.Replays e.tracker e.journal e'.tracker e'.journal

theorem Journaled.refl (e : SaxoExecutor W) : Journaled e e := CcxtExecutor.Replays.refl _ _

theorem Journaled.trans {a b d : SaxoExecutor W} (h : Journaled a b) (h' : Journaled b d) :
    Journaled a d :=
  CcxtExecutor.Replays.trans h h'

theorem journaled_recordFill (e : SaxoExecutor W) (oid : OrderId) (s : Symbol) (side : OrderSide)
    (q price : ℚ) (d : Option DecisionId) (levels : ExitLevels) :
    Journaled e (e.recordFill oid s side q price d levels).2 := by
  refine ⟨[.fill ⟨oid, s, side, q, price, 0, 0, d⟩], ?_, ?_⟩
  · unfold recordFill
    cases side with
    | buy => rfl
    | sell =>
        dsimp only
        split_ifs <;> rfl
  · unfold recordFill
    cases side with
    | buy => simp [LedgerEntry.apply, bookFill]
    | sell =>
        simp only [List.foldl_cons, List.foldl_nil, LedgerEntry.apply, bookFill]
        split_ifs <;> simp

/-- A recorded fill touches no order and is booked once, under its own id. -/
theorem recordFill_spec (e : SaxoExecutor W) (oid : OrderId) (s : Symbol) (side : OrderSide)
    (q price : ℚ) (d : Option DecisionId) (levels : ExitLevels) :
    (e.recordFill oid s side q price d levels).2.openOrders = e.openOrders ∧
      ∀ id, bookings id (e.recordFill oid s side q price d levels).2.journal
        = bookings id e.journal + if oid = id then 1 else 0 := by
  have hbook : ∀ id, bookings id (e.journal ++ [.fill ⟨oid, s, side, q, price, 0, 0, d⟩])
      = bookings id e.journal + if oid = id then 1 else 0 := by
    intro id
    rw [CcxtExecutor.bookings_append]
    congr 1
    simp [bookings, LedgerEntry.books, List.countP_cons]
  unfold recordFill
  cases side with
  | buy => exact ⟨rfl, hbook⟩
  | sell =>
      dsimp only
      split_ifs <;> exact ⟨rfl, hbook⟩

theorem settle_spec (e : SaxoExecutor W) (oid : OrderId) (p : PendingOrder)
    (status : OrderStatus) (q : ℚ) (price : Option ℚ) (reason : Option OrderReason) (now : Time) :
    (e.settle oid p status q price reason now).1.orderId = oid ∧
      (e.settle oid p status q price reason now).2.openOrders = e.openOrders ∧
      ∀ id, bookings id (e.settle oid p status q price reason now).2.journal
          = bookings id e.journal ∨
        (oid = id ∧ bookings id (e.settle oid p status q price reason now).2.journal
          = bookings id e.journal + 1) := by
  unfold settle
  dsimp only
  split_ifs
  · split
    · exact ⟨rfl, rfl, fun _ => Or.inl rfl⟩
    · rename_i value
      obtain ⟨h1, h2⟩ := e.recordFill_spec oid p.symbol p.side q value p.decisionId
        (p.stopLoss, p.takeProfit)
      refine ⟨rfl, h1, fun id => ?_⟩
      by_cases h : oid = id
      · exact Or.inr ⟨h, (h2 id).trans (congrArg _ (if_pos h))⟩
      · exact Or.inl ((h2 id).trans (congrArg _ (if_neg h)))
  · exact ⟨rfl, rfl, fun _ => Or.inl rfl⟩

theorem journaled_settle (e : SaxoExecutor W) (oid : OrderId) (p : PendingOrder)
    (status : OrderStatus) (q : ℚ) (price : Option ℚ) (reason : Option OrderReason) (now : Time) :
    Journaled e (e.settle oid p status q price reason now).2 := by
  unfold settle
  dsimp only
  split_ifs
  · split
    · exact Journaled.refl e
    · exact journaled_recordFill e oid p.symbol p.side q _ p.decisionId _
  · exact Journaled.refl e

section Calls

variable (c : SaxoClient W)

theorem journaled_reconcileOne (oid : OrderId) (p : PendingOrder) (now : Time)
    (e : SaxoExecutor W) : Journaled e (reconcileOne c oid p now e).2 := by
  unfold reconcileOne
  split
  · exact Journaled.refl e
  · split
    · exact Journaled.refl e
    next entry w _ =>
      dsimp only
      split_ifs
      · exact Journaled.refl e
      · exact journaled_settle { e with world := w } oid p _ _ _ _ now

theorem journaled_reconcileEach (now : Time) (entries : List (OrderId × PendingOrder))
    (e : SaxoExecutor W) : Journaled e (reconcileEach c now entries e).2 := by
  induction entries generalizing e with
  | nil => exact Journaled.refl e
  | cons entry rest ih =>
      exact (journaled_reconcileOne c entry.1 entry.2 now e).trans (ih _)

/-- **One order of the loop.** It advances the orders; what it returns is resolved after it. -/
theorem reconcileOne_spec (oid : OrderId) (p : PendingOrder) (now : Time) (e : SaxoExecutor W)
    (h : Tidy e) (hget : e.openOrders.get? oid = some p) :
    Advances (snapshot e) (snapshot (reconcileOne c oid p now e).2) ∧
      Tidy (reconcileOne c oid p now e).2 ∧
      (∀ j, oid ≠ j →
        (reconcileOne c oid p now e).2.openOrders.get? j = e.openOrders.get? j) ∧
      (∀ r ∈ (reconcileOne c oid p now e).1, r.orderId = oid ∧
        (reconcileOne c oid p now e).2.stage oid = .resolved r) ∧
      (∀ r, p.resolved = some r → (reconcileOne c oid p now e).1 = some r) := by
  unfold reconcileOne
  cases hp : p.resolved with
  | some result =>
      have hstage : e.stage oid = .resolved result :=
        (e.stage_eq_resolved_iff _ _).mpr ⟨p, hget, hp⟩
      refine ⟨Advances.refl _, h, fun _ _ => rfl, fun r hr => ?_, fun r hr => hr⟩
      cases hr
      exact ⟨h.key hstage, hstage⟩
  | none =>
      dsimp only
      split
      · refine ⟨Advances.refl _, h, fun _ _ => rfl, ?_, ?_⟩
        · intro r hr
          cases hr
        · intro r hr
          cases hr
      · rename_i entry w heq
        split_ifs with hs
        · refine ⟨Advances.refl _, h, fun _ _ => rfl, ?_, ?_⟩
          · intro r hr
            cases hr
          · intro r hr
            cases hr
        · -- The order settles.
          generalize resolveActivity entry p.quantity = status at hs ⊢
          obtain ⟨hid, ho, hb⟩ := settle_spec ({ e with world := w } : SaxoExecutor W) oid p
            status.1 status.2.1 status.2.2.1 status.2.2.2 now
          generalize ({ e with world := w } : SaxoExecutor W).settle oid p status.1 status.2.1
            status.2.2.1 status.2.2.2 now = r at hid ho hb ⊢
          have hset : (r.2.resolve oid p r.1).openOrders
              = e.openOrders.set oid { p with resolved := some r.1 } := by
            show r.2.openOrders.set oid _ = _
            rw [ho]
          have hstage : (r.2.resolve oid p r.1).stage oid = .resolved r.1 :=
            (stage_eq_resolved_iff _ _ _).mpr ⟨_, by rw [hset, Dict.get?_set_self], rfl⟩
          have hother : ∀ j, oid ≠ j →
              (r.2.resolve oid p r.1).openOrders.get? j = e.openOrders.get? j :=
            fun j hne => by rw [hset, Dict.get?_set_ne _ _ hne]
          refine ⟨advances_of_resolves (k := oid) (r := r.1) ?_ ?_ hstage ?_ ?_ hb, ?_, hother,
            ?_, ?_⟩
          · intro r' hr'
            obtain ⟨p', hg, hp'⟩ := (e.stage_eq_resolved_iff _ _).mp hr'
            rw [hget] at hg
            cases hg
            rw [hp] at hp'
            cases hp'
          · intro hspent
            rw [show e.openOrders.get? oid = none from hspent] at hget
            cases hget
          · intro j hne
            show PendingOrder.stage _ = PendingOrder.stage _
            rw [hother j hne]
          · intro j hspent
            have hne : oid ≠ j := by
              rintro rfl
              rw [show e.openOrders.get? oid = none from hspent] at hget
              cases hget
            exact (hother j hne).trans hspent
          · intro k p' hg r' hr'
            rw [hset, Dict.get?_set] at hg
            split_ifs at hg with hk
            · cases hg
              cases hr'
              exact hk ▸ hid
            · exact h k p' hg r' hr'
          · intro r' hr'
            cases hr'
            exact ⟨hid, hstage⟩
          · intro r' hr'
            cases hr'

/-- **The loop.** It advances the orders, returns each order that was resolved, and returns
nothing else that is not resolved after it. -/
theorem reconcileEach_spec (now : Time) (entries : List (OrderId × PendingOrder))
    (e : SaxoExecutor W) (h : Tidy e) (hn : (entries.map Prod.fst).Nodup)
    (hentries : ∀ id p, (id, p) ∈ entries → e.openOrders.get? id = some p) :
    Advances (snapshot e) (snapshot (reconcileEach c now entries e).2) ∧
      Tidy (reconcileEach c now entries e).2 ∧
      (∀ id p r, (id, p) ∈ entries → p.resolved = some r →
        r ∈ (reconcileEach c now entries e).1) ∧
      (∀ r ∈ (reconcileEach c now entries e).1,
        (reconcileEach c now entries e).2.stage r.orderId = .resolved r) ∧
      ((reconcileEach c now entries e).1.map OrderResult.orderId).Sublist
        (entries.map Prod.fst) := by
  induction entries generalizing e with
  | nil =>
      refine ⟨Advances.refl _, h, ?_, ?_, List.Sublist.refl _⟩
      · intro id p r hm
        cases hm
      · intro r hr
        cases hr
  | cons entry rest ih =>
      obtain ⟨oid, p⟩ := entry
      obtain ⟨hnew, hrest⟩ := List.nodup_cons.mp hn
      obtain ⟨h1, h2, h3, h4, h5⟩ := reconcileOne_spec c oid p now e h
        (hentries oid p List.mem_cons_self)
      obtain ⟨h6, h7, h8, h9, h10⟩ := ih (reconcileOne c oid p now e).2 h2 hrest (by
        intro id p' hm
        have hne : oid ≠ id := by
          rintro rfl
          exact hnew (List.mem_map.mpr ⟨_, hm, rfl⟩)
        rw [h3 id hne]
        exact hentries id p' (List.mem_cons_of_mem _ hm))
      refine ⟨h1.trans h6, h7, fun id p' r hm hr => ?_, fun r hr => ?_, ?_⟩
      · rcases List.mem_cons.mp hm with he | hm
        · cases he
          exact List.mem_append_left _ (by rw [h5 r hr]; exact List.mem_singleton_self r)
        · exact List.mem_append_right _ (h8 id p' r hm hr)
      · rcases List.mem_append.mp hr with hr | hr
        · obtain ⟨hid, hstage⟩ := h4 r (Option.mem_toList.mp hr)
          rw [hid]
          exact h6.resolved _ _ hstage
        · exact h9 r hr
      · unfold reconcileEach
        dsimp only
        cases hone : (reconcileOne c oid p now e).1 with
        | none => exact h10.trans (List.sublist_cons_self _ _)
        | some r =>
            show (r.orderId :: _).Sublist (oid :: _)
            rw [(h4 r hone).1]
            exact h10.cons_cons oid

theorem reconcileOpenOrders_spec (now : Time) (e : SaxoExecutor W) (h : Tidy e) :
    Advances (snapshot e) (snapshot (reconcileOpenOrders c now e).2) ∧
      Tidy (reconcileOpenOrders c now e).2 ∧
      (∀ id r, e.stage id = .resolved r → r ∈ (reconcileOpenOrders c now e).1) ∧
      (∀ r ∈ (reconcileOpenOrders c now e).1,
        (reconcileOpenOrders c now e).2.stage r.orderId = .resolved r) ∧
      ((reconcileOpenOrders c now e).1.map OrderResult.orderId).Nodup := by
  obtain ⟨h1, h2, h3, h4, h5⟩ := reconcileEach_spec c now e.openOrders.entries e h
    e.openOrders.nodup (fun id p hm => (Dict.mem_entries_iff _ _ _).mp hm)
  refine ⟨h1, h2, fun id r hr => ?_, h4, h5.nodup e.openOrders.nodup⟩
  obtain ⟨p, hg, hp⟩ := (e.stage_eq_resolved_iff _ _).mp hr
  exact h3 id p r ((Dict.mem_entries_iff _ _ _).mpr hg) hp

/-! ## The two-phase component -/

def reconcileStep : CcxtExecutor.ReconcileInput W → SaxoExecutor W → SaxoExecutor W
  | .venue move, e => { e with world := move e.world }
  | .reconcile now, e => (reconcileOpenOrders c now e).2
  | .confirm id, e => e.confirmReconciled id

/-- The executor under reconciliation. -/
def reconciler : Component (SaxoExecutor W) (CcxtExecutor.ReconcileInput W) OrderId
    OrderResult where
  step := reconcileStep c
  snapshot := snapshot
  confirms i :=
    match i with
    | .confirm id => some id
    | _ => none
  asks i :=
    match i with
    | .reconcile _ => True
    | _ => False
  answers _ _ := True
  returned i e :=
    match i with
    | .reconcile now => some (reconcileOpenOrders c now e).1
    | _ => none
  key := OrderResult.orderId

/-- A confirmation forgets a resolved order and does nothing else. -/
theorem confirmReconciled_cases (e : SaxoExecutor W) (id : OrderId) :
    (∃ r, e.stage id = .resolved r) ∧
        e.confirmReconciled id = { e with openOrders := e.openOrders.erase id } ∨
      (∀ r, e.stage id ≠ .resolved r) ∧ e.confirmReconciled id = e := by
  have hnot : (∀ p, e.openOrders.get? id = some p → p.resolved = none) →
      ∀ r, e.stage id ≠ .resolved r := by
    intro h r hr
    obtain ⟨p, hg, hp⟩ := (e.stage_eq_resolved_iff _ _).mp hr
    rw [h p hg] at hp
    cases hp
  unfold confirmReconciled
  cases hg : e.openOrders.get? id with
  | none =>
      refine Or.inr ⟨hnot fun p hp => ?_, rfl⟩
      rw [hg] at hp
      cases hp
  | some p =>
      cases hp : p.resolved with
      | none =>
          refine Or.inr ⟨hnot fun p' hg' => ?_, by simp [hp]⟩
          rw [hg] at hg'
          cases hg'
          exact hp
      | some r =>
          refine Or.inl ⟨⟨r, (e.stage_eq_resolved_iff _ _).mpr ⟨p, hg, hp⟩⟩, ?_⟩
          simp [hp]

theorem confirms_confirmReconciled (e : SaxoExecutor W) (id : OrderId) :
    Confirms id (snapshot e) (snapshot (e.confirmReconciled id)) := by
  rcases e.confirmReconciled_cases id with ⟨⟨r, hr⟩, he⟩ | ⟨hn, he⟩
  · rw [he]
    refine ⟨fun _ _ => Dict.get?_erase_self _ _, fun hn => absurd hr (hn r), fun k hne => ?_,
      fun k hk => ?_, fun _ => rfl⟩
    · show PendingOrder.stage ((e.openOrders.erase id).get? k) = e.stage k
      rw [Dict.get?_erase_ne _ hne]
      rfl
    · show (e.openOrders.erase id).get? k = none
      rw [Dict.get?_erase]
      split_ifs
      · rfl
      · exact hk
  · rw [he]
    exact ⟨fun r hr => absurd hr (hn r), fun _ => rfl, fun _ _ => rfl, fun _ hk => hk,
      fun _ => rfl⟩

theorem tidy_confirmReconciled (e : SaxoExecutor W) (h : Tidy e) (id : OrderId) :
    Tidy (e.confirmReconciled id) := by
  rcases e.confirmReconciled_cases id with ⟨-, he⟩ | ⟨-, he⟩
  · rw [he]
    intro k p hg
    rw [show ({ e with openOrders := e.openOrders.erase id } : SaxoExecutor W).openOrders
      = e.openOrders.erase id from rfl, Dict.get?_erase] at hg
    split_ifs at hg
    exact h k p hg
  · rw [he]
    exact h

/-- The executor follows the two-phase protocol. -/
def reconcilerProtocol : Protocol (reconciler c) where
  Inv := Tidy
  inv_step := by
    intro e i h
    cases i with
    | venue move => exact h
    | reconcile now => exact (reconcileOpenOrders_spec c now e h).2.1
    | confirm id => exact tidy_confirmReconciled e h id
  spent_untracked := by
    intro e k _ hk
    show PendingOrder.stage (e.openOrders.get? k) = .untracked
    rw [show e.openOrders.get? k = none from hk]
    rfl
  advance_step := by
    intro e i h hi
    cases i with
    | venue move => exact Advances.refl _
    | reconcile now => exact (reconcileOpenOrders_spec c now e h).1
    | confirm id => cases hi
  confirm_step := by
    intro e k i h hi
    cases i with
    | venue move => cases hi
    | reconcile now => cases hi
    | confirm id =>
        obtain rfl : id = k := Option.some.inj hi
        exact confirms_confirmReconciled e id
  returned_answers := by
    intro e i _
    cases i with
    | venue move => exact ⟨fun hn => (nomatch hn), fun hn => hn.1.elim⟩
    | reconcile now => exact ⟨fun _ => ⟨trivial, trivial⟩, fun _ => rfl⟩
    | confirm id => exact ⟨fun hn => (nomatch hn), fun hn => hn.1.elim⟩
  returned_complete := by
    intro e k r rs i h hi hk
    cases i with
    | venue move => cases hi
    | reconcile now =>
        cases hi
        exact (reconcileOpenOrders_spec c now e h).2.2.1 k r hk
    | confirm id => cases hi
  returned_sound := by
    intro e r rs i h hi hr
    cases i with
    | venue move => cases hi
    | reconcile now =>
        cases hi
        exact (reconcileOpenOrders_spec c now e h).2.2.2.1 r hr
    | confirm id => cases hi
  returned_nodup := by
    intro e rs i h hi
    cases i with
    | venue move => cases hi
    | reconcile now =>
        cases hi
        exact (reconcileOpenOrders_spec c now e h).2.2.2.2
    | confirm id => cases hi
  returned_confirms := by
    intro e i hi
    cases i with
    | venue move => cases hi
    | reconcile now => rfl
    | confirm id => cases hi

/-- In every run the ledger follows the journal. -/
theorem journaled_reconciler (inputs : List (CcxtExecutor.ReconcileInput W))
    (e : SaxoExecutor W) : Journaled e (Lib.run (reconciler c).step inputs e) := by
  refine run_invariant (I := Journaled e) ?_ inputs (Journaled.refl e)
  intro i e' hj
  cases i with
  | venue move => exact hj
  | reconcile now => exact hj.trans (journaled_reconcileEach c now _ e')
  | confirm id =>
      refine hj.trans ?_
      show Journaled e' (e'.confirmReconciled id)
      rcases e'.confirmReconciled_cases id with ⟨-, he⟩ | ⟨-, he⟩
      · rw [he]
        exact Journaled.refl e'
      · rw [he]
        exact Journaled.refl e'

end Calls

/-- A new executor tracks nothing. -/
theorem tidy_create (w : W) (config : SaxoConfig) : Tidy (create w config) := by
  intro id p hg
  cases hg

end SaxoExecutor

/-- The ledger changed by the entries that its journal has more, of which at most one books a fill
of any one order. -/
def BookedAtMostOnce (t : PositionTracker) (journal : List LedgerEntry) (t' : PositionTracker)
    (journal' : List LedgerEntry) : Prop :=
  ∃ entries, journal' = journal ++ entries ∧ t' = entries.foldl LedgerEntry.apply t ∧
    ∀ id, bookings id entries ≤ 1

theorem bookedAtMostOnce_of_replays {t t' : PositionTracker} {journal journal' : List LedgerEntry}
    (h : CcxtExecutor.Replays t journal t' journal')
    (honce : ∀ id, bookings id journal' ≤ bookings id journal + 1) :
    BookedAtMostOnce t journal t' journal' := by
  obtain ⟨entries, rfl, rfl⟩ := h
  refine ⟨entries, rfl, rfl, fun id => ?_⟩
  have hid := honce id
  rw [CcxtExecutor.bookings_append] at hid
  omega

/-- **Reconciliation hands results over in two phases.** For both venue executors, over every
run of reconciliations and confirmations and with any behaviour of the venue in between: the ledger
changes by at most one fill of each order; a terminal result is returned unchanged by every
reconciliation that is answered until it is confirmed, and by none after; and no tracked order is
lost. A reconciliation of the ccxt executor is answered exactly where each time that it reads can be
converted, the Saxo executor's always. -/
theorem two_phase_reconciliation {W V : Type} (c : ExchangeClient W)
    (hfetch : c.fetchOrder.isSome) (e : CcxtExecutor W) (he : e.Tidy c) (d : SaxoClient V)
    (x : SaxoExecutor V) (hx : x.Tidy) :
    (HandsOver (CcxtExecutor.reconciler c) e ∧ ∀ inputs,
      let e' := Lib.run (CcxtExecutor.reconciler c).step inputs e
      BookedAtMostOnce e.tracker e.journal e'.tracker e'.journal) ∧
    (HandsOver (SaxoExecutor.reconciler d) x ∧ ∀ inputs,
      let x' := Lib.run (SaxoExecutor.reconciler d).step inputs x
      BookedAtMostOnce x.tracker x.journal x'.tracker x'.journal) := by
  have hccxt := (CcxtExecutor.reconcilerProtocol c hfetch).handsOver he
  have hsaxo := (SaxoExecutor.reconcilerProtocol d).handsOver hx
  refine ⟨⟨hccxt, fun inputs => ?_⟩, hsaxo, fun inputs => ?_⟩
  · exact bookedAtMostOnce_of_replays (CcxtExecutor.journaled_reconciler c inputs he)
      (hccxt.once inputs)
  · exact bookedAtMostOnce_of_replays (SaxoExecutor.journaled_reconciler d inputs x)
      (hsaxo.once inputs)

/-- It holds with an order that rests at the venue. -/
theorem two_phase_reconciliation_resting :
    let script : Script :=
      { Script.empty with
        creates := [.ok (Script.ack "7")]
        fetches := [.ok (Script.working "7")] }
    let buy : OrderRequest := ⟨"BTC/USDT", .buy, 2, some 100, none, none, none⟩
    let e := ((CcxtExecutor.create script "USDT" VenueOrderSettings.default).placeOrder
      Script.client buy ⟨"u", 0⟩).2
    let x := SaxoExecutor.create ([] : AuditLog) ⟨none, none, Dict.empty, "Stock", 0, 1, 1 / 20⟩
    e.openOrders.keys = ["7"] ∧
      (HandsOver (CcxtExecutor.reconciler Script.client) e ∧ ∀ inputs,
        let e' := Lib.run (CcxtExecutor.reconciler Script.client).step inputs e
        BookedAtMostOnce e.tracker e.journal e'.tracker e'.journal) ∧
      (HandsOver (SaxoExecutor.reconciler AuditLog.client) x ∧ ∀ inputs,
        let x' := Lib.run (SaxoExecutor.reconciler AuditLog.client).step inputs x
        BookedAtMostOnce x.tracker x.journal x'.tracker x'.journal) := by
  intro script buy e x
  refine ⟨by decide +kernel, two_phase_reconciliation Script.client rfl e ?_ AuditLog.client x
    (SaxoExecutor.tidy_create _ _)⟩
  refine CcxtExecutor.tidy_placeOrder (CcxtExecutor.tidy_create _ _ _ _) buy _ fun r _ hf => ?_
  exact absurd hf.1 (by decide)

/-- Two orders rest. The first is filled; then the second is filled at a time of the year 10000, and
the result of the first is not returned any more. -/
theorem far_time_withholds :
    let script : Script :=
      { Script.empty with
        creates := [.ok (Script.ack "7"), .ok (Script.ack "8")]
        fetches := [.ok (Script.working "7"), .ok (Script.working "8"),
          .ok (Script.closed "7" 2 100), .ok (Script.working "8"),
          .ok { Script.closed "8" 1 50 with timestamp := some 253402300800000 }] }
    let e₁ := ((CcxtExecutor.create script "USDT" VenueOrderSettings.default).placeOrder
      Script.client ⟨"BTC/USDT", .buy, 2, some 100, none, none, none⟩ ⟨"u", 0⟩).2
    let e₂ := (e₁.placeOrder Script.client ⟨"ETH/USDT", .buy, 1, some 50, none, none, none⟩
      ⟨"v", 0⟩).2
    ¬ ∀ before between ask k r,
      (CcxtExecutor.reconciler Script.client).stage
        (Lib.run (CcxtExecutor.reconciler Script.client).step before e₂) k = .resolved r →
      (∀ i ∈ between, (CcxtExecutor.reconciler Script.client).confirms i ≠ some k) →
      (CcxtExecutor.reconciler Script.client).asks ask →
      ∃ rs, (CcxtExecutor.reconciler Script.client).returned ask
        (Lib.run (CcxtExecutor.reconciler Script.client).step (before ++ between) e₂) = some rs ∧
          r ∈ rs := by
  intro script e₁ e₂ h
  have hresolved : ((Lib.run (CcxtExecutor.reconciler Script.client).step [.reconcile 0]
      e₂).openOrders.get? "7").bind PendingOrder.resolved ≠ none := by decide +kernel
  have hraises : (CcxtExecutor.datedReconcileOpenOrders Script.client 0
      (Lib.run (CcxtExecutor.reconciler Script.client).step [.reconcile 0] e₂)).1.toOption
        = none := by decide +kernel
  obtain ⟨r, hr⟩ := Option.ne_none_iff_exists'.mp hresolved
  obtain ⟨p, hp, hpr⟩ := Option.bind_eq_some_iff.mp hr
  have hstage := (CcxtExecutor.stage_eq_resolved_iff _ _ _).mpr ⟨p, hp, hpr⟩
  obtain ⟨rs, hrs, -⟩ := h [.reconcile 0] [] (.reconcile 0) "7" r hstage
    (fun i hi => (nomatch hi)) trivial
  have hnone : (CcxtExecutor.datedReconcileOpenOrders Script.client 0
      (Lib.run (CcxtExecutor.reconciler Script.client).step [.reconcile 0] e₂)).1.toOption
        = some rs := hrs
  rw [hraises] at hnone
  cases hnone

end SmartyTrader
