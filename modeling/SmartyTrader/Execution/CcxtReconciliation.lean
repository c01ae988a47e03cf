import SmartyTrader.Execution.CcxtMoves
import SmartyTrader.Lib.TwoPhase

set_option autoImplicit false

/-! # Two-phase reconciliation of the ccxt executor

The tracked orders of the executor as a two-phase component (`Lib.TwoPhase`): an order works at
the venue, resolves once, and is confirmed. `Advance` says what any number of moves does to the
stages of all orders at once; the calls of the executor follow from `CcxtMoves`.
-/

namespace SmartyTrader

open Lib TwoPhase

variable {W : Type}

/-- An entry of the journal that books a fill of the order. -/
def LedgerEntry.books (id : OrderId) : LedgerEntry → Bool
  | .fill f => f.orderId = id
  | .writeOff _ => false

/-- How often a fill of the order was booked. -/
def bookings (id : OrderId) (journal : List LedgerEntry) : ℕ :=
  journal.countP (LedgerEntry.books id)

/-- Where a tracked order stands. -/
def PendingOrder.stage : Option PendingOrder → Stage OrderResult
  | none => .untracked
  | some p =>
      match p.resolved with
      | none => .working
      | some r => .resolved r

namespace CcxtExecutor

def stage (e : CcxtExecutor W) (id : OrderId) : Stage OrderResult :=
  PendingOrder.stage (e.openOrders.get? id)

theorem stage_eq_resolved_iff (e : CcxtExecutor W) (id : OrderId) (r : OrderResult) :
    e.stage id = .resolved r ↔
      ∃ p, e.openOrders.get? id = some p ∧ p.resolved = some r := by
  unfold stage PendingOrder.stage
  cases e.openOrders.get? id with
  | none => simp
  | some p => cases h : p.resolved <;> simp [h]

theorem stage_eq_untracked_iff (e : CcxtExecutor W) (id : OrderId) :
    e.stage id = .untracked ↔ e.openOrders.get? id = none := by
  unfold stage PendingOrder.stage
  cases e.openOrders.get? id with
  | none => simp
  | some p => cases h : p.resolved <;> simp [h]

/-- Results carry the id they are tracked under, and a tracked order that may be the child of a
protective order is one that was booked as such. -/
def Tidy (c : ExchangeClient W) (e : CcxtExecutor W) : Prop :=
  ∀ id p, e.openOrders.get? id = some p →
    (∀ r, p.resolved = some r → r.orderId = id) ∧
      (MayFire c e id → p.resolved.isSome ∧ id ∈ e.knownOrderIds)

/-- The order is not tracked and will not be: it is no child that is still to fire. -/
def Spent (c : ExchangeClient W) (e : CcxtExecutor W) (id : OrderId) : Prop :=
  e.openOrders.get? id = none ∧ (MayFire c e id → id ∈ e.knownOrderIds)

theorem Tidy.noClash {c : ExchangeClient W} {e : CcxtExecutor W} (h : Tidy c e) : NoClash c e := by
  intro id p hget hp hfire
  have := ((h id p hget).2 hfire).1
  rw [hp] at this
  cases this

/-- What can be seen of the tracked orders. -/
def snapshot (c : ExchangeClient W) (e : CcxtExecutor W) : Snapshot OrderId OrderResult :=
  ⟨e.stage, Spent c e, fun id => bookings id e.journal⟩

/-- What any number of moves does to all orders. -/
structure Advance (c : ExchangeClient W) (e e' : CcxtExecutor W) : Prop
    extends Advances (snapshot c e) (snapshot c e') where
  tidy : Tidy c e'

theorem Advance.refl {c : ExchangeClient W} {e : CcxtExecutor W} (h : Tidy c e) :
    Advance c e e :=
  ⟨Advances.refl _, h⟩

theorem Advance.trans {c : ExchangeClient W} {a b d : CcxtExecutor W} (h : Advance c a b)
    (h' : Advance c b d) : Advance c a d :=
  ⟨h.toAdvances.trans h'.toAdvances, h'.tidy⟩

/-- A working or untracked order has no result. -/
theorem stage_ne_resolved {e : CcxtExecutor W} {id : OrderId}
    (h : ∀ p, e.openOrders.get? id = some p → p.resolved = none) (r : OrderResult) :
    e.stage id ≠ .resolved r := by
  intro hr
  obtain ⟨p, hg, hp⟩ := (e.stage_eq_resolved_iff _ _).mp hr
  rw [h p hg] at hp
  cases hp

/-- A write of one resolved order. -/
theorem stage_set {e e' : CcxtExecutor W} {id : OrderId} {p : PendingOrder} {r : OrderResult}
    (ho : e'.openOrders = e.openOrders.set id p) (hp : p.resolved = some r) :
    e'.stage id = .resolved r ∧ ∀ j, id ≠ j → e'.stage j = e.stage j := by
  refine ⟨(e'.stage_eq_resolved_iff _ _).mpr ⟨p, by rw [ho, Dict.get?_set_self], hp⟩, ?_⟩
  intro j hne
  unfold stage
  rw [ho, Dict.get?_set_ne _ _ hne]

/-! ## The journal -/

theorem bookings_append (id : OrderId) (xs ys : List LedgerEntry) :
    bookings id (xs ++ ys) = bookings id xs + bookings id ys :=
  List.countP_append

theorem journal_writeOffDust (e : CcxtExecutor W) (s : Symbol) :
    (e.writeOffDust s).journal = e.journal ∨
      (e.writeOffDust s).journal = e.journal ++ [.writeOff s] := by
  unfold writeOffDust
  dsimp only
  split_ifs
  · exact Or.inr rfl
  · exact Or.inl rfl

theorem bookings_writeOffDust (e : CcxtExecutor W) (s : Symbol) (id : OrderId) :
    bookings id (e.writeOffDust s).journal = bookings id e.journal := by
  rcases e.journal_writeOffDust s with h | h
  · rw [h]
  · rw [h, bookings_append]
    rfl

/-- A recorded fill is booked once, under its own order. -/
theorem bookings_recordFill (e : CcxtExecutor W) (f : BookedFill) (id : OrderId) :
    bookings id (e.recordFill f).2.journal
      = bookings id e.journal + if f.orderId = id then 1 else 0 := by
  have hbook : bookings id (e.book f).2.journal
      = bookings id e.journal + if f.orderId = id then 1 else 0 := by
    show bookings id (e.journal ++ [.fill f]) = _
    rw [bookings_append]
    congr 1
    simp [bookings, LedgerEntry.books, List.countP_cons]
  rcases e.recordFill_cases f with h | ⟨-, h⟩
  · rw [h, hbook]
  · rw [h, bookings_writeOffDust, hbook]

theorem bookings_bookTriggered (e : CcxtExecutor W) (t : Triggered) (now : Time)
    (hk : t.childId ∉ e.knownOrderIds) (id : OrderId) :
    bookings id (e.bookTriggered t now).journal = bookings id e.journal ∨
      (t.childId = id ∧
        bookings id (e.bookTriggered t now).journal = bookings id e.journal + 1) := by
  have hj : (e.bookTriggered t now).journal = ((e.know t.childId).bookChild t now).2.journal := by
    unfold bookTriggered
    rw [if_neg hk]
    exact (ledger_dropFlatLevels _ _).2
  rw [hj]
  unfold bookChild
  dsimp only
  split
  · exact Or.inl rfl
  · rw [bookings_recordFill]
    by_cases h : t.childId = id
    · exact Or.inr ⟨h, congrArg _ (if_pos h)⟩
    · exact Or.inl (congrArg _ (if_neg h))

theorem bookings_settled (e : CcxtExecutor W) (oid : OrderId) (p : PendingOrder) (raw : RawOrder)
    (reason : Option OrderReason) (now : Time) (id : OrderId) :
    bookings id (e.settled oid p raw reason now).2.journal = bookings id e.journal ∨
      (oid = id ∧
        bookings id (e.settled oid p raw reason now).2.journal = bookings id e.journal + 1) := by
  show bookings id (e.settle oid p raw _ _ reason now).2.journal = _ ∨ _ ∧
    bookings id (e.settle oid p raw _ _ reason now).2.journal = _
  have hfill : ∀ q price,
      bookings id (e.recordFill (reportedFill oid p.symbol p.side q price p.decisionId
        raw)).2.journal = bookings id e.journal ∨
      (oid = id ∧ bookings id (e.recordFill (reportedFill oid p.symbol p.side q price
        p.decisionId raw)).2.journal = bookings id e.journal + 1) := by
    intro q price
    rw [bookings_recordFill]
    by_cases h : oid = id
    · exact Or.inr ⟨h, congrArg _ (if_pos h)⟩
    · exact Or.inl (congrArg _ (if_neg h))
  unfold settle
  dsimp only
  split_ifs
  · split
    · exact Or.inl rfl
    · exact hfill _ _
  · split
    · exact Or.inl rfl
    · exact hfill _ _
  · exact Or.inl rfl

/-! ## The ledger follows the journal -/

/-- The second ledger is the first one with the entries applied that its journal has more. -/
def Replays (t : PositionTracker) (journal : List LedgerEntry) (t' : PositionTracker)
    (journal' : List LedgerEntry) : Prop :=
  ∃ entries, journal' = journal ++ entries ∧ t' = entries.foldl LedgerEntry.apply t

theorem Replays.refl (t : PositionTracker) (journal : List LedgerEntry) :
    Replays t journal t journal :=
  ⟨[], (List.append_nil _).symm, rfl⟩

theorem Replays.trans {t t' t'' : PositionTracker} {journal journal' journal'' : List LedgerEntry}
    (h : Replays t journal t' journal') (h' : Replays t' journal' t'' journal'') :
    Replays t journal t'' journal'' := by
  obtain ⟨entries, rfl, rfl⟩ := h
  obtain ⟨entries', rfl, rfl⟩ := h'
  exact ⟨entries ++ entries', List.append_assoc _ _ _, List.foldl_append.symm⟩

/-- The ledger of the executor follows its journal. -/
def Journaled (e e' : CcxtExecutor W) : Prop :=
  Replays e.tracker e.journal e'.tracker e'.journal

theorem Journaled.refl (e : CcxtExecutor W) : Journaled e e := Replays.refl _ _

theorem Journaled.trans {a b d : CcxtExecutor W} (h : Journaled a b) (h' : Journaled b d) :
    Journaled a d :=
  Replays.trans h h'

/-- Neither ledger nor journal changed. -/
theorem journaled_of_same {e e' : CcxtExecutor W} (ht : e'.tracker = e.tracker)
    (hj : e'.journal = e.journal) : Journaled e e' := by
  unfold Journaled
  rw [ht, hj]
  exact Replays.refl _ _

theorem journaled_writeOffDust (e : CcxtExecutor W) (s : Symbol) :
    Journaled e (e.writeOffDust s) := by
  unfold writeOffDust
  dsimp only
  split_ifs
  · exact ⟨[.writeOff s], rfl, rfl⟩
  · exact Journaled.refl e

theorem journaled_recordFill (e : CcxtExecutor W) (f : BookedFill) :
    Journaled e (e.recordFill f).2 := by
  have hbook : Journaled e (e.book f).2 := ⟨[.fill f], rfl, rfl⟩
  rcases e.recordFill_cases f with h | ⟨-, h⟩
  · rw [h]
    exact hbook
  · rw [h]
    exact hbook.trans (journaled_writeOffDust _ _)

theorem journaled_bookTriggered (e : CcxtExecutor W) (t : Triggered) (now : Time) :
    Journaled e (e.bookTriggered t now) := by
  have hchild : Journaled e ((e.know t.childId).bookChild t now).2 := by
    unfold bookChild
    dsimp only
    split
    · exact journaled_of_same rfl rfl
    · exact journaled_recordFill (e.know t.childId) _
  unfold bookTriggered
  split_ifs
  · exact Journaled.refl e
  · obtain ⟨ht, hj⟩ := ledger_dropFlatLevels ((e.know t.childId).bookChild t now).2 t.symbol
    exact hchild.trans (journaled_of_same ht hj)

theorem journaled_settled (e : CcxtExecutor W) (id : OrderId) (p : PendingOrder) (raw : RawOrder)
    (reason : Option OrderReason) (now : Time) :
    Journaled e (e.settled id p raw reason now).2 := by
  show Journaled e (e.settle id p raw _ _ reason now).2
  by_cases hfill : (resolveStatus raw p.quantity).1 = .filled ∧ raw.fillPrice.isSome
  · obtain ⟨price, hp⟩ := Option.isSome_iff_exists.mp hfill.2
    obtain ⟨ht, hj, -⟩ := e.settle_booked id p (resolveStatus raw p.quantity).2.1 reason now
      hfill.1 hp
    exact (e.journaled_recordFill _).trans (journaled_of_same ht hj)
  · rw [e.settle_unbooked id p _ reason now fun hs => ?_]
    · exact Journaled.refl e
    · rw [not_and, Option.not_isSome_iff_eq_none] at hfill
      exact hfill hs

theorem journaled_bookPlaced (e : CcxtExecutor W) (req : OrderRequest) (id : OrderId)
    (q price : ℚ) (raw : RawOrder) : Journaled e (e.bookPlaced req id q price raw).2 := by
  obtain ⟨ht, hj⟩ := e.bookPlaced_booked req id q price raw
  exact (e.journaled_recordFill _).trans (journaled_of_same ht hj)

theorem Asides.journaled {c : ExchangeClient W} {e e' : CcxtExecutor W} (h : Asides c e e') :
    Journaled e e' := by
  induction h with
  | refl => exact Journaled.refl e
  | tail _ hstep ih =>
      refine ih.trans ?_
      cases hstep with
      | quiet hq => exact journaled_of_same hq.tracker hq.journal
      | dust s => exact journaled_writeOffDust _ s
      | fired t now => exact journaled_bookTriggered _ t now

/-! ## Moves advance the orders -/

/-- The orders are the same, and so is what may still fire. -/
theorem advance_of_same {c : ExchangeClient W} {e e' : CcxtExecutor W} (h : Tidy c e)
    (ho : e'.openOrders = e.openOrders) (hk : e'.knownOrderIds = e.knownOrderIds)
    (hp : e'.protection.isSome = e.protection.isSome)
    (hj : ∀ id, bookings id e'.journal = bookings id e.journal) : Advance c e e' where
  toAdvances := by
    refine advances_of_same (fun id => ?_) (fun id hs => ?_) hj
    · show e'.stage id = e.stage id
      unfold stage
      rw [ho]
    · show Spent c e' id
      unfold Spent MayFire
      rw [ho, hk, hp]
      exact hs
  tidy := by
    unfold Tidy MayFire
    rw [ho, hk, hp]
    exact h

/-- A new resolved child of a protective order. -/
theorem advance_fired {c : ExchangeClient W} {e : CcxtExecutor W} (h : Tidy c e) (t : Triggered)
    (now : Time) (hp : e.protection.isSome) (hc : IsChild c t.childId)
    (hk : t.childId ∉ e.knownOrderIds) : Advance c e (e.bookTriggered t now) := by
  obtain ⟨r, hid, ho⟩ := e.openOrders_bookTriggered t now hk
  have hknown := e.knownOrderIds_bookTriggered t now hk
  have hprot := e.protection_bookTriggered t now
  have hfire : MayFire c e t.childId := ⟨hp, hc⟩
  -- The child was not tracked before, or it would be known.
  have hnone : e.openOrders.get? t.childId = none := by
    cases hg : e.openOrders.get? t.childId with
    | none => rfl
    | some p => exact absurd ((h _ p hg).2 hfire).2 hk
  have hnospent : ¬ Spent c e t.childId := fun hs => hk (hs.2 hfire)
  obtain ⟨hstage, hother⟩ := stage_set ho rfl
  refine ⟨advances_of_resolves (k := t.childId) (r := r) ?_ hnospent hstage hother ?_ ?_, ?_⟩
  · exact stage_ne_resolved (fun p hg => by rw [hnone] at hg; cases hg)
  · intro id hspent
    have hs : t.childId ≠ id := by
      rintro rfl
      exact hnospent hspent
    show Spent c (e.bookTriggered t now) id
    unfold Spent MayFire
    rw [hprot, hknown, ho, Dict.get?_set_ne _ _ hs]
    exact ⟨hspent.1, fun hf => List.mem_cons_of_mem _ (hspent.2 hf)⟩
  · exact e.bookings_bookTriggered t now hk
  · intro id p hget
    unfold MayFire
    rw [hprot, hknown]
    rw [ho, Dict.get?_set] at hget
    split_ifs at hget with hs
    · cases hget
      subst hs
      exact ⟨fun r' hr' => by cases hr'; exact hid, fun _ => ⟨rfl, List.mem_cons_self⟩⟩
    · obtain ⟨h1, h2⟩ := h id p hget
      exact ⟨h1, fun hf => ⟨(h2 hf).1, List.mem_cons_of_mem _ (h2 hf).2⟩⟩

/-- A working order that resolves. -/
theorem advance_settles {c : ExchangeClient W} {e e' : CcxtExecutor W} (h : Tidy c e)
    {oid : OrderId} {p : PendingOrder} {r : OrderResult} (hs : Settles c oid p r e e') :
    Advance c e e' ∧ e'.stage oid = .resolved r := by
  have ho := hs.openOrders
  obtain ⟨hprot, hknown⟩ := hs.frame
  have hid := hs.orderId
  have hbooked : ∀ id, bookings id e'.journal = bookings id e.journal ∨
      (oid = id ∧ bookings id e'.journal = bookings id e.journal + 1) := by
    cases hs with
    | intro raw reason now => exact e.bookings_settled oid p raw reason now
  have hworking : e.openOrders.get? oid = some p ∧ p.resolved = none := by
    cases hs with
    | intro raw reason now hget hworking => exact ⟨hget, hworking⟩
  have hnofire := h.noClash oid p hworking.1 hworking.2
  have hnospent : ¬ Spent c e oid := by
    intro hspent
    rw [hspent.1] at hworking
    cases hworking.1
  obtain ⟨hstage, hother⟩ := stage_set ho rfl
  refine ⟨⟨advances_of_resolves (k := oid) (r := r) ?_ hnospent hstage hother ?_ hbooked, ?_⟩,
    hstage⟩
  · refine stage_ne_resolved fun p' hg => ?_
    rw [hworking.1] at hg
    cases hg
    exact hworking.2
  · intro id hspent
    have hne : oid ≠ id := by
      rintro rfl
      exact hnospent hspent
    show Spent c e' id
    unfold Spent MayFire
    rw [hprot, hknown, ho, Dict.get?_set_ne _ _ hne]
    exact hspent
  · intro id p' hget
    unfold MayFire
    rw [hprot, hknown]
    rw [ho, Dict.get?_set] at hget
    split_ifs at hget with hsame
    · cases hget
      subst hsame
      exact ⟨fun r' hr' => by cases hr'; exact hid, fun hf => absurd hf hnofire⟩
    · exact h id p' hget

theorem Aside.advance {c : ExchangeClient W} {e e' : CcxtExecutor W} (h : Tidy c e)
    (ha : Aside c e e') : Advance c e e' := by
  cases ha with
  | quiet hq =>
      exact advance_of_same h hq.openOrders hq.knownOrderIds hq.protection
        (fun id => by rw [hq.journal])
  | dust s =>
      have hf := frame_writeOffDust e s
      exact advance_of_same h hf.openOrders hf.knownOrderIds (by rw [hf.protection])
        (e.bookings_writeOffDust s)
  | fired t now hp hc hk => exact advance_fired h t now hp hc hk

theorem Asides.advance {c : ExchangeClient W} {e e' : CcxtExecutor W} (h : Tidy c e)
    (ha : Asides c e e') : Advance c e e' := by
  induction ha with
  | refl => exact Advance.refl h
  | tail _ hstep ih => exact ih.trans (hstep.advance ih.tidy)

theorem Moves.advance {c : ExchangeClient W} {e e' : CcxtExecutor W} (h : Tidy c e)
    (hm : Moves c e e') : Advance c e e' := by
  induction hm with
  | refl => exact Advance.refl h
  | tail _ hstep ih =>
      cases hstep with
      | aside ha => exact ih.trans (ha.advance ih.tidy)
      | settles id p r hs => exact ih.trans (advance_settles ih.tidy hs).1

/-! ## The calls -/

section Calls

variable (c : ExchangeClient W)

/-- The entries still to be polled are the orders that work. -/
def Polls (e : CcxtExecutor W) (entries : List (OrderId × PendingOrder)) : Prop :=
  (entries.map Prod.fst).Nodup ∧
    ∀ id p, (id, p) ∈ entries → p.resolved = none → e.openOrders.get? id = some p

theorem Polls.tail {e : CcxtExecutor W} {entry : OrderId × PendingOrder}
    {rest : List (OrderId × PendingOrder)} (h : Polls e (entry :: rest)) : Polls e rest :=
  ⟨(List.nodup_cons.mp h.1).2, fun id p hm => h.2 id p (List.mem_cons_of_mem _ hm)⟩

/-- The orders still to be polled keep working in a move aside. -/
theorem Polls.aside {e e' : CcxtExecutor W} {entries : List (OrderId × PendingOrder)}
    (h : Polls e entries) (hn : NoClash c e) (ha : Asides c e e') : Polls e' entries :=
  ⟨h.1, fun id p hm hp => (ha.working (h.2 id p hm hp) (hn id p (h.2 id p hm hp) hp)).1⟩

/-- They keep working while another order settles. -/
theorem Polls.settles {e e' : CcxtExecutor W} {id : OrderId} {p : PendingOrder}
    {rest : List (OrderId × PendingOrder)} {r : OrderResult} (h : Polls e ((id, p) :: rest))
    (hs : Settles c id p r e e') : Polls e' rest := by
  refine ⟨h.tail.1, fun id' p' hm hp' => ?_⟩
  have hne : id ≠ id' := by
    rintro rfl
    exact (List.nodup_cons.mp h.1).1 (List.mem_map.mpr ⟨_, hm, rfl⟩)
  rw [hs.openOrders, Dict.get?_set_ne _ _ hne]
  exact h.tail.2 id' p' hm hp'

/-- One order of the loop: it is a sequence of moves, the orders behind it are still to be polled,
and what it returns is resolved. -/
theorem moves_reconcileOne {f : OrderId → Symbol → W → Except PyError (Option RawOrder) × W}
    (hf : c.fetchOrder = some f) (now : Time) {id : OrderId} {p : PendingOrder}
    {rest : List (OrderId × PendingOrder)} {e : CcxtExecutor W} (h : Tidy c e)
    (hpolls : Polls e ((id, p) :: rest)) (hp : p.resolved = none) :
    Moves c e (reconcileOne c f id p now e).2 ∧ Polls (reconcileOne c f id p now e).2 rest ∧
      ∀ r ∈ (reconcileOne c f id p now e).1,
        (reconcileOne c f id p now e).2.stage r.orderId = .resolved r := by
  have hget := hpolls.2 id p List.mem_cons_self hp
  rcases reconcileOne_spec c hf id p now e hget hp with
    ⟨hnone, ha⟩ | ⟨r, e₁, e₂, hsome, hq, hs, ha⟩
  · refine ⟨ha.moves, hpolls.tail.aside c h.noClash ha, fun r hr => ?_⟩
    rw [hnone] at hr
    cases hr
  · have h1 := hq.asides.advance h
    obtain ⟨h2, hr⟩ := advance_settles h1.tidy hs
    have h3 := ha.advance h2.tidy
    refine ⟨(hq.asides.moves.tail (Move.settles id p r hs)).trans ha.moves, ?_, fun r' hr' => ?_⟩
    · have hsettled := (hpolls.aside c h.noClash hq.asides).settles c hs
      exact hsettled.aside c h2.tidy.noClash ha
    · rw [hsome] at hr'
      cases hr'
      rw [hs.orderId]
      exact h3.resolved _ _ hr

/-- **The loop of a reconciliation.** It is a sequence of moves, and what it returns is
resolved. -/
theorem moves_reconcileEach {f : OrderId → Symbol → W → Except PyError (Option RawOrder) × W}
    (hf : c.fetchOrder = some f) (now : Time) (entries : List (OrderId × PendingOrder))
    (e : CcxtExecutor W) (h : Tidy c e) (hentries : Polls e entries) :
    Moves c e (reconcileEach c f now entries e).2 ∧
      ∀ r ∈ (reconcileEach c f now entries e).1,
        (reconcileEach c f now entries e).2.stage r.orderId = .resolved r := by
  induction entries generalizing e with
  | nil => exact ⟨Relation.ReflTransGen.refl, fun r hr => by cases hr⟩
  | cons entry rest ih =>
      obtain ⟨id, p⟩ := entry
      unfold reconcileEach
      by_cases hres : p.resolved.isSome = true
      · rw [if_pos hres]
        exact ih e h hentries.tail
      · rw [if_neg hres]
        obtain ⟨hmoves, hpolls, hreturn⟩ :=
          moves_reconcileOne c hf now h hentries (by simpa using hres)
        have htidy := (hmoves.advance h).tidy
        obtain ⟨hmoves', hreturn'⟩ := ih _ htidy hpolls
        refine ⟨hmoves.trans hmoves', fun r hr => ?_⟩
        rcases List.mem_append.mp hr with hr | hr
        · exact (hmoves'.advance htidy).resolved _ _ (hreturn r (Option.mem_toList.mp hr))
        · exact hreturn' r hr

theorem moves_reconcileOpenOrders (now : Time) (e : CcxtExecutor W) (h : Tidy c e) :
    Moves c e (reconcileOpenOrders c now e).2 := by
  have hw := asides_watchProtection c now e
  unfold reconcileOpenOrders
  dsimp only
  split_ifs
  · exact hw.moves
  · split
    · exact hw.moves
    · rename_i f hf
      refine hw.moves.trans (moves_reconcileEach c hf now _ _ (hw.advance h).tidy ?_).1
      exact ⟨(watchProtection c now e).openOrders.nodup,
        fun id p hm _ => (Dict.mem_entries_iff _ _ _).mp hm⟩

theorem mem_redelivered_iff (e : CcxtExecutor W) (r : OrderResult) :
    r ∈ e.redelivered ↔ ∃ id, e.stage id = .resolved r := by
  unfold redelivered
  simp only [List.mem_filterMap, Dict.mem_values_iff, stage_eq_resolved_iff]
  constructor
  · rintro ⟨p, ⟨id, hg⟩, hp⟩
    exact ⟨id, p, hg, hp⟩
  · rintro ⟨id, p, hg, hp⟩
    exact ⟨p, ⟨id, hg⟩, hp⟩

theorem Tidy.key {e : CcxtExecutor W} (h : Tidy c e) {id : OrderId} {r : OrderResult}
    (hr : e.stage id = .resolved r) : r.orderId = id := by
  obtain ⟨p, hg, hp⟩ := (e.stage_eq_resolved_iff _ _).mp hr
  exact (h id p hg).1 r hp

/-- A reconciliation returns nothing that is not resolved after it. -/
theorem returned_reconcileOpenOrders (now : Time) (e : CcxtExecutor W) (h : Tidy c e) :
    ∀ r ∈ (reconcileOpenOrders c now e).1,
      (reconcileOpenOrders c now e).2.stage r.orderId = .resolved r := by
  have hw := (asides_watchProtection c now e).advance h
  have hre : ∀ r ∈ (watchProtection c now e).redelivered,
      (watchProtection c now e).stage r.orderId = .resolved r := by
    intro r hr
    obtain ⟨id, hid⟩ := (mem_redelivered_iff _ r).mp hr
    rw [hw.tidy.key c hid]
    exact hid
  unfold reconcileOpenOrders
  dsimp only
  split_ifs
  · exact hre
  · split
    · intro r hr
      cases hr
    · rename_i f hf
      have hpolls : Polls (watchProtection c now e) (watchProtection c now e).openOrders.entries :=
        ⟨(watchProtection c now e).openOrders.nodup,
          fun id p hm _ => (Dict.mem_entries_iff _ _ _).mp hm⟩
      obtain ⟨hmoves, hreturn⟩ := moves_reconcileEach c hf now _ _ hw.tidy hpolls
      intro r hr
      rcases List.mem_append.mp hr with hr | hr
      · exact (hmoves.advance hw.tidy).resolved _ _ (hre r hr)
      · exact hreturn r hr

/-- **A reconciliation** advances the orders, returns every order that was resolved before it,
and returns nothing that is not resolved after it. -/
theorem advance_reconcileOpenOrders (hfetch : c.fetchOrder.isSome) (now : Time)
    (e : CcxtExecutor W) (h : Tidy c e) :
    Advance c e (reconcileOpenOrders c now e).2 ∧
      (∀ id r, e.stage id = .resolved r → r ∈ (reconcileOpenOrders c now e).1) ∧
      ∀ r ∈ (reconcileOpenOrders c now e).1,
        (reconcileOpenOrders c now e).2.stage r.orderId = .resolved r := by
  refine ⟨(moves_reconcileOpenOrders c now e h).advance h, ?_,
    returned_reconcileOpenOrders c now e h⟩
  have hw := (asides_watchProtection c now e).advance h
  intro id r hr
  have hre : r ∈ (watchProtection c now e).redelivered :=
    (mem_redelivered_iff _ r).mpr ⟨id, hw.resolved id r hr⟩
  unfold reconcileOpenOrders
  dsimp only
  split_ifs
  · exact hre
  · obtain ⟨f, hf⟩ := Option.isSome_iff_exists.mp hfetch
    rw [hf]
    exact List.mem_append_left _ hre

/-- The results of the loop are of different orders, all of which were not resolved before. -/
theorem ids_reconcileEach {f : OrderId → Symbol → W → Except PyError (Option RawOrder) × W}
    (hf : c.fetchOrder = some f) (now : Time) (entries : List (OrderId × PendingOrder))
    (e : CcxtExecutor W) :
    ((reconcileEach c f now entries e).1.map OrderResult.orderId).Sublist
      ((entries.filter (fun o => o.2.resolved.isNone)).map Prod.fst) := by
  induction entries generalizing e with
  | nil => exact List.Sublist.refl _
  | cons entry rest ih =>
      obtain ⟨id, p⟩ := entry
      unfold reconcileEach
      by_cases hres : p.resolved.isSome = true
      · rw [if_pos hres, List.filter_cons_of_neg (by simp [Option.isSome_iff_ne_none.mp hres])]
        exact ih e
      · rw [if_neg hres, List.filter_cons_of_pos (by simpa using hres), List.map_append]
        have hrest := ih (reconcileOne c f id p now e).2
        rcases reconcileOne_cases c hf id p now e with
          ⟨hnone, -⟩ | ⟨e₁, raw, reason, -, -, -, hsome, -⟩
        · rw [hnone]
          exact hrest.trans (List.sublist_cons_self _ _)
        · rw [hsome]
          have hid : (e₁.settled id p raw reason now).1.orderId = id :=
            orderId_settle e₁ id p raw _ _ reason now
          show (_ :: _).Sublist _
          rw [hid]
          exact hrest.cons_cons id

/-- The results that wait for a confirmation are of different orders. -/
theorem ids_redelivered (e : CcxtExecutor W) (h : Tidy c e) :
    e.redelivered.map OrderResult.orderId
      = (e.openOrders.entries.filter (fun o => o.2.resolved.isSome)).map Prod.fst := by
  have key : ∀ l : List (OrderId × PendingOrder), (∀ o ∈ l, e.openOrders.get? o.1 = some o.2) →
      ((l.map Prod.snd).filterMap PendingOrder.resolved).map OrderResult.orderId
        = (l.filter (fun o => o.2.resolved.isSome)).map Prod.fst := by
    intro l hl
    induction l with
    | nil => rfl
    | cons o rest ih =>
        have hrest := ih fun o' ho' => hl o' (List.mem_cons_of_mem _ ho')
        cases hr : o.2.resolved with
        | none =>
            rw [List.map_cons, List.filterMap_cons_none hr,
              List.filter_cons_of_neg (by simp [hr])]
            exact hrest
        | some r =>
            rw [List.map_cons, List.filterMap_cons_some hr, List.map_cons,
              List.filter_cons_of_pos (by simp [hr]), List.map_cons, hrest,
              (h o.1 o.2 (hl o List.mem_cons_self)).1 r hr]
  exact key e.openOrders.entries (fun o ho => (Dict.mem_entries_iff _ _ _).mp ho)

/-- No reconciliation returns an order twice. -/
theorem nodup_reconcileOpenOrders (now : Time) (e : CcxtExecutor W) (h : Tidy c e) :
    ((reconcileOpenOrders c now e).1.map OrderResult.orderId).Nodup := by
  have hw := ((asides_watchProtection c now e).advance h).tidy
  have hkeys := (watchProtection c now e).openOrders.nodup
  have hold := ids_redelivered c _ hw
  have hsub : ∀ q : OrderId × PendingOrder → Bool,
      (((watchProtection c now e).openOrders.entries.filter q).map Prod.fst).Nodup :=
    fun q => (List.filter_sublist.map Prod.fst).nodup hkeys
  unfold reconcileOpenOrders
  dsimp only
  split_ifs
  · rw [hold]
    exact hsub _
  · split
    · exact List.nodup_nil
    · rename_i f hf
      have hnew := ids_reconcileEach c hf now (watchProtection c now e).openOrders.entries
        (watchProtection c now e)
      rw [List.map_append, hold]
      refine List.nodup_append.mpr ⟨hsub _, hnew.nodup (hsub _), fun id hid id' hid' => ?_⟩
      -- An order is resolved or it is not.
      rintro rfl
      obtain ⟨o, ho, hoid⟩ := List.mem_map.mp hid
      obtain ⟨o', ho', hoid'⟩ := List.mem_map.mp (hnew.subset hid')
      obtain ⟨hm, hr⟩ := List.mem_filter.mp ho
      obtain ⟨hm', hr'⟩ := List.mem_filter.mp ho'
      have hget := (Dict.mem_entries_iff _ _ _).mp hm
      have hget' := (Dict.mem_entries_iff _ _ _).mp hm'
      rw [hoid] at hget
      rw [hoid', hget] at hget'
      rw [← Option.some.inj hget'] at hr'
      cases hres : o.2.resolved <;> simp [hres] at hr hr'

/-! ## Confirmations -/

/-- A confirmation forgets a resolved order and does nothing else. -/
theorem confirmReconciled_cases (e : CcxtExecutor W) (id : OrderId) :
    (∃ r, e.stage id = .resolved r) ∧
        e.confirmReconciled id = { e with openOrders := e.openOrders.erase id } ∨
      (∀ r, e.stage id ≠ .resolved r) ∧ e.confirmReconciled id = e := by
  unfold confirmReconciled
  cases hg : e.openOrders.get? id with
  | none =>
      refine Or.inr ⟨stage_ne_resolved fun p hp => ?_, rfl⟩
      rw [hg] at hp
      cases hp
  | some p =>
      cases hp : p.resolved with
      | none =>
          refine Or.inr ⟨stage_ne_resolved fun p' hg' => ?_, by simp [hp]⟩
          rw [hg] at hg'
          cases hg'
          exact hp
      | some r =>
          refine Or.inl ⟨⟨r, (e.stage_eq_resolved_iff _ _).mpr ⟨p, hg, hp⟩⟩, ?_⟩
          simp [hp]

theorem tidy_confirmReconciled (e : CcxtExecutor W) (h : Tidy c e) (id : OrderId) :
    Tidy c (e.confirmReconciled id) := by
  rcases e.confirmReconciled_cases id with ⟨-, he⟩ | ⟨-, he⟩
  · rw [he]
    intro k p hg
    rw [show ({ e with openOrders := e.openOrders.erase id } : CcxtExecutor W).openOrders
      = e.openOrders.erase id from rfl, Dict.get?_erase] at hg
    split_ifs at hg
    exact h k p hg
  · rw [he]
    exact h

theorem confirms_confirmReconciled (e : CcxtExecutor W) (h : Tidy c e) (id : OrderId) :
    Confirms id (snapshot c e) (snapshot c (e.confirmReconciled id)) := by
  rcases e.confirmReconciled_cases id with ⟨⟨r, hr⟩, he⟩ | ⟨hn, he⟩
  · rw [he]
    refine ⟨fun r' hr' => ?_, fun hn => absurd hr (hn r), fun k hne => ?_, fun k hk => ?_,
      fun _ => rfl⟩
    · obtain ⟨p, hg, -⟩ := (e.stage_eq_resolved_iff _ _).mp hr
      exact ⟨Dict.get?_erase_self _ _, fun hf => ((h id p hg).2 hf).2⟩
    · show PendingOrder.stage ((e.openOrders.erase id).get? k) = e.stage k
      rw [Dict.get?_erase_ne _ hne]
      rfl
    · refine ⟨?_, hk.2⟩
      show (e.openOrders.erase id).get? k = none
      rw [Dict.get?_erase]
      split_ifs
      · rfl
      · exact hk.1
  · rw [he]
    exact ⟨fun r hr => absurd hr (hn r), fun _ => rfl, fun _ _ => rfl, fun _ hk => hk,
      fun _ => rfl⟩

end Calls

/-- A new executor tracks nothing. -/
theorem tidy_create (c : ExchangeClient W) (w : W) (quote : String)
    (orders : VenueOrderSettings) : Tidy c (create w quote orders) := by
  intro id p hg
  cases hg

/-- Nothing the predicate reads changed. -/
theorem tidy_of_same {c : ExchangeClient W} {e e' : CcxtExecutor W} (h : Tidy c e)
    (ho : e'.openOrders = e.openOrders) (hk : e'.knownOrderIds = e.knownOrderIds)
    (hp : e'.protection.isSome = e.protection.isSome) : Tidy c e' := by
  unfold Tidy MayFire
  rw [ho, hk, hp]
  exact h

/-- A placement keeps the orders tidy, as long as the venue does not reuse the id of a child. -/
theorem tidy_placeOrder {c : ExchangeClient W} {e : CcxtExecutor W} (h : Tidy c e)
    (req : OrderRequest) (stamp : Stamp)
    (hid : ∀ r, (e.placeOrder c req stamp).1 = .ok r → ¬ MayFire c e r.orderId) :
    Tidy c (e.placeOrder c req stamp).2 := by
  have hplaced := placeOrder_placed c e req stamp
  generalize (e.placeOrder c req stamp).1 = r, (e.placeOrder c req stamp).2 = e' at hid hplaced
  have hsent : ∀ {e₁ e₂ : CcxtExecutor W} {amount : ℚ} {id : OrderId} {raw : RawOrder},
      Accepted c req e e₁ e₂ amount id raw → Tidy c e₂ := by
    intro e₁ e₂ amount id raw ha
    obtain ⟨a, w, w₂, -, -, -, -, rfl⟩ := ha.answer
    exact tidy_of_same (ha.before.advance h).tidy rfl rfl rfl
  cases hplaced with
  | refused e₁ reason ha => exact (ha.advance h).tidy
  | failed e₁ amount err w ha => exact tidy_of_same (ha.advance h).tidy rfl rfl rfl
  | tracked e₁ e₂ amount id raw limit ha hs hne =>
      have hprot : e₂.protection.isSome = e.protection.isSome := by
        obtain ⟨a, w, w₂, -, -, -, -, rfl⟩ := ha.answer
        exact ha.before.protection
      intro k p hget
      rw [Dict.get?_set] at hget
      split_ifs at hget with hk
      · -- The new order works, and it is no child.
        cases hget
        subst hk
        refine ⟨?_, fun hf => absurd ?_ (hid _ rfl)⟩
        · rintro r ⟨⟩
        · exact ⟨hprot ▸ hf.1, hf.2⟩
      · exact hsent ha k p hget
  | filled e₁ e₂ e' amount id raw limit price ha hs hp htail =>
      have hframe := frame_bookPlaced e₂ req id (resolveStatus raw amount).2.1 price raw
      refine (htail.advance ?_).tidy
      exact tidy_of_same (hsent ha) hframe.openOrders hframe.knownOrderIds
        (by rw [hframe.protection])
  | ended e₁ e₂ amount id raw limit ha => exact hsent ha

theorem spent_of_same {c : ExchangeClient W} {e e' : CcxtExecutor W} {k : OrderId}
    (h : Spent c e k) (ho : e'.openOrders.get? k = e.openOrders.get? k)
    (hk : e'.knownOrderIds = e.knownOrderIds)
    (hp : e'.protection.isSome = e.protection.isSome) : Spent c e' k := by
  unfold Spent MayFire
  rw [ho, hk, hp]
  exact h

/-- A placement brings no spent order back, as long as the venue does not reuse its id. -/
theorem spent_placeOrder {c : ExchangeClient W} {e : CcxtExecutor W} (h : Tidy c e)
    (req : OrderRequest) (stamp : Stamp) {k : OrderId} (hk : Spent c e k)
    (hid : ∀ r, (e.placeOrder c req stamp).1 = .ok r → r.orderId ≠ k) :
    Spent c (e.placeOrder c req stamp).2 k := by
  have hplaced := placeOrder_placed c e req stamp
  generalize (e.placeOrder c req stamp).1 = r, (e.placeOrder c req stamp).2 = e' at hid hplaced
  have hsent : ∀ {e₁ e₂ : CcxtExecutor W} {amount : ℚ} {id : OrderId} {raw : RawOrder},
      Accepted c req e e₁ e₂ amount id raw → Tidy c e₂ ∧ Spent c e₂ k := by
    intro e₁ e₂ amount id raw ha
    obtain ⟨a, w, w₂, -, -, -, -, rfl⟩ := ha.answer
    have hadv := ha.before.advance h
    exact ⟨tidy_of_same hadv.tidy rfl rfl rfl, spent_of_same (hadv.spent k hk) rfl rfl rfl⟩
  cases hplaced with
  | refused e₁ reason ha => exact (ha.advance h).spent k hk
  | failed e₁ amount err w ha => exact spent_of_same ((ha.advance h).spent k hk) rfl rfl rfl
  | tracked e₁ e₂ amount id raw limit ha hs hne =>
      refine spent_of_same (hsent ha).2 ?_ rfl rfl
      exact Dict.get?_set_ne _ _ (hid _ rfl)
  | filled e₁ e₂ e' amount id raw limit price ha hs hp htail =>
      have hframe := frame_bookPlaced e₂ req id (resolveStatus raw amount).2.1 price raw
      have htidy : Tidy c (e₂.bookPlaced req id (resolveStatus raw amount).2.1 price raw).2 :=
        tidy_of_same (hsent ha).1 hframe.openOrders hframe.knownOrderIds (by rw [hframe.protection])
      refine (htail.advance htidy).spent k (spent_of_same (hsent ha).2 ?_ hframe.knownOrderIds ?_)
      · rw [hframe.openOrders]
      · rw [hframe.protection]
  | ended e₁ e₂ amount id raw limit ha => exact (hsent ha).2

end CcxtExecutor

end SmartyTrader
