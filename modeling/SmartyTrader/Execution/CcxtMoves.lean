import SmartyTrader.Execution.CcxtExecutor

set_option autoImplicit false

/-! # What the ccxt executor can do

Every call of the executor is a sequence of a few kinds of moves. Aside moves (`Aside`) are
talk with the venue, a write-off of dust, and the booking of a fired protective order. On top
of them a reconciliation settles tracked orders (`Settles`), and a placement ends with an order
that was refused, tracked or filled (`Placed`). The lemmas of this file take each call apart
once; the properties of runs are proved from the moves.
-/

namespace SmartyTrader

open Lib

variable {W : Type}

/-! ## Talk with the venue -/

/-- One call of the client other than the creation of an order. -/
inductive VenueCall (c : ExchangeClient W) : W → W → Prop where
  | fetchOrder {f} (h : c.fetchOrder = some f) (id : OrderId) (s : Symbol) (w : W) :
      VenueCall c w (f id s w).2
  | cancelOrder (id : OrderId) (s : Symbol) (w : W) : VenueCall c w (c.cancelOrder id s w).2
  | fetchBalance (w : W) : VenueCall c w (c.fetchBalance w).2
  | fetchFreeBalance (w : W) : VenueCall c w (c.fetchFreeBalance w).2
  | loadMarkets {f} (h : c.loadMarkets = some f) (w : W) : VenueCall c w (f w).2
  | createAlgo (s : Symbol) (k : AlgoKind) (q : ℚ) (a b : Option ℚ) (t : String) (w : W) :
      VenueCall c w (c.createAlgo s k q a b t w).2
  | fetchAlgo (id : OrderId) (s : Symbol) (w : W) : VenueCall c w (c.fetchAlgo id s w).2
  | cancelAlgo (id : OrderId) (s : Symbol) (w : W) : VenueCall c w (c.cancelAlgo id s w).2
  | fetchOpenAlgos (s : Symbol) (k : AlgoKind) (w : W) : VenueCall c w (c.fetchOpenAlgos s k w).2
  | fetchClosedAlgos (s : Symbol) (n : ℕ) (k : AlgoKind) (w : W) :
      VenueCall c w (c.fetchClosedAlgos s n k w).2

/-- The world after any number of calls. -/
abbrev Later (c : ExchangeClient W) : W → W → Prop := Relation.ReflTransGen (VenueCall c)

theorem VenueCall.later {c : ExchangeClient W} {w w' : W} (h : VenueCall c w w') : Later c w w' :=
  Relation.ReflTransGen.single h

/-- An id that the venue has named as the child order of a protective order. -/
def IsChild (c : ExchangeClient W) (id : OrderId) : Prop :=
  (∃ algo s w raw, (c.fetchAlgo algo s w).1 = .ok (some raw) ∧ raw.childId = id) ∨
  (∃ s n k w l, (c.fetchClosedAlgos s n k w).1 = .ok l ∧ ∃ raw ∈ l, raw.childId = id)

/-! ## Talk of the protective orders -/

namespace ProtectiveOrders

variable (c : ExchangeClient W)

theorem state_later (order : ProtectiveOrder) (w : W) : Later c w (state c order w).2 := by
  have h := (VenueCall.fetchAlgo (c := c) order.algoId order.symbol w).later
  unfold state
  split
  · rename_i heq
    rw [heq] at h
    exact h
  · rename_i heq
    rw [heq] at h
    exact h

/-- A child that was found has the id the algo order names. -/
theorem checkChild_spec (order : ProtectiveOrder) (algo : RawAlgo) (w : W) :
    Later c w (checkChild c order algo w).2 ∧
      ∀ t, (checkChild c order algo w).1 = some t →
        t.childId = algo.childId ∧ t.childId ≠ "" ∧ t.symbol = order.symbol := by
  unfold checkChild
  by_cases h : algo.algoState ≠ "effective" ∨ algo.childId = ""
  · rw [if_pos h]
    exact ⟨Relation.ReflTransGen.refl, fun t ht => by cases ht⟩
  · rw [if_neg h]
    rw [not_or] at h
    cases hf : c.fetchOrder with
    | none => exact ⟨Relation.ReflTransGen.refl, fun t ht => by cases ht⟩
    | some f =>
        have hl := (VenueCall.fetchOrder (c := c) hf algo.childId order.symbol w).later
        dsimp only
        split
        · rename_i child w' heq
          rw [heq] at hl
          split_ifs
          · exact ⟨hl, fun t ht => by cases ht⟩
          · refine ⟨hl, fun t ht => ?_⟩
            cases ht
            exact ⟨rfl, h.2, rfl⟩
        · rename_i r w' _ heq
          rw [heq] at hl
          exact ⟨hl, fun t ht => by cases ht⟩

theorem check_spec (order : ProtectiveOrder) (w : W) :
    Later c w (check c order w).2 ∧
      ∀ t, (check c order w).1 = some t → IsChild c t.childId ∧ t.symbol = order.symbol := by
  have hl := (VenueCall.fetchAlgo (c := c) order.algoId order.symbol w).later
  unfold check
  split
  · rename_i heq
    rw [heq] at hl
    exact ⟨hl, fun t ht => by cases ht⟩
  · rename_i raw w' heq
    rw [heq] at hl
    obtain ⟨h1, h2⟩ := checkChild_spec c order (raw.getD RawAlgo.empty) w'
    refine ⟨hl.trans h1, fun t ht => ?_⟩
    obtain ⟨h3, h4, h5⟩ := h2 t ht
    refine ⟨?_, h5⟩
    cases raw with
    | none => exact absurd h3 h4
    | some raw => exact Or.inl ⟨order.algoId, order.symbol, w, raw, by rw [heq], h3.symm⟩

theorem place_later (price : Symbol → ℚ → ℚ) (s : Symbol) (q : ℚ) (levels : ExitLevels)
    (p : ProtectiveOrders) (w : W) : Later c w (place c price s q levels p w).2 := by
  have h := (VenueCall.createAlgo (c := c) s
    (if levels.1.isSome ∧ levels.2.isSome then AlgoKind.oco else AlgoKind.conditional) q
    (levels.1.map (price s)) (levels.2.map (price s)) clientIdPrefix w).later
  unfold place
  dsimp only
  split
  · rename_i heq
    rw [heq] at h
    exact h
  · rename_i heq
    rw [heq] at h
    exact h

theorem afterRefusal_spec (s : Symbol) (order : ProtectiveOrder) (p : ProtectiveOrders) (w : W) :
    Later c w (afterRefusal c s order p w).2.2 ∧
      ∀ t, (afterRefusal c s order p w).1 = some t → IsChild c t.childId := by
  obtain ⟨h1, h2⟩ := check_spec c order w
  unfold afterRefusal
  split
  · rename_i t w' heq
    rw [heq] at h1 h2
    refine ⟨h1, fun t' ht => ?_⟩
    cases ht
    exact (h2 t rfl).1
  · rename_i w' heq
    rw [heq] at h1
    have h3 := state_later c order w'
    dsimp only
    split_ifs <;> exact ⟨h1.trans h3, fun t ht => by cases ht⟩

theorem cancel_spec (s : Symbol) (p : ProtectiveOrders) (w : W) :
    Later c w (cancel c s p w).2.2 ∧
      ∀ t, (cancel c s p w).1 = some t → IsChild c t.childId := by
  unfold cancel
  split
  · exact ⟨Relation.ReflTransGen.refl, fun t ht => by cases ht⟩
  · rename_i order hget
    have hl := (VenueCall.cancelAlgo (c := c) order.algoId s w).later
    dsimp only
    split
    · rename_i heq
      rw [heq] at hl
      exact ⟨hl, fun t ht => by cases ht⟩
    · rename_i err w' heq
      rw [heq] at hl
      obtain ⟨h1, h2⟩ := afterRefusal_spec c s order { p with live := p.live.erase s } w'
      exact ⟨hl.trans h1, h2⟩

theorem pollOne_spec (s : Symbol) (order : ProtectiveOrder) (p : ProtectiveOrders) (w : W) :
    Later c w (pollOne c s order p w).2.2 ∧
      ∀ t, (pollOne c s order p w).1 = some t → IsChild c t.childId := by
  have h1 := state_later c order w
  unfold pollOne
  dsimp only
  split_ifs
  · obtain ⟨h2, h3⟩ := check_spec c order (state c order w).2
    split
    · rename_i t w' heq
      rw [heq] at h2 h3
      refine ⟨h1.trans h2, fun t' ht => ?_⟩
      cases ht
      exact (h3 t rfl).1
    · rename_i w' heq
      rw [heq] at h2
      exact ⟨h1.trans h2, fun t ht => by cases ht⟩
  · exact ⟨h1, fun t ht => by cases ht⟩
  · exact ⟨h1, fun t ht => by cases ht⟩

theorem pollEach_spec (orders : List (Symbol × ProtectiveOrder)) (p : ProtectiveOrders) (w : W) :
    Later c w (pollEach c orders p w).2.2 ∧
      ∀ t ∈ (pollEach c orders p w).1, IsChild c t.childId := by
  induction orders generalizing p w with
  | nil => exact ⟨Relation.ReflTransGen.refl, fun t ht => by cases ht⟩
  | cons o rest ih =>
      obtain ⟨s, order⟩ := o
      obtain ⟨h1, h2⟩ := pollOne_spec c s order p w
      obtain ⟨h3, h4⟩ := ih (pollOne c s order p w).2.1 (pollOne c s order p w).2.2
      refine ⟨h1.trans h3, fun t ht => ?_⟩
      rcases List.mem_append.mp ht with ht | ht
      · exact h2 t (Option.mem_toList.mp ht)
      · exact h4 t ht

end ProtectiveOrders

/-! ## Aside moves -/

namespace CcxtExecutor

/-- Ledger, exit levels and journal apart, nothing changed. -/
structure Frame (e e' : CcxtExecutor W) : Prop where
  world : e'.world = e.world
  quote : e'.quote = e.quote
  orders : e'.orders = e.orders
  orderSymbols : e'.orderSymbols = e.orderSymbols
  openOrders : e'.openOrders = e.openOrders
  marks : e'.marks = e.marks
  markets : e'.markets = e.markets
  protection : e'.protection = e.protection
  knownOrderIds : e'.knownOrderIds = e.knownOrderIds

theorem Frame.refl (e : CcxtExecutor W) : Frame e e := ⟨rfl, rfl, rfl, rfl, rfl, rfl, rfl, rfl, rfl⟩

theorem Frame.trans {a b d : CcxtExecutor W} (h : Frame a b) (h' : Frame b d) : Frame a d where
  world := h'.world.trans h.world
  quote := h'.quote.trans h.quote
  orders := h'.orders.trans h.orders
  orderSymbols := h'.orderSymbols.trans h.orderSymbols
  openOrders := h'.openOrders.trans h.openOrders
  marks := h'.marks.trans h.marks
  markets := h'.markets.trans h.markets
  protection := h'.protection.trans h.protection
  knownOrderIds := h'.knownOrderIds.trans h.knownOrderIds

theorem frame_writeOffDust (e : CcxtExecutor W) (s : Symbol) : Frame e (e.writeOffDust s) := by
  unfold writeOffDust
  dsimp only
  split_ifs
  · exact ⟨rfl, rfl, rfl, rfl, rfl, rfl, rfl, rfl, rfl⟩
  · exact Frame.refl e

theorem frame_book (e : CcxtExecutor W) (f : BookedFill) : Frame e (e.book f).2 :=
  ⟨rfl, rfl, rfl, rfl, rfl, rfl, rfl, rfl, rfl⟩

/-- A recorded fill is booked, and what is left may then be written off as dust. -/
theorem recordFill_cases (e : CcxtExecutor W) (f : BookedFill) :
    (e.recordFill f).2 = (e.book f).2 ∨
      (f.side = .sell ∧ (e.recordFill f).2 = (e.book f).2.writeOffDust f.symbol) := by
  unfold recordFill
  dsimp only
  split
  · rename_i hside _
    exact Or.inr ⟨hside, rfl⟩
  · exact Or.inl rfl

theorem frame_recordFill (e : CcxtExecutor W) (f : BookedFill) : Frame e (e.recordFill f).2 := by
  rcases e.recordFill_cases f with h | ⟨-, h⟩
  · rw [h]
    exact frame_book e f
  · rw [h]
    exact (frame_book e f).trans (frame_writeOffDust _ _)

theorem frame_dropFlatLevels (e : CcxtExecutor W) (s : Symbol) : Frame e (e.dropFlatLevels s) := by
  unfold dropFlatLevels
  split_ifs
  · exact ⟨rfl, rfl, rfl, rfl, rfl, rfl, rfl, rfl, rfl⟩
  · exact Frame.refl e

theorem frame_bookChild (e : CcxtExecutor W) (t : Triggered) (now : Time) :
    Frame e (e.bookChild t now).2 := by
  unfold bookChild
  dsimp only
  split
  · exact Frame.refl e
  · exact frame_recordFill e _

theorem orderId_bookChild (e : CcxtExecutor W) (t : Triggered) (now : Time) :
    (e.bookChild t now).1.orderId = t.childId := by
  unfold bookChild
  dsimp only
  split <;> rfl

/-- Only calls: orders and ledger are as they were, and so are the levels of what is open. -/
structure Quietly (c : ExchangeClient W) (e e' : CcxtExecutor W) : Prop where
  world : Later c e.world e'.world
  quote : e'.quote = e.quote
  orders : e'.orders = e.orders
  orderSymbols : e'.orderSymbols = e.orderSymbols
  openOrders : e'.openOrders = e.openOrders
  tracker : e'.tracker = e.tracker
  levels : ∀ s, 0 < e.tracker.quantity s → e'.exitLevels.get? s = e.exitLevels.get? s
  protection : e'.protection.isSome = e.protection.isSome
  knownOrderIds : e'.knownOrderIds = e.knownOrderIds
  journal : e'.journal = e.journal

theorem Quietly.refl (c : ExchangeClient W) (e : CcxtExecutor W) : Quietly c e e :=
  ⟨Relation.ReflTransGen.refl, rfl, rfl, rfl, rfl, rfl, fun _ _ => rfl, rfl, rfl, rfl⟩

theorem Quietly.trans {c : ExchangeClient W} {a b d : CcxtExecutor W} (h : Quietly c a b)
    (h' : Quietly c b d) : Quietly c a d where
  world := h.world.trans h'.world
  quote := h'.quote.trans h.quote
  orders := h'.orders.trans h.orders
  orderSymbols := h'.orderSymbols.trans h.orderSymbols
  openOrders := h'.openOrders.trans h.openOrders
  tracker := h'.tracker.trans h.tracker
  levels s hs := (h'.levels s (by rw [h.tracker]; exact hs)).trans (h.levels s hs)
  protection := h'.protection.trans h.protection
  knownOrderIds := h'.knownOrderIds.trans h.knownOrderIds
  journal := h'.journal.trans h.journal

/-- A step of the world. -/
theorem quietly_world (c : ExchangeClient W) (e : CcxtExecutor W) {w : W}
    (h : Later c e.world w) : Quietly c e { e with world := w } :=
  ⟨h, rfl, rfl, rfl, rfl, rfl, fun _ _ => rfl, rfl, rfl, rfl⟩

/-- A move aside: calls, a write-off of dust, or a fired protective order. -/
inductive Aside (c : ExchangeClient W) : CcxtExecutor W → CcxtExecutor W → Prop where
  | quiet {e e' : CcxtExecutor W} (h : Quietly c e e') : Aside c e e'
  | dust (e : CcxtExecutor W) (s : Symbol) : Aside c e (e.writeOffDust s)
  | fired (e : CcxtExecutor W) (t : Triggered) (now : Time) (hp : e.protection.isSome)
      (hc : IsChild c t.childId) (hk : t.childId ∉ e.knownOrderIds) :
      Aside c e (e.bookTriggered t now)

/-- Any number of moves aside. -/
abbrev Asides (c : ExchangeClient W) : CcxtExecutor W → CcxtExecutor W → Prop :=
  Relation.ReflTransGen (Aside c)

theorem Quietly.asides {c : ExchangeClient W} {e e' : CcxtExecutor W} (h : Quietly c e e') :
    Asides c e e' :=
  Relation.ReflTransGen.single (Aside.quiet h)

section Calls

variable (c : ExchangeClient W)

theorem asides_world (e : CcxtExecutor W) {w : W} (h : Later c e.world w) :
    Asides c e { e with world := w } :=
  (quietly_world c e h).asides

theorem quietly_ensureMarkets (e : CcxtExecutor W) : Quietly c e (e.ensureMarkets c) := by
  unfold ensureMarkets
  split
  · exact Quietly.refl c e
  · split
    · exact ⟨Relation.ReflTransGen.refl, rfl, rfl, rfl, rfl, rfl, fun _ _ => rfl, rfl, rfl, rfl⟩
    · split
      · exact Quietly.refl c e
      · rename_i load hload
        have hl := (VenueCall.loadMarkets (c := c) hload e.world).later
        split
        · rename_i heq
          rw [heq] at hl
          exact quietly_world c e hl
        · rename_i heq
          rw [heq] at hl
          split
          · exact ⟨hl, rfl, rfl, rfl, rfl, rfl, fun _ _ => rfl, rfl, rfl, rfl⟩
          · exact quietly_world c e hl

theorem protection_bookTriggered (e : CcxtExecutor W) (t : Triggered) (now : Time) :
    (e.bookTriggered t now).protection = e.protection := by
  unfold bookTriggered
  split_ifs
  · rfl
  · exact ((frame_bookChild _ t now).trans (frame_dropFlatLevels _ t.symbol)).protection

/-- Booking a fired order is a move aside. -/
theorem asides_bookTriggered (e : CcxtExecutor W) (t : Triggered) (now : Time)
    (hp : e.protection.isSome) (hc : IsChild c t.childId) :
    Asides c e (e.bookTriggered t now) := by
  by_cases hk : t.childId ∈ e.knownOrderIds
  · unfold bookTriggered
    rw [if_pos hk]
  · exact Relation.ReflTransGen.single (Aside.fired e t now hp hc hk)

/-- The state after a call of the protective orders. -/
theorem asides_protection (e : CcxtExecutor W) (hp : e.protection.isSome) (p : ProtectiveOrders)
    {w : W} (h : Later c e.world w) :
    Asides c e
      { e with
        protection := some p
        world := w } :=
  Relation.ReflTransGen.single (Aside.quiet
    ⟨h, rfl, rfl, rfl, rfl, rfl, fun _ _ => rfl, hp.symm, rfl, rfl⟩)

theorem asides_placeProtection (e : CcxtExecutor W) (hp : e.protection.isSome)
    (p : ProtectiveOrders) (s : Symbol) (wanted : Option (ℚ × ExitLevels)) :
    Asides c e (e.placeProtection c p s wanted) := by
  unfold placeProtection
  split
  · exact asides_protection c e hp p Relation.ReflTransGen.refl
  · exact asides_protection c e hp _ (ProtectiveOrders.place_later c _ _ _ _ _ _)

theorem asides_syncStep (again : CcxtExecutor W → CcxtExecutor W) (s : Symbol) (now : Time)
    (e : CcxtExecutor W)
    (ha : ∀ e' : CcxtExecutor W, e'.protection.isSome → Asides c e' (again e')) :
    Asides c e (syncStep c again s now e) := by
  unfold syncStep
  split
  · exact Relation.ReflTransGen.refl
  · rename_i p hp
    have hsome : e.protection.isSome := by rw [hp]; rfl
    split_ifs
    · exact Relation.ReflTransGen.refl
    · dsimp only
      split
      · exact asides_placeProtection c e hsome p s _
      · split_ifs
        · exact Relation.ReflTransGen.refl
        · obtain ⟨h1, h2⟩ := ProtectiveOrders.cancel_spec c s p e.world
          split
          · rename_i t p' w' heq
            rw [heq] at h1 h2
            refine (asides_protection c e hsome p' h1).trans
              ((asides_bookTriggered c _ t now rfl (h2 t rfl)).trans (ha _ ?_))
            rw [protection_bookTriggered]
            rfl
          · rename_i p' w' heq
            rw [heq] at h1
            have hplace := asides_placeProtection c { e with world := w' } hsome p' s
              (e.wantedProtection c s)
            exact (asides_world c e h1).trans hplace

theorem asides_syncProtection (s : Symbol) (now : Time) (e : CcxtExecutor W) :
    Asides c e (syncProtection c s now e) :=
  asides_syncStep c _ s now e (fun e' _ =>
    asides_syncStep c id s now e' (fun _ _ => Relation.ReflTransGen.refl))

theorem asides_withdrawProtection (s : Symbol) (now : Time) (e : CcxtExecutor W) :
    Asides c e (withdrawProtection c s now e) := by
  unfold withdrawProtection
  split
  · exact Relation.ReflTransGen.refl
  · rename_i p hp
    have hsome : e.protection.isSome := by rw [hp]; rfl
    obtain ⟨h1, h2⟩ := ProtectiveOrders.cancel_spec c s p e.world
    split
    · rename_i t p' w' heq
      rw [heq] at h1 h2
      exact (asides_protection c e hsome p' h1).trans
        (asides_bookTriggered c _ t now rfl (h2 t rfl))
    · rename_i p' w' heq
      rw [heq] at h1
      exact asides_protection c e hsome p' h1

theorem asides_bookFired (now : Time) (fired : List Triggered) (e : CcxtExecutor W)
    (hp : e.protection.isSome) (hc : ∀ t ∈ fired, IsChild c t.childId) :
    Asides c e (bookFired now fired e) := by
  induction fired generalizing e with
  | nil => exact Relation.ReflTransGen.refl
  | cons t rest ih =>
      refine (asides_bookTriggered c e t now hp (hc t List.mem_cons_self)).trans ?_
      exact ih _ (by rw [protection_bookTriggered]; exact hp)
        (fun t' ht => hc t' (List.mem_cons_of_mem _ ht))

theorem asides_syncEach (now : Time) (symbols : List Symbol) (e : CcxtExecutor W) :
    Asides c e (syncEach c now symbols e) := by
  induction symbols generalizing e with
  | nil => exact Relation.ReflTransGen.refl
  | cons s rest ih => exact (asides_syncProtection c s now e).trans (ih _)

theorem asides_watchProtection (now : Time) (e : CcxtExecutor W) :
    Asides c e (watchProtection c now e) := by
  unfold watchProtection
  split
  · exact Relation.ReflTransGen.refl
  · rename_i p hp
    have hsome : e.protection.isSome := by rw [hp]; rfl
    obtain ⟨h1, h2⟩ := ProtectiveOrders.pollEach_spec c p.live.entries p e.world
    split
    rename_i fired p' w' heq
    unfold ProtectiveOrders.poll at heq
    rw [heq] at h1 h2
    exact (asides_protection c e hsome p' h1).trans
      ((asides_bookFired c now fired _ rfl h2).trans (asides_syncEach c now _ _))

theorem asides_writeOffDust (e : CcxtExecutor W) (symbols : List Symbol) :
    Asides c e (symbols.foldl (fun e s => e.writeOffDust s) e) := by
  induction symbols generalizing e with
  | nil => exact Relation.ReflTransGen.refl
  | cons s rest ih => exact (Relation.ReflTransGen.single (Aside.dust e s)).trans (ih _)

/-- Reading the positions is a move aside. -/
theorem asides_getPositions (e : CcxtExecutor W) : Asides c e (e.getPositions c).2 := by
  unfold getPositions
  dsimp only
  have hdust := asides_writeOffDust c (e.ensureMarkets c) (e.ensureMarkets c).tracker.symbols
  have hread := asides_world c
    ((e.ensureMarkets c).tracker.symbols.foldl (fun e s => e.writeOffDust s) (e.ensureMarkets c))
    (VenueCall.fetchBalance (c := c) _).later
  exact (quietly_ensureMarkets c e).asides.trans (hdust.trans hread)

/-- Reading the cash is a move aside. -/
theorem asides_getCash (e : CcxtExecutor W) : Asides c e (e.getCash c).2 := by
  have h := (VenueCall.fetchFreeBalance (c := c) e.world).later
  unfold getCash
  split
  · rename_i heq
    rw [heq] at h
    exact asides_world c e h
  · rename_i heq
    rw [heq] at h
    exact asides_world c e h

theorem asides_updatePrice (e : CcxtExecutor W) (s : Symbol) (price : ℚ) :
    Asides c e (e.updatePrice s price) := by
  unfold updatePrice
  split_ifs
  · exact Quietly.asides
      ⟨Relation.ReflTransGen.refl, rfl, rfl, rfl, rfl, rfl, fun _ _ => rfl, rfl, rfl, rfl⟩
  · exact Relation.ReflTransGen.refl

end Calls

/-! ## Settling tracked orders -/

/-- The id could be booked as the child of a protective order of this executor. -/
def MayFire (c : ExchangeClient W) (e : CcxtExecutor W) (id : OrderId) : Prop :=
  e.protection.isSome ∧ IsChild c id

/-- The orders still working are not children of protective orders: a venue does not use an id
twice. -/
def NoClash (c : ExchangeClient W) (e : CcxtExecutor W) : Prop :=
  ∀ id p, e.openOrders.get? id = some p → p.resolved = none → ¬ MayFire c e id

/-- The payload is an answer of the venue about the order. -/
def Heard (c : ExchangeClient W) (w : W) (id : OrderId) (s : Symbol) (raw : RawOrder) : Prop :=
  ∃ f w₀ answer w₁, c.fetchOrder = some f ∧ f id s w₀ = (.ok answer, w₁) ∧
    raw = answer.getD RawOrder.empty ∧ Later c w₁ w

/-- The state after a tracked order resolved, and its result. -/
def settled (e : CcxtExecutor W) (id : OrderId) (p : PendingOrder) (raw : RawOrder)
    (reason : Option OrderReason) (now : Time) : OrderResult × CcxtExecutor W :=
  let s := resolveStatus raw p.quantity
  let r := e.settle id p raw s.1 s.2.1 reason now
  (r.1, r.2.resolve id p r.1)

/-- A working order resolves. -/
inductive Settles (c : ExchangeClient W) (id : OrderId) (p : PendingOrder) (r : OrderResult) :
    CcxtExecutor W → CcxtExecutor W → Prop where
  | intro (e : CcxtExecutor W) (raw : RawOrder) (reason : Option OrderReason) (now : Time)
      (hget : e.openOrders.get? id = some p) (hworking : p.resolved = none)
      (hstatus : (resolveStatus raw p.quantity).1 ≠ .pending)
      (hheard : Heard c e.world id p.symbol raw) (hr : r = (e.settled id p raw reason now).1) :
      Settles c id p r e (e.settled id p raw reason now).2

/-- A move of the executor that places nothing and confirms nothing. -/
inductive Move (c : ExchangeClient W) (e e' : CcxtExecutor W) : Prop where
  | aside (h : Aside c e e')
  | settles (id : OrderId) (p : PendingOrder) (r : OrderResult) (h : Settles c id p r e e')

abbrev Moves (c : ExchangeClient W) : CcxtExecutor W → CcxtExecutor W → Prop :=
  Relation.ReflTransGen (Move c)

theorem Asides.moves {c : ExchangeClient W} {e e' : CcxtExecutor W} (h : Asides c e e') :
    Moves c e e' := by
  induction h with
  | refl => exact Relation.ReflTransGen.refl
  | tail _ hstep ih => exact ih.tail (Move.aside hstep)

/-- The orders after a fired order: one more, already resolved. -/
theorem openOrders_bookTriggered (e : CcxtExecutor W) (t : Triggered) (now : Time)
    (hk : t.childId ∉ e.knownOrderIds) :
    ∃ r : OrderResult, r.orderId = t.childId ∧
      (e.bookTriggered t now).openOrders
        = e.openOrders.set t.childId (triggeredOrder t r) := by
  unfold bookTriggered
  rw [if_neg hk]
  refine ⟨_, orderId_bookChild (e.know t.childId) t now, ?_⟩
  show ((_ : CcxtExecutor W).openOrders).set t.childId _ = _
  rw [((frame_bookChild _ t now).trans (frame_dropFlatLevels _ t.symbol)).openOrders]
  rfl

theorem knownOrderIds_bookTriggered (e : CcxtExecutor W) (t : Triggered) (now : Time)
    (hk : t.childId ∉ e.knownOrderIds) :
    (e.bookTriggered t now).knownOrderIds = t.childId :: e.knownOrderIds := by
  unfold bookTriggered
  rw [if_neg hk]
  exact ((frame_bookChild _ t now).trans (frame_dropFlatLevels _ t.symbol)).knownOrderIds

theorem frame_settle (e : CcxtExecutor W) (id : OrderId) (p : PendingOrder) (raw : RawOrder)
    (status : OrderStatus) (q : ℚ) (reason : Option OrderReason) (now : Time) :
    Frame e (e.settle id p raw status q reason now).2 := by
  unfold settle
  dsimp only
  split_ifs
  · split
    · exact Frame.refl e
    · exact (frame_recordFill e _).trans ⟨rfl, rfl, rfl, rfl, rfl, rfl, rfl, rfl, rfl⟩
  · split
    · exact Frame.refl e
    · exact frame_recordFill e _
  · exact Frame.refl e

theorem orderId_settle (e : CcxtExecutor W) (id : OrderId) (p : PendingOrder) (raw : RawOrder)
    (status : OrderStatus) (q : ℚ) (reason : Option OrderReason) (now : Time) :
    (e.settle id p raw status q reason now).1.orderId = id := by
  unfold settle
  dsimp only
  split_ifs
  · split <;> rfl
  · split <;> rfl
  · rfl

/-- A fill with a price is booked when its order settles. -/
theorem settle_booked (e : CcxtExecutor W) (id : OrderId) (p : PendingOrder) {raw : RawOrder}
    {status : OrderStatus} (q : ℚ) (reason : Option OrderReason) (now : Time) {price : ℚ}
    (hs : status = .filled) (hp : raw.fillPrice = some price) :
    let r := e.recordFill (reportedFill id p.symbol p.side q price p.decisionId raw)
    (e.settle id p raw status q reason now).2.tracker = r.2.tracker ∧
      (e.settle id p raw status q reason now).2.journal = r.2.journal ∧
      (e.settle id p raw status q reason now).2.exitLevels
        = if p.side = .buy then r.2.exitLevels.set p.symbol (p.stopLoss, p.takeProfit)
          else r.2.exitLevels := by
  unfold settle
  dsimp only
  rw [if_pos hs, hp]
  dsimp only
  split_ifs <;> exact ⟨rfl, rfl, rfl⟩

/-- Anything else changes neither ledger nor levels. -/
theorem settle_unbooked (e : CcxtExecutor W) (id : OrderId) (p : PendingOrder) {raw : RawOrder}
    {status : OrderStatus} (q : ℚ) (reason : Option OrderReason) (now : Time)
    (h : status = .filled → raw.fillPrice = none) :
    (e.settle id p raw status q reason now).2 = e := by
  unfold settle
  dsimp only
  by_cases hs : status = .filled
  · rw [if_pos hs, h hs]
  · rw [if_neg hs]

theorem Settles.openOrders {c : ExchangeClient W} {id : OrderId} {p : PendingOrder}
    {r : OrderResult} {e e' : CcxtExecutor W} (h : Settles c id p r e e') :
    e'.openOrders = e.openOrders.set id { p with resolved := some r } := by
  cases h with
  | intro raw reason now hget hworking hstatus hheard hr =>
      subst hr
      show ((_ : CcxtExecutor W).openOrders).set id _ = _
      rw [(frame_settle e id p raw _ _ reason now).openOrders]
      rfl

theorem Settles.frame {c : ExchangeClient W} {id : OrderId} {p : PendingOrder}
    {r : OrderResult} {e e' : CcxtExecutor W} (h : Settles c id p r e e') :
    e'.protection = e.protection ∧ e'.knownOrderIds = e.knownOrderIds := by
  cases h with
  | intro raw reason now hget hworking hstatus hheard hr =>
      have hf := frame_settle e id p raw (resolveStatus raw p.quantity).1
        (resolveStatus raw p.quantity).2.1 reason now
      exact ⟨hf.protection, hf.knownOrderIds⟩

theorem Settles.orderId {c : ExchangeClient W} {id : OrderId} {p : PendingOrder}
    {r : OrderResult} {e e' : CcxtExecutor W} (h : Settles c id p r e e') : r.orderId = id := by
  cases h with
  | intro raw reason now hget hworking hstatus hheard hr =>
      subst hr
      exact orderId_settle e id p raw _ _ reason now

theorem Aside.protection {c : ExchangeClient W} {e e' : CcxtExecutor W} (h : Aside c e e') :
    e'.protection.isSome = e.protection.isSome := by
  cases h with
  | quiet h => exact h.protection
  | dust s => rw [(frame_writeOffDust e s).protection]
  | fired t now hp hc hk => rw [protection_bookTriggered]

theorem Asides.protection {c : ExchangeClient W} {e e' : CcxtExecutor W} (h : Asides c e e') :
    e'.protection.isSome = e.protection.isSome := by
  induction h with
  | refl => rfl
  | tail _ hstep ih => exact hstep.protection.trans ih

/-- A move aside leaves a working order as it is. -/
theorem Aside.working {c : ExchangeClient W} {e e' : CcxtExecutor W} (h : Aside c e e')
    {id : OrderId} {p : PendingOrder} (hget : e.openOrders.get? id = some p)
    (hid : ¬ MayFire c e id) : e'.openOrders.get? id = some p := by
  cases h with
  | quiet h => rw [h.openOrders]; exact hget
  | dust s => rw [(frame_writeOffDust e s).openOrders]; exact hget
  | fired t now hp hc hk =>
      obtain ⟨r, -, ho⟩ := e.openOrders_bookTriggered t now hk
      have hne : t.childId ≠ id := fun he => hid ⟨hp, he ▸ hc⟩
      rw [ho, Dict.get?_set_ne _ _ hne]
      exact hget

theorem Asides.working {c : ExchangeClient W} {e e' : CcxtExecutor W} (h : Asides c e e')
    {id : OrderId} {p : PendingOrder} (hget : e.openOrders.get? id = some p)
    (hid : ¬ MayFire c e id) : e'.openOrders.get? id = some p ∧ ¬ MayFire c e' id := by
  induction h with
  | refl => exact ⟨hget, hid⟩
  | tail _ hstep ih =>
      refine ⟨hstep.working ih.1 ih.2, ?_⟩
      unfold MayFire
      rw [hstep.protection]
      exact ih.2

section Reconcile

variable (c : ExchangeClient W)

/-- What a poll heard about an order. -/
theorem pollOrder_spec {f : OrderId → Symbol → W → Except PyError (Option RawOrder) × W}
    (hf : c.fetchOrder = some f) (e : CcxtExecutor W) (id : OrderId) (p : PendingOrder)
    (now : Time) :
    Quietly c e (pollOrder c f e id p now).2 ∧
      ∀ raw status q reason, (pollOrder c f e id p now).1 = some (raw, status, q, reason) →
        status = (resolveStatus raw p.quantity).1 ∧ q = (resolveStatus raw p.quantity).2.1 ∧
        Heard c (pollOrder c f e id p now).2.world id p.symbol raw := by
  have h1 := (VenueCall.fetchOrder (c := c) hf id p.symbol e.world).later
  unfold pollOrder
  split
  · rename_i heq
    rw [heq] at h1
    exact ⟨quietly_world c e h1, fun _ _ _ _ h => by cases h⟩
  · rename_i raw w heq
    rw [heq] at h1
    dsimp only
    split_ifs
    · unfold cancelStale
      dsimp only
      have h2 := (VenueCall.cancelOrder (c := c) id p.symbol w).later
      have h3 := (VenueCall.fetchOrder (c := c) hf id p.symbol (c.cancelOrder id p.symbol w).2).later
      split
      · rename_i heq'
        split at heq'
        · rename_i heq''
          rw [heq''] at h3
          cases heq'
          exact ⟨quietly_world c e ((h1.trans h2).trans h3), fun _ _ _ _ h => by cases h⟩
        · rename_i heq''
          rw [heq''] at h3
          cases heq'
          exact ⟨quietly_world c e ((h1.trans h2).trans h3), fun _ _ _ _ h => by cases h⟩
      · rename_i raw' e' heq'
        split at heq'
        · cases heq'
        · rename_i answer w' heq''
          rw [heq''] at h3
          cases heq'
          refine ⟨quietly_world c e ((h1.trans h2).trans h3), fun _ _ _ _ h => ?_⟩
          cases h
          exact ⟨rfl, rfl, f, _, _, _, hf, heq'', rfl, Relation.ReflTransGen.refl⟩
    · refine ⟨quietly_world c e h1, fun raw' status q reason h => ?_⟩
      obtain ⟨rfl, hs⟩ := Prod.mk.inj (Option.some.inj h)
      rw [hs]
      exact ⟨rfl, rfl, f, _, _, _, hf, heq, rfl, Relation.ReflTransGen.refl⟩

/-- One order of the loop, whether or not it is still tracked: nothing but talk, or the order
settles and its protection follows. -/
theorem reconcileOne_cases {f : OrderId → Symbol → W → Except PyError (Option RawOrder) × W}
    (hf : c.fetchOrder = some f) (id : OrderId) (p : PendingOrder) (now : Time)
    (e : CcxtExecutor W) :
    ((reconcileOne c f id p now e).1 = none ∧ Asides c e (reconcileOne c f id p now e).2) ∨
    (∃ e₁ raw reason, Quietly c e e₁ ∧ (resolveStatus raw p.quantity).1 ≠ .pending ∧
      Heard c e₁.world id p.symbol raw ∧
      (reconcileOne c f id p now e).1 = some (e₁.settled id p raw reason now).1 ∧
      Asides c (e₁.settled id p raw reason now).2 (reconcileOne c f id p now e).2) := by
  obtain ⟨hq, hheard⟩ := pollOrder_spec c hf e id p now
  unfold reconcileOne
  split
  · rename_i e' heq
    rw [heq] at hq
    exact Or.inl ⟨rfl, hq.asides⟩
  · rename_i raw status q reason e' heq
    rw [heq] at hq hheard
    obtain ⟨rfl, rfl, hh⟩ := hheard _ _ _ _ rfl
    split_ifs with hs
    · exact Or.inl ⟨rfl, hq.asides⟩
    · right
      have hm := quietly_ensureMarkets c e'
      obtain ⟨g, w₀, answer, w₁, h1, h2, h3, h4⟩ := hh
      exact ⟨e'.ensureMarkets c, raw, reason, hq.trans hm, hs,
        ⟨g, w₀, answer, w₁, h1, h2, h3, h4.trans hm.world⟩, rfl,
        asides_syncProtection c _ now _⟩

/-- The same for an order that works. -/
theorem reconcileOne_spec {f : OrderId → Symbol → W → Except PyError (Option RawOrder) × W}
    (hf : c.fetchOrder = some f) (id : OrderId) (p : PendingOrder) (now : Time)
    (e : CcxtExecutor W) (hget : e.openOrders.get? id = some p) (hp : p.resolved = none) :
    ((reconcileOne c f id p now e).1 = none ∧ Asides c e (reconcileOne c f id p now e).2) ∨
    (∃ r e₁ e₂, (reconcileOne c f id p now e).1 = some r ∧ Quietly c e e₁ ∧
      Settles c id p r e₁ e₂ ∧ Asides c e₂ (reconcileOne c f id p now e).2) := by
  rcases reconcileOne_cases c hf id p now e with h | ⟨e₁, raw, reason, hq, hs, hh, hr, ha⟩
  · exact Or.inl h
  · have hget' : e₁.openOrders.get? id = some p := by
      rw [hq.openOrders]
      exact hget
    exact Or.inr ⟨_, e₁, _, hr, hq, Settles.intro e₁ raw reason now hget' hp hs hh rfl, ha⟩

end Reconcile

/-! ## Placing orders -/

/-- The venue accepted an order: the executor `e₁` that sent `amount`, the id it got, the state
`e₂` after the last word of the venue about the order, and that word. -/
structure Accepted (c : ExchangeClient W) (req : OrderRequest) (e e₁ e₂ : CcxtExecutor W)
    (amount : ℚ) (id : OrderId) (raw : RawOrder) : Prop where
  before : Asides c e e₁
  sendable : e₁.sendableAmount c req = .ok amount
  answer : ∃ a w w₂, c.createOrder req.symbol (e₁.orderTerms c req.symbol req.side req.price).1
      req.side amount (e₁.orderTerms c req.symbol req.side req.price).2 e₁.world = (.ok a, w) ∧
    id = (a.getD RawOrder.empty).orderId ∧ Later c w w₂ ∧
    (raw = a.getD RawOrder.empty ∨ Heard c w₂ id req.symbol raw) ∧
    e₂ = { e₁ with
      world := w₂
      orderSymbols := e₁.orderSymbols.set id req.symbol }

/-- How a placement can end. -/
inductive Placed (c : ExchangeClient W) (req : OrderRequest) (stamp : Stamp)
    (e : CcxtExecutor W) : Except PyError OrderResult → CcxtExecutor W → Prop where
  | refused (e₁ : CcxtExecutor W) (reason : OrderReason) (h : Asides c e e₁)
      (hs : e₁.sendableAmount c req = .error reason) :
      Placed c req stamp e (.ok (refuse req stamp reason)) e₁
  | failed (e₁ : CcxtExecutor W) (amount : ℚ) (err : PyError) (w : W) (h : Asides c e e₁)
      (hs : e₁.sendableAmount c req = .ok amount)
      (hc : c.createOrder req.symbol (e₁.orderTerms c req.symbol req.side req.price).1
        req.side amount (e₁.orderTerms c req.symbol req.side req.price).2 e₁.world
          = (.error err, w)) :
      Placed c req stamp e (.error err) { e₁ with world := w }
  | tracked (e₁ e₂ : CcxtExecutor W) (amount : ℚ) (id : OrderId) (raw : RawOrder)
      (limit : Option ℚ) (h : Accepted c req e e₁ e₂ amount id raw)
      (hs : (resolveStatus raw amount).1 = .pending) (hid : id ≠ "") :
      Placed c req stamp e (.ok (placedResult req id amount limit raw stamp.now))
        { e₂ with openOrders := e₂.openOrders.set id (pendingOf req amount limit stamp.now) }
  | filled (e₁ e₂ e' : CcxtExecutor W) (amount : ℚ) (id : OrderId) (raw : RawOrder)
      (limit : Option ℚ) (price : ℚ) (h : Accepted c req e e₁ e₂ amount id raw)
      (hs : (resolveStatus raw amount).1 = .filled)
      (hp : pyOr raw.fillPrice (pyOr limit req.price) = some price)
      (ha : Asides c (e₂.bookPlaced req id (resolveStatus raw amount).2.1 price raw).2 e') :
      Placed c req stamp e
        (.ok (withFill (placedResult req id amount limit raw stamp.now)
          (reportedFees raw req.symbol)
          (e₂.bookPlaced req id (resolveStatus raw amount).2.1 price raw).1)) e'
  | ended (e₁ e₂ : CcxtExecutor W) (amount : ℚ) (id : OrderId) (raw : RawOrder)
      (limit : Option ℚ) (h : Accepted c req e e₁ e₂ amount id raw)
      (hp : (resolveStatus raw amount).1 = .pending → id = "")
      (hf : (resolveStatus raw amount).1 = .filled →
        pyOr raw.fillPrice (pyOr limit req.price) = none) :
      Placed c req stamp e (.ok (placedResult req id amount limit raw stamp.now)) e₂

theorem frame_bookPlaced (e : CcxtExecutor W) (req : OrderRequest) (id : OrderId) (q price : ℚ)
    (raw : RawOrder) : Frame e (e.bookPlaced req id q price raw).2 := by
  unfold bookPlaced
  dsimp only
  refine Frame.trans ?_ (frame_dropFlatLevels _ req.symbol)
  split_ifs
  · exact (frame_recordFill e _).trans ⟨rfl, rfl, rfl, rfl, rfl, rfl, rfl, rfl, rfl⟩
  · exact frame_recordFill e _

theorem ledger_dropFlatLevels (e : CcxtExecutor W) (s : Symbol) :
    (e.dropFlatLevels s).tracker = e.tracker ∧ (e.dropFlatLevels s).journal = e.journal := by
  unfold dropFlatLevels
  split_ifs <;> exact ⟨rfl, rfl⟩

/-- Booking a placed order records its fill. -/
theorem bookPlaced_booked (e : CcxtExecutor W) (req : OrderRequest) (id : OrderId) (q price : ℚ)
    (raw : RawOrder) :
    let r := e.recordFill (reportedFill id req.symbol req.side q price req.decisionId raw)
    (e.bookPlaced req id q price raw).2.tracker = r.2.tracker ∧
      (e.bookPlaced req id q price raw).2.journal = r.2.journal := by
  unfold bookPlaced
  dsimp only
  obtain ⟨h1, h2⟩ := ledger_dropFlatLevels (if req.side = .buy then
      { (e.recordFill (reportedFill id req.symbol req.side q price req.decisionId raw)).2 with
        exitLevels := (e.recordFill (reportedFill id req.symbol req.side q price
          req.decisionId raw)).2.exitLevels.set req.symbol (req.stopLoss, req.takeProfit) }
    else (e.recordFill (reportedFill id req.symbol req.side q price req.decisionId raw)).2)
    req.symbol
  rw [h1, h2]
  split_ifs <;> exact ⟨rfl, rfl⟩

section Place

variable (c : ExchangeClient W)

theorem confirmPlaced_spec (e : CcxtExecutor W) (id : OrderId) (s : Symbol) (raw : RawOrder) :
    ∃ w, (e.confirmPlaced c id s raw).2 = { e with world := w } ∧ Later c e.world w ∧
      ((e.confirmPlaced c id s raw).1 = raw ∨ Heard c w id s (e.confirmPlaced c id s raw).1) := by
  unfold confirmPlaced
  cases hf : c.fetchOrder with
  | none => exact ⟨e.world, rfl, Relation.ReflTransGen.refl, Or.inl rfl⟩
  | some f =>
      have hl := (VenueCall.fetchOrder (c := c) hf id s e.world).later
      dsimp only
      split
      · rename_i fresh w heq
        rw [heq] at hl
        exact ⟨w, rfl, hl, Or.inr ⟨f, _, _, _, hf, heq, rfl, Relation.ReflTransGen.refl⟩⟩
      · rename_i r w _ heq
        rw [heq] at hl
        exact ⟨w, rfl, hl, Or.inl rfl⟩

/-- The three ways the last word of the venue about a placement is taken. -/
theorem closePlacement_placed {req : OrderRequest} {stamp : Stamp} {e e₁ e₂ : CcxtExecutor W}
    {amount : ℚ} {id : OrderId} {raw : RawOrder} (limit : Option ℚ)
    (h : Accepted c req e e₁ e₂ amount id raw) :
    Placed c req stamp e (.ok (closePlacement c e₂ req id amount limit raw stamp.now).1)
      (closePlacement c e₂ req id amount limit raw stamp.now).2 := by
  unfold closePlacement
  dsimp only
  split
  · rename_i price hs hp
    exact Placed.filled e₁ e₂ _ amount id raw limit price h hs hp
      (asides_syncProtection c _ _ _)
  · rename_i hs
    split_ifs with hid
    · exact Placed.tracked e₁ e₂ amount id raw limit h hs hid
    · exact Placed.ended e₁ e₂ amount id raw limit h (fun _ => not_not.mp hid)
        (fun hf => by rw [show (resolveStatus raw amount).1 = .pending from hs] at hf; cases hf)
  · rename_i hpending hfilled
    refine Placed.ended e₁ e₂ amount id raw limit h (fun hp => absurd hp hpending) (fun hf => ?_)
    cases hp : pyOr raw.fillPrice (pyOr limit req.price) with
    | none => rfl
    | some price => exact absurd hp (hfilled price hf)

/-- **Placing an order** ends in one of the ways of `Placed`. -/
theorem placeOrder_placed (e : CcxtExecutor W) (req : OrderRequest) (stamp : Stamp) :
    Placed c req stamp e (e.placeOrder c req stamp).1 (e.placeOrder c req stamp).2 := by
  have hbefore : Asides c e (if req.side = .sell then
      withdrawProtection c req.symbol stamp.now (e.ensureMarkets c) else e.ensureMarkets c) := by
    have hm := (quietly_ensureMarkets c e).asides
    split_ifs
    · exact hm.trans (asides_withdrawProtection c _ _ _)
    · exact hm
  unfold placeOrder
  dsimp only
  generalize (if req.side = .sell then
      withdrawProtection c req.symbol stamp.now (e.ensureMarkets c) else e.ensureMarkets c)
    = e₁ at hbefore ⊢
  cases hs : e₁.sendableAmount c req with
  | error reason => exact Placed.refused e₁ reason hbefore hs
  | ok amount =>
      dsimp only
      cases hc : c.createOrder req.symbol (e₁.orderTerms c req.symbol req.side req.price).1 req.side
          amount (e₁.orderTerms c req.symbol req.side req.price).2 e₁.world with
      | mk r w =>
          cases r with
          | error err => exact Placed.failed e₁ amount err w hbefore hs hc
          | ok answer =>
              dsimp only
              unfold acceptAnswer
              dsimp only
              generalize hraw : answer.getD RawOrder.empty = raw
              obtain ⟨w', h1, h2, h3⟩ := confirmPlaced_spec c
                { e₁ with
                  world := w
                  orderSymbols := e₁.orderSymbols.set raw.orderId req.symbol }
                raw.orderId req.symbol raw
              split_ifs with hpoll
              · refine closePlacement_placed c _ ⟨hbefore, hs, answer, w, w', hc, ?_, h2, ?_, h1⟩
                · rw [hraw]
                · rw [hraw]
                  exact h3
              · refine closePlacement_placed c _ ⟨hbefore, hs, answer, w, w, hc, ?_,
                  Relation.ReflTransGen.refl, Or.inl hraw.symm, rfl⟩
                rw [hraw]

end Place

end CcxtExecutor

end SmartyTrader
