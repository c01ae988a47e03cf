import SmartyTrader.Execution.CcxtReconciliation
import SmartyTrader.Lib.Runs

set_option autoImplicit false

/-! # Watching protective orders

What it means that no protective order is lost (`NoneLost`), and what keeps it so in the protective
orders themselves: `place`, `cancel` and `poll`. The invariant `Watched` also covers the orders
that fired and are on their way to the ledger. `cancel` keeps it under a condition on what the
venue answers about an order it refused to cancel (`CancelClear`), `poll` under one on the child
orders it is shown (`PollClear`).
-/

namespace SmartyTrader

open Lib

variable {W : Type}

/-! ## What the venue promises about ids -/

/-- The ids of protective orders in each world, the child order of each and the quantity that
child is filled with in the end. The venue never uses an id twice. -/
structure AlgoVenue (c : ExchangeClient W) where
  algos : W → Finset OrderId
  childOf : OrderId → OrderId
  final : OrderId → ℚ
  childOf_inj : ∀ {a b}, childOf a = childOf b → a = b
  call : ∀ {w w'}, VenueCall c w w' → algos w ⊆ algos w'
  ordered : ∀ s t side q limit w, algos w ⊆ algos (c.createOrder s t side q limit w).2
  created : ∀ {s t side q limit w answer w'}, c.createOrder s t side q limit w = (.ok answer, w') →
    ∀ a, (answer.getD RawOrder.empty).orderId ≠ childOf a
  placed : ∀ {s k q a b t w id w'}, c.createAlgo s k q a b t w = (.ok id, w') →
    orText id "" ∉ algos w ∧ orText id "" ∈ algos w'
  fired : ∀ {id s w raw w'}, c.fetchAlgo id s w = (.ok (some raw), w') →
    raw.algoState = "effective" → raw.childId ≠ "" → raw.childId = childOf id
  closed : ∀ {s n k w l w'}, c.fetchClosedAlgos s n k w = (.ok l, w') → ∀ raw ∈ l,
    raw.isOurs = true → raw.algoState = "effective" → raw.childId ≠ "" →
      ∃ a ∈ algos w', raw.childId = childOf a

theorem AlgoVenue.later {c : ExchangeClient W} (v : AlgoVenue c) {w w' : W} (h : Later c w w') :
    v.algos w ⊆ v.algos w' := by
  induction h with
  | refl => exact Finset.Subset.refl _
  | tail _ hstep ih => exact ih.trans (v.call hstep)

/-! ## The property -/

/-- The booked fills of an order. -/
def fillsOf (id : OrderId) (journal : List LedgerEntry) : List BookedFill :=
  journal.filterMap (fun
    | .fill f => if f.orderId = id then some f else none
    | .writeOff _ => none)

@[simp] theorem fillsOf_nil (id : OrderId) : fillsOf id [] = [] := rfl

theorem fillsOf_append (id : OrderId) (xs ys : List LedgerEntry) :
    fillsOf id (xs ++ ys) = fillsOf id xs ++ fillsOf id ys :=
  List.filterMap_append

theorem fillsOf_fill (id : OrderId) (f : BookedFill) :
    fillsOf id [.fill f] = if f.orderId = id then [f] else [] := by
  by_cases h : f.orderId = id <;> simp [fillsOf, h]

@[simp] theorem fillsOf_writeOff (id : OrderId) (s : Symbol) : fillsOf id [.writeOff s] = [] := rfl

section Kept

variable {c : ExchangeClient W} (v : AlgoVenue c)

/-- The child of the order was booked once, with its final quantity. -/
def BookedOnce (id : OrderId) (journal : List LedgerEntry) : Prop :=
  ∃ f, fillsOf (v.childOf id) journal = [f] ∧ f.quantity = v.final id

/-- **Nothing is lost**: each order that was placed and is not known to be gone is live or was
booked once. -/
def NoneLost (e : CcxtExecutor W) : Prop :=
  ∀ p, e.protection = some p → ∀ id ∈ p.placed, id ∉ p.gone →
    (∃ s order, p.get s = some order ∧ order.algoId = id) ∨ BookedOnce v id e.journal

/-- No fill of the child is booked, and its id is not known. -/
structure Unbooked (id : OrderId) (known : List OrderId) (journal : List LedgerEntry) : Prop where
  known : v.childOf id ∉ known
  journal : fillsOf (v.childOf id) journal = []

/-- A fired order that waits to be booked: it is not live any more, and its child is filled for
good. -/
structure Awaits (p : ProtectiveOrders) (known : List OrderId) (journal : List LedgerEntry)
    (t : Triggered) : Prop where
  placed : t.algoId ∈ p.placed
  unbooked : Unbooked v t.algoId known journal
  child : t.childId = v.childOf t.algoId
  filled : orNumber t.child.filled 0 = v.final t.algoId
  price : t.child.fillPrice.isSome
  dated : t.child.Dated
  gone : ∀ s order, p.live.get? s = some order → order.algoId ≠ t.algoId

/-- The invariant, while the fired orders `out` wait to be booked. -/
structure Watched (p : ProtectiveOrders) (out : List Triggered) (known : List OrderId)
    (journal : List LedgerEntry) (w : W) : Prop where
  live : ∀ s order, p.live.get? s = some order →
    order.algoId ∈ p.placed ∧ Unbooked v order.algoId known journal
  apart : ∀ s s' order order', p.live.get? s = some order → p.live.get? s' = some order' →
    order.algoId = order'.algoId → s = s'
  awaiting : ∀ t ∈ out, Awaits v p known journal t
  once : (out.map Triggered.algoId).Nodup
  issued : ∀ id ∈ p.placed, id ∈ v.algos w
  fresh : ∀ id, id ∉ v.algos w → Unbooked v id known journal
  kept : ∀ id ∈ p.placed, id ∉ p.gone →
    (∃ s order, p.live.get? s = some order ∧ order.algoId = id) ∨
    (∃ t ∈ out, t.algoId = id) ∨ BookedOnce v id journal

end Kept

/-! ## What the venue answers after a refusal -/

section Clear

variable {c : ExchangeClient W} (v : AlgoVenue c)

/-- Asked about the order and then about its child, the venue shows the child. -/
def Shows (c : ExchangeClient W) (order : ProtectiveOrder) (w : W) (child : RawOrder) : Prop :=
  ∃ raw w₁ f w₂, c.fetchAlgo order.algoId order.symbol w = (.ok (some raw), w₁) ∧
    raw.algoState = "effective" ∧ raw.childId ≠ "" ∧ c.fetchOrder = some f ∧
    f raw.childId order.symbol w₁ = (.ok (some child), w₂)

/-- A child that is shown with a fill is shown with its final one, with a price and with a time that
can be converted. -/
def ShownFinal (order : ProtectiveOrder) (w : W) : Prop :=
  ∀ child, Shows c order w child → orNumber child.filled 0 ≠ 0 →
    orNumber child.filled 0 = v.final order.algoId ∧ child.fillPrice.isSome ∧ child.Dated

/-- The state the venue reports, with the world after the question. -/
def Reports (c : ExchangeClient W) (order : ProtectiveOrder) (w : W) (text : String) (w' : W) :
    Prop :=
  ∃ raw, c.fetchAlgo order.algoId order.symbol w = (.ok raw, w') ∧
    (raw.getD RawAlgo.empty).algoState = text

/-- The venue, which refused to cancel the order, says what became of it: its child is filled for
good, or it is dead, or it works on and is not replaced. -/
def Accounted (order : ProtectiveOrder) (replaced : W → Prop) (w : W) : Prop :=
  ShownFinal v order w ∧
    ((∃ child, Shows c order w child ∧ orNumber child.filled 0 ≠ 0) ∨
      ∃ text w', Reports c order (ProtectiveOrders.check c order w).2 text w' ∧
        (text ∈ deadStates ∨ (text ≠ "" ∧ text ≠ "effective" ∧ ¬ replaced w')))

/-- The condition on `cancel`. -/
def CancelClear (symbol : Symbol) (replaced : W → Prop) (p : ProtectiveOrders) (w : W) : Prop :=
  ∀ order err w', p.live.get? symbol = some order →
    c.cancelAlgo order.algoId symbol w = (.error err, w') → Accounted v order replaced w'

/-- The condition on one order of `poll`. -/
def PollClear (order : ProtectiveOrder) (w : W) : Prop :=
  ∀ w', Reports c order w "effective" w' → ShownFinal v order w'

end Clear

/-! ## Moves of the invariant -/

namespace Watched

variable {c : ExchangeClient W} {v : AlgoVenue c} {p p' : ProtectiveOrders} {out : List Triggered}
  {known : List OrderId} {journal journal' : List LedgerEntry} {w w' : W}

/-- The venue moves on. -/
theorem later (h : Watched v p out known journal w) (hw : v.algos w ⊆ v.algos w') :
    Watched v p out known journal w' :=
  { h with
    issued := fun id hid => hw (h.issued id hid)
    fresh := fun id hid => h.fresh id fun hmem => hid (hw hmem) }

/-- Only what the map says of each symbol counts. -/
theorem congr (h : Watched v p out known journal w)
    (hlive : ∀ s, p'.live.get? s = p.live.get? s) (hplaced : p'.placed = p.placed)
    (hgone : p'.gone = p.gone) : Watched v p' out known journal w where
  live s order hget := by
    rw [hplaced]
    exact h.live s order (by rw [← hlive]; exact hget)
  apart s s' order order' hget hget' := by
    rw [hlive] at hget hget'
    exact h.apart s s' order order' hget hget'
  awaiting t ht := by
    have haw := h.awaiting t ht
    exact
      { haw with
        placed := hplaced ▸ haw.placed
        gone := fun s order hget => haw.gone s order (by rw [← hlive]; exact hget) }
  once := h.once
  issued id hid := h.issued id (hplaced ▸ hid)
  fresh := h.fresh
  kept id hid hgone' := by
    simp only [hlive]
    exact h.kept id (hplaced ▸ hid) (hgone ▸ hgone')

/-- What is live after one order was taken from the map. -/
theorem live_erase {s s' : Symbol} {order : ProtectiveOrder}
    (hget : (p.live.erase s).get? s' = some order) : s ≠ s' ∧ p.live.get? s' = some order := by
  rw [Dict.get?_erase] at hget
  split_ifs at hget with hs
  exact ⟨hs, hget⟩

/-- An order that the venue calls dead or cancelled leaves the map. -/
theorem dead (h : Watched v p out known journal w) {s : Symbol} {order : ProtectiveOrder}
    (hget : p.live.get? s = some order) :
    Watched v
      { p with
        live := p.live.erase s
        gone := order.algoId :: p.gone } out known journal w where
  live s' order' hget' := h.live s' order' (live_erase hget').2
  apart s₁ s₂ o₁ o₂ h₁ h₂ := h.apart s₁ s₂ o₁ o₂ (live_erase h₁).2 (live_erase h₂).2
  awaiting t ht :=
    { h.awaiting t ht with
      gone := fun s' order' hget' => (h.awaiting t ht).gone s' order' (live_erase hget').2 }
  once := h.once
  issued := h.issued
  fresh := h.fresh
  kept id hid hgone := by
    obtain ⟨hne, hgone⟩ := not_or.mp (fun hc => hgone (List.mem_cons.mpr hc))
    rcases h.kept id hid hgone with ⟨s', order', hget', rfl⟩ | hrest
    · have hs : s ≠ s' := by
        rintro rfl
        rw [hget] at hget'
        cases hget'
        exact hne rfl
      exact Or.inl ⟨s', order', by rw [Dict.get?_erase_ne _ hs]; exact hget', rfl⟩
    · exact Or.inr hrest

/-- An order whose filled child was found leaves the map and waits to be booked. -/
theorem popped (h : Watched v p out known journal w) {s : Symbol} {order : ProtectiveOrder}
    (hget : p.live.get? s = some order) {t : Triggered} (hid : t.algoId = order.algoId)
    (hchild : t.childId = v.childOf order.algoId)
    (hfilled : orNumber t.child.filled 0 = v.final order.algoId)
    (hprice : t.child.fillPrice.isSome) (hdated : t.child.Dated) :
    Watched v { p with live := p.live.erase s } (out ++ [t]) known journal w where
  live s' order' hget' := h.live s' order' (live_erase hget').2
  apart s₁ s₂ o₁ o₂ h₁ h₂ := h.apart s₁ s₂ o₁ o₂ (live_erase h₁).2 (live_erase h₂).2
  awaiting t' ht' := by
    rcases List.mem_append.mp ht' with ht' | ht'
    · exact { h.awaiting t' ht' with
        gone := fun s' order' hget' => (h.awaiting t' ht').gone s' order' (live_erase hget').2 }
    · rw [List.mem_singleton.mp ht']
      obtain ⟨hplaced, hunbooked⟩ := h.live s order hget
      refine ⟨hid ▸ hplaced, hid ▸ hunbooked, hid ▸ hchild, hid ▸ hfilled, hprice, hdated, ?_⟩
      intro s' order' hget' he
      obtain ⟨hs, hget'⟩ := live_erase hget'
      exact hs (h.apart s s' order order' hget hget' (by rw [he, hid]))
  once := by
    rw [List.map_append, List.map_singleton]
    refine h.once.append (List.nodup_singleton _) ?_
    rw [List.disjoint_singleton]
    intro hmem
    obtain ⟨t', ht', he⟩ := List.mem_map.mp hmem
    exact (h.awaiting t' ht').gone s order hget (by rw [he, hid])
  issued := h.issued
  fresh := h.fresh
  kept id hplaced hgone := by
    rcases h.kept id hplaced hgone with ⟨s', order', hget', rfl⟩ | ⟨t', ht', he⟩ | hbooked
    · by_cases hs : s = s'
      · subst hs
        rw [hget] at hget'
        cases hget'
        exact Or.inr (Or.inl ⟨t, List.mem_append_right _ (List.mem_singleton_self t), hid⟩)
      · exact Or.inl ⟨s', order', by rw [Dict.get?_erase_ne _ hs]; exact hget', rfl⟩
    · exact Or.inr (Or.inl ⟨t', List.mem_append_left _ ht', he⟩)
    · exact Or.inr (Or.inr hbooked)

/-- A new order, in a symbol without one. -/
theorem added (h : Watched v p out known journal w) {s : Symbol} {order : ProtectiveOrder}
    (hnone : p.live.get? s = none) (hfresh : order.algoId ∉ v.algos w)
    (hnew : order.algoId ∈ v.algos w') (hw : v.algos w ⊆ v.algos w') :
    Watched v
      { p with
        live := p.live.set s order
        placed := order.algoId :: p.placed } out known journal w' := by
  have hnever : ∀ id ∈ p.placed, id ≠ order.algoId := by
    rintro id hid rfl
    exact hfresh (h.issued _ hid)
  have hsplit : ∀ {s' order'}, (p.live.set s order).get? s' = some order' →
      (s = s' ∧ order' = order) ∨ p.live.get? s' = some order' := by
    intro s' order' hget
    rw [Dict.get?_set] at hget
    split_ifs at hget with hs
    · exact Or.inl ⟨hs, (Option.some.inj hget).symm⟩
    · exact Or.inr hget
  refine ⟨?_, ?_, ?_, h.once, ?_, ?_, ?_⟩
  · intro s' order' hget
    rcases hsplit hget with ⟨-, rfl⟩ | hget
    · exact ⟨List.mem_cons_self, h.fresh _ hfresh⟩
    · obtain ⟨h1, h2⟩ := h.live s' order' hget
      exact ⟨List.mem_cons_of_mem _ h1, h2⟩
  · intro s₁ s₂ o₁ o₂ h₁ h₂ he
    rcases hsplit h₁ with ⟨hs₁, ho₁⟩ | h₁
    · rcases hsplit h₂ with ⟨hs₂, -⟩ | h₂
      · exact hs₁.symm.trans hs₂
      · exact absurd (he.symm.trans (by rw [ho₁])) (hnever _ (h.live s₂ o₂ h₂).1)
    · rcases hsplit h₂ with ⟨-, ho₂⟩ | h₂
      · exact absurd (he.trans (by rw [ho₂])) (hnever _ (h.live s₁ o₁ h₁).1)
      · exact h.apart s₁ s₂ o₁ o₂ h₁ h₂ he
  · intro t ht
    have haw := h.awaiting t ht
    refine
      { haw with
        placed := List.mem_cons_of_mem _ haw.placed
        gone := fun s' order' hget => ?_ }
    rcases hsplit hget with ⟨-, rfl⟩ | hget
    · exact (hnever _ haw.placed).symm
    · exact haw.gone s' order' hget
  · intro id hid
    rcases List.mem_cons.mp hid with rfl | hid
    · exact hnew
    · exact hw (h.issued id hid)
  · intro id hid
    exact h.fresh id fun hmem => hid (hw hmem)
  · intro id hid hgone
    rcases List.mem_cons.mp hid with rfl | hid
    · exact Or.inl ⟨s, order, Dict.get?_set_self _ _ _, rfl⟩
    · rcases h.kept id hid hgone with ⟨s', order', hget', he⟩ | hrest
      · have hs : s ≠ s' := by
          rintro rfl
          rw [hnone] at hget'
          cases hget'
        exact Or.inl ⟨s', order', by rw [Dict.get?_set_ne _ _ hs]; exact hget', he⟩
      · exact Or.inr hrest

/-- The ledger changes, but not by the fill of a child. -/
theorem other (h : Watched v p out known journal w)
    (hj : ∀ a, fillsOf (v.childOf a) journal' = fillsOf (v.childOf a) journal) :
    Watched v p out known journal' w := by
  have hun : ∀ {id}, Unbooked v id known journal → Unbooked v id known journal' :=
    fun hu => ⟨hu.known, (hj _).trans hu.journal⟩
  refine ⟨fun s order hget => ⟨(h.live s order hget).1, hun (h.live s order hget).2⟩, h.apart,
    fun t ht => { h.awaiting t ht with unbooked := hun (h.awaiting t ht).unbooked }, h.once,
    h.issued, fun id hid => hun (h.fresh id hid), fun id hid hgone => ?_⟩
  unfold BookedOnce
  rw [hj]
  exact h.kept id hid hgone

/-- The first of the waiting orders is booked. -/
theorem booked {t : Triggered} (h : Watched v p (t :: out) known journal w) {f : BookedFill}
    (hf : f.quantity = orNumber t.child.filled 0)
    (hj : ∀ id, fillsOf id journal' = fillsOf id journal ++ if t.childId = id then [f] else []) :
    Watched v p out (t.childId :: known) journal' w := by
  obtain ⟨hplaced, hunbooked, hchild, hfilled, -, -, hlive⟩ := h.awaiting t List.mem_cons_self
  have hun : ∀ {id}, id ≠ t.algoId → Unbooked v id known journal →
      Unbooked v id (t.childId :: known) journal' := by
    intro id hne hu
    have hother : t.childId ≠ v.childOf id := fun he =>
      hne (v.childOf_inj (he.symm.trans hchild))
    refine ⟨fun hmem => ?_, ?_⟩
    · exact (List.mem_cons.mp hmem).elim hother.symm hu.known
    · rw [hj, if_neg hother, hu.journal, List.append_nil]
  obtain ⟨hfirst, honce⟩ := List.nodup_cons.mp h.once
  refine ⟨?_, h.apart, ?_, honce, h.issued, ?_, ?_⟩
  · intro s order hget
    obtain ⟨h1, h2⟩ := h.live s order hget
    exact ⟨h1, hun (hlive s order hget) h2⟩
  · intro t' ht'
    have hne : t'.algoId ≠ t.algoId := fun he => hfirst (he ▸ List.mem_map_of_mem ht')
    have haw := h.awaiting t' (List.mem_cons_of_mem _ ht')
    exact { haw with unbooked := hun hne haw.unbooked }
  · intro id hid
    have hne : id ≠ t.algoId := by
      rintro rfl
      exact hid (h.issued _ hplaced)
    exact hun hne (h.fresh id hid)
  · intro id hid hgone
    by_cases he : id = t.algoId
    · subst he
      refine Or.inr (Or.inr ⟨f, ?_, hf.trans hfilled⟩)
      rw [hj, ← hchild, if_pos rfl, hchild, hunbooked.journal, List.nil_append]
    · rcases h.kept id hid hgone with hlive' | ⟨t', ht', rfl⟩ | ⟨g, hg, hq⟩
      · exact Or.inl hlive'
      · rcases List.mem_cons.mp ht' with rfl | ht'
        · exact absurd rfl he
        · exact Or.inr (Or.inl ⟨t', ht', rfl⟩)
      · refine Or.inr (Or.inr ⟨g, ?_, hq⟩)
        rw [hj, if_neg (fun hc => he (v.childOf_inj (hc.symm.trans hchild))), hg, List.append_nil]

end Watched

/-! ## What the reads find -/

namespace ProtectiveOrders

variable {c : ExchangeClient W} (v : AlgoVenue c) {order : ProtectiveOrder} {w : W}

/-- A fired order that `_check` finds is one the venue shows. -/
theorem check_shown {t : Triggered} {w' : W} (h : check c order w = (some t, w')) :
    Shows c order w t.child ∧ orNumber t.child.filled 0 ≠ 0 ∧ t.algoId = order.algoId ∧
      t.childId = v.childOf order.algoId := by
  unfold check at h
  split at h
  · cases h
  · rename_i raw w₁ hfetch
    unfold checkChild at h
    by_cases hskip : (raw.getD RawAlgo.empty).algoState ≠ "effective"
        ∨ (raw.getD RawAlgo.empty).childId = ""
    · rw [if_pos hskip] at h
      cases h
    rw [if_neg hskip] at h
    obtain ⟨hstate, hid⟩ : (raw.getD RawAlgo.empty).algoState = "effective"
        ∧ (raw.getD RawAlgo.empty).childId ≠ "" := by
      rw [not_or, not_not] at hskip
      exact hskip
    cases raw with
    | none => exact absurd hstate (by decide)
    | some raw =>
        dsimp only [Option.getD_some] at h hstate hid
        cases hf : c.fetchOrder with
        | none =>
            rw [hf] at h
            cases h
        | some f =>
            rw [hf] at h
            dsimp only at h
            split at h
            · rename_i child w₂ hchild
              by_cases hzero : orNumber child.filled 0 = 0
              · rw [if_pos hzero] at h
                cases h
              rw [if_neg hzero] at h
              obtain ⟨ht, -⟩ := Prod.mk.inj h
              obtain rfl := Option.some.inj ht
              exact ⟨⟨raw, w₁, f, w₂, hfetch, hstate, hid, hf, hchild⟩, hzero, rfl,
                v.fired hfetch hstate hid⟩
            · cases h

/-- What the venue shows with a fill, `_check` finds. -/
theorem check_of_shows {child : RawOrder} (h : Shows c order w child)
    (hfilled : orNumber child.filled 0 ≠ 0) : ∃ t w', check c order w = (some t, w') := by
  obtain ⟨raw, w₁, f, w₂, hfetch, hstate, hid, hf, hchild⟩ := h
  unfold check checkChild
  simp only [hfetch, Option.getD_some, hstate, hid, hf, hchild, ne_eq, not_true_eq_false, or_self,
    if_false, hfilled]
  exact ⟨_, _, rfl⟩

theorem state_of_reports {text : String} {w' : W} (h : Reports c order w text w') :
    state c order w = (text, w') := by
  obtain ⟨raw, hfetch, htext⟩ := h
  unfold state
  rw [hfetch]
  dsimp only
  rw [htext]

theorem reports_of_state {text : String} (h : (state c order w).1 = text) (hne : text ≠ "") :
    Reports c order w text (state c order w).2 := by
  unfold state at h ⊢
  split at h
  · exact absurd h.symm hne
  · rename_i raw w' hfetch
    exact ⟨raw, hfetch, h⟩

/-! ## Place, cancel and poll -/

variable {p : ProtectiveOrders} {out : List Triggered} {known : List OrderId}
  {journal : List LedgerEntry}

/-- The order is accepted by the venue. -/
def Protects (c : ExchangeClient W) (price : Symbol → ℚ → ℚ) (s : Symbol) (q : ℚ)
    (levels : ExitLevels) (w : W) : Prop :=
  ∃ id w', c.createAlgo s
    (if levels.1.isSome ∧ levels.2.isSome then AlgoKind.oco else AlgoKind.conditional) q
    (levels.1.map (price s)) (levels.2.map (price s)) clientIdPrefix w = (.ok id, w')

/-- A placement keeps the invariant, unless it replaces an order. -/
theorem watched_place {v : AlgoVenue c} (price : Symbol → ℚ → ℚ) (s : Symbol) (q : ℚ)
    (levels : ExitLevels) (h : Watched v p out known journal w)
    (hfree : p.live.get? s = none ∨ ¬ Protects c price s q levels w) :
    Watched v (place c price s q levels p w).1 out known journal
      (place c price s q levels p w).2 := by
  have hcall := v.call (VenueCall.createAlgo (c := c) s
    (if levels.1.isSome ∧ levels.2.isSome then AlgoKind.oco else AlgoKind.conditional) q
    (levels.1.map (price s)) (levels.2.map (price s)) clientIdPrefix w)
  unfold place
  dsimp only
  split
  · rename_i heq
    rw [heq] at hcall
    exact h.later hcall
  · rename_i id w' heq
    rw [heq] at hcall
    obtain ⟨hold, hnew⟩ := v.placed heq
    have hnone : p.live.get? s = none := hfree.resolve_right fun hn => hn ⟨id, w', heq⟩
    exact h.added hnone hold hnew hcall

/-- What becomes of an order whose cancel was refused, by what the venue answers. -/
theorem watched_afterRefusal {v : AlgoVenue c} {s : Symbol} (replaced : W → Prop)
    (h : Watched v p [] known journal w) (hget : p.live.get? s = some order)
    (hclear : Accounted v order replaced w) :
    let r := afterRefusal c s order { p with live := p.live.erase s } w
    Watched v r.2.1 r.1.toList known journal r.2.2 ∧
      (r.2.1.live.get? s = none ∨ r.1 = none ∧ ¬ replaced r.2.2) := by
  have hlater := v.later (afterRefusal_spec c s order { p with live := p.live.erase s } w).1
  have herased : (p.live.erase s).get? s = none := Dict.get?_erase_self _ _
  obtain ⟨hfinal, hcase⟩ := hclear
  unfold afterRefusal at hlater ⊢
  rcases hcheck : check c order w with ⟨found, w₁⟩
  rw [hcheck] at hlater hcase
  cases found with
  | some t =>
      obtain ⟨hshows, hzero, hid, hchild⟩ := check_shown v hcheck
      obtain ⟨hq, hprice, hdated⟩ := hfinal t.child hshows hzero
      exact ⟨(h.popped hget hid hchild hq hprice hdated).later hlater, Or.inl herased⟩
  | none =>
      rcases hcase with ⟨child, hshows, hzero⟩ | ⟨text, w₂, hreports, hstate⟩
      · obtain ⟨t, w', hfound⟩ := check_of_shows hshows hzero
        rw [hcheck] at hfound
        cases hfound
      · have htext : state c order w₁ = (text, w₂) := state_of_reports hreports
        dsimp only at hlater ⊢
        rw [htext] at hlater ⊢
        dsimp only at hlater ⊢
        by_cases hdead : text ∈ deadStates
        · rw [if_neg (fun hc => hc.2.1 hdead), if_pos hdead] at hlater ⊢
          exact ⟨(h.dead hget).later hlater, Or.inl herased⟩
        · obtain ⟨hne, heff, hkeep⟩ := hstate.resolve_left hdead
          rw [if_pos ⟨hne, hdead, heff⟩] at hlater ⊢
          have hback : ∀ s', ((p.live.erase s).set s order).get? s' = p.live.get? s' := by
            intro s'
            rw [Dict.get?_set, Dict.get?_erase]
            split_ifs with hs
            · rw [← hs, hget]
            · rfl
          have hsame : Watched v { p with live := (p.live.erase s).set s order } [] known journal
              w := h.congr hback rfl rfl
          exact ⟨hsame.later hlater, Or.inr ⟨rfl, hkeep⟩⟩

/-- What `cancel` leaves: the order is out of the map, or it works on and is not replaced. -/
theorem watched_cancel {v : AlgoVenue c} (s : Symbol) (replaced : W → Prop)
    (h : Watched v p [] known journal w) (hclear : CancelClear v s replaced p w) :
    Watched v (cancel c s p w).2.1 (cancel c s p w).1.toList known journal (cancel c s p w).2.2 ∧
      ((cancel c s p w).2.1.live.get? s = none ∨
        (cancel c s p w).1 = none ∧ ¬ replaced (cancel c s p w).2.2) := by
  have hcall : ∀ id, v.algos w ⊆ v.algos (c.cancelAlgo id s w).2 :=
    fun id => v.call (VenueCall.cancelAlgo id s w)
  unfold cancel
  cases hget : p.live.get? s with
  | none => exact ⟨h, Or.inl hget⟩
  | some order =>
      dsimp only
      rcases hcancel : c.cancelAlgo order.algoId s w with ⟨answer, w₁⟩
      have hlater : v.algos w ⊆ v.algos w₁ := by
        rw [show w₁ = (c.cancelAlgo order.algoId s w).2 by rw [hcancel]]
        exact hcall _
      cases answer with
      | ok u => exact ⟨(h.dead hget).later hlater, Or.inl (Dict.get?_erase_self _ _)⟩
      | error err =>
          exact watched_afterRefusal replaced (h.later hlater) hget
            (hclear order err w₁ hget hcancel)

/-- One order of `poll`: the other symbols of the map stay as they are. -/
theorem watched_pollOne {v : AlgoVenue c} {s : Symbol} (h : Watched v p out known journal w)
    (hget : p.live.get? s = some order) (hclear : PollClear v order w) :
    Watched v (pollOne c s order p w).2.1 (out ++ (pollOne c s order p w).1.toList) known journal
        (pollOne c s order p w).2.2 ∧
      ∀ s', s ≠ s' → (pollOne c s order p w).2.1.live.get? s' = p.live.get? s' := by
  have hlater := v.later (pollOne_spec c s order p w).1
  have herased : ∀ s', s ≠ s' → (p.live.erase s).get? s' = p.live.get? s' :=
    fun s' hs => Dict.get?_erase_ne _ hs
  unfold pollOne at hlater ⊢
  dsimp only at hlater ⊢
  by_cases heff : (state c order w).1 = "effective"
  · rw [if_pos heff] at hlater ⊢
    have hfinal := hclear _ (reports_of_state heff (by decide))
    cases hcheck : check c order (state c order w).2 with
    | mk found w₂ =>
        rw [hcheck] at hlater
        cases found with
        | some t =>
            obtain ⟨hshows, hzero, hid, hchild⟩ := check_shown v hcheck
            obtain ⟨hq, hprice, hdated⟩ := hfinal t.child hshows hzero
            exact ⟨(h.popped hget hid hchild hq hprice hdated).later hlater, herased⟩
        | none =>
            dsimp only [Option.toList_none]
            rw [List.append_nil]
            exact ⟨h.later hlater, fun _ _ => rfl⟩
  · rw [if_neg heff] at hlater ⊢
    by_cases hdead : (state c order w).1 ∈ deadStates
    · rw [if_pos hdead] at hlater ⊢
      dsimp only [Option.toList_none]
      rw [List.append_nil]
      exact ⟨(h.dead hget).later hlater, herased⟩
    · rw [if_neg hdead] at hlater ⊢
      dsimp only [Option.toList_none]
      rw [List.append_nil]
      exact ⟨h.later hlater, fun _ _ => rfl⟩

/-- One order of `poll` as a step. -/
def pollStep (c : ExchangeClient W) (entry : Symbol × ProtectiveOrder) (x : ProtectiveOrders × W) :
    ProtectiveOrders × W :=
  (pollOne c entry.1 entry.2 x.1 x.2).2

/-- The condition on `poll`: on each order in turn. -/
def PollsClear (v : AlgoVenue c) (entries : List (Symbol × ProtectiveOrder))
    (p : ProtectiveOrders) (w : W) : Prop :=
  EachStep (pollStep c) (fun entry x => PollClear v entry.2 x.2) entries (p, w)

theorem watched_pollEach {v : AlgoVenue c} {entries : List (Symbol × ProtectiveOrder)}
    (hkeys : (entries.map Prod.fst).Nodup) (h : Watched v p out known journal w)
    (hlive : ∀ entry ∈ entries, p.live.get? entry.1 = some entry.2)
    (hclear : PollsClear v entries p w) :
    Watched v (pollEach c entries p w).2.1 (out ++ (pollEach c entries p w).1) known journal
      (pollEach c entries p w).2.2 := by
  induction entries generalizing p w out with
  | nil =>
      show Watched v p (out ++ []) known journal w
      rw [List.append_nil]
      exact h
  | cons entry rest ih =>
      obtain ⟨s, order⟩ := entry
      obtain ⟨hfirst, hrest⟩ := List.nodup_cons.mp hkeys
      obtain ⟨hone, hother⟩ := watched_pollOne h (hlive _ List.mem_cons_self) hclear.1
      have hstill : ∀ entry ∈ rest,
          (pollOne c s order p w).2.1.live.get? entry.1 = some entry.2 := by
        intro entry hentry
        have hs : s ≠ entry.1 := by
          intro hs
          exact hfirst (List.mem_map.mpr ⟨entry, hentry, hs.symm⟩)
        rw [hother _ hs]
        exact hlive entry (List.mem_cons_of_mem _ hentry)
      have htail := ih hrest hone hstill hclear.2
      rw [List.append_assoc] at htail
      exact htail

theorem watched_poll {v : AlgoVenue c} (h : Watched v p [] known journal w)
    (hclear : PollsClear v p.live.entries p w) :
    Watched v (poll c p w).2.1 (poll c p w).1 known journal (poll c p w).2.2 :=
  watched_pollEach p.live.nodup_keys h (fun entry hentry =>
    (p.live.mem_entries_iff entry.1 entry.2).mp hentry) hclear

end ProtectiveOrders

end SmartyTrader
