import SmartyTrader.Execution.CcxtMoves

set_option autoImplicit false

/-! # What a venue promises

A client alone is any behaviour at all. Here is what the venue behind it promises about orders:
every order has its own non-empty id, it fills up to its amount and stops when it is final, an
order whose creation raised does not exist, and answers about an order tell its fills, with a
price, and carry a time before the year 10000. The last section is a venue that keeps the promises
and fills every order at once.
-/

namespace SmartyTrader

variable {W : Type}

/-! ## Orders at a venue -/

/-- An order at the venue. A final order trades no more. -/
structure VenueOrder where
  symbol : Symbol
  side : OrderSide
  amount : ℚ
  filled : ℚ
  final : Bool
  deriving DecidableEq

/-- What can happen to an order: it fills on until it is final. -/
structure VenueOrder.Keeps (o o' : VenueOrder) : Prop where
  symbol : o'.symbol = o.symbol
  side : o'.side = o.side
  amount : o'.amount = o.amount
  filled : o.filled ≤ o'.filled
  final : o.final = true → o' = o

theorem VenueOrder.Keeps.refl (o : VenueOrder) : VenueOrder.Keeps o o :=
  ⟨rfl, rfl, rfl, le_rfl, fun _ => rfl⟩

theorem VenueOrder.Keeps.trans {a b d : VenueOrder} (h : VenueOrder.Keeps a b)
    (h' : VenueOrder.Keeps b d) : VenueOrder.Keeps a d where
  symbol := h'.symbol.trans h.symbol
  side := h'.side.trans h.side
  amount := h'.amount.trans h.amount
  filled := h.filled.trans h'.filled
  final hf := by
    have hb := h.final hf
    rw [h'.final (by rw [hb]; exact hf), hb]

/-- A payload that tells the truth about an order. Numbers it leaves out are the amount of a
closed order and no fill of any other final order. Its time is one that can be converted. -/
structure Answers (raw : RawOrder) (o : VenueOrder) : Prop where
  filled : ∀ q, raw.filled = some q → q = o.filled
  amount : ∀ q, raw.amount = some q → q = o.amount
  final : ∀ text, raw.status = some text → statusOf text ≠ .pending → o.final = true
  silent : ∀ text, raw.status = some text → statusOf text ≠ .pending →
    statusOf text ≠ .filled → raw.filled = none → o.filled = 0
  price : 0 < o.filled → o.final = true → ∃ q, raw.fillPrice = some q ∧ 0 < q
  dated : raw.Dated

/-- What a resolved status says about an order: it is final. A fill it reports is at least the
order's fill, and it reports one, with a price, unless the order has none. -/
theorem resolveStatus_answers {raw : RawOrder} {o : VenueOrder} (h : Answers raw o)
    (hle : o.filled ≤ o.amount) (hs : (resolveStatus raw o.amount).1 ≠ .pending) :
    o.final = true ∧
      ((resolveStatus raw o.amount).1 = .filled → o.filled ≤ (resolveStatus raw o.amount).2.1) ∧
      (o.filled ≤ 0 ∨ (resolveStatus raw o.amount).1 = .filled ∧
        ∃ q, raw.fillPrice = some q ∧ 0 < q) := by
  unfold resolveStatus at hs ⊢
  dsimp only at hs ⊢
  cases htext : raw.status with
  | none =>
      rw [htext] at hs
      simp at hs
  | some text =>
      rw [htext] at hs
      simp only [Option.map_some, Option.getD_some] at hs ⊢
      have hfilled : ∀ q, raw.filled = some q → orNumber raw.filled 0 = o.filled := by
        intro q hq
        rw [← h.filled q hq, hq]
        unfold orNumber
        dsimp only
        split_ifs with h0
        · exact h0.symm
        · rfl
      have hamount : o.filled ≤ orNumber raw.amount o.amount := by
        unfold orNumber
        split
        · exact hle
        · rename_i q hq
          split_ifs
          · exact hle
          · rw [h.amount q hq]
            exact hle
      have hpos : ∀ (_ : o.final = true), o.filled ≤ 0 ∨ ∃ q, raw.fillPrice = some q ∧ 0 < q := by
        intro hf
        rcases le_or_gt o.filled 0 with h0 | h0
        · exact Or.inl h0
        · exact Or.inr (h.price h0 hf)
      split_ifs at hs ⊢ with h1 h2 h3
      · -- Closed, and the fill is zero or not stated: the amount is booked.
        have hf := h.final text htext (by rw [h1]; decide)
        exact ⟨hf, fun _ => hamount, (hpos hf).imp id fun hp => ⟨h1, hp⟩⟩
      · have hf := h.final text htext (by rw [h1]; decide)
        refine ⟨hf, fun _ => ?_, (hpos hf).imp id fun hp => ⟨h1, hp⟩⟩
        cases hq : raw.filled with
        | none =>
            rw [hq] at h2
            exact absurd rfl h2
        | some q =>
            rw [← hq, hfilled q hq]
      · -- Cancelled or rejected after a partial fill.
        have hne : statusOf text ≠ .pending := by
          rcases h3.1 with h4 | h4 <;> rw [h4] <;> decide
        have hf := h.final text htext hne
        refine ⟨hf, fun _ => ?_, (hpos hf).imp id fun hp => ⟨rfl, hp⟩⟩
        cases hq : raw.filled with
        | none => exact (h.silent text htext hne h1 hq).le.trans (by simp [orNumber])
        | some q => rw [← hq, hfilled q hq]
      · -- Cancelled or rejected without a fill.
        have hdead : statusOf text = .cancelled ∨ statusOf text = .rejected := by
          cases ht : statusOf text <;> simp_all
        refine ⟨h.final text htext hs, fun hf => absurd hf h1, Or.inl ?_⟩
        cases hq : raw.filled with
        | none => exact (h.silent text htext hs h1 hq).le
        | some q =>
            rw [← hfilled q hq]
            exact not_lt.mp fun hlt => h3 ⟨hdead, hlt⟩

/-! ## The promises -/

/-- The orders of this client at the venue, in each world, and what is promised about them. -/
structure Venue (c : ExchangeClient W) where
  ids : W → Finset OrderId
  order : W → OrderId → VenueOrder
  within : ∀ w, ∀ id ∈ ids w, 0 ≤ (order w id).filled ∧
    (order w id).filled ≤ (order w id).amount
  /-- A call that creates nothing. -/
  call : ∀ {w w'}, VenueCall c w w' → ids w' = ids w ∧
    ∀ id ∈ ids w, VenueOrder.Keeps (order w id) (order w' id)
  /-- A creation that raised has no effect on the orders. -/
  refused : ∀ {s t side amount limit w err w'},
    c.createOrder s t side amount limit w = (.error err, w') → ids w' = ids w ∧
      ∀ id ∈ ids w, VenueOrder.Keeps (order w id) (order w' id)
  created : ∀ {s t side amount limit w answer w'},
    c.createOrder s t side amount limit w = (.ok answer, w') →
      let raw := answer.getD RawOrder.empty
      raw.orderId ≠ "" ∧ raw.orderId ∉ ids w ∧ ids w' = insert raw.orderId (ids w) ∧
        (∀ id ∈ ids w, VenueOrder.Keeps (order w id) (order w' id)) ∧
        (order w' raw.orderId).symbol = s ∧ (order w' raw.orderId).side = side ∧
        (order w' raw.orderId).amount = amount ∧ Answers raw (order w' raw.orderId)
  fetched : ∀ {f id s w answer w'}, c.fetchOrder = some f → f id s w = (.ok answer, w') →
    id ∈ ids w' → Answers (answer.getD RawOrder.empty) (order w' id)
  /-- Amounts are only ever rounded down. -/
  floors : ∀ {convert}, c.amountToPrecision = some convert → ∀ {s value q},
    convert s value = .ok q → q ≤ value

namespace Venue

variable {c : ExchangeClient W} (v : Venue c)

/-- The orders of a world are those of another one, some time later. -/
def Evolves (w w' : W) : Prop :=
  v.ids w' = v.ids w ∧ ∀ id ∈ v.ids w, VenueOrder.Keeps (v.order w id) (v.order w' id)

theorem Evolves.refl (w : W) : v.Evolves w w := ⟨rfl, fun _ _ => VenueOrder.Keeps.refl _⟩

variable {v}

theorem Evolves.trans {a b d : W} (h : v.Evolves a b) (h' : v.Evolves b d) : v.Evolves a d :=
  ⟨h'.1.trans h.1, fun id hid => (h.2 id hid).trans (h'.2 id (h.1.symm ▸ hid))⟩

theorem evolves_later {w w' : W} (h : Later c w w') : v.Evolves w w' := by
  induction h with
  | refl => exact Evolves.refl v w
  | tail _ hstep ih => exact ih.trans (v.call hstep)

/-- A final order stays what it is. -/
theorem Evolves.final {w w' : W} (h : v.Evolves w w') {id : OrderId} (hid : id ∈ v.ids w)
    (hf : (v.order w id).final = true) : v.order w' id = v.order w id :=
  (h.2 id hid).final hf

/-- What a heard payload says when its status is final: it holds of the order as it is now. -/
theorem answers_of_heard {w : W} {id : OrderId} {s : Symbol} {raw : RawOrder} {requested : ℚ}
    (h : CcxtExecutor.Heard c w id s raw) (hid : id ∈ v.ids w)
    (hamount : (v.order w id).amount = requested)
    (hs : (resolveStatus raw requested).1 ≠ .pending) : Answers raw (v.order w id) := by
  obtain ⟨f, w₀, answer, w₁, hf, hcall, rfl, hlater⟩ := h
  have hev := evolves_later (v := v) hlater
  have hid₁ : id ∈ v.ids w₁ := hev.1 ▸ hid
  have hanswers := v.fetched hf hcall hid₁
  have hsame : (v.order w₁ id).amount = requested := by
    rw [← (hev.2 id hid₁).amount, hamount]
  rw [← hsame] at hs
  have hfinal := (resolveStatus_answers hanswers (v.within w₁ id hid₁).2 hs).1
  rw [hev.final hid₁ hfinal]
  exact hanswers

/-- The time of a heard payload can be converted, whatever its status. -/
theorem dated_of_heard {w : W} {id : OrderId} {s : Symbol} {raw : RawOrder}
    (h : CcxtExecutor.Heard c w id s raw) (hid : id ∈ v.ids w) : raw.Dated := by
  obtain ⟨f, w₀, answer, w₁, hf, hcall, rfl, hlater⟩ := h
  have hid₁ : id ∈ v.ids w₁ := (evolves_later (v := v) hlater).1 ▸ hid
  exact (v.fetched hf hcall hid₁).dated

/-- Rounding an amount only takes from it. -/
theorem toAmount_le (v : Venue c) (e : CcxtExecutor W) (s : Symbol) {q : ℚ} (hq : 0 ≤ q) :
    e.toAmount c s q ≤ q := by
  unfold CcxtExecutor.toAmount
  split
  · rename_i convert _ hc
    cases hx : convert s q with
    | error err => exact hq
    | ok x => exact v.floors hc hx
  · exact le_rfl

end Venue

/-! ## A venue that fills at once -/

/-- A trade at the instant venue. -/
structure Trade where
  symbol : Symbol
  side : OrderSide
  amount : ℚ
  price : ℚ
  amount_pos : 0 < amount
  price_pos : 0 < price

namespace InstantVenue

/-- The id of the trade at a position. -/
def tradeId (n : ℕ) : OrderId := String.ofList (List.replicate (n + 1) '#')

theorem tradeId_length (n : ℕ) : (tradeId n).toList.length = n + 1 := by
  rw [tradeId, String.toList_ofList, List.length_replicate]

theorem tradeId_inj {m n : ℕ} (h : tradeId m = tradeId n) : m = n := by
  have hlength := tradeId_length m
  rw [h, tradeId_length] at hlength
  omega

theorem tradeId_ne (n : ℕ) : tradeId n ≠ "" := by
  intro he
  have hlength := tradeId_length n
  rw [he] at hlength
  cases hlength

/-- The trade under an id. -/
def tradeOf (w : List Trade) (id : OrderId) : Option Trade := w[id.toList.length - 1]?

def ids (w : List Trade) : Finset OrderId := (Finset.range w.length).image tradeId

/-- A trade as an order that is filled. -/
def orderOf : Option Trade → VenueOrder
  | some t => ⟨t.symbol, t.side, t.amount, t.amount, true⟩
  | none => ⟨"", .buy, 0, 0, true⟩

/-- What the venue tells about a trade. -/
def payload (id : OrderId) (t : Trade) : RawOrder :=
  { RawOrder.empty with
    id := some id
    status := some "closed"
    filled := some t.amount
    average := some t.price }

/-- An order trades at its limit, or at one. -/
def trade (s : Symbol) (side : OrderSide) (amount : ℚ) (limit : Option ℚ) : Option Trade :=
  let price := limit.getD 1
  if h : 0 < amount ∧ 0 < price then some ⟨s, side, amount, price, h.1, h.2⟩ else none

/-- The client of the venue. Its world is the list of trades. -/
def client : ExchangeClient (List Trade) where
  createOrder s _ side amount limit w :=
    match trade s side amount limit with
    | some t => (.ok (some (payload (tradeId w.length) t)), w ++ [t])
    | none => (.error (.raised "invalid order"), w)
  fetchOrder := some fun id _ w =>
    (match tradeOf w id with
      | some t => .ok (some (payload id t))
      | none => .error (.raised "unknown order"), w)
  cancelOrder _ _ w := (.error (.raised "filled"), w)
  fetchBalance w := (.ok none, w)
  fetchFreeBalance w := (.ok (some (.amount 1000)), w)
  markets _ := none
  loadMarkets := none
  amountToPrecision := some fun _ q => .ok ⌊q⌋
  priceToPrecision := none
  createAlgo _ _ _ _ _ _ w := (.error (.raised "unsupported"), w)
  fetchAlgo _ _ w := (.error (.raised "unsupported"), w)
  cancelAlgo _ _ w := (.error (.raised "unsupported"), w)
  fetchOpenAlgos _ _ w := (.ok [], w)
  fetchClosedAlgos _ _ _ w := (.ok [], w)

theorem answers_payload (id : OrderId) (t : Trade) : Answers (payload id t) (orderOf (some t)) where
  filled q hq := by
    cases hq
    rfl
  amount q hq := by cases hq
  final text _ _ := rfl
  silent text ht _ hne _ := by
    cases ht
    exact absurd (by decide) hne
  price _ _ := ⟨t.price, by simp [payload, RawOrder.fillPrice, pyOr, t.price_pos.ne'], t.price_pos⟩
  dated ms h := by cases h

theorem tradeOf_append (w : List Trade) (t : Trade) {id : OrderId} (h : id ∈ ids w) :
    tradeOf (w ++ [t]) id = tradeOf w id := by
  obtain ⟨n, hn, rfl⟩ := Finset.mem_image.mp h
  have hlt : n < w.length := Finset.mem_range.mp hn
  unfold tradeOf
  rw [tradeId_length, Nat.add_sub_cancel, List.getElem?_append_left hlt]

theorem tradeOf_last (w : List Trade) (t : Trade) :
    tradeOf (w ++ [t]) (tradeId w.length) = some t := by
  unfold tradeOf
  rw [tradeId_length, Nat.add_sub_cancel, List.getElem?_concat_length]

theorem ids_append (w : List Trade) (t : Trade) :
    ids (w ++ [t]) = insert (tradeId w.length) (ids w) := by
  unfold ids
  rw [List.length_append, List.length_singleton, Finset.range_add_one, Finset.image_insert]

theorem trade_spec {s : Symbol} {side : OrderSide} {amount : ℚ} {limit : Option ℚ} {t : Trade}
    (h : trade s side amount limit = some t) :
    t.symbol = s ∧ t.side = side ∧ t.amount = amount := by
  unfold trade at h
  dsimp only at h
  split_ifs at h
  cases h
  exact ⟨rfl, rfl, rfl⟩

/-- The venue keeps its promises. -/
def venue : Venue client where
  ids := ids
  order w id := orderOf (tradeOf w id)
  within w id _ := by
    cases tradeOf w id with
    | none => exact ⟨le_rfl, le_rfl⟩
    | some t => exact ⟨t.amount_pos.le, le_rfl⟩
  call {w w'} h := by
    have hsame : w' = w := by
      cases h with
      | fetchOrder hf => cases hf; rfl
      | loadMarkets hf => cases hf
      | _ => rfl
    rw [hsame]
    exact ⟨rfl, fun id _ => VenueOrder.Keeps.refl _⟩
  refused {s t side amount limit w err w'} h := by
    change (match trade s side amount limit with
      | some t => _
      | none => _) = _ at h
    split at h
    · cases h
    · cases h
      exact ⟨rfl, fun id _ => VenueOrder.Keeps.refl _⟩
  created {s t side amount limit w answer w'} h := by
    change (match trade s side amount limit with
      | some t => _
      | none => _) = _ at h
    split at h
    · rename_i tr htrade
      cases h
      obtain ⟨h1, h2, h3⟩ := trade_spec htrade
      have hne := tradeId_ne w.length
      have hid : (payload (tradeId w.length) tr).orderId = tradeId w.length := by
        simp [payload, RawOrder.orderId, orText, hne]
      simp only [Option.getD_some, hid, tradeOf_last]
      refine ⟨hne, fun hmem => ?_, ids_append w tr, fun id hmem => ?_, h1, h2, h3,
        answers_payload _ tr⟩
      · obtain ⟨n, hn, he⟩ := Finset.mem_image.mp hmem
        have := tradeId_inj he
        rw [Finset.mem_range] at hn
        omega
      · rw [tradeOf_append w tr hmem]
        exact VenueOrder.Keeps.refl _
    · cases h
  fetched {f id s w answer w'} hf h _ := by
    cases hf
    obtain ⟨h1, rfl⟩ := Prod.mk.inj h
    cases ht : tradeOf w id with
    | none =>
        rw [ht] at h1
        cases h1
    | some tr =>
        rw [ht] at h1
        cases h1
        exact answers_payload id tr
  floors {convert} hc {s value q} h := by
    cases hc
    cases h
    exact Int.floor_le value

end InstantVenue

end SmartyTrader
