import SmartyTrader.Agents.BaseAgent
import SmartyTrader.Execution.PaperPipeline
import SmartyTrader.Execution.SaxoExecutor
import SmartyTrader.Execution.ScriptedVenue

set_option autoImplicit false

/-! # Every order has its row

Order ids are unique in the order table. An order that a venue acknowledged has the venue's id,
and an order that was never sent gets one from its executor. The paper executor and the ccxt
executor make it from the first twelve digits of a random identifier; the Saxo executor gives
every refused order the empty id, so only the first one of them is stored.

For any executor every result is stored exactly if the ids that it makes itself are different
(`allStored_iff`).
-/

namespace SmartyTrader

open Lib

/-! ## Where order ids come from -/

/-- The placements of an executor: the id a venue answers in one, if one was sent, and the id of
an order that was not. -/
structure OrderSource (σ : Type) where
  place : σ → OrderRequest → Stamp → Except PyError OrderResult × σ
  venueId : σ → OrderRequest → Stamp → Option OrderId
  localId : Stamp → OrderId
  orderId_eq : ∀ s req stamp r, (place s req stamp).1 = .ok r →
    r.orderId = (venueId s req stamp).getD (localId stamp)

/-! ## Runs -/

/-- What happens to the executor and the order table. -/
inductive StorageEvent (σ : Type) where
  /-- A placement whose result `_persist_order` stores. -/
  | place (req : OrderRequest) (stamp : Stamp) (decisionId : Option DecisionId)
      (strategy : Option String)
  /-- Any other change of the executor. -/
  | move (f : σ → σ)
  /-- A patch of the reconciliation. -/
  | patch (orderId : OrderId) (patch : OrderPatch)
  /-- A row that the reconciliation stores for an order without one. -/
  | child (row : OrderRow)

/-- The executor and the table, with the results returned so far and those whose row was
written. -/
structure StoredRun (σ : Type) where
  executor : σ
  table : OrderTable
  returned : List OrderResult
  persisted : List OrderResult

namespace StoredRun

variable {σ : Type}

def start (s : σ) : StoredRun σ := ⟨s, [], [], []⟩

/-- `_persist_order` on a healthy database: the write fails only where the id is taken, and so
do its retries. -/
def persist (r : OrderResult) (row : OrderRow) (s : σ) (st : StoredRun σ) : StoredRun σ :=
  match OrderTable.saveOrder st.table row with
  | .ok table => ⟨s, table, st.returned ++ [r], st.persisted ++ [r]⟩
  | .error _ => ⟨s, st.table, st.returned ++ [r], st.persisted⟩

def step (src : OrderSource σ) (event : StorageEvent σ) (st : StoredRun σ) : StoredRun σ :=
  match event with
  | .place req stamp decisionId strategy =>
      match src.place st.executor req stamp with
      | (.error _, s) => { st with executor := s }
      | (.ok r, s) => persist r (BaseAgent.rowOf r decisionId strategy stamp.now) s st
  | .move f => { st with executor := f st.executor }
  | .patch orderId patch =>
      { st with table := (OrderTable.updateOrderStatus st.table orderId patch).2 }
  | .child row =>
      match OrderTable.saveOrder st.table row with
      | .ok table => { st with table := table }
      | .error _ => st

/-- The results have different ids, each was stored, and a patch of its id changes its row and
no other. -/
structure AllStored (st : StoredRun σ) : Prop where
  distinct : (st.returned.map OrderResult.orderId).Nodup
  stored : st.persisted = st.returned
  own : ∀ r ∈ st.returned, ∃ older row newer, st.table = older ++ row :: newer ∧
    row.orderId = r.orderId ∧ row.symbol = r.symbol ∧ row.side = r.side ∧
    ∀ patch, (OrderTable.updateOrderStatus st.table r.orderId patch).2
      = older ++ patch.write row :: newer

end StoredRun

section Ids

variable {σ : Type} (src : OrderSource σ)

/-- The ids that are written, in order: those of the results, and those of the other rows. -/
def writtenIds : List (StorageEvent σ) → σ → List OrderId
  | [], _ => []
  | .place req stamp _ _ :: rest, s =>
      match src.place s req stamp with
      | (.error _, s) => writtenIds rest s
      | (.ok r, s) => r.orderId :: writtenIds rest s
  | .move f :: rest, s => writtenIds rest (f s)
  | .patch _ _ :: rest, s => writtenIds rest s
  | .child row :: rest, s => row.orderId :: writtenIds rest s

/-- The ids that come from the venue. -/
def venueIds : List (StorageEvent σ) → σ → List OrderId
  | [], _ => []
  | .place req stamp _ _ :: rest, s =>
      match src.place s req stamp with
      | (.error _, s) => venueIds rest s
      | (.ok _, s') => (src.venueId s req stamp).toList ++ venueIds rest s'
  | .move f :: rest, s => venueIds rest (f s)
  | .patch _ _ :: rest, s => venueIds rest s
  | .child row :: rest, s => row.orderId :: venueIds rest s

/-- The stamps of the results that were never sent. -/
def unsent : List (StorageEvent σ) → σ → List Stamp
  | [], _ => []
  | .place req stamp _ _ :: rest, s =>
      match src.place s req stamp with
      | (.error _, s) => unsent rest s
      | (.ok _, s') =>
          if (src.venueId s req stamp).isSome then unsent rest s' else stamp :: unsent rest s'
  | .move f :: rest, s => unsent rest (f s)
  | .patch _ _ :: rest, s => unsent rest s
  | .child _ :: rest, s => unsent rest s

/-- The random identifiers drawn by the placements of a run. -/
def uuids : List (StorageEvent σ) → List String
  | [] => []
  | .place _ stamp _ _ :: rest => stamp.uuid :: uuids rest
  | .move _ :: rest => uuids rest
  | .patch _ _ :: rest => uuids rest
  | .child _ :: rest => uuids rest

/-- What the world promises a run: the venue's ids are different, not empty and none of the
executor's own. -/
structure Promised (events : List (StorageEvent σ)) (s : σ) : Prop where
  venue : (venueIds src events s).Nodup
  nonempty : ∀ id ∈ venueIds src events s, id ≠ ""
  foreign : ∀ id ∈ venueIds src events s, id ∉ (unsent src events s).map src.localId

variable {src}

theorem unsent_place_ok {s s' : σ} {req : OrderRequest} {stamp : Stamp} {r : OrderResult}
    (decisionId : Option DecisionId) (strategy : Option String) (rest : List (StorageEvent σ))
    (h : src.place s req stamp = (.ok r, s')) :
    unsent src (.place req stamp decisionId strategy :: rest) s
      = if (src.venueId s req stamp).isSome then unsent src rest s'
        else stamp :: unsent src rest s' := by
  simp only [unsent, h]

/-- The ids written are those of the venue and those of the orders that were never sent. -/
theorem writtenIds_perm (events : List (StorageEvent σ)) (s : σ) :
    (writtenIds src events s).Perm
      ((unsent src events s).map src.localId ++ venueIds src events s) := by
  induction events generalizing s with
  | nil => exact List.Perm.refl _
  | cons event rest ih =>
      cases event with
      | place req stamp decisionId strategy =>
          unfold writtenIds unsent venueIds
          cases hplace : src.place s req stamp with
          | mk answer s' =>
              cases answer with
              | error err => exact ih s'
              | ok r =>
                  have hid := src.orderId_eq s req stamp r (by rw [hplace])
                  dsimp only
                  rw [hid]
                  cases src.venueId s req stamp with
                  | none => exact (ih s').cons _
                  | some id => exact ((ih s').cons id).trans List.perm_middle.symm
      | move f => exact ih (f s)
      | patch orderId patch => exact ih s
      | child row => exact ((ih s).cons row.orderId).trans List.perm_middle.symm

/-- Promised ids are different if those of the executor are. -/
theorem nodup_writtenIds {events : List (StorageEvent σ)} {s : σ} (h : Promised src events s)
    (hlocal : ((unsent src events s).map src.localId).Nodup) : (writtenIds src events s).Nodup := by
  rw [(writtenIds_perm events s).nodup_iff, List.nodup_append]
  refine ⟨hlocal, h.venue, ?_⟩
  rintro id hid other hother rfl
  exact h.foreign id hother hid

end Ids

/-! ## Fresh ids are stored -/

namespace StoredRun

variable {σ : Type}

/-- Every result so far has its row. -/
structure Kept (st : StoredRun σ) : Prop where
  distinct : (st.returned.map OrderResult.orderId).Nodup
  stored : st.persisted = st.returned
  row : ∀ r ∈ st.returned, ∃ row ∈ st.table,
    row.orderId = r.orderId ∧ row.symbol = r.symbol ∧ row.side = r.side

theorem kept_start (s : σ) : (start s).Kept where
  distinct := List.nodup_nil
  stored := rfl
  row := by
    intro r hr
    cases hr

theorem Kept.allStored {st : StoredRun σ} (h : st.Kept)
    (ht : (st.table.map OrderRow.orderId).Nodup) : st.AllStored where
  distinct := h.distinct
  stored := h.stored
  own := by
    intro r hr
    obtain ⟨row, hrow, hid, hsymbol, hside⟩ := h.row r hr
    obtain ⟨older, newer, hsplit⟩ := List.append_of_mem hrow
    refine ⟨older, row, newer, hsplit, hid, hsymbol, hside, ?_⟩
    intro patch
    rw [hsplit] at ht ⊢
    rw [← hid]
    exact updateOrderStatus_split patch ht

/-- A result with a new id gets its row. -/
theorem kept_persist {st : StoredRun σ} (h : st.Kept) {r : OrderResult} {row : OrderRow} (s : σ)
    (hid : row.orderId = r.orderId) (hsymbol : row.symbol = r.symbol) (hside : row.side = r.side)
    (hnew : r.orderId ∉ st.table.map OrderRow.orderId) :
    (st.persist r row s).Kept ∧ (st.persist r row s).table = st.table ++ [row] := by
  unfold persist
  rw [saveOrder_of_fresh (hid ▸ hnew)]
  refine ⟨⟨?_, ?_, ?_⟩, rfl⟩
  · rw [List.map_append, List.map_singleton]
    refine List.nodup_append.mpr ⟨h.distinct, List.nodup_singleton _, ?_⟩
    rintro id hmem other hother rfl
    obtain rfl := List.mem_singleton.mp hother
    -- A result with this id would have a row with it.
    obtain ⟨old, hold, heq⟩ := List.mem_map.mp hmem
    obtain ⟨oldRow, holdRow, hrowId, -⟩ := h.row old hold
    rw [← heq, ← hrowId] at hnew
    exact hnew (List.mem_map_of_mem holdRow)
  · rw [h.stored]
  · intro other hother
    rcases List.mem_append.mp hother with hold | hlast
    · obtain ⟨oldRow, hmem, hrest⟩ := h.row other hold
      exact ⟨oldRow, List.mem_append_left _ hmem, hrest⟩
    · obtain rfl := List.mem_singleton.mp hlast
      exact ⟨row, List.mem_append_right _ (List.mem_singleton_self row), hid, hsymbol, hside⟩

theorem kept_patch {st : StoredRun σ} (h : st.Kept) (orderId : OrderId) (patch : OrderPatch) :
    Kept { st with table := (OrderTable.updateOrderStatus st.table orderId patch).2 } where
  distinct := h.distinct
  stored := h.stored
  row := by
    intro r hr
    obtain ⟨row, hrow, hid, hsymbol, hside⟩ := h.row r hr
    refine ⟨if row.orderId = orderId then patch.write row else row,
      List.mem_map_of_mem hrow, ?_⟩
    split_ifs
    · exact ⟨hid, hsymbol, hside⟩
    · exact ⟨hid, hsymbol, hside⟩

theorem step_place_error (src : OrderSource σ) {st : StoredRun σ} {req : OrderRequest}
    {stamp : Stamp} {err : PyError} {s : σ} (decisionId : Option DecisionId)
    (strategy : Option String) (h : src.place st.executor req stamp = (.error err, s)) :
    step src (.place req stamp decisionId strategy) st = { st with executor := s } := by
  simp only [step, h]

theorem step_place_ok (src : OrderSource σ) {st : StoredRun σ} {req : OrderRequest}
    {stamp : Stamp} {r : OrderResult} {s : σ} (decisionId : Option DecisionId)
    (strategy : Option String) (h : src.place st.executor req stamp = (.ok r, s)) :
    step src (.place req stamp decisionId strategy) st
      = st.persist r (BaseAgent.rowOf r decisionId strategy stamp.now) s := by
  simp only [step, h]

theorem step_child (src : OrderSource σ) {st : StoredRun σ} {row : OrderRow}
    (hnew : row.orderId ∉ st.table.map OrderRow.orderId) :
    step src (.child row) st = { st with table := st.table ++ [row] } := by
  simp only [step, saveOrder_of_fresh hnew]

theorem persist_executor (r : OrderResult) (row : OrderRow) (s : σ) (st : StoredRun σ) :
    (st.persist r row s).executor = s := by
  unfold persist
  split <;> rfl

theorem rowId_rowOf (r : OrderResult) (decisionId : Option DecisionId) (strategy : Option String)
    (now : Time) : (BaseAgent.rowOf r decisionId strategy now).orderId = r.orderId := rfl

/-- A run that writes new ids only stores every result. -/
theorem allStored_run (src : OrderSource σ) (events : List (StorageEvent σ)) {st : StoredRun σ}
    (h : st.Kept)
    (hfresh : (st.table.map OrderRow.orderId ++ writtenIds src events st.executor).Nodup) :
    (Lib.run (step src) events st).AllStored := by
  induction events generalizing st with
  | nil =>
      rw [writtenIds, List.append_nil] at hfresh
      exact h.allStored hfresh
  | cons event rest ih =>
      rw [run_cons]
      cases event with
      | place req stamp decisionId strategy =>
          unfold writtenIds at hfresh
          cases hplace : src.place st.executor req stamp with
          | mk answer s =>
              cases answer with
              | error err =>
                  rw [hplace] at hfresh
                  rw [step_place_error src decisionId strategy hplace]
                  exact ih ⟨h.distinct, h.stored, h.row⟩ hfresh
              | ok r =>
                  rw [hplace] at hfresh
                  dsimp only at hfresh
                  have hnew : r.orderId ∉ st.table.map OrderRow.orderId := by
                    intro hmem
                    exact (List.nodup_append.mp hfresh).2.2 _ hmem _ List.mem_cons_self rfl
                  obtain ⟨hkept, htable⟩ := kept_persist h s
                    (rowId_rowOf r decisionId strategy stamp.now) rfl rfl hnew
                  rw [step_place_ok src decisionId strategy hplace]
                  refine ih hkept ?_
                  rw [htable, persist_executor, List.map_append, List.append_assoc]
                  exact hfresh
      | move f => exact ih ⟨h.distinct, h.stored, h.row⟩ hfresh
      | patch orderId patch =>
          refine ih (kept_patch h orderId patch) ?_
          dsimp only [step]
          rw [map_orderId_updateOrderStatus]
          exact hfresh
      | child row =>
          have hnew : row.orderId ∉ st.table.map OrderRow.orderId := by
            intro hmem
            exact (List.nodup_append.mp hfresh).2.2 _ hmem _ List.mem_cons_self rfl
          rw [step_child src hnew]
          refine ih ⟨h.distinct, h.stored, ?_⟩ ?_
          · intro r hr
            obtain ⟨old, hold, hrest⟩ := h.row r hr
            exact ⟨old, List.mem_append_left _ hold, hrest⟩
          · dsimp only
            rw [List.map_append, List.append_assoc]
            exact hfresh

end StoredRun

/-! ## The three executors -/

def paperSource : OrderSource PaperExecutor where
  place e req stamp := e.placeOrder req ("paper-" ++ stamp.shortId) stamp.now
  venueId _ _ _ := none
  localId stamp := "paper-" ++ stamp.shortId
  orderId_eq _ _ _ _ h := PaperExecutor.orderId_placeOrder h

/-- The id that the venue answers in a placement, if one is sent and accepted. -/
def CcxtExecutor.answeredId {W : Type} (c : ExchangeClient W) (e : CcxtExecutor W)
    (req : OrderRequest) (stamp : Stamp) : Option OrderId :=
  let e := e.ensureMarkets c
  let e := if req.side = .sell then withdrawProtection c req.symbol stamp.now e else e
  match e.sendableAmount c req with
  | .error _ => none
  | .ok amount =>
      let terms := e.orderTerms c req.symbol req.side req.price
      match c.createOrder req.symbol terms.1 req.side amount terms.2 e.world with
      | (.error _, _) => none
      | (.ok raw, _) => some (raw.getD RawOrder.empty).orderId

theorem CcxtExecutor.orderId_acceptAnswer {W : Type} (c : ExchangeClient W) (e : CcxtExecutor W)
    (req : OrderRequest) (amount : ℚ) (limit : Option ℚ) (raw : RawOrder) (now : Time) :
    (e.acceptAnswer c req amount limit raw now).1.orderId = raw.orderId := by
  unfold acceptAnswer closePlacement
  dsimp only
  split
  · rfl
  · split_ifs <;> rfl
  · rfl

theorem CcxtExecutor.orderId_placeOrder {W : Type} {c : ExchangeClient W} {e : CcxtExecutor W}
    {req : OrderRequest} {stamp : Stamp} {r : OrderResult}
    (h : (e.placeOrder c req stamp).1 = .ok r) :
    r.orderId = (e.answeredId c req stamp).getD ("rejected-" ++ stamp.shortId) := by
  unfold placeOrder at h
  unfold answeredId
  dsimp only at h ⊢
  generalize (if req.side = .sell then
      withdrawProtection c req.symbol stamp.now (e.ensureMarkets c) else e.ensureMarkets c)
    = e₁ at h ⊢
  cases hs : e₁.sendableAmount c req with
  | error reason =>
      rw [hs] at h
      obtain rfl := Except.ok.inj h
      rfl
  | ok amount =>
      rw [hs] at h
      dsimp only at h ⊢
      cases hc : c.createOrder req.symbol (e₁.orderTerms c req.symbol req.side req.price).1 req.side
          amount (e₁.orderTerms c req.symbol req.side req.price).2 e₁.world with
      | mk answer w =>
          rw [hc] at h
          cases answer with
          | error err => cases h
          | ok raw =>
              obtain rfl := Except.ok.inj h
              exact orderId_acceptAnswer c _ req amount _ _ stamp.now

def ccxtSource {W : Type} (c : ExchangeClient W) : OrderSource (CcxtExecutor W) where
  place e req stamp := e.placeOrder c req stamp
  venueId e req stamp := e.answeredId c req stamp
  localId stamp := "rejected-" ++ stamp.shortId
  orderId_eq _ _ _ _ h := CcxtExecutor.orderId_placeOrder h

/-- The order is refused before it is sent: nothing is tracked to sell, the amount rounds to
zero, or the instrument trades in another currency. -/
def SaxoExecutor.refused {W : Type} (c : SaxoClient W) (e : SaxoExecutor W)
    (req : OrderRequest) : Bool :=
  match e.cappedQuantity req with
  | .error _ => true
  | .ok quantity =>
      if e.floorAmount quantity ≤ 0 then true
      else
        match e.getAccount c with
        | (.error _, _) => false
        | (.ok account, e) =>
            match e.instrument c req.symbol with
            | (.error _, _) => false
            | (.ok instrument, _) =>
                account.currency ≠ "" ∧ instrument.currency ≠ ""
                  ∧ account.currency ≠ instrument.currency

/-- The id that the venue answers in a placement, if one is sent and accepted. -/
def SaxoExecutor.answeredId {W : Type} (c : SaxoClient W) (e : SaxoExecutor W)
    (req : OrderRequest) : Option OrderId :=
  match e.cappedQuantity req with
  | .error _ => none
  | .ok quantity =>
      let amount := e.floorAmount quantity
      if amount ≤ 0 then none
      else
        match e.getAccount c with
        | (.error _, _) => none
        | (.ok account, e) =>
            match e.instrument c req.symbol with
            | (.error _, _) => none
            | (.ok instrument, e) =>
                if account.currency ≠ "" ∧ instrument.currency ≠ ""
                    ∧ account.currency ≠ instrument.currency then none
                else
                  match c.placeMarketOrder account.key instrument.uic req.side amount
                    e.config.assetType e.world with
                  | (.error _, _) => none
                  | (.ok orderId, _) => some orderId

theorem SaxoExecutor.orderId_acceptOrder {W : Type} (c : SaxoClient W) (e : SaxoExecutor W)
    (req : OrderRequest) (amount : ℚ) (orderId : OrderId) (now : Time) :
    (e.acceptOrder c req amount orderId now).1.orderId = orderId := by
  unfold acceptOrder
  dsimp only
  split
  · split <;> rfl
  · rfl
  · rfl

/-- A refused order has the empty id, and any other result has the venue's. -/
theorem SaxoExecutor.placeOrder_cases {W : Type} (c : SaxoClient W) (e : SaxoExecutor W)
    (req : OrderRequest) (stamp : Stamp) :
    (e.refused c req = true ∧ e.answeredId c req = none ∧
        ∃ r, (e.placeOrder c req stamp).1 = .ok r ∧ r.orderId = "") ∨
      (e.refused c req = false ∧
        ∀ r, (e.placeOrder c req stamp).1 = .ok r → e.answeredId c req = some r.orderId) := by
  unfold placeOrder refused answeredId
  cases hq : e.cappedQuantity req with
  | error reason => exact Or.inl ⟨rfl, rfl, _, rfl, rfl⟩
  | ok quantity =>
      dsimp only
      by_cases hamount : e.floorAmount quantity ≤ 0
      · rw [if_pos hamount, if_pos hamount, if_pos hamount]
        exact Or.inl ⟨rfl, rfl, _, rfl, rfl⟩
      · rw [if_neg hamount, if_neg hamount, if_neg hamount]
        rcases hacc : e.getAccount c with ⟨_ | account, e₁⟩
        · exact Or.inr ⟨rfl, fun r h => by cases h⟩
        · dsimp only
          rcases hinst : e₁.instrument c req.symbol with ⟨_ | instrument, e₂⟩
          · exact Or.inr ⟨rfl, fun r h => by cases h⟩
          · dsimp only
            by_cases hcur : account.currency ≠ "" ∧ instrument.currency ≠ ""
                ∧ account.currency ≠ instrument.currency
            · rw [if_pos hcur, if_pos hcur]
              exact Or.inl ⟨decide_eq_true hcur, rfl, _, rfl, rfl⟩
            · rw [if_neg hcur, if_neg hcur]
              refine Or.inr ⟨decide_eq_false hcur, ?_⟩
              rcases c.placeMarketOrder account.key instrument.uic req.side
                (e.floorAmount quantity) e₂.config.assetType e₂.world with ⟨_ | orderId, w⟩
              · intro r h
                cases h
              · intro r h
                obtain rfl := Except.ok.inj h
                rw [orderId_acceptOrder]

def saxoSource {W : Type} (c : SaxoClient W) : OrderSource (SaxoExecutor W) where
  place e req stamp := e.placeOrder c req stamp
  venueId e req _ := e.answeredId c req
  localId _ := ""
  orderId_eq e req stamp r h := by
    rcases SaxoExecutor.placeOrder_cases c e req stamp with ⟨-, hnone, r', hr', hid⟩ | ⟨-, hsome⟩
    · obtain rfl := Except.ok.inj (hr'.symm.trans h)
      rw [hnone, hid]
      rfl
    · rw [hsome r h]
      rfl

/-! ## Refusals of the Saxo executor -/

/-- How many placements of a run are refused before they are sent. -/
def SaxoExecutor.refusals {W : Type} (c : SaxoClient W) :
    List (StorageEvent (SaxoExecutor W)) → SaxoExecutor W → ℕ
  | [], _ => 0
  | .place req stamp _ _ :: rest, e =>
      (e.refused c req).toNat + refusals c rest (e.placeOrder c req stamp).2
  | .move f :: rest, e => refusals c rest (f e)
  | .patch _ _ :: rest, e => refusals c rest e
  | .child _ :: rest, e => refusals c rest e

theorem SaxoExecutor.length_unsent {W : Type} (c : SaxoClient W)
    (events : List (StorageEvent (SaxoExecutor W))) (e : SaxoExecutor W) :
    (unsent (saxoSource c) events e).length = refusals c events e := by
  induction events generalizing e with
  | nil => rfl
  | cons event rest ih =>
      cases event with
      | place req stamp decisionId strategy =>
          rw [refusals]
          rcases hplace : e.placeOrder c req stamp with ⟨_ | r, e'⟩
          · -- A refused order has a result, so this one was not refused.
            rcases placeOrder_cases c e req stamp with ⟨-, -, r, hr, -⟩ | ⟨hrefused, -⟩
            · rw [hplace] at hr
              cases hr
            · rw [hrefused, Bool.toNat_false, Nat.zero_add, ← ih e']
              simp only [unsent, saxoSource, hplace]
          · rw [unsent_place_ok decisionId strategy rest hplace]
            rcases placeOrder_cases c e req stamp with ⟨hrefused, hnone, -⟩ | ⟨hrefused, hsome⟩
            · have hid : (saxoSource c).venueId e req stamp = none := hnone
              rw [hid, hrefused, Bool.toNat_true, Nat.add_comm]
              exact congrArg Nat.succ (ih e')
            · have hid : (saxoSource c).venueId e req stamp = some r.orderId :=
                hsome r (by rw [hplace])
              rw [hid, hrefused, Bool.toNat_false, Nat.zero_add]
              exact ih e'
      | move f => exact ih (f e)
      | patch orderId patch => exact ih e
      | child row => exact ih e

/-! ## Every result is stored -/

theorem StoredRun.persist_returned {σ : Type} (r : OrderResult) (row : OrderRow) (s : σ)
    (st : StoredRun σ) : (st.persist r row s).returned = st.returned ++ [r] := by
  unfold persist
  split <;> rfl

/-- An order that was never sent has a result, with the id that its executor made. -/
theorem unsent_returned {σ : Type} (src : OrderSource σ) (events : List (StorageEvent σ))
    (st : StoredRun σ) :
    (st.returned.map OrderResult.orderId ++
        (unsent src events st.executor).map src.localId).Sublist
      ((Lib.run (StoredRun.step src) events st).returned.map OrderResult.orderId) := by
  induction events generalizing st with
  | nil => simp [unsent]
  | cons event rest ih =>
      rw [run_cons]
      refine List.Sublist.trans ?_ (ih (StoredRun.step src event st))
      cases event with
      | place req stamp decisionId strategy =>
          rcases hplace : src.place st.executor req stamp with ⟨_ | r, s⟩
          · rw [StoredRun.step_place_error src decisionId strategy hplace]
            simp only [unsent, hplace]
            exact List.Sublist.refl _
          · have hid := src.orderId_eq st.executor req stamp r (by rw [hplace])
            rw [StoredRun.step_place_ok src decisionId strategy hplace,
              StoredRun.persist_returned, StoredRun.persist_executor,
              unsent_place_ok decisionId strategy rest hplace, List.map_append, List.append_assoc]
            refine List.Sublist.append_left ?_ _
            cases hvenue : src.venueId st.executor req stamp with
            | none =>
                rw [hvenue] at hid
                simp [hid]
            | some id => simp
      | move f => exact List.Sublist.refl _
      | patch orderId patch => exact List.Sublist.refl _
      | child row =>
          have hkeep : (StoredRun.step src (.child row) st).returned = st.returned ∧
              (StoredRun.step src (.child row) st).executor = st.executor := by
            unfold StoredRun.step
            dsimp only
            split <;> exact ⟨rfl, rfl⟩
          rw [hkeep.1, hkeep.2]
          exact List.Sublist.refl _

/-- **Every result is stored** exactly if the ids that the executor makes itself are different. -/
theorem allStored_iff {σ : Type} {src : OrderSource σ} {events : List (StorageEvent σ)} {s : σ}
    (h : Promised src events s) :
    (Lib.run (StoredRun.step src) events (StoredRun.start s)).AllStored ↔
      ((unsent src events s).map src.localId).Nodup := by
  constructor
  · intro hstored
    have hsub := unsent_returned src events (StoredRun.start s)
    exact ((List.sublist_append_right _ _).trans hsub).nodup hstored.distinct
  · intro hlocal
    exact StoredRun.allStored_run src events (StoredRun.kept_start s) (nodup_writtenIds h hlocal)

/-- Ids made from a random identifier are different if its first digits are. -/
theorem nodup_marked (mark : String) (stamps : List Stamp) :
    (stamps.map fun stamp => mark ++ stamp.shortId).Nodup ↔
      (stamps.map Stamp.shortId).Nodup := by
  have hmap : stamps.map (fun stamp => mark ++ stamp.shortId)
      = (stamps.map Stamp.shortId).map (mark ++ ·) := by
    rw [List.map_map]
    rfl
  rw [hmap]
  refine List.nodup_map_iff ?_
  intro x y heq
  exact (String.append_right_inj mark).mp heq

/-- **Where every result is stored.** The paper executor and the ccxt executor return results that
are all stored if and only if the random identifiers of the orders that were never sent differ in
their first twelve digits; the Saxo executor does if and only if it refuses at most one order. -/
theorem every_order_stored {W V : Type} (c : ExchangeClient W) (d : SaxoClient V)
    (e : PaperExecutor) (paperEvents : List (StorageEvent PaperExecutor))
    (x : CcxtExecutor W) (ccxtEvents : List (StorageEvent (CcxtExecutor W)))
    (y : SaxoExecutor V) (saxoEvents : List (StorageEvent (SaxoExecutor V))) :
    (Promised paperSource paperEvents e →
      ((Lib.run (StoredRun.step paperSource) paperEvents (StoredRun.start e)).AllStored ↔
        ((unsent paperSource paperEvents e).map Stamp.shortId).Nodup)) ∧
    (Promised (ccxtSource c) ccxtEvents x →
      ((Lib.run (StoredRun.step (ccxtSource c)) ccxtEvents (StoredRun.start x)).AllStored ↔
        ((unsent (ccxtSource c) ccxtEvents x).map Stamp.shortId).Nodup)) ∧
    (Promised (saxoSource d) saxoEvents y →
      ((Lib.run (StoredRun.step (saxoSource d)) saxoEvents (StoredRun.start y)).AllStored ↔
        SaxoExecutor.refusals d saxoEvents y ≤ 1)) := by
  refine ⟨?_, ?_, ?_⟩
  · intro h
    rw [allStored_iff h]
    exact nodup_marked "paper-" _
  · intro h
    rw [allStored_iff h]
    exact nodup_marked "rejected-" _
  · intro h
    rw [allStored_iff h, ← SaxoExecutor.length_unsent]
    -- All the ids that the executor makes are empty, so there may be one of them only.
    match unsent (saxoSource d) saxoEvents y with
    | [] => simp
    | [stamp] => simp
    | first :: second :: rest => simp [saxoSource]

/-- Two paper orders whose identifiers differ in their first digits, and a refusal of the Saxo
executor, are all stored. -/
theorem single_refusal_stored :
    let e := PaperExecutor.create 1000 CostModel.free
    let buy : OrderRequest := ⟨"BTC/EUR", .buy, 1, some 100, none, none, none⟩
    let sell : OrderRequest := ⟨"BTC/EUR", .sell, 1, some 110, none, none, none⟩
    let paperEvents :=
      [StorageEvent.place buy ⟨"0f3a6c55d1e24b10a3f7c2d9e8b60415", 60⟩ none none,
        StorageEvent.place sell ⟨"91bc07f2a4d84e6cb1950e3a7d2f8c66", 90⟩ none none]
    let x := SaxoExecutor.create ([] : AuditLog) ⟨none, none, Dict.empty, "Stock", 0, 1, 1 / 20⟩
    let refused : OrderRequest := ⟨"AAPL", .sell, 3, some 200, none, none, none⟩
    let saxoEvents :=
      [StorageEvent.place refused ⟨"5d0e8b7742c94f0f8e3a1b6c9d2f7a10", 60⟩ none none]
    (Promised paperSource paperEvents e ∧
      (Lib.run (StoredRun.step paperSource) paperEvents (StoredRun.start e)).AllStored) ∧
    Promised (saxoSource AuditLog.client) saxoEvents x ∧
      (Lib.run (StoredRun.step (saxoSource AuditLog.client)) saxoEvents
        (StoredRun.start x)).AllStored := by
  intro e buy sell paperEvents x refused saxoEvents
  have hnoIds : ∀ {σ : Type} {src : OrderSource σ} {events : List (StorageEvent σ)} {s : σ},
      venueIds src events s = [] → Promised src events s := by
    intro σ src events s hvenue
    refine ⟨?_, ?_, ?_⟩ <;> simp [hvenue]
  have hpaper : Promised paperSource paperEvents e := hnoIds (by decide +kernel)
  have hsaxo : Promised (saxoSource AuditLog.client) saxoEvents x := hnoIds (by decide +kernel)
  let y := CcxtExecutor.create Script.empty "USDT" VenueOrderSettings.default
  obtain ⟨hpaperIff, -, hsaxoIff⟩ := every_order_stored Script.client AuditLog.client e paperEvents
    y [] x saxoEvents
  exact ⟨⟨hpaper, (hpaperIff hpaper).mpr (by decide +kernel)⟩, hsaxo,
    (hsaxoIff hsaxo).mpr (by decide +kernel)⟩

/-- Two SELLs of symbols that nothing tracks: the second result has the id of the first, and it
has no row. -/
theorem second_refusal_lost :
    let x := SaxoExecutor.create ([] : AuditLog) ⟨none, none, Dict.empty, "Stock", 0, 1, 1 / 20⟩
    let events :=
      [StorageEvent.place ⟨"AAPL", .sell, 3, some 200, none, none, none⟩ ⟨"0f3a", 60⟩ none none,
        StorageEvent.place ⟨"MSFT", .sell, 1, some 400, none, none, none⟩ ⟨"91bc", 90⟩ none none]
    let after := Lib.run (StoredRun.step (saxoSource AuditLog.client)) events (StoredRun.start x)
    (uuids events).Nodup ∧ venueIds (saxoSource AuditLog.client) events x = [] ∧
      after.returned.map OrderResult.orderId = ["", ""] ∧
      after.table.map OrderRow.symbol = ["AAPL"] ∧ ¬ after.AllStored := by
  intro x events after
  have hids : after.returned.map OrderResult.orderId = ["", ""] := by decide +kernel
  refine ⟨by decide, by decide +kernel, hids, by decide +kernel, ?_⟩
  intro hstored
  have hdistinct := hstored.distinct
  rw [hids] at hdistinct
  revert hdistinct
  decide

end SmartyTrader
