import SmartyTrader.Storage.EventSync

set_option autoImplicit false

/-! # Syncing a calendar feed

A sync makes the stored events of a source inside a window those of a batch. Stored events are
recognised by their key, which is narrower than what a reader sees of an event, so a stored event
that was published again with other fields under the same key stays as it was. The two theorems
say exactly when the sync is the replacement it is meant to be, and when a database step that
raises leaves the table alone.
-/

namespace SmartyTrader

open Lib EventTable

/-- What a reader of the table sees of an event. -/
structure Observed where
  source : String
  kind : EventKind
  minute : ℤ
  title : String
  asset : Option String
  currency : Option String
  importance : EventImportance
  deriving DecidableEq

def MarketEvent.observed (e : MarketEvent) : Observed where
  source := e.source
  kind := e.kind
  minute := minuteOf e.time
  title := e.title
  asset := e.asset
  currency := e.currency
  importance := e.importance

section Digest

variable {κ : Type} [DecidableEq κ] (digest : EventIdentity → κ)

omit [DecidableEq κ] in
/-- Events that look the same have the same key. -/
theorem dedupKey_of_observed {e e' : MarketEvent} (h : e.observed = e'.observed) :
    e.dedupKey digest = e'.dedupKey digest := by
  obtain ⟨hsource, hkind, hminute, htitle, hasset, hcurrency, -⟩ := Observed.mk.inj h
  unfold MarketEvent.dedupKey MarketEvent.identity
  rw [hsource, hkind, hminute, htitle, hasset, hcurrency]

/-! ## The batch by key -/

omit [DecidableEq κ] in
theorem mem_keys {t : EventTable} {k : κ} :
    k ∈ keys digest t ↔ ∃ e ∈ t, e.dedupKey digest = k := List.mem_map

/-- An entry of the batch is one of its events under its key, and every key has an entry. -/
theorem byKey_spec (events : List MarketEvent) :
    (∀ k e, (byKey digest events).get? k = some e → e ∈ events ∧ e.dedupKey digest = k) ∧
      ∀ e ∈ events, ∃ last, (byKey digest events).get? (e.dedupKey digest) = some last := by
  have hfold : ∀ (rest : List MarketEvent) (d : Dict κ MarketEvent),
      (∀ k e, (rest.foldl (fun d e => d.set (e.dedupKey digest) e) d).get? k = some e →
        d.get? k = some e ∨ (e ∈ rest ∧ e.dedupKey digest = k)) ∧
      ∀ k, ((∃ e, d.get? k = some e) ∨ ∃ e ∈ rest, e.dedupKey digest = k) →
        ∃ last, (rest.foldl (fun d e => d.set (e.dedupKey digest) e) d).get? k = some last := by
    intro rest
    induction rest with
    | nil => exact fun d => ⟨fun k e h => Or.inl h, fun k h => h.resolve_right (by simp)⟩
    | cons x rest ih =>
        intro d
        obtain ⟨hmem, hkey⟩ := ih (d.set (x.dedupKey digest) x)
        constructor
        · intro k e h
          rcases hmem k e h with h | ⟨he, hk⟩
          · rw [Dict.get?_set] at h
            split_ifs at h with hx
            · obtain rfl := Option.some.inj h
              exact Or.inr ⟨List.mem_cons_self, hx⟩
            · exact Or.inl h
          · exact Or.inr ⟨List.mem_cons_of_mem _ he, hk⟩
        · intro k h
          refine hkey k ?_
          rw [Dict.get?_set]
          by_cases hx : x.dedupKey digest = k
          · exact Or.inl ⟨x, if_pos hx⟩
          · rw [if_neg hx]
            rcases h with h | ⟨e, he, hk⟩
            · exact Or.inl h
            · rcases List.mem_cons.mp he with rfl | he
              · exact absurd hk hx
              · exact Or.inr ⟨e, he, hk⟩
  obtain ⟨hmem, hkey⟩ := hfold events Dict.empty
  constructor
  · intro k e h
    exact (hmem k e h).resolve_left (by simp)
  · intro e he
    exact hkey _ (Or.inr ⟨e, he, rfl⟩)

theorem mem_unstored {t : EventTable} {events : List MarketEvent} {e : MarketEvent} :
    e ∈ unstored digest t events ↔
      (byKey digest events).get? (e.dedupKey digest) = some e ∧
        e.dedupKey digest ∉ keys digest t := by
  unfold unstored
  simp only [List.mem_map, List.mem_filter, decide_eq_true_eq, Prod.exists, Dict.mem_entries_iff]
  constructor
  · rintro ⟨k, e', ⟨hget, hk⟩, rfl⟩
    obtain ⟨-, rfl⟩ := (byKey_spec digest events).1 k e' hget
    exact ⟨hget, hk⟩
  · rintro ⟨hget, hk⟩
    exact ⟨_, e, ⟨hget, hk⟩, rfl⟩

/-- What is inserted has distinct keys. -/
theorem nodup_keys_unstored (t : EventTable) (events : List MarketEvent) :
    (keys digest (unstored digest t events)).Nodup := by
  have hkeys : keys digest (unstored digest t events)
      = ((byKey digest events).entries.filter (fun entry => entry.1 ∉ keys digest t)).map
        Prod.fst := by
    unfold keys unstored
    rw [List.map_map]
    refine List.map_congr_left fun entry hentry => ?_
    have hget := ((byKey digest events).mem_entries_iff entry.1 entry.2).mp
      (List.mem_of_mem_filter hentry)
    exact ((byKey_spec digest events).1 _ _ hget).2
  rw [hkeys]
  exact (byKey digest events).nodup.sublist (List.filter_sublist.map Prod.fst)

/-! ## The table after a sync -/

variable (t : EventTable) (source : String) (events : List MarketEvent) (w : SyncWindow)

/-- The table after a sync in which no step raises. -/
def synced : EventTable := (syncMarketEvents digest none t source events w).2

theorem synced_eq : synced digest t source events w
    = deleteMoved digest t source events w
      ++ unstored digest (deleteMoved digest t source events w) events := by
  unfold synced syncMarketEvents
  dsimp only
  rw [if_neg (by simp), if_neg (by simp [InsertRaises])]
  rfl

/-- The deletion keeps every row whose key the batch has. -/
theorem mem_keys_deleteMoved {k : κ} (h : k ∈ keys digest events) :
    k ∈ keys digest (deleteMoved digest t source events w) ↔ k ∈ keys digest t := by
  simp only [mem_keys, deleteMoved, List.mem_filter, decide_eq_true_eq]
  constructor
  · rintro ⟨e, ⟨he, -⟩, hk⟩
    exact ⟨e, he, hk⟩
  · rintro ⟨e, he, hk⟩
    exact ⟨e, ⟨he, fun hmoved => hmoved.2 (hk ▸ h)⟩, hk⟩

theorem mem_synced {row : MarketEvent} : row ∈ synced digest t source events w ↔
    (row ∈ t ∧ ¬ Moved digest source events w row) ∨
      ((byKey digest events).get? (row.dedupKey digest) = some row ∧
        row.dedupKey digest ∉ keys digest t) := by
  rw [synced_eq, List.mem_append, mem_unstored]
  have hkept : row ∈ deleteMoved digest t source events w ↔
      row ∈ t ∧ ¬ Moved digest source events w row := by
    unfold deleteMoved
    rw [List.mem_filter, decide_eq_true_eq]
  rw [hkept]
  refine or_congr Iff.rfl (and_congr_right fun hget => not_congr ?_)
  have hmem := ((byKey_spec digest events).1 _ _ hget).1
  exact mem_keys_deleteMoved digest t source events w ((mem_keys digest).mpr ⟨row, hmem, rfl⟩)

/-! ## Replacement -/

/-- The sync replaces the events of the source inside the window by those of the batch: they look
the same, each once, nothing else is touched, and another sync changes nothing. -/
structure Replaced : Prop where
  inside : ∀ o, (∃ row ∈ synced digest t source events w, row.Inside source w ∧ row.observed = o) ↔
    ∃ e ∈ events, e.observed = o
  once : (((synced digest t source events w).filter (fun row => row.Inside source w)).map
    MarketEvent.observed).Nodup
  others : (synced digest t source events w).filter (fun row => ¬ row.Inside source w)
    = t.filter (fun row => ¬ row.Inside source w)
  again : synced digest (synced digest t source events w) source events w
    = synced digest t source events w

/-- Under each key the batch and the stored events look the same. -/
structure Replaceable : Prop where
  /-- An event that is stored under its key is stored inside the window with its look. -/
  stored : ∀ e ∈ events, e.dedupKey digest ∈ keys digest t →
    ∃ row ∈ t, row.Inside source w ∧ row.observed = e.observed
  /-- Of an event that is not stored, the last one of its key has its look and is inside. -/
  unstored : ∀ e ∈ events, e.dedupKey digest ∉ keys digest t →
    ∃ last, (byKey digest events).get? (e.dedupKey digest) = some last ∧
      last.Inside source w ∧ last.observed = e.observed
  /-- A stored event inside the window with a key of the batch has the look of one of its events. -/
  stale : ∀ row ∈ t, row.Inside source w → row.dedupKey digest ∈ keys digest events →
    ∃ e ∈ events, e.observed = row.observed
  /-- No two of those look the same. -/
  once : ((t.filter (fun row => row.Inside source w ∧
    row.dedupKey digest ∈ keys digest events)).map MarketEvent.observed).Nodup

/-- A second sync finds every key stored. -/
theorem synced_synced : synced digest (synced digest t source events w) source events w
    = synced digest t source events w := by
  have hstays : ∀ row ∈ synced digest t source events w, ¬ Moved digest source events w row := by
    intro row hrow hmoved
    rcases (mem_synced digest t source events w).mp hrow with ⟨-, hkept⟩ | ⟨hget, -⟩
    · exact hkept hmoved
    · exact hmoved.2 ((mem_keys digest).mpr
        ⟨row, ((byKey_spec digest events).1 _ _ hget).1, rfl⟩)
  have hdelete : deleteMoved digest (synced digest t source events w) source events w
      = synced digest t source events w := by
    unfold deleteMoved
    refine List.filter_eq_self.mpr fun row hrow => ?_
    exact decide_eq_true (hstays row hrow)
  have hnone : unstored digest (synced digest t source events w) events = [] := by
    refine List.eq_nil_iff_forall_not_mem.mpr fun e he => ?_
    obtain ⟨hget, hnew⟩ := (mem_unstored digest).mp he
    by_cases hold : e.dedupKey digest ∈ keys digest t
    · obtain ⟨row, hrow, hkey⟩ := (mem_keys digest).mp hold
      have hmem := ((byKey_spec digest events).1 _ _ hget).1
      refine hnew ((mem_keys digest).mpr ⟨row, ?_, hkey⟩)
      refine (mem_synced digest t source events w).mpr (Or.inl ⟨hrow, fun hmoved => ?_⟩)
      exact hmoved.2 ((mem_keys digest).mpr ⟨e, hmem, hkey.symm⟩)
    · exact hnew ((mem_keys digest).mpr
        ⟨e, (mem_synced digest t source events w).mpr (Or.inr ⟨hget, hold⟩), rfl⟩)
  rw [synced_eq digest (synced digest t source events w), hdelete, hnone, List.append_nil]

/-- The rows inside the window after a sync: those that were kept, then those inserted. -/
theorem filter_inside_synced :
    (synced digest t source events w).filter (fun row => row.Inside source w)
      = t.filter (fun row => row.Inside source w ∧ row.dedupKey digest ∈ keys digest events)
        ++ (unstored digest (deleteMoved digest t source events w) events).filter
          (fun row => row.Inside source w) := by
  rw [synced_eq, List.filter_append, deleteMoved, List.filter_filter]
  congr 1
  refine List.filter_congr fun row _ => ?_
  unfold Moved
  by_cases hinside : row.Inside source w <;> simp [hinside]

/-- The rows outside: those there were, then those inserted. -/
theorem filter_outside_synced :
    (synced digest t source events w).filter (fun row => ¬ row.Inside source w)
      = t.filter (fun row => ¬ row.Inside source w)
        ++ (unstored digest (deleteMoved digest t source events w) events).filter
          (fun row => ¬ row.Inside source w) := by
  rw [synced_eq, List.filter_append, deleteMoved, List.filter_filter]
  congr 1
  refine List.filter_congr fun row _ => ?_
  unfold Moved
  by_cases hinside : row.Inside source w <;> simp [hinside]

/-- What a sync inserts: the last event of each key that is not stored. -/
theorem mem_inserted {e : MarketEvent} :
    e ∈ unstored digest (deleteMoved digest t source events w) events ↔
      (byKey digest events).get? (e.dedupKey digest) = some e ∧
        e.dedupKey digest ∉ keys digest t := by
  rw [mem_unstored]
  refine and_congr_right fun hget => not_congr ?_
  have hmem := ((byKey_spec digest events).1 _ _ hget).1
  exact mem_keys_deleteMoved digest t source events w ((mem_keys digest).mpr ⟨e, hmem, rfl⟩)

section Replaceable

variable {digest t source events w}

theorem Replaceable.replaced (h : Replaceable digest t source events w) :
    Replaced digest t source events w where
  inside o := by
    constructor
    · rintro ⟨row, hrow, hinside, rfl⟩
      rcases (mem_synced digest t source events w).mp hrow with ⟨hold, hkept⟩ | ⟨hget, -⟩
      · refine h.stale row hold hinside ?_
        by_contra hgone
        exact hkept ⟨hinside, hgone⟩
      · exact ⟨row, ((byKey_spec digest events).1 _ _ hget).1, rfl⟩
    · rintro ⟨e, he, rfl⟩
      by_cases hold : e.dedupKey digest ∈ keys digest t
      · obtain ⟨row, hrow, hinside, hlook⟩ := h.stored e he hold
        refine ⟨row, (mem_synced digest t source events w).mpr (Or.inl ⟨hrow, fun hmoved => ?_⟩),
          hinside, hlook⟩
        exact hmoved.2 ((mem_keys digest).mpr ⟨e, he, (dedupKey_of_observed digest hlook).symm⟩)
      · obtain ⟨last, hlast, hinside, hlook⟩ := h.unstored e he hold
        have hkey := dedupKey_of_observed digest hlook
        rw [← hkey] at hlast hold
        exact ⟨last, (mem_synced digest t source events w).mpr (Or.inr ⟨hlast, hold⟩), hinside,
          hlook⟩
  once := by
    rw [filter_inside_synced, List.map_append]
    refine List.Nodup.append h.once ?_ ?_
    · -- What is inserted differs in its keys, so it differs in its looks.
      have hkeys := nodup_keys_unstored digest (deleteMoved digest t source events w) events
      refine List.Nodup.sublist (List.filter_sublist.map _) (List.Nodup.map_on ?_ hkeys.of_map)
      intro e he e' he' hlook
      exact List.inj_on_of_nodup_map hkeys he he' (dedupKey_of_observed digest hlook)
    · -- The key of a kept row is stored, that of an inserted one is not.
      intro o hkept hnew
      obtain ⟨row, hrow, rfl⟩ := List.mem_map.mp hkept
      obtain ⟨e, he, hlook⟩ := List.mem_map.mp hnew
      obtain ⟨-, habsent⟩ :=
        (mem_inserted digest t source events w).mp (List.mem_of_mem_filter he)
      have hkey := dedupKey_of_observed digest hlook
      exact habsent ((mem_keys digest).mpr ⟨row, List.mem_of_mem_filter hrow, hkey.symm⟩)
  others := by
    rw [filter_outside_synced]
    have hnone : (EventTable.unstored digest (deleteMoved digest t source events w)
        events).filter (fun row => ¬ row.Inside source w) = [] := by
      refine List.filter_eq_nil_iff.mpr fun e he => ?_
      obtain ⟨hget, hnew⟩ := (mem_inserted digest t source events w).mp he
      obtain ⟨last, hlast, hinside, -⟩ :=
        h.unstored e ((byKey_spec digest events).1 _ _ hget).1 hnew
      rw [hget] at hlast
      rw [Option.some.inj hlast]
      simp [hinside]
    rw [hnone, List.append_nil]
  again := synced_synced digest t source events w

theorem Replaced.replaceable (h : Replaced digest t source events w) :
    Replaceable digest t source events w := by
  -- What looks like an event of the batch has its key, so it was kept or inserted with it.
  have hfind : ∀ e ∈ events, ∃ row ∈ synced digest t source events w,
      row.Inside source w ∧ row.observed = e.observed ∧ row.dedupKey digest = e.dedupKey digest := by
    intro e he
    obtain ⟨row, hrow, hinside, hlook⟩ := (h.inside e.observed).mpr ⟨e, he, rfl⟩
    exact ⟨row, hrow, hinside, hlook, dedupKey_of_observed digest hlook⟩
  constructor
  · intro e he hold
    obtain ⟨row, hrow, hinside, hlook, hkey⟩ := hfind e he
    rcases (mem_synced digest t source events w).mp hrow with ⟨hrow, -⟩ | ⟨-, hnew⟩
    · exact ⟨row, hrow, hinside, hlook⟩
    · exact absurd (hkey ▸ hold) hnew
  · intro e he hnew
    obtain ⟨row, hrow, hinside, hlook, hkey⟩ := hfind e he
    rcases (mem_synced digest t source events w).mp hrow with ⟨hrow, -⟩ | ⟨hget, -⟩
    · exact absurd ((mem_keys digest).mpr ⟨row, hrow, hkey⟩) hnew
    · exact ⟨row, hkey ▸ hget, hinside, hlook⟩
  · intro row hrow hinside hkey
    exact (h.inside row.observed).mp ⟨row, (mem_synced digest t source events w).mpr
      (Or.inl ⟨hrow, fun hmoved => hmoved.2 hkey⟩), hinside, rfl⟩
  · have honce := h.once
    rw [filter_inside_synced, List.map_append] at honce
    exact (List.nodup_append.mp honce).1

end Replaceable

/-- **When a sync is a replacement.** Exactly when, under each key, the batch and the stored events
look the same. -/
theorem sync_replaces_iff :
    Replaced digest t source events w ↔ Replaceable digest t source events w :=
  ⟨Replaced.replaceable, Replaceable.replaced⟩

/-- A print of the week's calendar. -/
def samplePrint (time : Time) (importance : EventImportance) : MarketEvent where
  source := "forexfactory"
  kind := .macroEvent
  time := time
  title := "CPI"
  asset := none
  currency := some "USD"
  importance := importance

/-- One day, from midnight. -/
def sampleDay : SyncWindow where
  start := 0
  stop := some 86400000000

/-- A print that was raised from medium to high importance stays medium, under every digest. -/
theorem raised_print_kept : ¬ ∃ digest : EventIdentity → String, Replaced digest [samplePrint 36000000000 .medium]
    "forexfactory" [samplePrint 36000000000 .high] sampleDay := by
  rintro ⟨digest, h⟩
  have hsame : (samplePrint 36000000000 .medium).dedupKey digest
      = (samplePrint 36000000000 .high).dedupKey digest := rfl
  have hstored := h.replaceable.stored (samplePrint 36000000000 .high)
    (List.mem_singleton_self _) ((mem_keys digest).mpr ⟨_, List.mem_singleton_self _, hsame⟩)
  obtain ⟨row, hrow, -, hlook⟩ := hstored
  rw [List.mem_singleton.mp hrow] at hlook
  exact absurd (congrArg Observed.importance hlook) (by decide)

/-! ## Atomicity -/

/-- A sync that raises leaves the stored events alone. -/
def Atomic (failing : Option SyncStep) : Prop :=
  ∀ err, (syncMarketEvents digest failing t source events w).1 = .error err →
    (syncMarketEvents digest failing t source events w).2 = t

/-- Whether something is inserted does not depend on the deletion. -/
theorem insertRaises_deleteMoved (failing : Option SyncStep) :
    InsertRaises digest failing (deleteMoved digest t source events w) events
      ↔ InsertRaises digest failing t events := by
  unfold InsertRaises
  refine and_congr_right fun _ => exists_congr fun step => and_congr_right fun _ =>
    and_congr_right fun _ => imp_congr_right fun _ => not_congr ?_
  rw [List.eq_nil_iff_forall_not_mem, List.eq_nil_iff_forall_not_mem]
  refine forall_congr' fun e => not_congr ?_
  rw [mem_inserted, mem_unstored]

theorem deleteMoved_eq_self_iff : deleteMoved digest t source events w = t ↔
    ∀ row ∈ t, ¬ Moved digest source events w row := by
  unfold deleteMoved
  rw [List.filter_eq_self]
  simp only [decide_eq_true_eq]

/-- **When a sync is atomic.** Exactly when the second transaction does not raise, or there was
nothing to delete. -/
theorem sync_atomic_iff (failing : Option SyncStep) :
    Atomic digest t source events w failing ↔
      (InsertRaises digest failing t events → ∀ row ∈ t, ¬ Moved digest source events w row) := by
  have hsame := insertRaises_deleteMoved digest t source events w failing
  unfold Atomic syncMarketEvents
  dsimp only
  by_cases hdeletes : ∃ step ∈ failing, step.Deletes
  · -- The first transaction rolls back, and the second is never opened.
    obtain ⟨step, hstep, hdelete⟩ := hdeletes
    have hnot : ¬ InsertRaises digest failing t events := by
      rintro ⟨-, other, hother, hkeeps, -⟩
      exact hkeeps (Option.mem_unique hother hstep ▸ hdelete)
    rw [if_pos ⟨step, hstep, hdelete⟩]
    exact ⟨fun _ h => absurd h hnot, fun _ _ _ => rfl⟩
  · rw [if_neg hdeletes]
    by_cases hraises : InsertRaises digest failing t events
    · -- The deletion is committed by then.
      rw [if_pos (hsame.mpr hraises), ← deleteMoved_eq_self_iff]
      exact ⟨fun h _ => h _ rfl, fun h _ _ => h hraises⟩
    · rw [if_neg (fun h => hraises (hsame.mp h))]
      exact ⟨fun _ h => absurd h hraises, fun _ err h => nomatch h⟩

/-- The digest that keeps the minute. -/
def sampleDigest (i : EventIdentity) : ℤ := i.minute

/-- A print moved from ten to two is gone from the table when the insert raises. -/
theorem moved_print_lost : ¬ Atomic sampleDigest [samplePrint 36000000000 .high] "forexfactory"
    [samplePrint 50400000000 .high] sampleDay (some .insert) := by
  intro h
  exact absurd (h (.raised "database") (by decide)) (by decide)

end Digest

end SmartyTrader
