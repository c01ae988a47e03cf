import SmartyTrader.Core.SleeveBooks
import SmartyTrader.Core.SleeveReads

set_option autoImplicit false

/-! # Owners, from the table

Whatever the sleeves have cached, they read the owner of a position as the rows of the decisions
behind its lots say (`Coherent.ownership`), as long as each of these decisions has a row. A read
that fails caches nothing.
-/

namespace SmartyTrader

open Lib

/-! ## What the rows say -/

namespace DecisionTable

/-- The first configured sleeve among the rows of some decisions. -/
def firstKnown (t : DecisionTable) (settings : SleevesSettings) (ids : List DecisionId) :
    Option String :=
  ids.findSome? (fun i =>
    match (DecisionTable.metaOf t i).1 with
    | some name => if (settings.get (some name)).isSome then some name else none
    | none => none)

/-- The sleeve that made a decision, if it is configured. -/
def sleeveOf (t : DecisionTable) (settings : SleevesSettings) (i : DecisionId) : Option String :=
  match (DecisionTable.metaOf t i).1 with
  | some name => if (settings.get (some name)).isSome then some name else none
  | none => none

theorem firstKnown_eq (t : DecisionTable) (settings : SleevesSettings) (ids : List DecisionId) :
    DecisionTable.firstKnown t settings ids = ids.findSome? (DecisionTable.sleeveOf t settings) :=
  rfl

/-- The times of some decisions, as far as they have rows. -/
def times (t : DecisionTable) (ids : List DecisionId) : List Time :=
  ids.filterMap (fun i => (DecisionTable.metaOf t i).2)

/-- The owner of lots that name some decisions, and the time of the first one that is known. -/
def ownership (t : DecisionTable) (settings : SleevesSettings) (ids : List DecisionId) :
    Ownership where
  strategy := (DecisionTable.firstKnown t settings ids).getD settings.first.name
  openedAt := (DecisionTable.times t ids).head?

/-- A read that answers from the rows, or fails. -/
def Answers (t : DecisionTable) (read : MetaRead) : Prop :=
  ∀ ids, read ids = DecisionTable.getDecisionStrategies t ids ∨ ∃ err, read ids = .error err

end DecisionTable

theorem findSome?_congr {α β : Type} {f g : α → Option β} {xs : List α}
    (h : ∀ x ∈ xs, f x = g x) : xs.findSome? f = xs.findSome? g := by
  induction xs with
  | nil => rfl
  | cons x xs ih =>
      rw [List.findSome?_cons, List.findSome?_cons, h x List.mem_cons_self,
        ih fun y hy => h y (List.mem_cons_of_mem _ hy)]

/-! ## What is cached -/

/-- What a book has cached of decisions is what their rows say. -/
def SleeveBook.Coherent (t : DecisionTable) (b : SleeveBook) : Prop :=
  ∀ id known, b.decisionMeta.get? id = some known →
    (t.get? id).isSome ∧ known = DecisionTable.metaOf t id

namespace SleeveBook

variable {t : DecisionTable} {b : SleeveBook}

/-- The cache after the reads of `loadMeta`. -/
theorem get?_foldl_set (value : DecisionId → DecisionMeta) (missing : List DecisionId)
    (d : Dict DecisionId DecisionMeta) (id : DecisionId) :
    (missing.foldl (fun d i => d.set i (value i)) d).get? id
      = if id ∈ missing then some (value id) else d.get? id := by
  induction missing generalizing d with
  | nil => rfl
  | cons i rest ih =>
      rw [List.foldl_cons, ih]
      by_cases hrest : id ∈ rest
      · rw [if_pos hrest, if_pos (List.mem_cons_of_mem _ hrest)]
      · by_cases hid : i = id
        · rw [if_neg hrest, hid, Dict.get?_set_self, if_pos List.mem_cons_self]
        · rw [if_neg hrest, Dict.get?_set_ne _ _ hid, if_neg]
          exact fun hmem => hrest ((List.mem_cons.mp hmem).resolve_left (Ne.symm hid))

/-- **A read of rows.** The cache stays coherent, and then it holds what was asked for. -/
theorem Coherent.loadMeta (h : b.Coherent t) {ids : List DecisionId}
    (hrows : ∀ id ∈ ids, (t.get? id).isSome) :
    ∃ b', b.loadMeta (DecisionTable.getDecisionStrategies t) ids = (.ok (), b') ∧
      b'.settings = b.settings ∧ b'.Coherent t ∧
      ∀ id ∈ ids, b'.metaOf id = DecisionTable.metaOf t id := by
  obtain ⟨b', hload, hsettings⟩ := loadMeta_ok (readsRows_getDecisionStrategies t) b ids
  refine ⟨b', hload, hsettings, ?_⟩
  have hcached : ∀ id known, b.decisionMeta.get? id = some known →
      b.metaOf id = DecisionTable.metaOf t id := by
    intro id known hknown
    unfold metaOf
    rw [hknown, (h id known hknown).2]
    rfl
  unfold SleeveBook.loadMeta at hload
  dsimp only at hload
  split_ifs at hload with hmissing
  · obtain rfl := (Prod.mk.inj hload).2
    refine ⟨h, fun id hid => ?_⟩
    have hcontains : b.decisionMeta.contains id = true := by
      by_contra hnot
      have hmem : id ∈ ids.eraseDups.filter (fun i => !b.decisionMeta.contains i) :=
        List.mem_filter.mpr ⟨List.mem_eraseDups.mpr hid, by simpa using hnot⟩
      rw [hmissing] at hmem
      exact (List.not_mem_nil hmem).elim
    obtain ⟨known, hknown⟩ := Option.isSome_iff_exists.mp hcontains
    exact hcached id known hknown
  · set missing := ids.eraseDups.filter (fun i => !b.decisionMeta.contains i) with hdef
    obtain rfl := (Prod.mk.inj hload).2
    have hvalue : ∀ id ∈ missing, (Dict.lookup id ((t.entries.filter (fun e => e.1 ∈ missing)).map
        (fun e => (e.1, e.2.meta)))).getD (none, none) = DecisionTable.metaOf t id :=
      fun id hid => lookup_getDecisionStrategies t hid
    have hget := get?_foldl_set (fun i => (Dict.lookup i ((t.entries.filter
      (fun e => e.1 ∈ missing)).map (fun e => (e.1, e.2.meta)))).getD (none, none)) missing
      b.decisionMeta
    refine ⟨fun id known hknown => ?_, fun id hid => ?_⟩
    · rw [hget] at hknown
      split_ifs at hknown with hmem
      · obtain rfl := Option.some.inj hknown
        have hasked : id ∈ ids := List.mem_eraseDups.mp (List.mem_filter.mp hmem).1
        exact ⟨hrows id hasked, hvalue id hmem⟩
      · exact h id known hknown
    · by_cases hmem : id ∈ missing
      · unfold metaOf
        rw [hget, if_pos hmem]
        exact hvalue id hmem
      · have hcontains : b.decisionMeta.contains id = true := by
          by_contra hnot
          exact hmem (List.mem_filter.mpr ⟨List.mem_eraseDups.mpr hid, by simpa using hnot⟩)
        obtain ⟨known, hknown⟩ := Option.isSome_iff_exists.mp hcontains
        have hsame := hcached id known hknown
        unfold metaOf at hsame ⊢
        rw [hget, if_neg hmem]
        exact hsame

/-- **The owner**, from the table: whatever is cached, the owner of an open position is read as the
rows of the decisions behind its lots say. -/
theorem Coherent.ownership (h : b.Coherent t) (hooks : EntryHooks) {positions : List Position}
    {symbol : Symbol} (hheld : ∃ q ∈ positions, q.symbol = symbol ∧ 0 < q.quantity)
    (hrows : ∀ i ∈ (hooks.entryDecisionIds symbol).filterMap id, (t.get? i).isSome) :
    ∃ b', b.ownership (DecisionTable.getDecisionStrategies t) hooks positions symbol
        = (.ok (some (DecisionTable.ownership t b.settings
            ((hooks.entryDecisionIds symbol).filterMap id))), b') ∧ b'.settings = b.settings := by
  obtain ⟨q, hq, hsymbol, hpos⟩ := hheld
  have hany : positions.any (fun p => p.symbol = symbol ∧ p.quantity > 0) = true :=
    List.any_eq_true.mpr ⟨q, hq, by simp [hsymbol, hpos]⟩
  obtain ⟨b', hload, hsettings, -, hmeta⟩ := h.loadMeta hrows
  refine ⟨b', ?_, hsettings⟩
  unfold SleeveBook.ownership
  rw [if_pos hany]
  simp only [hload]
  unfold DecisionTable.ownership DecisionTable.firstKnown DecisionTable.times
  rw [List.head?_filterMap, ← hsettings]
  have hknown : b'.firstKnown ((hooks.entryDecisionIds symbol).filterMap id) = _ :=
    findSome?_congr fun i hi => by rw [hmeta i hi]
  have hopened := findSome?_congr (f := fun i => (b'.metaOf i).2) fun i hi =>
    congrArg Prod.snd (hmeta i hi)
  rw [hknown, hopened]
  rfl

end SleeveBook

/-! ## Reads that may fail -/

namespace SleeveBook

variable {t : DecisionTable} {read : MetaRead}

theorem loadMeta_answers (h : DecisionTable.Answers t read) (b : SleeveBook)
    (ids : List DecisionId) :
    b.loadMeta read ids = b.loadMeta (DecisionTable.getDecisionStrategies t) ids ∨
      ∃ err, b.loadMeta read ids = (.error err, b) := by
  unfold loadMeta
  dsimp only
  split_ifs
  · exact .inl rfl
  · rcases h (ids.eraseDups.filter (fun i => !b.decisionMeta.contains i)) with heq | ⟨err, heq⟩
    · rw [heq]
      exact .inl rfl
    · rw [heq]
      exact .inr ⟨err, rfl⟩

/-- An owner that could be read is the one of a database that answers. -/
theorem ownership_answers (h : DecisionTable.Answers t read) (b : SleeveBook) (hooks : EntryHooks)
    (positions : List Position) (symbol : Symbol) {o : Option Ownership}
    (ho : (b.ownership read hooks positions symbol).1 = .ok o) :
    b.ownership read hooks positions symbol
      = b.ownership (DecisionTable.getDecisionStrategies t) hooks positions symbol := by
  unfold ownership at ho ⊢
  dsimp only at ho ⊢
  split_ifs at ho ⊢
  · rcases b.loadMeta_answers h ((hooks.entryDecisionIds symbol).filterMap id) with
      heq | ⟨err, heq⟩
    · rw [heq]
    · rw [heq] at ho
      cases ho
  · rfl
  · rcases b.loadMeta_answers h ((hooks.pendingEntryDecisionIds symbol).filterMap id) with
      heq | ⟨err, heq⟩
    · rw [heq]
    · rw [heq] at ho
      cases ho

/-- Reads of decisions that have rows keep the cache coherent. -/
theorem keepsBook_coherent (h : DecisionTable.Answers t read) (settings : SleevesSettings) :
    KeepsBook read (fun ids => ∀ i ∈ ids, (t.get? i).isSome)
      (fun book => ∃ b, book = some b ∧ b.settings = settings ∧ b.Coherent t) where
  load := by
    rintro b ids hrows ⟨b', hb, hsettings, hcoherent⟩
    obtain rfl := Option.some.inj hb
    rcases b.loadMeta_answers h ids with heq | ⟨err, heq⟩
    · obtain ⟨b', hload, hsettings', hcoherent', -⟩ := hcoherent.loadMeta hrows
      rw [heq, hload]
      exact ⟨b', rfl, hsettings'.trans hsettings, hcoherent'⟩
    · rw [heq]
      exact ⟨b, rfl, hsettings, hcoherent⟩
  engines := by
    rintro b engines ⟨b', hb, hsettings, hcoherent⟩
    obtain rfl := Option.some.inj hb
    exact ⟨_, rfl, hsettings, hcoherent⟩

end SleeveBook

end SmartyTrader
