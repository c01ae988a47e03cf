import SmartyTrader.Core.Watchlist
import SmartyTrader.Lib.Runs

set_option autoImplicit false

/-! # Bounds of the dynamic watchlist

Whatever the feed quotes and whichever call of the database fails, a refresh adds no more than the
free slots and nothing that is core, held or excluded. Over a sequence of refreshes the rows of the
table, expired ones included, never exceed the slots, and so do the active ones at any time.
-/

namespace SmartyTrader

open Lib

/-- A symbol the watchlist must not add. -/
def Barred (cfg : WatchlistSettings) (core held : List Symbol) (s : Symbol) : Prop :=
  s ∈ core ∨ s ∈ held ∨ upper s ∈ cfg.excludeSymbols.map upper

/-! ## What the screener offers -/

theorem mem_numbered (n : ℕ) (l : List ScreenedSymbol) {c : ScreenedSymbol}
    (h : c ∈ numbered n l) : ∃ d ∈ l, d.symbol = c.symbol := by
  induction l generalizing n with
  | nil => cases h
  | cons d rest ih =>
      rcases List.mem_cons.mp h with rfl | h
      · exact ⟨d, List.mem_cons_self, rfl⟩
      · obtain ⟨d', hd', hs⟩ := ih (n + 1) h
        exact ⟨d', List.mem_cons_of_mem _ hd', hs⟩

/-- Ranking keeps the symbols of the candidates. -/
theorem mem_rankCandidates {candidates : List (Symbol × ℚ × ScreenMetrics)} {low : ℚ}
    {high : Option ℚ} {c : ScreenedSymbol} (h : c ∈ rankCandidates candidates low high) :
    ∃ e ∈ candidates, e.1 = c.symbol := by
  obtain ⟨d, hd, hs⟩ := mem_numbered 1 _ h
  rw [mem_sortBy] at hd
  obtain ⟨e, he, hpassed⟩ := List.mem_filterMap.mp hd
  dsimp only at hpassed
  split_ifs at hpassed
  exact ⟨e, he, by rw [← hs, ← Option.some.inj hpassed]⟩

/-- News mentions only reorder. -/
theorem mem_prioritizeMentioned {ranked : List ScreenedSymbol} {mentions : Dict Symbol ℤ} {n : ℤ}
    {c : ScreenedSymbol} (h : c ∈ prioritizeMentioned ranked mentions n) :
    ∃ d ∈ ranked, d.symbol = c.symbol := by
  unfold prioritizeMentioned at h
  rw [mem_sortBy] at h
  obtain ⟨d, hd, rfl⟩ := List.mem_map.mp h
  exact ⟨d, hd, rfl⟩

namespace WatchlistManager

variable {cfg : WatchlistSettings} {input : RefreshInput} {core held : List Symbol}

/-- What is liquid is none of the symbols that are left out. -/
theorem not_barred_of_liquid {volumes : Dict Symbol (Option ℚ)} {tradable : Option (List Symbol)}
    {e : Symbol × ℚ} (h : e ∈ liquid cfg volumes tradable core held) :
    ¬ Barred cfg core held e.1 := by
  have hkept := (List.mem_filter.mp (List.mem_of_mem_take h)).2
  have houtside : upper e.1 ∉ (cfg.excludeSymbols ++ core ++ held).map upper := by
    simp only [decide_eq_true_eq] at hkept
    exact hkept.1
  simp only [List.map_append, List.mem_append, not_or] at houtside
  rintro (hcore | hheld | hexcluded)
  · exact houtside.1.2 (List.mem_map_of_mem hcore)
  · exact houtside.2 (List.mem_map_of_mem hheld)
  · exact houtside.1.1 hexcluded

/-- A screener that does not fail ranks liquid symbols. -/
theorem screen_ranks {ranked : List ScreenedSymbol} (h : screen cfg input core held = .ok ranked)
    {c : ScreenedSymbol} (hc : c ∈ ranked) :
    ∃ volumes tradable, ∃ e ∈ liquid cfg volumes tradable core held, e.1 = c.symbol := by
  have hrank : ∃ volumes tradable, ranked = rankCandidates
      ((liquid cfg volumes tradable core held).filterMap fun pair =>
        (input.metrics pair.1).map fun metrics => (pair.1, pair.2, metrics))
      cfg.minDailyVolatility cfg.maxDailyVolatility := by
    unfold screen at h
    cases hvolumes : input.quoteVolumes with
    | error err =>
        rw [hvolumes] at h
        cases h
    | ok volumes =>
        rw [hvolumes] at h
        rcases htradable : input.tradable with _ | (err | names)
        · rw [htradable] at h
          exact ⟨volumes, none, (Except.ok.inj h).symm⟩
        · rw [htradable] at h
          cases h
        · rw [htradable] at h
          exact ⟨volumes, some names, (Except.ok.inj h).symm⟩
  obtain ⟨volumes, tradable, rfl⟩ := hrank
  obtain ⟨⟨s, volume, metrics⟩, hmem, hs⟩ := mem_rankCandidates hc
  obtain ⟨pair, hpair, hmetrics⟩ := List.mem_filterMap.mp hmem
  obtain ⟨m, -, heq⟩ := Option.map_eq_some_iff.mp hmetrics
  refine ⟨volumes, tradable, pair, hpair, ?_⟩
  rw [← hs, ← heq]

theorem not_barred_of_prioritized {ranked : List ScreenedSymbol}
    (h : screen cfg input core held = .ok ranked) {c : ScreenedSymbol}
    (hc : c ∈ prioritized cfg input ranked) : ¬ Barred cfg core held c.symbol := by
  have hranked : ∃ d ∈ ranked, d.symbol = c.symbol := by
    unfold prioritized at hc
    split at hc
    · exact mem_prioritizeMentioned hc
    · exact ⟨c, hc, rfl⟩
  obtain ⟨d, hd, hs⟩ := hranked
  obtain ⟨volumes, tradable, e, he, hes⟩ := screen_ranks h hd
  rw [← hs, ← hes]
  exact not_barred_of_liquid he

/-! ## What the loop adds -/

/-- The rows a table gains are for these symbols, and they are at most so many. -/
structure Gains (allowed : Symbol → Prop) (slots : ℕ) (t t' : WatchlistTable) : Prop where
  rows : t'.entries.length ≤ t.entries.length + slots
  symbols : ∀ s row, t'.get? s = some row → t.get? s = some row ∨ allowed s

theorem Gains.refl (allowed : Symbol → Prop) (slots : ℕ) (t : WatchlistTable) :
    Gains allowed slots t t := ⟨Nat.le_add_right _ _, fun _ _ h => Or.inl h⟩

theorem gains_upsert {allowed : Symbol → Prop} {s : Symbol} (hs : allowed s)
    (row : WatchlistEntryRow) (t : WatchlistTable) :
    Gains allowed 1 t (t.upsertWatchlistEntry s row) := by
  have hset : ∀ new : WatchlistEntryRow, Gains allowed 1 t (t.set s new) := by
    intro new
    refine ⟨t.length_entries_set s new, fun s' row' hrow => ?_⟩
    rw [Dict.get?_set] at hrow
    split_ifs at hrow with hkey
    · exact Or.inr (hkey ▸ hs)
    · exact Or.inl hrow
  unfold WatchlistTable.upsertWatchlistEntry
  split
  · exact hset _
  · exact hset _

theorem Gains.trans {allowed : Symbol → Prop} {m n : ℕ} {t t' t'' : WatchlistTable}
    (h : Gains allowed m t t') (h' : Gains allowed n t' t'') : Gains allowed (m + n) t t'' := by
  constructor
  · have := h.rows
    have := h'.rows
    omega
  · intro s row hrow
    rcases h'.symbols s row hrow with hold | hs
    · exact h.symbols s row hold
    · exact Or.inr hs

variable (input core) in
/-- The loop fills at most the free slots, with candidates, also when a row is not written. -/
theorem gains_addCandidates (allowed : Symbol → Prop) (expiresAt : Time)
    {ranked : List ScreenedSymbol} (hranked : ∀ c ∈ ranked, allowed c.symbol) (slots : ℤ)
    (dynamic added : List Symbol) (t : WatchlistTable) :
    Gains allowed slots.toNat t
        (addCandidates input core expiresAt ranked slots dynamic added t).2 ∧
      ∀ r, (addCandidates input core expiresAt ranked slots dynamic added t).1 = .ok r →
        ∀ s ∈ r.2, s ∈ added ∨ allowed s := by
  induction ranked generalizing slots dynamic added t with
  | nil =>
      refine ⟨Gains.refl _ _ _, fun r hr s hs => Or.inl ?_⟩
      rw [← Except.ok.inj hr] at hs
      exact hs
  | cons candidate rest ih =>
      have hrest : ∀ c ∈ rest, allowed c.symbol := fun c hc =>
        hranked c (List.mem_cons_of_mem _ hc)
      unfold addCandidates
      by_cases hslots : slots ≤ 0
      · rw [if_pos hslots]
        refine ⟨Gains.refl _ _ _, fun r hr s hs => Or.inl ?_⟩
        rw [← Except.ok.inj hr] at hs
        exact hs
      · rw [if_neg hslots]
        by_cases hlisted : candidate.symbol ∈ core ∨ candidate.symbol ∈ dynamic
        · rw [if_pos hlisted]
          exact ih hrest slots dynamic added t
        · rw [if_neg hlisted]
          cases input.writes candidate.symbol with
          | error err => exact ⟨Gains.refl _ _ _, fun r hr => by cases hr⟩
          | ok now =>
              have hcandidate : allowed candidate.symbol := hranked _ List.mem_cons_self
              have hupsert := gains_upsert hcandidate ⟨"screener", now, expiresAt, candidate⟩ t
              obtain ⟨hgains, hadded⟩ := ih hrest (slots - 1) (dynamic ++ [candidate.symbol])
                (added ++ [candidate.symbol])
                (t.upsertWatchlistEntry candidate.symbol ⟨"screener", now, expiresAt, candidate⟩)
              constructor
              · have hcount : 1 + (slots - 1).toNat = slots.toNat := by omega
                rw [← hcount]
                exact hupsert.trans hgains
              · intro r hr s hs
                rcases hadded r hr s hs with hs | hs
                · rcases List.mem_append.mp hs with hs | hs
                  · exact Or.inl hs
                  · rw [List.mem_singleton.mp hs]
                    exact Or.inr hcandidate
                · exact Or.inr hs

/-! ## One refresh -/

/-- Each symbol stands once in the list of a refresh. -/
theorem nodup_eraseDups : ∀ l : List Symbol, l.eraseDups.Nodup
  | [] => List.nodup_nil
  | s :: rest => by
      rw [List.eraseDups_cons, List.nodup_cons]
      exact ⟨by simp [List.mem_eraseDups], nodup_eraseDups _⟩
termination_by l => l.length
decreasing_by
  have := List.length_filter_le (fun x => !(x == s)) rest
  rw [List.length_cons]
  omega

/-- What is left after the deletion is active. -/
theorem length_active (now : Time) (t : WatchlistTable) :
    (t.getActiveWatchlist now).length = (t.deleteExpiredWatchlistEntries now).2.entries.length := by
  unfold WatchlistTable.getActiveWatchlist WatchlistTable.deleteExpiredWatchlistEntries sortBy
  rw [List.length_insertionSort]
  simp only [gt_iff_lt, not_le]

theorem barred_eraseDups (s : Symbol) :
    Barred cfg core.eraseDups held.eraseDups s ↔ Barred cfg core held s := by
  unfold Barred
  rw [List.mem_eraseDups, List.mem_eraseDups]

/-- What a refresh may do to the table, and what a refresh that succeeds returns. -/
structure Bounded (cfg : WatchlistSettings) (core held : List Symbol) (t t' : WatchlistTable)
    (outcome : Except WatchlistRefreshFailed WatchlistRefreshResult) : Prop where
  rows : t'.entries.length ≤ cfg.maxDynamicSymbols.toNat
  symbols : ∀ s row, t'.get? s = some row → t.get? s = some row ∨ ¬ Barred cfg core held s
  added : ∀ r, outcome = .ok r → ∀ s ∈ r.added, ¬ Barred cfg core held s
  listed : ∀ r, outcome = .ok r → r.symbols.Nodup ∧ ∀ s ∈ core ++ held, s ∈ r.symbols

/-- A refresh that fails early has only deleted. -/
theorem Bounded.of_error {t t' : WatchlistTable} {err : WatchlistRefreshFailed}
    (hrows : t'.entries.length ≤ cfg.maxDynamicSymbols.toNat)
    (hkept : ∀ s row, t'.get? s = some row → t.get? s = some row) :
    Bounded cfg core held t t' (.error err) :=
  ⟨hrows, fun s row h => Or.inl (hkept s row h), fun _ h => (nomatch h), fun _ h => nomatch h⟩

/-- From a table whose rows are all active, the screener and the loop stay within the bounds. -/
theorem bounded_fill {t t' : WatchlistTable} {dynamic : List Symbol} (deleted : ℕ)
    (hrows : t'.entries.length ≤ cfg.maxDynamicSymbols.toNat)
    (hdynamic : dynamic.length = t'.entries.length)
    (hkept : ∀ s row, t'.get? s = some row → t.get? s = some row) :
    Bounded cfg core held t
      (fill cfg input core.eraseDups held.eraseDups dynamic deleted t').2
      (fill cfg input core.eraseDups held.eraseDups dynamic deleted t').1 := by
  unfold fill
  cases hscreen : screen cfg input core.eraseDups held.eraseDups with
  | error err => exact Bounded.of_error hrows hkept
  | ok screened =>
      dsimp only
      have hoffered : ∀ c ∈ prioritized cfg input screened, ¬ Barred cfg core held c.symbol := by
        intro c hc
        rw [← barred_eraseDups]
        exact not_barred_of_prioritized hscreen hc
      obtain ⟨hgains, hadded⟩ := gains_addCandidates input core.eraseDups
        (fun s => ¬ Barred cfg core held s) (input.now + cfg.ttl) hoffered
        (cfg.maxDynamicSymbols - dynamic.length) dynamic [] t'
      have hlength : ∀ t'' : WatchlistTable, t''.entries.length
          ≤ t'.entries.length + (cfg.maxDynamicSymbols - dynamic.length).toNat →
          t''.entries.length ≤ cfg.maxDynamicSymbols.toNat := by
        intro t'' h
        omega
      have hrow : ∀ {t'' : WatchlistTable}, (∀ s row, t''.get? s = some row →
          t'.get? s = some row ∨ ¬ Barred cfg core held s) →
          ∀ s row, t''.get? s = some row → t.get? s = some row ∨ ¬ Barred cfg core held s :=
        fun h s row hs => (h s row hs).imp_left (hkept s row)
      split
      · rename_i heq
        rw [heq] at hgains
        exact ⟨hlength _ hgains.rows, hrow hgains.symbols, fun _ h => (nomatch h),
          fun _ h => nomatch h⟩
      · rename_i dynamic' added t'' heq
        rw [heq] at hgains hadded
        refine ⟨hlength _ hgains.rows, hrow hgains.symbols, fun r hr s hs => ?_, fun r hr => ?_⟩
        · rw [← Except.ok.inj hr] at hs
          exact (hadded _ rfl s hs).resolve_left List.not_mem_nil
        · rw [← Except.ok.inj hr]
          refine ⟨nodup_eraseDups _, fun s hs => List.mem_eraseDups.mpr ?_⟩
          rcases List.mem_append.mp hs with hs | hs
          · exact List.mem_append_left _ (List.mem_append_left _ (List.mem_eraseDups.mpr hs))
          · exact List.mem_append_right _ (List.mem_eraseDups.mpr hs)

variable (cfg input core held) in
/-- A refresh keeps a table that has no more rows than slots within the bounds. -/
theorem bounded_refresh (t : WatchlistTable)
    (hrows : t.entries.length ≤ cfg.maxDynamicSymbols.toNat) :
    Bounded cfg core held t (refresh cfg input core held t).2
      (refresh cfg input core held t).1 := by
  have hdeleted : (t.deleteExpiredWatchlistEntries input.now).2.entries.length
      ≤ cfg.maxDynamicSymbols.toNat := (List.length_filter_le _ _).trans hrows
  have hkept : ∀ s row, (t.deleteExpiredWatchlistEntries input.now).2.get? s = some row →
      t.get? s = some row := by
    intro s row h
    rw [← Dict.mem_entries_iff] at h ⊢
    exact List.mem_of_mem_filter h
  unfold refresh
  dsimp only
  cases input.deletes with
  | error err => exact Bounded.of_error hrows fun _ _ h => h
  | ok _ =>
      cases input.reads with
      | error err => exact Bounded.of_error hdeleted hkept
      | ok _ =>
          refine bounded_fill _ hdeleted ?_ hkept
          rw [List.length_map, t.getActiveWatchlist_deleteExpired]
          exact length_active input.now t

end WatchlistManager

/-! ## Sequences of refreshes -/

/-- One refresh of a sequence: the held set may change from one to the next. -/
structure RefreshRound where
  input : RefreshInput
  held : List Symbol

/-- The table after a refresh. -/
def refreshStep (cfg : WatchlistSettings) (core : List Symbol) (r : RefreshRound)
    (t : WatchlistTable) : WatchlistTable :=
  (WatchlistManager.refresh cfg r.input core r.held t).2

/-- The rows never outnumber the slots. -/
theorem rows_refreshes (cfg : WatchlistSettings) (core : List Symbol) (rounds : List RefreshRound)
    {t : WatchlistTable} (h : t.entries.length ≤ cfg.maxDynamicSymbols.toNat) :
    (Lib.run (refreshStep cfg core) rounds t).entries.length ≤ cfg.maxDynamicSymbols.toNat :=
  run_invariant (I := fun t : WatchlistTable =>
      t.entries.length ≤ cfg.maxDynamicSymbols.toNat)
    (fun r t h => (WatchlistManager.bounded_refresh cfg r.input core r.held t h).rows) rounds h

/-- **Watchlist bounds.** After every refresh of a sequence there are no more active entries, at
any time, than slots; no row it wrote and no symbol it reports as added is core, held or excluded;
and the list it returns has each core and each held symbol, and each symbol once. -/
theorem watchlist_bounds (cfg : WatchlistSettings) (core : List Symbol)
    (before : List RefreshRound) (r : RefreshRound) :
    let t := Lib.run (refreshStep cfg core) before Dict.empty
    let t' := Lib.run (refreshStep cfg core) (before ++ [r]) Dict.empty
    let outcome := (WatchlistManager.refresh cfg r.input core r.held t).1
    (∀ now, ((t'.getActiveWatchlist now).length : ℤ) ≤ cfg.maxDynamicSymbols) ∧
      (∀ s row, t'.get? s = some row → t.get? s = some row ∨ ¬ Barred cfg core r.held s) ∧
      ∀ result, outcome = .ok result →
        (∀ s ∈ result.added, ¬ Barred cfg core r.held s) ∧ result.symbols.Nodup ∧
          (∀ s ∈ core, s ∈ result.symbols) ∧ ∀ s ∈ r.held, s ∈ result.symbols := by
  intro t t' outcome
  have hbounded : WatchlistManager.Bounded cfg core r.held t t' outcome := by
    have hrows := rows_refreshes cfg core before (t := Dict.empty) (Nat.zero_le _)
    have hstep := WatchlistManager.bounded_refresh cfg r.input core r.held t hrows
    have hlast : t' = (WatchlistManager.refresh cfg r.input core r.held t).2 :=
      run_append _ before [r] Dict.empty
    rw [hlast]
    exact hstep
  refine ⟨fun now => ?_, hbounded.symbols, fun result hresult => ?_⟩
  · have hactive : (t'.getActiveWatchlist now).length ≤ t'.entries.length := by
      rw [WatchlistManager.length_active]
      exact List.length_filter_le _ _
    have hrows := hbounded.rows
    have hpos := cfg.maxDynamicSymbols_pos
    omega
  · obtain ⟨hnodup, hlisted⟩ := hbounded.listed result hresult
    exact ⟨hbounded.added result hresult, hnodup,
      fun s hs => hlisted s (List.mem_append_left _ hs),
      fun s hs => hlisted s (List.mem_append_right _ hs)⟩

end SmartyTrader
