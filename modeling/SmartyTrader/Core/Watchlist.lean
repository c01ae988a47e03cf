import SmartyTrader.Storage.Watchlist

set_option autoImplicit false

/-! # The dynamic watchlist

One refresh of the watchlist manager: expired entries are deleted, the screener ranks what the
feed quotes, free slots go to the best candidates, and the traded list is the core symbols, the
dynamic ones and the held ones. What the database, the feed and the news counter answer is the
input of the pass.
-/

namespace SmartyTrader

open Lib

/-- The `watchlist` block of an agent; `exclude_symbols` are in upper case. -/
structure WatchlistSettings where
  maxDynamicSymbols : ℤ
  /-- `timedelta(hours=ttl_hours)`. -/
  ttl : ℤ
  minQuoteVolume24h : ℚ
  minDailyVolatility : ℚ
  maxDailyVolatility : Option ℚ
  maxCandidates : ℕ
  excludeSymbols : List Symbol
  minMentions : ℤ
  maxDynamicSymbols_pos : 1 ≤ maxDynamicSymbols
  maxCandidates_pos : 1 ≤ maxCandidates

/-- What one pass reads and how its writes end. -/
structure RefreshInput where
  now : Time
  deletes : Except PyError Unit
  reads : Except PyError Unit
  quoteVolumes : Except PyError (Dict Symbol (Option ℚ))
  /-- The venue's own list, where the executor has one. -/
  tradable : Option (Except PyError (List Symbol))
  /-- The metrics of a candidate whose candles can be read and suffice. -/
  metrics : Symbol → Option ScreenMetrics
  mentions : Option (Except PyError (Dict Symbol ℤ))
  /-- The time of a row that is written. -/
  writes : Symbol → Except PyError Time

/-- `WatchlistRefreshFailed`, by the part of the pass that raised. -/
inductive WatchlistRefreshFailed where
  | storageRead (err : PyError)
  | screenerPass (err : PyError)
  | entryWrite (err : PyError)
  deriving DecidableEq

structure WatchlistRefreshResult where
  symbols : List Symbol
  dynamic : List Symbol
  added : List Symbol
  expiredDeleted : ℕ
  candidatesEvaluated : ℕ
  deriving DecidableEq

namespace WatchlistManager

variable (cfg : WatchlistSettings) (input : RefreshInput)

/-- The liquid symbols that may be added, best volume first. -/
def liquid (volumes : Dict Symbol (Option ℚ)) (tradable : Option (List Symbol))
    (core held : List Symbol) : List (Symbol × ℚ) :=
  let excluded := (cfg.excludeSymbols ++ core ++ held).map upper
  ((filterByLiquidity volumes cfg.minQuoteVolume24h).filter fun pair =>
    upper pair.1 ∉ excluded ∧
      (tradable.all fun names => upper pair.1 ∈ names.map upper)).take cfg.maxCandidates

/-- `_screen`. -/
def screen (core held : List Symbol) : Except PyError (List ScreenedSymbol) := do
  let volumes ← input.quoteVolumes
  let tradable ← match input.tradable with
    | none => .ok none
    | some answer => answer.map some
  let triples := (liquid cfg volumes tradable core held).filterMap fun pair =>
    (input.metrics pair.1).map fun metrics => (pair.1, pair.2, metrics)
  return rankCandidates triples cfg.minDailyVolatility cfg.maxDailyVolatility

/-- `_prioritize_mentioned`: a count that fails keeps the order. -/
def prioritized (ranked : List ScreenedSymbol) : List ScreenedSymbol :=
  match input.mentions with
  | some (.ok mentions) => prioritizeMentioned ranked mentions cfg.minMentions
  | _ => ranked

/-- The loop over the candidates. The rows written before one fails stay. -/
def addCandidates (core : List Symbol) (expiresAt : Time) :
    List ScreenedSymbol → ℤ → List Symbol → List Symbol → WatchlistTable →
      Except WatchlistRefreshFailed (List Symbol × List Symbol) × WatchlistTable
  | [], _, dynamic, added, t => (.ok (dynamic, added), t)
  | candidate :: rest, slots, dynamic, added, t =>
      if slots ≤ 0 then (.ok (dynamic, added), t)
      else if candidate.symbol ∈ core ∨ candidate.symbol ∈ dynamic then
        addCandidates core expiresAt rest slots dynamic added t
      else
        match input.writes candidate.symbol with
        | .error err => (.error (.entryWrite err), t)
        | .ok now =>
            addCandidates core expiresAt rest (slots - 1) (dynamic ++ [candidate.symbol])
              (added ++ [candidate.symbol])
              (t.upsertWatchlistEntry candidate.symbol ⟨"screener", now, expiresAt, candidate⟩)

/-- The part of a pass after the entries were read. -/
def fill (core held dynamic : List Symbol) (deleted : ℕ) (t : WatchlistTable) :
    Except WatchlistRefreshFailed WatchlistRefreshResult × WatchlistTable :=
  match screen cfg input core held with
  | .error err => (.error (.screenerPass err), t)
  | .ok screened =>
      let ranked := prioritized cfg input screened
      let slots := cfg.maxDynamicSymbols - dynamic.length
      match addCandidates input core (input.now + cfg.ttl) ranked slots dynamic [] t with
      | (.error err, t) => (.error err, t)
      | (.ok (dynamic, added), t) =>
          (.ok ⟨(core ++ dynamic ++ held).eraseDups, dynamic, added, deleted, screened.length⟩, t)

/-- `refresh`. -/
def refresh (coreSymbols heldSymbols : List Symbol) (t : WatchlistTable) :
    Except WatchlistRefreshFailed WatchlistRefreshResult × WatchlistTable :=
  let core := coreSymbols.eraseDups
  let held := heldSymbols.eraseDups
  match input.deletes with
  | .error err => (.error (.storageRead err), t)
  | .ok () =>
      let (deleted, t) := t.deleteExpiredWatchlistEntries input.now
      match input.reads with
      | .error err => (.error (.storageRead err), t)
      | .ok () =>
          fill cfg input core held ((t.getActiveWatchlist input.now).map Prod.fst) deleted t

/-! ## What a pass lists -/

/-- The candidates that get a slot when every row can be written. -/
def picks (core : List Symbol) : List ScreenedSymbol → ℤ → List Symbol → List Symbol
  | [], _, _ => []
  | candidate :: rest, slots, dynamic =>
      if slots ≤ 0 then []
      else if candidate.symbol ∈ core ∨ candidate.symbol ∈ dynamic then
        picks core rest slots dynamic
      else candidate.symbol :: picks core rest (slots - 1) (dynamic ++ [candidate.symbol])

/-- The loop adds the picks in their order, or ends with the first row that is not written. -/
theorem addCandidates_cases (core : List Symbol) (expiresAt : Time)
    (ranked : List ScreenedSymbol) (slots : ℤ) (dynamic added : List Symbol) (t : WatchlistTable) :
    (∀ s ∈ picks core ranked slots dynamic, ∃ now, input.writes s = .ok now) ∧
        (addCandidates input core expiresAt ranked slots dynamic added t).1
          = .ok (dynamic ++ picks core ranked slots dynamic,
            added ++ picks core ranked slots dynamic) ∨
      (∃ s ∈ picks core ranked slots dynamic, ∃ err, input.writes s = .error err) ∧
        ∃ err, (addCandidates input core expiresAt ranked slots dynamic added t).1 = .error err := by
  induction ranked generalizing slots dynamic added t with
  | nil => exact Or.inl ⟨by simp [picks], by simp [picks, addCandidates]⟩
  | cons candidate rest ih =>
      unfold addCandidates picks
      by_cases hslots : slots ≤ 0
      · simp only [if_pos hslots]
        exact Or.inl ⟨by simp, by simp⟩
      · simp only [if_neg hslots]
        by_cases hlisted : candidate.symbol ∈ core ∨ candidate.symbol ∈ dynamic
        · simp only [if_pos hlisted]
          exact ih slots dynamic added t
        · simp only [if_neg hlisted]
          cases hwrite : input.writes candidate.symbol with
          | error err =>
              exact Or.inr ⟨⟨candidate.symbol, List.mem_cons_self, err, hwrite⟩, _, rfl⟩
          | ok now =>
              have hrest := ih (slots - 1) (dynamic ++ [candidate.symbol])
                (added ++ [candidate.symbol])
                (t.upsertWatchlistEntry candidate.symbol ⟨"screener", now, expiresAt, candidate⟩)
              rcases hrest with ⟨hall, hok⟩ | ⟨⟨s, hs, err, hs'⟩, hfails⟩
              · refine Or.inl ⟨?_, by simpa using hok⟩
                intro s hs
                rcases List.mem_cons.mp hs with rfl | hs
                · exact ⟨now, hwrite⟩
                · exact hall s hs
              · exact Or.inr ⟨⟨s, List.mem_cons_of_mem _ hs, err, hs'⟩, hfails⟩

/-- The symbols that keep their slot. -/
def active (t : WatchlistTable) : List Symbol := (t.getActiveWatchlist input.now).map Prod.fst

/-- The candidates a pass tries, in their order; none when the screener fails. -/
def candidates (core held : List Symbol) : List ScreenedSymbol :=
  match screen cfg input core.eraseDups held.eraseDups with
  | .error _ => []
  | .ok screened => prioritized cfg input screened

/-- The candidates a pass gives a slot. -/
def picked (core held : List Symbol) (t : WatchlistTable) : List Symbol :=
  picks core.eraseDups (candidates cfg input core held)
    (cfg.maxDynamicSymbols - (active input t).length) (active input t)

/-- Nothing the pass asks of the database and of the feed fails. -/
structure Completes (core held : List Symbol) (t : WatchlistTable) : Prop where
  deletes : input.deletes = .ok ()
  reads : input.reads = .ok ()
  screens : ∃ screened, screen cfg input core.eraseDups held.eraseDups = .ok screened
  writes : ∀ s ∈ picked cfg input core held t, ∃ now, input.writes s = .ok now

/-- After the entries were read, only the screener and the writes can fail. -/
theorem fill_cases (core held dynamic : List Symbol) (deleted : ℕ) (t : WatchlistTable) :
    (∃ screened r, screen cfg input core held = .ok screened ∧
        (∀ s ∈ picks core (prioritized cfg input screened)
          (cfg.maxDynamicSymbols - dynamic.length) dynamic, ∃ now, input.writes s = .ok now) ∧
        (fill cfg input core held dynamic deleted t).1 = .ok r ∧
        ∀ s, s ∈ r.symbols ↔ s ∈ core ∨ s ∈ dynamic ∨
          s ∈ picks core (prioritized cfg input screened)
            (cfg.maxDynamicSymbols - dynamic.length) dynamic ∨ s ∈ held) ∨
      (∃ err, (fill cfg input core held dynamic deleted t).1 = .error err) ∧
        ∀ screened, screen cfg input core held = .ok screened →
          ∃ s ∈ picks core (prioritized cfg input screened)
            (cfg.maxDynamicSymbols - dynamic.length) dynamic, ∃ err, input.writes s = .error err := by
  unfold fill
  cases hscreen : screen cfg input core held with
  | error err => exact Or.inr ⟨⟨_, rfl⟩, fun screened h => nomatch h⟩
  | ok screened =>
      dsimp only
      have hadd := addCandidates_cases input core (input.now + cfg.ttl)
        (prioritized cfg input screened) (cfg.maxDynamicSymbols - dynamic.length) dynamic [] t
      rcases hadd with ⟨hwrites, hok⟩ | ⟨hfails, err, herr⟩
      · left
        split
        · rename_i heq
          rw [heq] at hok
          cases hok
        · rename_i dynamic' added t' heq
          rw [heq] at hok
          obtain ⟨rfl, -⟩ := Prod.mk.inj (Except.ok.inj hok)
          refine ⟨screened, _, rfl, hwrites, rfl, fun s => ?_⟩
          simp only [List.mem_eraseDups, List.mem_append, or_assoc]
      · right
        constructor
        · split
          · exact ⟨_, rfl⟩
          · rename_i heq
            rw [heq] at herr
            cases herr
        · intro screened' h
          obtain rfl := Except.ok.inj h
          exact hfails

/-- A pass that completes lists the core symbols, the symbols that keep their slot, the candidates
that get one and the held symbols. Any other pass fails. -/
theorem refresh_cases (core held : List Symbol) (t : WatchlistTable) :
    (Completes cfg input core held t ∧ ∃ r, (refresh cfg input core held t).1 = .ok r ∧
        ∀ s, s ∈ r.symbols ↔ s ∈ core ∨ s ∈ active input t ∨ s ∈ picked cfg input core held t ∨
          s ∈ held) ∨
      (¬ Completes cfg input core held t ∧
        ∃ err, (refresh cfg input core held t).1 = .error err) := by
  unfold refresh
  dsimp only
  cases hdeletes : input.deletes with
  | error err => exact Or.inr ⟨fun h => (nomatch hdeletes.symm.trans h.deletes), _, rfl⟩
  | ok _ =>
      cases hreads : input.reads with
      | error err => exact Or.inr ⟨fun h => (nomatch hreads.symm.trans h.reads), _, rfl⟩
      | ok _ =>
          dsimp only
          rw [t.getActiveWatchlist_deleteExpired input.now]
          rcases fill_cases cfg input core.eraseDups held.eraseDups (active input t)
              (t.deleteExpiredWatchlistEntries input.now).1
              (t.deleteExpiredWatchlistEntries input.now).2 with
            ⟨screened, r, hscreen, hwrites, hok, hmem⟩ | ⟨herr, hfails⟩
          · have hcandidates : candidates cfg input core held = prioritized cfg input screened := by
              unfold candidates
              rw [hscreen]
            left
            refine ⟨⟨hdeletes, hreads, ⟨screened, hscreen⟩, ?_⟩, r, hok, fun s => ?_⟩
            · unfold picked
              rw [hcandidates]
              exact hwrites
            · unfold picked
              rw [hcandidates, hmem s, List.mem_eraseDups, List.mem_eraseDups]
          · refine Or.inr ⟨fun h => ?_, herr⟩
            obtain ⟨screened, hscreen⟩ := h.screens
            have hcandidates : candidates cfg input core held = prioritized cfg input screened := by
              unfold candidates
              rw [hscreen]
            obtain ⟨s, hs, err, hwrite⟩ := hfails screened hscreen
            obtain ⟨now, hnow⟩ := h.writes s (by unfold picked; rw [hcandidates]; exact hs)
            exact nomatch hwrite.symm.trans hnow

end WatchlistManager

end SmartyTrader
