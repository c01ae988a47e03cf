import SmartyTrader.Analysis.Screener

set_option autoImplicit false

/-! # Stored watchlist entries

The symbols the watchlist manager of one agent has added, at most one entry a symbol. An entry
carries the time it expires, and expired entries are deleted by the next refresh.
-/

namespace SmartyTrader

open Lib

/-- A row of `watchlist_entries`. -/
structure WatchlistEntryRow where
  source : String
  addedAt : Time
  expiresAt : Time
  /-- The ranking inputs the symbol was added on. -/
  info : ScreenedSymbol
  deriving DecidableEq

/-- The rows by symbol, in the order of their ids. -/
abbrev WatchlistTable := Dict Symbol WatchlistEntryRow

namespace WatchlistTable

/-- `upsert_watchlist_entry`: an entry that exists keeps its place and the time it was added. -/
def upsertWatchlistEntry (t : WatchlistTable) (symbol : Symbol) (row : WatchlistEntryRow) :
    WatchlistTable :=
  match t.get? symbol with
  | none => t.set symbol row
  | some old => t.set symbol { old with expiresAt := row.expiresAt, info := row.info }

/-- `get_active_watchlist`: the entries that have not expired, oldest added first. -/
def getActiveWatchlist (t : WatchlistTable) (now : Time) : List (Symbol × WatchlistEntryRow) :=
  sortBy (fun e => e.2.addedAt) (t.entries.filter (fun e => e.2.expiresAt > now))

/-- `delete_expired_watchlist_entries`, with the number of rows deleted. -/
def deleteExpiredWatchlistEntries (t : WatchlistTable) (now : Time) : ℕ × WatchlistTable :=
  ((t.entries.filter (fun e => e.2.expiresAt ≤ now)).length,
    ⟨t.entries.filter (fun e => ¬ e.2.expiresAt ≤ now),
      t.nodup.sublist ((List.filter_sublist).map Prod.fst)⟩)

variable (t : WatchlistTable)

theorem mem_getActiveWatchlist (now : Time) (symbol : Symbol) :
    symbol ∈ (t.getActiveWatchlist now).map Prod.fst ↔
      ∃ row, t.get? symbol = some row ∧ now < row.expiresAt := by
  unfold getActiveWatchlist
  simp only [List.mem_map, mem_sortBy, List.mem_filter, decide_eq_true_eq, Prod.exists]
  constructor
  · rintro ⟨s, row, ⟨hmem, hlive⟩, rfl⟩
    exact ⟨row, (t.mem_entries_iff s row).mp hmem, hlive⟩
  · rintro ⟨row, hget, hlive⟩
    exact ⟨symbol, row, ⟨(t.mem_entries_iff symbol row).mpr hget, hlive⟩, rfl⟩

/-- What is still active is not touched by the deletion. -/
theorem getActiveWatchlist_deleteExpired (now : Time) :
    (t.deleteExpiredWatchlistEntries now).2.getActiveWatchlist now = t.getActiveWatchlist now := by
  have hkeep : ∀ e : Symbol × WatchlistEntryRow,
      (decide (e.2.expiresAt > now) && decide (¬ e.2.expiresAt ≤ now))
        = decide (e.2.expiresAt > now) := by
    intro e
    simp
  unfold getActiveWatchlist deleteExpiredWatchlistEntries
  simp only [List.filter_filter, hkeep]

end WatchlistTable

end SmartyTrader
