import SmartyTrader.Core.Models
import SmartyTrader.Lib.Dict
import SmartyTrader.Lib.StableSort
import Mathlib.Data.Prod.Lex
import Mathlib.Data.String.Basic

set_option autoImplicit false

/-! # The market screener

A liquidity floor, a volatility band and a rank by momentum over the symbols a feed quotes. The
metrics of a symbol come from its closed daily candles and are taken as given here.
-/

namespace SmartyTrader

open Lib

/-- Metrics of one symbol from daily candles. -/
structure ScreenMetrics where
  momentum : ℚ
  dailyVolatility : ℚ
  volumeSpike : Option ℚ
  deriving DecidableEq

/-- A candidate that passed every filter. -/
structure ScreenedSymbol where
  symbol : Symbol
  quoteVolume24h : ℚ
  metrics : ScreenMetrics
  rank : ℕ
  newsMentions : ℤ
  deriving DecidableEq

/-- `filter_by_liquidity`: largest volume first, ties by symbol. -/
def filterByLiquidity (quoteVolumes : Dict Symbol (Option ℚ)) (minQuoteVolume24h : ℚ) :
    List (Symbol × ℚ) :=
  let kept := quoteVolumes.entries.filterMap fun entry =>
    match entry.2 with
    | none => none
    | some volume =>
        if volume > 0 ∧ volume ≥ minQuoteVolume24h then some (entry.1, volume) else none
  sortBy (fun pair => toLex (-pair.2, pair.1)) kept

/-- `rank = 1, 2, …` in the order of the list. -/
def numbered : ℕ → List ScreenedSymbol → List ScreenedSymbol
  | _, [] => []
  | position, screened :: rest =>
      { screened with rank := position } :: numbered (position + 1) rest

/-- `rank_candidates`: best momentum first, ties by volume and then by symbol. -/
def rankCandidates (candidates : List (Symbol × ℚ × ScreenMetrics)) (minDailyVolatility : ℚ)
    (maxDailyVolatility : Option ℚ) : List ScreenedSymbol :=
  let passed := candidates.filterMap fun candidate =>
    let metrics := candidate.2.2
    if metrics.dailyVolatility < minDailyVolatility then none
    else if ∃ cap ∈ maxDailyVolatility, metrics.dailyVolatility > cap then none
    else some ⟨candidate.1, candidate.2.1, metrics, 0, 0⟩
  numbered 1 (sortBy
    (fun c => toLex (-c.metrics.momentum, toLex (-c.quoteVolume24h, c.symbol))) passed)

/-- `prioritize_mentioned`: what the news mentions often enough moves ahead, in the order it has. -/
def prioritizeMentioned (ranked : List ScreenedSymbol) (mentions : Dict Symbol ℤ)
    (minMentions : ℤ) : List ScreenedSymbol :=
  sortBy (fun c => decide (c.newsMentions < minMentions))
    (ranked.map fun c => { c with newsMentions := (mentions.get? c.symbol).getD 0 })

end SmartyTrader
