import SmartyTrader.Core.Models
import SmartyTrader.Lib.Dict
import SmartyTrader.Lib.Paging
import SmartyTrader.Lib.StableSort

set_option autoImplicit false

/-! # Paged candle history

`fetch_history` asks the exchange for candles from a cursor on, page by page, keeps those of the
range under their timestamps and returns them sorted. Timestamps are milliseconds since the epoch;
the bounds of the range are times, cut to whole milliseconds.
-/

namespace SmartyTrader

open Lib

/-! ## The source -/

/-- A row `[ts_ms, open, high, low, close, volume]`. -/
structure OhlcvRow where
  ts : Option ℤ
  openPrice : ℚ
  high : ℚ
  low : ℚ
  close : ℚ
  volume : ℚ
  deriving DecidableEq

/-- `fetch_ohlcv` for one symbol and timeframe, by `since` and `limit`. -/
abbrev OhlcvClient := ℤ → ℕ → Except PyError (List OhlcvRow)

namespace CcxtProvider

/-- `_to_candle`. A timestamp of zero is false, and the candle then has none. -/
def toCandle (row : OhlcvRow) : OHLCV where
  timestamp := row.ts.bind fun tsMs => if tsMs = 0 then none else some (tsMs * 1000)
  openPrice := row.openPrice
  high := row.high
  low := row.low
  close := row.close
  volume := row.volume

/-- The body of the loop over the rows of a page. -/
def record (startMs endMs : ℤ) (byTs : Dict ℤ OHLCV) (row : OhlcvRow) : Dict ℤ OHLCV :=
  let candle := toCandle row
  match row.ts, candle.timestamp with
  | some ts, some _ => if startMs ≤ ts ∧ ts ≤ endMs then byTs.set ts candle else byTs
  | _, _ => byTs

/-- `for _ in range(max_pages)`, with the pages that are still allowed. The page cap only logs. -/
def historyLoop (client : OhlcvClient) (pageSize : ℕ) (startMs endMs : ℤ) :
    ℕ → ℤ → Dict ℤ OHLCV → Except PyError (Dict ℤ OHLCV)
  | 0, _, byTs => .ok byTs
  | pagesLeft + 1, sinceMs, byTs => do
      let rows ← client sinceMs pageSize
      match rows.getLast? with
      | none => return byTs
      | some lastRow =>
          let byTs := rows.foldl (record startMs endMs) byTs
          match lastRow.ts with
          | none => .error (.raised "int() argument must be a number, not 'NoneType'")
          | some lastTs =>
              if lastTs ≥ endMs ∨ lastTs ≤ sinceMs then return byTs
              else historyLoop client pageSize startMs endMs pagesLeft (lastTs + 1) byTs

/-- `int(time.timestamp() * 1000)`, which cuts towards zero. It is exact here; the float product of
the code may fall short of a whole millisecond. -/
def toMs (time : Time) : ℤ := time.tdiv 1000

/-- `fetch_history`. -/
def fetchHistory (client : OhlcvClient) (start stop : Time) (pageSize maxPages : ℕ) :
    Except PyError (List OHLCV) := do
  let byTs ← historyLoop client pageSize (toMs start) (toMs stop) maxPages (toMs start) Dict.empty
  return (sortBy Prod.fst byTs.entries).map Prod.snd

end CcxtProvider

/-! ## A venue -/

/-- A candle of the venue, with its timestamp in milliseconds since the epoch. -/
structure VenueCandle where
  ts : ℕ
  openPrice : ℚ
  high : ℚ
  low : ℚ
  close : ℚ
  volume : ℚ
  deriving DecidableEq

namespace VenueCandle

/-- The candle as a row of an answer. -/
def row (c : VenueCandle) : OhlcvRow := ⟨some c.ts, c.openPrice, c.high, c.low, c.close, c.volume⟩

/-- The candle as the bot should see it. -/
def bar (c : VenueCandle) : OHLCV :=
  ⟨some (c.ts * 1000), c.openPrice, c.high, c.low, c.close, c.volume⟩

def key (c : VenueCandle) : ℤ := c.ts

/-- The candle lies in the range. -/
def InRange (start stop : ℤ) (c : VenueCandle) : Prop :=
  start ≤ c.ts * 1000 ∧ c.ts * 1000 ≤ stop

/-- The candle lies in the range of whole milliseconds that the code works with. -/
def InMs (start stop : ℤ) (c : VenueCandle) : Prop :=
  CcxtProvider.toMs start ≤ c.ts ∧ c.ts ≤ CcxtProvider.toMs stop

instance (start stop : ℤ) (c : VenueCandle) : Decidable (c.InRange start stop) :=
  inferInstanceAs (Decidable (_ ∧ _))

instance (start stop : ℤ) (c : VenueCandle) : Decidable (c.InMs start stop) :=
  inferInstanceAs (Decidable (_ ∧ _))

end VenueCandle

/-- A venue with its candles in ascending order and a page size of its own. -/
structure CandleVenue where
  candles : List VenueCandle
  ascending : candles.Pairwise fun c d => c.key < d.key
  cap : ℕ
  cap_pos : 1 ≤ cap

namespace CandleVenue

/-- The candles at or after `since`. -/
def since (v : CandleVenue) (sinceMs : ℤ) : List VenueCandle :=
  v.candles.filter fun c => sinceMs ≤ c.key

/-- The answer to a request: the first candles at or after `since`. -/
def fetchOhlcv (v : CandleVenue) : OhlcvClient := fun sinceMs limit =>
  .ok (((v.since sinceMs).take (min limit v.cap)).map VenueCandle.row)

/-- The candles of the range, in the milliseconds the code works with. -/
def inMs (v : CandleVenue) (start stop : ℤ) : List VenueCandle :=
  v.candles.filter fun c => c.InMs start stop

/-- What the history of the range is. -/
def history (v : CandleVenue) (start stop : ℤ) : List OHLCV :=
  (v.candles.filter fun c => c.InRange start stop).map VenueCandle.bar

/-- The range fits within the pages that the loop may ask for. -/
def Fits (v : CandleVenue) (start stop : ℤ) (pageSize maxPages : ℕ) : Prop :=
  (v.inMs start stop).length ≤ maxPages * min pageSize v.cap

/-- The ranges that are read completely. `epoch`: no candle of the range lies at timestamp zero.
`cut`: cutting the start to whole milliseconds takes no further candle in. `progress`: pages have
room for two candles, or no candle but the last lies exactly where the loop asks from. -/
structure Readable (v : CandleVenue) (start stop : ℤ) (pageSize : ℕ) : Prop where
  epoch : ∀ c ∈ v.candles, c.InRange start stop → c.ts ≠ 0
  cut : ∀ c ∈ v.inMs start stop, c.ts ≠ 0 → start ≤ c.ts * 1000
  progress : 2 ≤ min pageSize v.cap ∨
    Paging.NoStall VenueCandle.key (CcxtProvider.toMs start) (v.inMs start stop)

variable (v : CandleVenue) (start stop : ℤ) (pageSize maxPages : ℕ)

/-- The candles that the loop reads. -/
def readCandles : List VenueCandle :=
  Paging.pages VenueCandle.key (min pageSize v.cap) (CcxtProvider.toMs stop) maxPages
    (CcxtProvider.toMs start) (v.since (CcxtProvider.toMs start))

/-- A candle that is read is kept if it lies in the range of milliseconds and not at zero. -/
def Kept (c : VenueCandle) : Prop := c.InMs start stop ∧ c.ts ≠ 0

instance (c : VenueCandle) : Decidable (Kept start stop c) := inferInstanceAs (Decidable (_ ∧ _))

variable {v start stop pageSize maxPages}

/-! ## What the loop collects -/

theorem ascending_since (sinceMs : ℤ) : Paging.Ascending VenueCandle.key (v.since sinceMs) :=
  v.ascending.sublist List.filter_sublist

/-- The rows after a page are those at or after its last timestamp plus one. -/
theorem since_behind {k : ℕ} {sinceMs : ℤ} {last : VenueCandle}
    (hlast : ((v.since sinceMs).take k).getLast? = some last) :
    v.since (last.key + 1) = (v.since sinceMs).drop k := by
  rw [← Paging.filter_behind (ascending_since sinceMs) hlast]
  unfold since
  rw [List.filter_filter]
  apply List.filter_congr
  intro c _
  have hmem : last ∈ v.since sinceMs := List.mem_of_mem_take (List.mem_of_getLast? hlast)
  have hge := of_decide_eq_true (List.mem_filter.mp hmem).2
  rw [eq_comm, Bool.and_eq_left_iff_imp]
  intro hc
  have := of_decide_eq_true hc
  exact decide_eq_true (by omega)

theorem historyLoop_eq (n : ℕ) (sinceMs : ℤ) (byTs : Dict ℤ OHLCV) :
    CcxtProvider.historyLoop v.fetchOhlcv pageSize (CcxtProvider.toMs start)
        (CcxtProvider.toMs stop) n sinceMs byTs =
      .ok (((Paging.pages VenueCandle.key (min pageSize v.cap) (CcxtProvider.toMs stop) n sinceMs
        (v.since sinceMs)).map VenueCandle.row).foldl
          (CcxtProvider.record (CcxtProvider.toMs start) (CcxtProvider.toMs stop)) byTs) := by
  induction n generalizing sinceMs byTs with
  | zero => rfl
  | succ n ih =>
      unfold CcxtProvider.historyLoop Paging.pages
      simp only [fetchOhlcv, bind, Except.bind, List.getLast?_map]
      cases hlast : ((v.since sinceMs).take (min pageSize v.cap)).getLast? with
      | none => rfl
      | some last =>
          simp only [Option.map_some, VenueCandle.row, pure, Except.pure]
          have hkey : VenueCandle.key last = (last.ts : ℤ) := rfl
          by_cases hstop : CcxtProvider.toMs stop ≤ last.key ∨ last.key ≤ sinceMs
          · rw [if_pos hstop, if_pos (by simpa [hkey] using hstop), List.append_nil]
          · rw [if_neg hstop, if_neg (by simpa [hkey] using hstop), List.map_append,
              List.foldl_append]
            have hnext := ih (last.key + 1)
              ((((v.since sinceMs).take (min pageSize v.cap)).map VenueCandle.row).foldl
                (CcxtProvider.record (CcxtProvider.toMs start) (CcxtProvider.toMs stop)) byTs)
            rw [since_behind hlast] at hnext
            exact hnext

theorem record_row (c : VenueCandle) (byTs : Dict ℤ OHLCV) :
    CcxtProvider.record (CcxtProvider.toMs start) (CcxtProvider.toMs stop) byTs c.row =
      if Kept start stop c then byTs.set c.key c.bar else byTs := by
  by_cases hzero : c.ts = 0
  · have hnot : ¬ Kept start stop c := fun h => h.2 hzero
    rw [if_neg hnot]
    simp [CcxtProvider.record, CcxtProvider.toCandle, VenueCandle.row, hzero]
  · have hkept : Kept start stop c ↔ c.InMs start stop := and_iff_left hzero
    simp [CcxtProvider.record, CcxtProvider.toCandle, VenueCandle.row, hzero, hkept,
      VenueCandle.InMs, VenueCandle.key, VenueCandle.bar]

/-- Candles in ascending order go into the dictionary in their order. -/
theorem entries_foldl_record (cs : List VenueCandle) (byTs : Dict ℤ OHLCV)
    (hasc : Paging.Ascending VenueCandle.key cs)
    (hnew : ∀ c ∈ cs, ∀ j ∈ byTs.keys, j < c.key) :
    ((cs.map VenueCandle.row).foldl
        (CcxtProvider.record (CcxtProvider.toMs start) (CcxtProvider.toMs stop)) byTs).entries =
      byTs.entries ++ (cs.filter fun c => Kept start stop c).map fun c => (c.key, c.bar) := by
  induction cs generalizing byTs with
  | nil => simp
  | cons c cs ih =>
      have hlater : ∀ d ∈ cs, c.key < d.key := fun d hd => List.rel_of_pairwise_cons hasc hd
      have hrest : ∀ d ∈ cs, ∀ j ∈ byTs.keys, j < d.key :=
        fun d hd => hnew d (List.mem_cons_of_mem _ hd)
      rw [List.map_cons, List.foldl_cons, record_row]
      by_cases hkept : Kept start stop c
      · have hnone : byTs.get? c.key = none := by
          by_contra hsome
          have := hnew c List.mem_cons_self _ ((Dict.mem_keys_iff_ne_none _ _).mpr hsome)
          omega
        rw [if_pos hkept, ih _ (List.Pairwise.of_cons hasc), Dict.entries_set_of_none _ _ _ hnone,
          List.filter_cons_of_pos (by simpa using hkept), List.map_cons, List.append_assoc]
        · rfl
        · intro d hd j hj
          rcases (Dict.mem_keys_set _ _ _ _).mp hj with rfl | hj
          · exact hlater d hd
          · exact hrest d hd j hj
      · rw [if_neg hkept, ih _ (List.Pairwise.of_cons hasc) hrest,
          List.filter_cons_of_neg (by simpa using hkept)]

theorem readCandles_front :
    v.readCandles start stop pageSize maxPages <+: v.since (CcxtProvider.toMs start) :=
  Paging.pages_prefix _ _ _ _ _

/-- The history is what was read and kept, in ascending order. -/
theorem fetchHistory_eq :
    CcxtProvider.fetchHistory v.fetchOhlcv start stop pageSize maxPages =
      .ok (((v.readCandles start stop pageSize maxPages).filter fun c => Kept start stop c).map
        VenueCandle.bar) := by
  have hread : Paging.Ascending VenueCandle.key (v.readCandles start stop pageSize maxPages) :=
    (ascending_since _).sublist readCandles_front.sublist
  have hentries := @entries_foldl_record start stop
    (v.readCandles start stop pageSize maxPages) Dict.empty hread (by intro _ _ j hj; cases hj)
  rw [Dict.entries_empty, List.nil_append] at hentries
  unfold CcxtProvider.fetchHistory
  rw [historyLoop_eq]
  simp only [bind, Except.bind, pure, Except.pure]
  have hsorted : ((((v.readCandles start stop pageSize maxPages).filter
      fun c => Kept start stop c)).map fun c => (c.key, c.bar)).Pairwise
        (fun a b => a.1 ≤ b.1) := by
    apply List.pairwise_map.mpr
    exact (hread.sublist List.filter_sublist).imp fun h => le_of_lt h
  unfold readCandles at hentries hsorted
  rw [hentries, sortBy, List.Pairwise.insertionSort_eq hsorted, List.map_map]
  rfl

/-! ## Complete histories -/

theorem toMs_of_nonneg {time : ℤ} (h : 0 ≤ time) : CcxtProvider.toMs time = time / 1000 :=
  Int.tdiv_eq_ediv_of_nonneg h

theorem toMs_of_neg {time : ℤ} (h : time < 0) :
    CcxtProvider.toMs time = -(-time / 1000) := by
  unfold CcxtProvider.toMs
  rw [← Int.tdiv_eq_ediv_of_nonneg (by omega), Int.neg_tdiv, neg_neg]

/-- Every candle of the range lies in the range of milliseconds. -/
theorem inMs_of_inRange {c : VenueCandle} (h : c.InRange start stop) : c.InMs start stop := by
  obtain ⟨hlow, hhigh⟩ := h
  have hstop : 0 ≤ stop := by omega
  unfold VenueCandle.InMs
  rw [toMs_of_nonneg hstop]
  constructor
  · rcases lt_or_ge start 0 with hneg | hpos
    · rw [toMs_of_neg hneg]
      omega
    · rw [toMs_of_nonneg hpos]
      omega
  · omega

/-- A candle of the range of milliseconds that is not at zero ends before the stop. -/
theorem le_stop_of_inMs {c : VenueCandle} (h : c.InMs start stop) (hzero : c.ts ≠ 0) :
    (c.ts : ℤ) * 1000 ≤ stop := by
  have hhigh := h.2
  rcases lt_or_ge stop 0 with hneg | hpos
  · rw [toMs_of_neg hneg] at hhigh
    omega
  · rw [toMs_of_nonneg hpos] at hhigh
    omega

/-- Only a candle in the very millisecond that the start is cut to can lie before the start. -/
theorem key_eq_of_before {c : VenueCandle} (h : c.InMs start stop) (hbefore : c.ts * 1000 < start) :
    c.key = CcxtProvider.toMs start := by
  have hlow := h.1
  have hpos : 0 ≤ start := by omega
  show (c.ts : ℤ) = _
  rw [toMs_of_nonneg hpos] at hlow ⊢
  omega

theorem mem_inMs {c : VenueCandle} :
    c ∈ v.inMs start stop ↔ c ∈ v.candles ∧ c.InMs start stop := by
  simp [inMs]

/-- Of the candles at or after the start, the range of milliseconds holds those up to the stop. -/
theorem filter_since :
    ((v.since (CcxtProvider.toMs start)).filter fun c => c.key ≤ CcxtProvider.toMs stop) =
      v.inMs start stop := by
  unfold since inMs
  rw [List.filter_filter]
  apply List.filter_congr
  intro c _
  rw [Bool.and_comm, ← Bool.decide_and]
  rfl

theorem mem_readCandles_iff (hread : v.Readable start stop pageSize) (hpage : 1 ≤ pageSize)
    (hfits : v.Fits start stop pageSize maxPages) {c : VenueCandle} (hc : c ∈ v.inMs start stop) :
    c ∈ v.readCandles start stop pageSize maxPages := by
  obtain ⟨hmem, hlow, hhigh⟩ := mem_inMs.mp hc
  apply Paging.mem_pages (ascending_since _)
  · intro d hd
    exact of_decide_eq_true (List.mem_filter.mp hd).2
  · exact Nat.le_min.mpr ⟨hpage, v.cap_pos⟩
  · rw [filter_since]
    exact hfits
  · rw [filter_since]
    exact hread.progress
  · exact List.mem_filter.mpr ⟨hmem, decide_eq_true hlow⟩
  · exact hhigh

theorem bar_injective : Function.Injective VenueCandle.bar := by
  intro c d h
  cases c
  cases d
  simp only [VenueCandle.bar, OHLCV.mk.injEq, Option.some.injEq] at h
  obtain ⟨hts, rfl, rfl, rfl, rfl, rfl⟩ := h
  have hts : (_ : ℤ) * 1000 = _ * 1000 := hts
  congr 1
  omega

/-- Two selections of an ascending list are the same list when they hold the same candles. -/
theorem eq_of_mem_iff {xs ys : List VenueCandle} (hx : Paging.Ascending VenueCandle.key xs)
    (hy : Paging.Ascending VenueCandle.key ys) (h : ∀ c, c ∈ xs ↔ c ∈ ys) : xs = ys := by
  have hperm : xs.Perm ys := by
    apply (List.perm_ext_iff_of_nodup _ _).mpr h
    · exact hx.imp fun hlt heq => by rw [heq] at hlt; exact lt_irrefl _ hlt
    · exact hy.imp fun hlt heq => by rw [heq] at hlt; exact lt_irrefl _ hlt
  exact hperm.eq_of_pairwise (fun a b _ _ hab hba => absurd hab (lt_asymm hba)) hx hy

/-- The history is complete exactly when what is kept of what is read is the range. -/
theorem history_eq_iff :
    CcxtProvider.fetchHistory v.fetchOhlcv start stop pageSize maxPages =
        .ok (v.history start stop) ↔
      ∀ c, (c ∈ v.readCandles start stop pageSize maxPages ∧ Kept start stop c) ↔
        (c ∈ v.candles ∧ c.InRange start stop) := by
  have hread : Paging.Ascending VenueCandle.key (v.readCandles start stop pageSize maxPages) :=
    (ascending_since _).sublist readCandles_front.sublist
  rw [fetchHistory_eq, Except.ok.injEq, history, bar_injective.list_map.eq_iff]
  constructor
  · intro h c
    have := congrArg (c ∈ ·) h
    simpa using this
  · intro h
    apply eq_of_mem_iff (hread.sublist List.filter_sublist) (v.ascending.sublist List.filter_sublist)
    intro c
    simpa using h c

/-- A candle at the start is read with the first page. -/
theorem first_read (hfits : v.Fits start stop pageSize maxPages) (hpage : 1 ≤ pageSize)
    {c : VenueCandle} (hc : c ∈ v.inMs start stop) (hkey : c.key = CcxtProvider.toMs start) :
    c ∈ v.readCandles start stop pageSize maxPages := by
  obtain ⟨hmem, hlow, hhigh⟩ := mem_inMs.mp hc
  have hroom : 1 ≤ maxPages := by
    have hsome : 0 < (v.inMs start stop).length := List.length_pos_of_mem hc
    unfold Fits at hfits
    by_contra hnone
    have hzero : maxPages = 0 := by omega
    rw [hzero, Nat.zero_mul] at hfits
    omega
  obtain ⟨n, rfl⟩ := Nat.exists_eq_add_of_le' hroom
  obtain ⟨k, hk⟩ := Nat.exists_eq_add_of_le' (Nat.le_min.mpr ⟨hpage, v.cap_pos⟩)
  have hsince : c ∈ v.since (CcxtProvider.toMs start) :=
    List.mem_filter.mpr ⟨hmem, decide_eq_true hlow⟩
  unfold readCandles
  rw [hk]
  cases hlist : v.since (CcxtProvider.toMs start) with
  | nil =>
      rw [hlist] at hsince
      cases hsince
  | cons d rest =>
      have hfirst : c = d := by
        rw [hlist] at hsince
        rcases List.mem_cons.mp hsince with rfl | htail
        · rfl
        · have hlt : d.key < c.key :=
            (List.pairwise_cons.mp (hlist ▸ ascending_since _)).1 c htail
          have hd : d ∈ v.since (CcxtProvider.toMs start) := hlist ▸ List.mem_cons_self
          have := of_decide_eq_true (List.mem_filter.mp hd).2
          omega
      subst hfirst
      apply (Paging.mem_pages_head _ _ _ _)

/-- For every venue and range that fits within the pages, `fetch_history` returns exactly the
venue's candles of the range, sorted and each once, if and only if no candle of the range lies at
timestamp zero, none lies between the start and the millisecond it is cut to, and pages have room
for two candles or no candle but the last lies exactly where the loop asks from. -/
theorem history_complete_iff (v : CandleVenue) (start stop : ℤ) (pageSize maxPages : ℕ)
    (hpage : 1 ≤ pageSize) (hfits : v.Fits start stop pageSize maxPages) :
    CcxtProvider.fetchHistory v.fetchOhlcv start stop pageSize maxPages =
        .ok (v.history start stop) ↔ v.Readable start stop pageSize := by
  rw [history_eq_iff]
  constructor
  · intro h
    have hcut : ∀ c ∈ v.inMs start stop, c.ts ≠ 0 → start ≤ c.ts * 1000 := by
      intro c hc hzero
      by_contra hbefore
      obtain ⟨hmem, hms⟩ := mem_inMs.mp hc
      have hkey := key_eq_of_before hms (not_le.mp hbefore)
      -- the loop always reads the first candle it asks for
      have hread := first_read hfits hpage hc hkey
      exact hbefore ((h c).mp ⟨hread, hms, hzero⟩).2.1
    refine ⟨?_, hcut, ?_⟩
    · intro c hc hrange
      exact ((h c).mpr ⟨hc, hrange⟩).2.2
    · by_contra hno
      rw [not_or] at hno
      obtain ⟨hsmall, hstall⟩ := hno
      have hone : min pageSize v.cap = 1 := by
        have := Nat.le_min.mpr ⟨hpage, v.cap_pos⟩
        omega
      rw [← filter_since] at hstall
      obtain ⟨c, hc, d, hd, hcd, hstop, hnot⟩ := Paging.exists_not_mem_pages (n := maxPages)
        (ascending_since _) hstall
      have hdms : d.InMs start stop := ⟨of_decide_eq_true (List.mem_filter.mp hd).2, hstop⟩
      have hdmem : d ∈ v.candles := (List.mem_filter.mp hd).1
      have hdzero : d.ts ≠ 0 := by
        have : (c.ts : ℤ) < d.ts := hcd
        omega
      have hin := (h d).mpr
        ⟨hdmem, hcut d (mem_inMs.mpr ⟨hdmem, hdms⟩) hdzero, le_stop_of_inMs hdms hdzero⟩
      unfold readCandles at hin
      rw [hone] at hin
      exact hnot hin.1
  · intro hread c
    constructor
    · rintro ⟨hc, hms, hzero⟩
      have hmem : c ∈ v.candles := (List.mem_filter.mp (readCandles_front.subset hc)).1
      exact ⟨hmem, hread.cut c (mem_inMs.mpr ⟨hmem, hms⟩) hzero, le_stop_of_inMs hms hzero⟩
    · rintro ⟨hmem, hrange⟩
      have hms := inMs_of_inRange hrange
      exact ⟨mem_readCandles_iff hread hpage hfits (mem_inMs.mpr ⟨hmem, hms⟩), hms,
        hread.epoch c hmem hrange⟩

/-- A venue with two candles, one second after the epoch and one second later. -/
def twoCandles (cap : ℕ) (h : 1 ≤ cap) : CandleVenue where
  candles := [⟨1000, 1, 2, 1, 2, 5⟩, ⟨2000, 2, 3, 2, 3, 5⟩]
  ascending := by decide
  cap := cap
  cap_pos := h

theorem history_complete_iff_twoCandles :
    CcxtProvider.fetchHistory (twoCandles 500 (by decide)).fetchOhlcv 1000000 3000000 500 40 =
        .ok ((twoCandles 500 (by decide)).history 1000000 3000000) ↔
      (twoCandles 500 (by decide)).Readable 1000000 3000000 500 :=
  history_complete_iff (twoCandles 500 (by decide)) 1000000 3000000 500 40 (by decide)
    (by unfold Fits; decide)

/-- Pages of one candle, and a candle exactly at the start: the second candle is never asked for. -/
theorem history_stalls_at_start :
    CcxtProvider.fetchHistory (twoCandles 500 (by decide)).fetchOhlcv 1000000 3000000 1 40 ≠
      .ok ((twoCandles 500 (by decide)).history 1000000 3000000) := by
  intro h
  have hlength := congrArg (Except.map List.length) h
  revert hlength
  decide +kernel

end CandleVenue

end SmartyTrader
