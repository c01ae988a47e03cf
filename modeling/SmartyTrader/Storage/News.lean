import Mathlib.Data.String.Basic
import SmartyTrader.Core.JsonModels
import SmartyTrader.Core.Models
import SmartyTrader.Core.ReasoningTags
import SmartyTrader.Lib.Dict
import SmartyTrader.Lib.Like
import SmartyTrader.Lib.Runs
import SmartyTrader.Lib.StableSort

set_option autoImplicit false

/-! # Stored news

News items are stored once per agent and article, with the traded symbols they were matched to as
the JSON text of a sorted list. The read for a symbol asks the database for the texts that contain
the symbol in its quotes. `news_for_symbol` says what that finds: the items as they were when their
article was first stored, if one of their symbols is the symbol, up to case.

Hashing an article is left to `digest`, and items of one time come in the order of the table.
-/

namespace SmartyTrader

open Lib

/-! ## The table -/

/-- An item of a feed with the symbols it was matched to. -/
structure MatchedNews where
  source : String
  url : String
  title : String
  text : String
  publishedAt : Time
  symbols : List Symbol
  deriving DecidableEq

structure NewsItemRow (κ : Type) where
  agent : String
  source : String
  url : String
  title : String
  body : String
  publishedAt : Time
  symbolsJson : Text
  contentHash : κ

/-- A call of `store_news_items` on the storage of an agent. -/
structure NewsBatch where
  agent : String
  items : List MatchedNews

section Digest

variable {κ : Type} [DecidableEq κ] (digest : Text → Text → κ)

/-- `str.strip`. -/
def stripped (s : String) : Text := CharTable.trim isSpace s.toList

/-- `content_hash`: what `digest` makes of the address and the title, which ignores case. -/
def MatchedNews.contentHash (item : MatchedNews) : κ :=
  digest (stripped item.url) (stripped item.title)

/-- `json.dumps(sorted(set(symbols)))`. -/
def symbolsJson (symbols : List Symbol) : Text :=
  Json.dump .python (strsValue (sortBy id symbols.dedup))

def MatchedNews.row (agent : String) (item : MatchedNews) : NewsItemRow κ where
  agent := agent
  source := item.source
  url := item.url
  title := item.title
  body := item.text
  publishedAt := item.publishedAt
  symbolsJson := symbolsJson item.symbols
  contentHash := item.contentHash digest

/-- The batch by hash: the last item of an article, at the place of the first. -/
def byHash (items : List MatchedNews) : Dict κ MatchedNews :=
  items.foldl (fun d item => d.set (item.contentHash digest) item) Dict.empty

/-- The items of a batch of which the article is not known yet. -/
def unknown (known : List κ) (items : List MatchedNews) : List MatchedNews :=
  ((byHash digest items).entries.filter fun e => e.1 ∉ known).map Prod.snd

/-- `store_news_items`. -/
def storeNewsItems (batch : NewsBatch) (table : List (NewsItemRow κ)) : List (NewsItemRow κ) :=
  let known := (table.filter fun row => row.agent = batch.agent).map NewsItemRow.contentHash
  table ++ (unknown digest known batch.items).map (MatchedNews.row digest batch.agent)

/-- `_news_from_row`, `none` where the text is not a list of strings. -/
def newsFromRow (row : NewsItemRow κ) : Option MatchedNews :=
  ((Json.loads row.symbolsJson).bind readStrs).map fun symbols =>
    { source := row.source
      url := row.url
      title := row.title
      text := row.body
      publishedAt := row.publishedAt
      symbols := symbols }

/-- `get_news_for_symbol`. -/
def getNewsForSymbol (agent : String) (symbol : Symbol) (since : Time) (limit : ℤ)
    (table : List (NewsItemRow κ)) : Option (List MatchedNews) :=
  let found := table.filter fun row => since < row.publishedAt ∧
    like (containing (Json.dump .python (strValue symbol))) row.symbolsJson ∧ row.agent = agent
  ((sortBy (fun row => OrderDual.toDual row.publishedAt) found).take limit.toNat).mapM newsFromRow

omit [DecidableEq κ] in
theorem mem_getNewsForSymbol {agent : String} {symbol : Symbol} {since : Time} {limit : ℤ}
    {table : List (NewsItemRow κ)} {items : List MatchedNews}
    (h : getNewsForSymbol agent symbol since limit table = some items) :
    ∀ i ∈ items, ∃ row ∈ table, row.agent = agent ∧ since < row.publishedAt ∧
      like (containing (Json.dump .python (strValue symbol))) row.symbolsJson = true ∧
        newsFromRow row = some i := by
  intro i hi
  obtain ⟨row, hrow, hread⟩ := mem_of_mapM h i hi
  have hfound := (mem_sortBy _).mp (List.mem_of_mem_take hrow)
  obtain ⟨hmem, hcond⟩ := List.mem_filter.mp hfound
  obtain ⟨hsince, hlike, hagent⟩ := of_decide_eq_true hcond
  exact ⟨row, hmem, hagent, hsince, hlike, hread⟩

omit [DecidableEq κ] in
/-- No more items than the limit. -/
theorem length_getNewsForSymbol {agent : String} {symbol : Symbol} {since : Time} {limit : ℤ}
    {table : List (NewsItemRow κ)} {items : List MatchedNews}
    (h : getNewsForSymbol agent symbol since limit table = some items) :
    items.length ≤ limit.toNat := by
  rw [← length_of_mapM h]
  exact List.length_take_le _ _

/-! ## What is known of an article -/

/-- The items that an agent's table keeps: of each article those of the first batch with it. -/
def firstStored (agent : String) (batches : List NewsBatch) : List MatchedNews :=
  Lib.run (fun batch kept => if batch.agent = agent then
    kept ++ unknown digest (kept.map (MatchedNews.contentHash digest)) batch.items else kept)
    batches []

end Digest

/-! ## Searching the texts -/

/-- A character that JSON writes as it is, and no space. -/
def PlainChar (c : Char) : Prop := 0x21 ≤ c.toNat ∧ c.toNat ≤ 0x7E ∧ c ≠ '"' ∧ c ≠ '\\'

/-- Symbols as they are written: letters, digits, a slash or other signs. -/
def PlainSymbol (s : Symbol) : Prop := ∀ c ∈ s.toList, PlainChar c

theorem unitText_plain {c : Char} (hc : PlainChar c) :
    Json.unitText .python c.toNat = [c] := by
  obtain ⟨hlow, hhigh, hquote, hslash⟩ := hc
  have hshort : Json.shortEscape c.toNat = none := by
    have hne {n : ℕ} {d : Char} (hd : d.toNat = n) (hcd : c ≠ d) : c.toNat ≠ n := by
      rintro rfl
      exact hcd (Char.toNat_inj.mp hd.symm)
    have h34 : c.toNat ≠ 34 := hne rfl hquote
    have h92 : c.toNat ≠ 92 := hne rfl hslash
    unfold Json.shortEscape
    rw [if_neg h34, if_neg h92, if_neg (by omega), if_neg (by omega), if_neg (by omega),
      if_neg (by omega), if_neg (by omega)]
  rw [Json.unitText, hshort]
  show (if c.toNat < 0x20 then _ else _) = _
  rw [if_neg (by omega), if_neg (by omega), Char.ofNat_toNat]

theorem stringText_plain {s : Symbol} (hs : PlainSymbol s) :
    Json.stringText .python (codes s) = '"' :: (s.toList ++ ['"']) := by
  have hflat : (codes s).flatMap (Json.unitText .python) = s.toList := by
    rw [codes, List.flatMap_map]
    calc s.toList.flatMap (fun c => Json.unitText .python c.toNat)
        = s.toList.flatMap (fun c => [c]) :=
          List.flatMap_congr fun c hc => unitText_plain (hs c hc)
      _ = s.toList := List.flatMap_singleton' _
  rw [Json.stringText, Json.stringRest, hflat]

/-- What the quotes of a list of symbols cut its text into, behind the bracket. -/
def innerPieces (symbols : List Symbol) : List Text :=
  (symbols.map String.toList).intersperse [',', ' '] ++ [[']']]

def pieces (symbols : List Symbol) : List Text := ['['] :: innerPieces symbols

theorem dumpItems_symbols (s : Symbol) (rest : List Symbol)
    (hs : ∀ x ∈ s :: rest, PlainSymbol x) :
    Json.dumpItems .python ((s :: rest).map strValue)
      = '"' :: Lines.join '"' (innerPieces (s :: rest)) := by
  have hfirst : Json.dump .python (strValue s) = '"' :: (s.toList ++ ['"']) :=
    stringText_plain (hs s List.mem_cons_self)
  induction rest generalizing s with
  | nil =>
      show Json.dump .python (strValue s) ++ [']'] = _
      rw [hfirst]
      simp [innerPieces, Lines.join]
  | cons t rest ih =>
      have hrest := ih t (fun x hx => hs x (List.mem_cons_of_mem _ hx))
        (stringText_plain (hs t (by simp)))
      have hsplit : innerPieces (s :: t :: rest)
          = s.toList :: [',', ' '] :: innerPieces (t :: rest) := rfl
      show Json.dump .python (strValue s)
        ++ ',' :: ([' '] ++ Json.dumpItems .python ((t :: rest).map strValue)) = _
      rw [hfirst, hrest, hsplit, Lines.join_cons _ _ (by simp),
        Lines.join_cons _ _ (by simp [innerPieces])]
      simp

theorem dump_symbols {symbols : List Symbol} (hne : symbols ≠ [])
    (hs : ∀ s ∈ symbols, PlainSymbol s) :
    Json.dump .python (strsValue symbols) = Lines.join '"' (pieces symbols) := by
  obtain ⟨s, rest, rfl⟩ := List.exists_cons_of_ne_nil hne
  show '[' :: Json.dumpItems .python ((s :: rest).map strValue) = _
  rw [dumpItems_symbols s rest hs, pieces, Lines.join_cons _ _ (by simp [innerPieces])]
  rfl

theorem eq_of_toLower_eq {c d : Char} (h : c.toLower = d) (hd : d.isLower = false) : c = d := by
  by_cases hupper : c.isUpper = true
  · rw [← h, isLower_toLower_of_isUpper hupper] at hd
    cases hd
  · have hsame : c.toLower = c := dif_neg fun hAZ => hupper (decide_eq_true hAZ)
    rw [← hsame, h]

theorem not_mem_map_toLower {d : Char} {text : Text} (hd : d.isLower = false) (h : d ∉ text) :
    d ∉ text.map Char.toLower := by
  intro hmem
  obtain ⟨c, hc, hcd⟩ := List.mem_map.mp hmem
  rw [eq_of_toLower_eq hcd hd] at hc
  exact h hc

theorem not_mem_of_plain {s : Symbol} (hs : PlainSymbol s) : '"' ∉ s.toList ∧ ' ' ∉ s.toList := by
  constructor
  · intro h
    exact (hs _ h).2.2.1 rfl
  · intro h
    have hlow := (hs _ h).1
    simp at hlow

theorem mem_intersperse {α : Type} {a sep : α} {l : List α} (h : a ∈ l.intersperse sep) :
    a ∈ l ∨ a = sep := by
  induction l with
  | nil => exact .inl h
  | cons x l ih =>
      cases l with
      | nil => exact .inl h
      | cons y l =>
          have hcases : a = x ∨ a = sep ∨ a ∈ (y :: l).intersperse sep := by
            simpa [List.intersperse] using h
          rcases hcases with rfl | rfl | h
          · exact .inl List.mem_cons_self
          · exact .inr rfl
          · exact (ih h).imp_left (List.mem_cons_of_mem _)

theorem mem_intersperse_of_mem {α : Type} {a : α} (sep : α) {l : List α} (h : a ∈ l) :
    a ∈ l.intersperse sep := by
  induction l with
  | nil => cases h
  | cons x l ih =>
      cases l with
      | nil => exact h
      | cons y l =>
          show a ∈ x :: sep :: (y :: l).intersperse sep
          rcases List.mem_cons.mp h with rfl | h
          · exact List.mem_cons_self
          · exact List.mem_cons_of_mem _ (List.mem_cons_of_mem _ (ih h))

theorem lower_eq_iff {s t : Symbol} :
    lower s = lower t ↔ s.toList.map Char.toLower = t.toList.map Char.toLower := by
  constructor
  · intro h
    have hlist := congrArg String.toList h
    simpa [lower] using hlist
  · intro h
    rw [lower, lower, h]

/-- A word is one of the inner pieces of a list of symbols if it is a symbol. -/
theorem pieces_split_iff {symbols : List Symbol} {word : Text} (hword : ' ' ∉ word) :
    (∃ before after, before ≠ [] ∧ after ≠ [] ∧
      (pieces symbols).map (List.map Char.toLower) = before ++ word :: after) ↔
      ∃ s ∈ symbols, s.toList.map Char.toLower = word := by
  constructor
  · rintro ⟨before, after, hbefore, hafter, hsplit⟩
    obtain ⟨first, before, rfl⟩ := List.exists_cons_of_ne_nil hbefore
    obtain ⟨after, last, rfl⟩ : ∃ l x, after = l ++ [x] :=
      ⟨after.dropLast, after.getLast hafter, (List.dropLast_append_getLast hafter).symm⟩
    simp only [pieces, innerPieces, List.map_cons, List.map_append, List.map_nil, List.cons_append,
      List.cons.injEq] at hsplit
    -- without the two brackets the pieces are the inner ones
    have hshape : before ++ word :: (after ++ [last]) = (before ++ word :: after) ++ [last] := by
      simp
    have hinner := congrArg List.dropLast (hsplit.2.trans hshape)
    rw [List.dropLast_concat, List.dropLast_concat] at hinner
    have hmem : word ∈ ((symbols.map String.toList).intersperse [',', ' ']).map
        (List.map Char.toLower) := by
      rw [hinner]
      simp
    obtain ⟨piece, hpiece, rfl⟩ := List.mem_map.mp hmem
    rcases mem_intersperse hpiece with hpiece | rfl
    · obtain ⟨s, hs, rfl⟩ := List.mem_map.mp hpiece
      exact ⟨s, hs, rfl⟩
    · exact absurd (by decide) hword
  · rintro ⟨s, hs, rfl⟩
    have hmem : s.toList ∈ (symbols.map String.toList).intersperse [',', ' '] :=
      mem_intersperse_of_mem _ (List.mem_map_of_mem hs)
    obtain ⟨front, rest, hsplit⟩ := List.append_of_mem hmem
    refine ⟨(['['] :: front).map (List.map Char.toLower),
      (rest ++ [[']']]).map (List.map Char.toLower), by simp, by simp, ?_⟩
    rw [pieces, innerPieces, hsplit]
    simp

/-- **The quoted symbol finds the lists that hold it**, up to case. -/
theorem like_symbols_iff {symbols : List Symbol} (hs : ∀ s ∈ symbols, PlainSymbol s)
    {symbol : Symbol} (hsymbol : PlainSymbol symbol) (hliteral : Literal symbol.toList) :
    like (containing (Json.dump .python (strValue symbol))) (Json.dump .python (strsValue symbols))
        = true ↔
      ∃ s ∈ symbols, lower s = lower symbol := by
  have hquoted : Json.dump .python (strValue symbol) = '"' :: (symbol.toList ++ ['"']) :=
    stringText_plain hsymbol
  have hpattern : Literal ('"' :: (symbol.toList ++ ['"'])) := by
    simp [Literal, hliteral.1, hliteral.2]
  have hfold : ('"' :: (symbol.toList ++ ['"'])).map Char.toLower
      = '"' :: (symbol.toList.map Char.toLower ++ ['"']) := by
    simp
  have hword := not_mem_of_plain hsymbol
  rw [hquoted, like_contains_iff hpattern, hfold]
  by_cases hne : symbols = []
  · subst hne
    constructor
    · intro hin
      have hquote : '"' ∈ (Json.dump .python (strsValue [])).map Char.toLower :=
        hin.subset List.mem_cons_self
      exact absurd hquote (by decide)
    · rintro ⟨s, hs, -⟩
      cases hs
  · have hquote : Char.toLower '"' = '"' := rfl
    have hparts : ∀ part ∈ (pieces symbols).map (List.map Char.toLower), '"' ∉ part := by
      intro part hpart
      obtain ⟨piece, hpiece, rfl⟩ := List.mem_map.mp hpart
      refine not_mem_map_toLower rfl ?_
      simp only [pieces, innerPieces, List.mem_cons, List.mem_append, List.not_mem_nil,
        or_false] at hpiece
      rcases hpiece with rfl | hpiece | rfl
      · decide
      · rcases mem_intersperse hpiece with hpiece | rfl
        · obtain ⟨s, hmem, rfl⟩ := List.mem_map.mp hpiece
          exact (not_mem_of_plain (hs s hmem)).1
        · decide
      · decide
    rw [dump_symbols hne hs, Lines.map_join, hquote,
      Lines.fenced_infix_iff '"' hparts (by simp [pieces]) (not_mem_map_toLower rfl hword.1),
      pieces_split_iff (not_mem_map_toLower rfl hword.2)]
    simp only [lower_eq_iff]

/-! ## What is found -/

/-- The item as the table gives it back: each symbol once, in order. -/
def MatchedNews.tidy (item : MatchedNews) : MatchedNews :=
  { item with symbols := sortBy id item.symbols.dedup }

/-- An item names a symbol, up to case. -/
def MatchedNews.Names (item : MatchedNews) (symbol : Symbol) : Prop :=
  ∃ s ∈ item.symbols, lower s = lower symbol

instance (item : MatchedNews) (symbol : Symbol) : Decidable (item.Names symbol) :=
  inferInstanceAs (Decidable (∃ s ∈ item.symbols, lower s = lower symbol))

section Digest

variable {κ : Type} [DecidableEq κ] (digest : Text → Text → κ)

omit [DecidableEq κ] in
theorem newsFromRow_row (agent : String) (item : MatchedNews) :
    newsFromRow (item.row digest agent) = some item.tidy := by
  have hload : Json.loads (symbolsJson item.symbols)
      = some (strsValue (sortBy id item.symbols.dedup)) :=
    Json.loads_dump .python (writable_strsValue _)
  show ((Json.loads (symbolsJson item.symbols)).bind readStrs).map _ = _
  rw [hload, Option.bind_some, readStrs_strsValue]
  rfl

omit [DecidableEq κ] in
theorem mapM_newsFromRow (agent : String) (items : List MatchedNews) :
    (items.map (MatchedNews.row digest agent)).mapM newsFromRow
      = some (items.map MatchedNews.tidy) := by
  induction items with
  | nil => rfl
  | cons item items ih =>
      rw [List.map_cons, List.mapM_cons, newsFromRow_row, ih]
      rfl

/-- The rows of an agent are those of the items it keeps. -/
theorem rows_of_run (agent : String) (batches : List NewsBatch) :
    (Lib.run (storeNewsItems digest) batches []).filter (fun row => row.agent = agent)
      = (firstStored digest agent batches).map (MatchedNews.row digest agent) := by
  refine run_related (R := fun (table : List (NewsItemRow κ)) (kept : List MatchedNews) =>
    table.filter (fun row => row.agent = agent) = kept.map (MatchedNews.row digest agent)) ?_
    batches rfl
  intro batch table kept h
  rw [storeNewsItems, List.filter_append, h]
  by_cases hagent : batch.agent = agent
  · have hknown : (table.filter fun row => row.agent = batch.agent).map NewsItemRow.contentHash
        = kept.map (MatchedNews.contentHash digest) := by
      rw [hagent, h, List.map_map]
      rfl
    have hall : ∀ items : List MatchedNews,
        (items.map (MatchedNews.row digest batch.agent)).filter (fun row => row.agent = agent)
          = items.map (MatchedNews.row digest agent) := by
      intro items
      rw [hagent, List.filter_eq_self]
      intro row hrow
      obtain ⟨item, -, rfl⟩ := List.mem_map.mp hrow
      exact decide_eq_true rfl
    rw [if_pos hagent, hknown, hall, List.map_append]
  · have hnone : ∀ items : List MatchedNews,
        (items.map (MatchedNews.row digest batch.agent)).filter (fun row => row.agent = agent)
          = [] := by
      intro items
      rw [List.filter_eq_nil_iff]
      intro row hrow
      obtain ⟨item, -, rfl⟩ := List.mem_map.mp hrow
      exact fun h => hagent (of_decide_eq_true h)
    rw [if_neg hagent, hnone, List.append_nil]

/-! ## The articles that are kept -/

theorem contentHash_unknown (known : List κ) (items : List MatchedNews) :
    (unknown digest known items).map (MatchedNews.contentHash digest)
      = ((byHash digest items).entries.filter fun e => e.1 ∉ known).map Prod.fst := by
  rw [unknown, List.map_map]
  refine List.map_congr_left fun e he => ?_
  have hget : (byHash digest items).get? e.1 = some e.2 :=
    (Dict.mem_entries_iff _ _ _).mp (List.mem_filter.mp he).1
  exact ((Dict.foldl_set_spec (MatchedNews.contentHash digest) items).1 _ _ hget).2

theorem nodup_unknown (known : List κ) (items : List MatchedNews) :
    ((unknown digest known items).map (MatchedNews.contentHash digest)).Nodup := by
  rw [contentHash_unknown]
  exact (byHash digest items).nodup.sublist (List.filter_sublist.map _)

/-- The item is the last one of its article. -/
def LastOfArticle (items : List MatchedNews) (item : MatchedNews) : Prop :=
  ∃ before after, items = before ++ item :: after ∧
    ∀ i ∈ after, i.contentHash digest ≠ item.contentHash digest

omit [DecidableEq κ] in
theorem LastOfArticle.mem {items : List MatchedNews} {item : MatchedNews}
    (h : LastOfArticle digest items item) : item ∈ items := by
  obtain ⟨before, after, rfl, -⟩ := h
  simp

theorem mem_unknown {known : List κ} {items : List MatchedNews} {item : MatchedNews}
    (h : item ∈ unknown digest known items) :
    LastOfArticle digest items item ∧ item.contentHash digest ∉ known := by
  obtain ⟨e, he, rfl⟩ := List.mem_map.mp h
  obtain ⟨hentry, hnew⟩ := List.mem_filter.mp he
  have hget : (byHash digest items).get? e.1 = some e.2 := (Dict.mem_entries_iff _ _ _).mp hentry
  have hkey : e.2.contentHash digest = e.1 :=
    ((Dict.foldl_set_spec (MatchedNews.contentHash digest) items).1 _ _ hget).2
  rw [LastOfArticle, hkey]
  exact ⟨Dict.last_of_foldl_set _ hget, of_decide_eq_true hnew⟩

/-- After a batch every article of it is known. -/
theorem mem_known_or_unknown (known : List κ) {items : List MatchedNews} {item : MatchedNews}
    (h : item ∈ items) : item.contentHash digest ∈ known ∨
      item.contentHash digest ∈
        (unknown digest known items).map (MatchedNews.contentHash digest) := by
  by_cases hknown : item.contentHash digest ∈ known
  · exact .inl hknown
  · right
    obtain ⟨last, hlast⟩ := (Dict.foldl_set_spec (MatchedNews.contentHash digest) items).2 item h
    rw [contentHash_unknown, List.mem_map]
    exact ⟨_, List.mem_filter.mpr ⟨(Dict.mem_entries_iff _ _ _).mpr hlast, decide_eq_true hknown⟩,
      rfl⟩

/-- `kept` holds each article of the agent's batches once: the last item of it in the first batch
with it. -/
structure FirstOfEach (agent : String) (batches : List NewsBatch) (kept : List MatchedNews) :
    Prop where
  once : (kept.map (MatchedNews.contentHash digest)).Nodup
  sourced : ∀ item ∈ kept, ∃ earlier batch later, batches = earlier ++ batch :: later ∧
    batch.agent = agent ∧ LastOfArticle digest batch.items item ∧
    ∀ b ∈ earlier, b.agent = agent → ∀ i ∈ b.items, i.contentHash digest ≠ item.contentHash digest
  all : ∀ batch ∈ batches, batch.agent = agent → ∀ item ∈ batch.items,
    item.contentHash digest ∈ kept.map (MatchedNews.contentHash digest)

omit [DecidableEq κ] in
theorem FirstOfEach.other {agent : String} {batches : List NewsBatch} {kept : List MatchedNews}
    (h : FirstOfEach digest agent batches kept) {batch : NewsBatch} (hagent : batch.agent ≠ agent) :
    FirstOfEach digest agent (batches ++ [batch]) kept where
  once := h.once
  sourced := by
    intro item hitem
    obtain ⟨earlier, b, later, rfl, hb⟩ := h.sourced item hitem
    exact ⟨earlier, b, later ++ [batch], by simp, hb⟩
  all := by
    intro b hb hba
    rcases List.mem_append.mp hb with hb | hb
    · exact h.all b hb hba
    · rw [List.mem_singleton.mp hb] at hba
      exact absurd hba hagent

theorem FirstOfEach.batch {agent : String} {batches : List NewsBatch} {kept : List MatchedNews}
    (h : FirstOfEach digest agent batches kept) {batch : NewsBatch} (hagent : batch.agent = agent) :
    FirstOfEach digest agent (batches ++ [batch])
      (kept ++ unknown digest (kept.map (MatchedNews.contentHash digest)) batch.items) where
  once := by
    rw [List.map_append, List.nodup_append]
    refine ⟨h.once, nodup_unknown digest _ _, ?_⟩
    rintro key hkey _ hnew rfl
    obtain ⟨item, hitem, rfl⟩ := List.mem_map.mp hnew
    exact (mem_unknown digest hitem).2 hkey
  sourced := by
    intro item hitem
    rcases List.mem_append.mp hitem with hitem | hitem
    · obtain ⟨earlier, b, later, rfl, hb⟩ := h.sourced item hitem
      exact ⟨earlier, b, later ++ [batch], by simp, hb⟩
    · obtain ⟨hlast, hnew⟩ := mem_unknown digest hitem
      refine ⟨batches, batch, [], rfl, hagent, hlast, ?_⟩
      -- an earlier batch with the article would have made it known
      intro b hb hba i hi heq
      exact hnew (heq ▸ h.all b hb hba i hi)
  all := by
    intro b hb hba item hitem
    rw [List.map_append, List.mem_append]
    rcases List.mem_append.mp hb with hb | hb
    · exact .inl (h.all b hb hba item hitem)
    · rw [List.mem_singleton.mp hb] at hitem
      exact mem_known_or_unknown digest _ hitem

/-- What the table keeps of an agent's batches. -/
theorem firstOfEach_firstStored (agent : String) (batches : List NewsBatch) :
    FirstOfEach digest agent batches (firstStored digest agent batches) := by
  induction batches using List.reverseRecOn with
  | nil =>
      refine ⟨List.nodup_nil, ?_, ?_⟩
      · intro item hitem
        cases hitem
      · intro batch hbatch
        cases hbatch
  | append_singleton batches batch ih =>
      rw [firstStored, Lib.run_append, Lib.run_cons, Lib.run_nil]
      by_cases hagent : batch.agent = agent
      · rw [if_pos hagent]
        exact ih.batch digest hagent
      · rw [if_neg hagent]
        exact ih.other digest hagent

/-! ## The read for a symbol -/

omit [DecidableEq κ] in
/-- The search in the text of an item's row is the question whether the item names the symbol. -/
theorem like_row_iff (agent : String) {item : MatchedNews}
    (hplain : ∀ s ∈ item.symbols, PlainSymbol s) {symbol : Symbol} (hsymbol : PlainSymbol symbol)
    (hliteral : Literal symbol.toList) :
    like (containing (Json.dump .python (strValue symbol))) (item.row digest agent).symbolsJson
        = true ↔ item.Names symbol := by
  have hmem : ∀ s, s ∈ sortBy id item.symbols.dedup ↔ s ∈ item.symbols := by
    intro s
    rw [mem_sortBy, List.mem_dedup]
  have hsorted : ∀ s ∈ sortBy id item.symbols.dedup, PlainSymbol s :=
    fun s hs => hplain s ((hmem s).mp hs)
  show like _ (symbolsJson item.symbols) = true ↔ _
  rw [symbolsJson, like_symbols_iff hsorted hsymbol hliteral]
  simp only [hmem]
  rfl

omit [DecidableEq κ] in
theorem sortBy_rows (agent : String) (items : List MatchedNews) :
    sortBy (fun row => OrderDual.toDual row.publishedAt) (items.map (MatchedNews.row digest agent))
      = (sortBy (fun item => OrderDual.toDual item.publishedAt) items).map
          (MatchedNews.row digest agent) := by
  refine (List.map_insertionSort _ _ (MatchedNews.row digest agent) _ ?_).symm
  intro a _ b _
  rfl

/-- **A read for a symbol finds the stored items that name it**, newest first and up to the limit.
What is stored of an agent's batches is the last item of each article in its first batch with it, so
neither another agent's batches nor a symbol that holds this one as a part plays a role. -/
theorem news_for_symbol (agent : String) (batches : List NewsBatch)
    (hplain : ∀ batch ∈ batches, ∀ item ∈ batch.items, ∀ s ∈ item.symbols, PlainSymbol s)
    {symbol : Symbol} (hsymbol : PlainSymbol symbol) (hliteral : Literal symbol.toList)
    (since : Time) (limit : ℤ) :
    ∃ kept, FirstOfEach digest agent batches kept ∧
      getNewsForSymbol agent symbol since limit (Lib.run (storeNewsItems digest) batches [])
        = some (((sortBy (fun item => OrderDual.toDual item.publishedAt)
            (kept.filter fun item => since < item.publishedAt ∧ item.Names symbol)).take
              limit.toNat).map MatchedNews.tidy) := by
  have hfirst := firstOfEach_firstStored digest agent batches
  refine ⟨firstStored digest agent batches, hfirst, ?_⟩
  have hfound : (Lib.run (storeNewsItems digest) batches []).filter (fun row =>
      since < row.publishedAt ∧
        like (containing (Json.dump .python (strValue symbol))) row.symbolsJson ∧ row.agent = agent)
      = ((firstStored digest agent batches).filter
          fun item => since < item.publishedAt ∧ item.Names symbol).map
            (MatchedNews.row digest agent) := by
    have hsplit : (fun row : NewsItemRow κ => decide (since < row.publishedAt ∧
        like (containing (Json.dump .python (strValue symbol))) row.symbolsJson = true ∧
          row.agent = agent)) = fun row => decide (since < row.publishedAt ∧
        like (containing (Json.dump .python (strValue symbol))) row.symbolsJson = true) &&
          decide (row.agent = agent) := by
      funext row
      simp only [Bool.decide_and, Bool.and_assoc]
    rw [hsplit, ← List.filter_filter, rows_of_run, List.filter_map]
    refine congrArg _ (List.filter_congr fun item hitem => decide_eq_decide.mpr ?_)
    obtain ⟨earlier, batch, later, rfl, -, hlast, -⟩ := hfirst.sourced item hitem
    rw [like_row_iff digest agent (hplain batch (by simp) item hlast.mem) hsymbol hliteral]
    rfl
  rw [getNewsForSymbol, hfound, sortBy_rows, ← List.map_take, mapM_newsFromRow]

end Digest

/-- An article that names two symbols, of which one holds the other as a part. -/
def halving : MatchedNews where
  source := "rss"
  url := "https://news.test/halving "
  title := "Halving"
  text := "Half of it."
  publishedAt := 20
  symbols := ["WBTC/EUR", "BTC/EUR"]

/-- The agent's first batch has the article twice, and a later one again. -/
def halvingBatches : List NewsBatch :=
  [⟨"crypto", [halving, { halving with text := "All of it." }]⟩, ⟨"stocks", [halving]⟩,
    ⟨"crypto", [halving]⟩]

theorem news_for_symbol_halving :
    ∃ kept, FirstOfEach Prod.mk "crypto" halvingBatches kept ∧
      getNewsForSymbol "crypto" "btc/eur" 10 5
          (Lib.run (storeNewsItems Prod.mk) halvingBatches [])
        = some (((sortBy (fun item => OrderDual.toDual item.publishedAt)
            (kept.filter fun item => 10 < item.publishedAt ∧ item.Names "btc/eur")).take
              (5 : ℤ).toNat).map MatchedNews.tidy) :=
  news_for_symbol Prod.mk "crypto" _
    (by simp [halvingBatches, halving, PlainSymbol, PlainChar])
    (by simp [PlainSymbol, PlainChar]) (by simp [Literal]) 10 5

end SmartyTrader
