import Mathlib
import SmartyTrader.Analysis.ContextCards
import SmartyTrader.Core.Context
import SmartyTrader.Core.JsonModels
import SmartyTrader.Storage.News

set_option autoImplicit false

/-! # The summarizer

A pass goes through the traded symbols. For each one with news it asks the language model for a
card, unless the latest card is fresh and covers the newest item, and stores what the model answers
if that is a card. Between the question and the answer news may come in and old rows may be deleted.

`cards_are_sourced` says where the card comes from that a trading prompt shows: every source it
cites is an item that was stored for this agent and names the symbol. `pass_budget` bounds what a
pass asks.

What a reply has to be is left to `contextCard`, and a card is stored as it is.
-/

namespace SmartyTrader

open Lib

/-! ## Cards in the database -/

structure ContextCardRow where
  agent : String
  card : ContextCard Time
  newsThrough : Option Time
  expiresAt : Time

/-- `get_latest_context_card_row`, of rows in the order of their ids. -/
def getLatestContextCardRow (agent : String) (symbol : Symbol) (cards : List ContextCardRow) :
    Option ContextCardRow :=
  (cards.filter fun row => row.card.symbol = symbol.toList ∧ row.agent = agent).getLast?

/-- `get_active_context_card`. -/
def getActiveContextCard (agent : String) (symbol : Symbol) (now : Time)
    (cards : List ContextCardRow) : Option (ContextCard Time) :=
  match getLatestContextCardRow agent symbol cards with
  | none => none
  | some row => if row.expiresAt ≤ now then none else some row.card

/-! ## A pass -/

/-- The settings of a pass, which `_check` wants positive. -/
structure SummarizerSettings where
  cardTtlHours : ℚ
  lookbackHours : ℚ
  maxItemsPerCard : ℕ
  maxSymbolsPerRun : ℕ
  cardTtlHours_pos : 0 < cardTtlHours
  lookbackHours_pos : 0 < lookbackHours
  maxItemsPerCard_pos : 0 < maxItemsPerCard
  maxSymbolsPerRun_pos : 0 < maxSymbolsPerRun

/-- What a pass reports of a symbol. -/
inductive SummarizerStatus where
  | deferred
  | noNews
  | upToDate
  | noCard
  | stored (sources : ℕ)
  | failed (err : String)
  deriving DecidableEq

def SummarizerStatus.text : SummarizerStatus → String
  | .deferred => "deferred (per-run cap)"
  | .noNews => "no news"
  | .upToDate => "up to date"
  | .noCard => "failed: no valid card"
  | .stored sources => "card stored (" ++ toString sources ++ " sources)"
  | .failed err => "failed: " ++ err

/-- `dict.fromkeys`: each symbol once, in the order of their first places. -/
def fromKeys (symbols : List Symbol) : List Symbol := symbols.reverse.dedup.reverse

/-- A question that waits for its answer: the symbol and the items that were put to the model. -/
structure Asking where
  symbol : Symbol
  items : List MatchedNews

/-- `max(item.published_at for item in items)`. -/
def newestOf : List MatchedNews → Option Time
  | [] => none
  | item :: rest => some (rest.foldl (fun newest i => max newest i.publishedAt) item.publishedAt)

structure SummarizerPass where
  moment : Time
  /-- The symbols that were asked for. -/
  symbols : List Symbol
  /-- The symbols that are still to come. -/
  todo : List Symbol
  calls : ℕ
  asked : List Symbol
  asking : Option Asking
  status : List (Symbol × SummarizerStatus)

def SummarizerPass.note (pass : SummarizerPass) (symbol : Symbol) (status : SummarizerStatus) :
    SummarizerPass :=
  { pass with status := pass.status ++ [(symbol, status)] }

/-- The latest card is fresh and covers the newest item. -/
def upToDate (latest : Option ContextCardRow) (newest : Option Time) (moment : Time) : Prop :=
  ∃ row ∈ latest, ∃ through ∈ row.newsThrough, ∃ time ∈ newest,
    time ≤ through ∧ moment < row.expiresAt

instance (latest : Option ContextCardRow) (newest : Option Time) (moment : Time) :
    Decidable (upToDate latest newest moment) :=
  inferInstanceAs (Decidable (∃ row ∈ latest, ∃ through ∈ row.newsThrough, ∃ time ∈ newest, _ ∧ _))

section World

variable {κ E : Type} [DecidableEq κ] (digest : Text → Text → κ) (word : Char → Bool)
  (contextCard : Members → Time → Except E (ContextCard Time)) (settings : SummarizerSettings)
  (agent : String)

structure SummarizerWorld (κ : Type) where
  news : List (NewsItemRow κ)
  cards : List ContextCardRow
  pass : Option SummarizerPass

/-- How a question ends: with what the model wrote in each attempt, `none` where the request failed,
and maybe an error of the database at the end. -/
structure SummarizerReply where
  attempts : List (Option Text)
  storeError : Option String

inductive SummarizerEvent where
  | news (batch : NewsBatch)
  | prune (retentionDays : ℤ) (now : Time)
  | start (symbols : List Symbol) (moment : Time)
  /-- The next symbol of the pass, whose reads may raise. -/
  | look (readError : Option String)
  | answer (reply : SummarizerReply)
  /-- `CancelledError` leaves the pass. -/
  | cancel

/-- `ask_json`: the first attempt that can be read. -/
def askJson {S : Type} (parse : Text → Option S) (attempts : List (Option Text)) : Option S :=
  attempts.findSome? fun raw => raw.bind parse

namespace SummarizerWorld

def empty : SummarizerWorld κ := ⟨[], [], none⟩

/-- `prune_context`, on news and cards. -/
def pruneContext (w : SummarizerWorld κ) (retentionDays : ℤ) (now : Time) : SummarizerWorld κ :=
  if retentionDays ≤ 0 then w
  else
    { w with
      news := w.news.filter fun row => ¬ row.publishedAt < now - days retentionDays
      cards := w.cards.filter fun row => ¬ row.expiresAt < now - days retentionDays }

/-- The body of the loop up to the question. -/
def lookAt (w : SummarizerWorld κ) (pass : SummarizerPass) (symbol : Symbol)
    (readError : Option String) : SummarizerPass :=
  if settings.maxSymbolsPerRun ≤ pass.calls then pass.note symbol .deferred
  else
    match readError with
    | some err => pass.note symbol (.failed err)
    | none =>
        match getNewsForSymbol agent symbol (pass.moment - timedeltaHours settings.lookbackHours)
          settings.maxItemsPerCard w.news with
        -- the text of the JSON error is left out
        | none => pass.note symbol (.failed "")
        | some items =>
            if items = [] then pass.note symbol .noNews
            else if upToDate (getLatestContextCardRow agent symbol w.cards) (newestOf items)
              pass.moment then pass.note symbol .upToDate
            else
              { pass with
                calls := pass.calls + 1
                asked := pass.asked ++ [symbol]
                asking := some ⟨symbol, items⟩ }

/-- The body of the loop behind the question. -/
def receive (w : SummarizerWorld κ) (pass : SummarizerPass) (question : Asking)
    (reply : SummarizerReply) : SummarizerWorld κ :=
  let parse := fun raw => (parseContextCard word contextCard raw question.symbol.toList
    (question.items.map fun item => item.url.toList) pass.moment).toOption
  let pass := { pass with asking := none }
  match askJson parse reply.attempts with
  | none => { w with pass := some (pass.note question.symbol .noCard) }
  | some card =>
      match reply.storeError with
      | some err => { w with pass := some (pass.note question.symbol (.failed err)) }
      | none =>
          { w with
            cards := w.cards ++ [⟨agent, card, newestOf question.items,
              pass.moment + timedeltaHours settings.cardTtlHours⟩]
            pass := some (pass.note question.symbol (.stored card.sources.length)) }

def step (event : SummarizerEvent) (w : SummarizerWorld κ) : SummarizerWorld κ :=
  match event, w.pass with
  | .news batch, _ => { w with news := storeNewsItems digest batch w.news }
  | .prune retentionDays now, _ => w.pruneContext retentionDays now
  | .start symbols moment, none =>
      { w with pass := some ⟨moment, symbols, fromKeys symbols, 0, [], none, []⟩ }
  | .look readError, some pass =>
      match pass.asking, pass.todo with
      | none, symbol :: rest =>
          { w with pass := some (w.lookAt settings agent { pass with todo := rest } symbol
              readError) }
      | none, [] => { w with pass := none }
      | some _, _ => w
  | .answer reply, some pass =>
      match pass.asking with
      | some question => w.receive word contextCard settings agent pass question reply
      | none => w
  | .cancel, _ => { w with pass := none }
  | _, _ => w

end SummarizerWorld

/-! ## What a card is -/

/-- `ContextCard(**data, as_of=now)` takes its fields from the members of the same name. -/
structure ReadsMembers : Prop where
  asOf : ∀ data now card, contextCard data now = .ok card → card.asOf = now
  symbol : ∀ data now card, contextCard data now = .ok card →
    field data "symbol" = some (.str (card.symbol.map Char.toNat))
  sources : ∀ data now card, contextCard data now = .ok card →
    ∃ values, field data "sources" = some (.arr values) ∧
      ∀ s ∈ card.sources, .str (s.map Char.toNat) ∈ values

variable {word contextCard settings agent}

theorem map_toNat_injective {s t : Text} (h : s.map Char.toNat = t.map Char.toNat) : s = t :=
  List.map_injective_iff.mpr (fun _ _ => Char.toNat_inj.mp) h

/-- An accepted card is for the symbol and the time of the question, and cites only the sources
that were allowed. -/
theorem accepted_card (hreads : ReadsMembers contextCard) {raw symbol : Text} {allowed : List Text}
    {now : Time} {card : ContextCard Time}
    (h : parseContextCard word contextCard raw symbol allowed now = .ok card) :
    card.symbol = symbol ∧ card.asOf = now ∧ ∀ s ∈ card.sources, s ∈ allowed := by
  unfold parseContextCard at h
  split at h
  · cases h
  next data _ =>
    split at h
    next hsymbol =>
      dsimp only at h
      -- the members that are validated
      obtain ⟨members, haccepted, hkept⟩ : ∃ members, contextCard members now = .ok card ∧
          field members "symbol" = field data "symbol" ∧
          ∀ values, field members "sources" = some (.arr values) →
            ∀ v ∈ values, keepSource allowed v = true := by
        split at h
        · cases h
        next found hfound =>
          split at h
          · cases h
          · split at h
            · cases h
            · cases h
              split at hfound
              next sources hsources =>
                refine ⟨_, hfound, ?_, ?_⟩
                · rw [field_setField_ne (by decide), field_popField_ne (by decide)]
                · intro values hvalues v hv
                  rw [field_setField_self] at hvalues
                  cases hvalues
                  exact (List.mem_filter.mp hv).2
              next hsources =>
                refine ⟨_, hfound, field_popField_ne (by decide) _, ?_⟩
                intro values hvalues
                exact absurd hvalues (hsources values)
      refine ⟨?_, hreads.asOf _ _ _ haccepted, ?_⟩
      · rw [← hkept.1, hreads.symbol _ _ _ haccepted] at hsymbol
        exact map_toNat_injective (of_decide_eq_true hsymbol)
      · intro s hs
        obtain ⟨values, hvalues, hmem⟩ := hreads.sources _ _ _ haccepted
        have hkeep := hkept.2 values hvalues _ (hmem s hs)
        rw [keepSource, List.contains_iff_mem, List.mem_map] at hkeep
        obtain ⟨source, hsource, heq⟩ := hkeep
        rw [← map_toNat_injective heq]
        exact hsource
    · cases h

/-! ## Where a card comes from -/

/-- An item that some batch brought for this agent. -/
def Brought (events : List SummarizerEvent) (agent : String) (item : MatchedNews) : Prop :=
  ∃ batch, SummarizerEvent.news batch ∈ events ∧ batch.agent = agent ∧ item ∈ batch.items

/-- The card is one of the symbol, written by a pass at its time, without a phrase that the filter
knows, and what it cites are the addresses of items that name the symbol. -/
structure Sourced (word : Char → Bool) (settings : SummarizerSettings) (agent : String)
    (events : List SummarizerEvent) (symbol : Symbol) (card : ContextCard Time) : Prop where
  ofSymbol : card.symbol = symbol.toList
  asked : ∃ symbols, SummarizerEvent.start symbols card.asOf ∈ events ∧ symbol ∈ symbols
  clean : ∀ c ∈ card.catalysts, injection word c = false
  cited : ∀ s ∈ card.sources, ∃ item, Brought events agent item ∧ item.url.toList = s ∧
    item.Names symbol ∧ card.asOf - timedeltaHours settings.lookbackHours < item.publishedAt

/-- The symbols that come up can be searched for. -/
def Searchable (events : List SummarizerEvent) : Prop :=
  (∀ batch, SummarizerEvent.news batch ∈ events → ∀ item ∈ batch.items, ∀ s ∈ item.symbols,
    PlainSymbol s) ∧
  ∀ symbols moment, SummarizerEvent.start symbols moment ∈ events → ∀ s ∈ symbols,
    PlainSymbol s ∧ Literal s.toList

/-- What holds of every world. -/
structure SummarizerWorld.Sound (digest : Text → Text → κ) (word : Char → Bool)
    (settings : SummarizerSettings) (agent : String) (events : List SummarizerEvent)
    (w : SummarizerWorld κ) : Prop where
  news : ∀ row ∈ w.news, ∃ item, Brought events row.agent item ∧ row = item.row digest row.agent
  cards : ∀ row ∈ w.cards, ∃ symbol, Sourced word settings agent events symbol row.card ∧
    row.expiresAt = row.card.asOf + timedeltaHours settings.cardTtlHours
  started : ∀ pass ∈ w.pass, SummarizerEvent.start pass.symbols pass.moment ∈ events ∧
    ∀ s ∈ pass.todo, s ∈ pass.symbols
  asking : ∀ pass ∈ w.pass, ∀ question ∈ pass.asking, question.symbol ∈ pass.symbols ∧
    ∀ i ∈ question.items, ∃ item, Brought events agent item ∧ i.url = item.url ∧
      item.Names question.symbol ∧
        pass.moment - timedeltaHours settings.lookbackHours < item.publishedAt

section Steps

variable {digest}

theorem Brought.append {events : List SummarizerEvent} {agent : String} {item : MatchedNews}
    (h : Brought events agent item) (event : SummarizerEvent) :
    Brought (events ++ [event]) agent item := by
  obtain ⟨batch, hbatch, hitem⟩ := h
  exact ⟨batch, List.mem_append_left _ hbatch, hitem⟩

theorem Sourced.append {events : List SummarizerEvent} {symbol : Symbol} {card : ContextCard Time}
    (h : Sourced word settings agent events symbol card) (event : SummarizerEvent) :
    Sourced word settings agent (events ++ [event]) symbol card where
  ofSymbol := h.ofSymbol
  asked := by
    obtain ⟨symbols, hstart, hmem⟩ := h.asked
    exact ⟨symbols, List.mem_append_left _ hstart, hmem⟩
  clean := h.clean
  cited := by
    intro s hs
    obtain ⟨item, hitem, hrest⟩ := h.cited s hs
    exact ⟨item, hitem.append event, hrest⟩

namespace SummarizerWorld

variable {events : List SummarizerEvent} {w : SummarizerWorld κ}

omit [DecidableEq κ] in
/-- More may have happened. -/
theorem Sound.append (h : w.Sound digest word settings agent events) (event : SummarizerEvent) :
    w.Sound digest word settings agent (events ++ [event]) where
  news row hrow := by
    obtain ⟨item, hitem, heq⟩ := h.news row hrow
    exact ⟨item, hitem.append event, heq⟩
  cards row hrow := by
    obtain ⟨symbol, hsourced, hexpires⟩ := h.cards row hrow
    exact ⟨symbol, hsourced.append event, hexpires⟩
  started pass hpass := by
    obtain ⟨hstart, htodo⟩ := h.started pass hpass
    exact ⟨List.mem_append_left _ hstart, htodo⟩
  asking pass hpass question hquestion := by
    obtain ⟨hsymbol, hitems⟩ := h.asking pass hpass question hquestion
    refine ⟨hsymbol, fun i hi => ?_⟩
    obtain ⟨item, hitem, hrest⟩ := hitems i hi
    exact ⟨item, hitem.append event, hrest⟩

omit [DecidableEq κ] in
/-- Without a pass there is nothing to say of one. -/
theorem Sound.noPass (h : w.Sound digest word settings agent events) :
    Sound digest word settings agent events { w with pass := none } where
  news := h.news
  cards := h.cards
  started pass hpass := by cases hpass
  asking pass hpass := by cases hpass

theorem Sound.storeNews (h : w.Sound digest word settings agent events) (batch : NewsBatch) :
    Sound digest word settings agent (events ++ [.news batch])
      { w with news := storeNewsItems digest batch w.news } where
  news := by
    intro row hrow
    rcases List.mem_append.mp hrow with hrow | hrow
    · exact (h.append (.news batch)).news row hrow
    · obtain ⟨item, hitem, rfl⟩ := List.mem_map.mp hrow
      exact ⟨item, ⟨batch, by simp, rfl, (mem_unknown digest hitem).1.mem⟩, rfl⟩
  cards := (h.append _).cards
  started := (h.append _).started
  asking := (h.append _).asking

omit [DecidableEq κ] in
theorem Sound.pruneContext (h : w.Sound digest word settings agent events) (retentionDays : ℤ)
    (now : Time) : (w.pruneContext retentionDays now).Sound digest word settings agent events := by
  unfold SummarizerWorld.pruneContext
  split
  · exact h
  · exact ⟨fun row hrow => h.news row (List.mem_filter.mp hrow).1,
      fun row hrow => h.cards row (List.mem_filter.mp hrow).1, h.started, h.asking⟩

omit [DecidableEq κ] in
theorem lookAt_cases (settings : SummarizerSettings) (agent : String) (w : SummarizerWorld κ)
    (pass : SummarizerPass) (symbol : Symbol) (readError : Option String) :
    (∃ status, w.lookAt settings agent pass symbol readError = pass.note symbol status) ∨
    ∃ items, pass.calls < settings.maxSymbolsPerRun ∧
      getNewsForSymbol agent symbol (pass.moment - timedeltaHours settings.lookbackHours)
        settings.maxItemsPerCard w.news = some items ∧ items ≠ [] ∧
      ¬ upToDate (getLatestContextCardRow agent symbol w.cards) (newestOf items) pass.moment ∧
      w.lookAt settings agent pass symbol readError =
        { pass with
          calls := pass.calls + 1
          asked := pass.asked ++ [symbol]
          asking := some ⟨symbol, items⟩ } := by
  unfold lookAt
  split
  · exact .inl ⟨_, rfl⟩
  next hcap =>
    split
    · exact .inl ⟨_, rfl⟩
    · split
      · exact .inl ⟨_, rfl⟩
      next items hitems =>
        split
        · exact .inl ⟨_, rfl⟩
        next hne =>
          split
          · exact .inl ⟨_, rfl⟩
          next hstale => exact .inr ⟨items, not_le.mp hcap, hitems, hne, hstale, rfl⟩

omit [DecidableEq κ] in
theorem receive_cases (word : Char → Bool)
    (contextCard : Members → Time → Except E (ContextCard Time)) (settings : SummarizerSettings)
    (agent : String) (w : SummarizerWorld κ) (pass : SummarizerPass) (question : Asking)
    (reply : SummarizerReply) :
    (∃ status, w.receive word contextCard settings agent pass question reply =
      { w with pass := some ({ pass with asking := none }.note question.symbol status) }) ∨
    ∃ raw card, parseContextCard word contextCard raw question.symbol.toList
        (question.items.map fun item => item.url.toList) pass.moment = .ok card ∧
      w.receive word contextCard settings agent pass question reply =
        { w with
          cards := w.cards ++ [⟨agent, card, newestOf question.items,
            pass.moment + timedeltaHours settings.cardTtlHours⟩]
          pass := some ({ pass with asking := none }.note question.symbol
            (.stored card.sources.length)) } := by
  unfold receive
  dsimp only
  split
  · exact .inl ⟨_, rfl⟩
  next card hcard =>
    split
    · exact .inl ⟨_, rfl⟩
    · obtain ⟨attempt, -, hattempt⟩ := List.exists_of_findSome?_eq_some hcard
      obtain ⟨raw, -, hparse⟩ := Option.bind_eq_some_iff.mp hattempt
      refine .inr ⟨raw, card, ?_, rfl⟩
      cases hresult : parseContextCard word contextCard raw question.symbol.toList
          (question.items.map fun item => item.url.toList) pass.moment with
      | error err =>
          rw [hresult] at hparse
          cases hparse
      | ok found =>
          rw [hresult] at hparse
          cases hparse
          rfl

omit [DecidableEq κ] in
/-- The items that the database finds for a symbol were brought for the agent and name it. -/
theorem Sound.found (h : w.Sound digest word settings agent events) (hsearch : Searchable events)
    {symbol : Symbol} (hsymbol : PlainSymbol symbol ∧ Literal symbol.toList) {since : Time}
    {limit : ℤ} {items : List MatchedNews}
    (hitems : getNewsForSymbol agent symbol since limit w.news = some items) :
    ∀ i ∈ items, ∃ item, Brought events agent item ∧ i.url = item.url ∧ item.Names symbol ∧
      since < item.publishedAt := by
  intro i hi
  obtain ⟨row, hrow, hagent, hsince, hlike, hread⟩ := mem_getNewsForSymbol hitems i hi
  obtain ⟨item, hbrought, heq⟩ := h.news row hrow
  rw [hagent] at hbrought heq
  rw [heq, newsFromRow_row] at hread
  obtain ⟨batch, hbatch, hbatchAgent, hmem⟩ := hbrought
  have hplain := hsearch.1 batch hbatch item hmem
  refine ⟨item, ⟨batch, hbatch, hbatchAgent, hmem⟩, ?_, ?_, ?_⟩
  · rw [← Option.some.inj hread]
    rfl
  · rw [heq] at hlike
    exact (like_row_iff digest agent hplain hsymbol.1 hsymbol.2).mp hlike
  · rw [heq] at hsince
    exact hsince

omit [DecidableEq κ] in
/-- The pass moves on to a symbol. -/
theorem Sound.look (h : w.Sound digest word settings agent events) (hsearch : Searchable events)
    {pass : SummarizerPass} (hpass : w.pass = some pass) (hasking : pass.asking = none)
    {symbol : Symbol} {rest : List Symbol} (htodo : pass.todo = symbol :: rest)
    (readError : Option String) :
    Sound digest word settings agent events
      { w with pass := some (w.lookAt settings agent { pass with todo := rest } symbol
          readError) } := by
  obtain ⟨hstart, hin⟩ := h.started pass hpass
  have hsymbol : symbol ∈ pass.symbols := hin symbol (by simp [htodo])
  have hrest : ∀ s ∈ rest, s ∈ pass.symbols := fun s hs => hin s (by simp [htodo, hs])
  obtain ⟨status, hnote⟩ | ⟨items, -, hitems, -, -, hask⟩ :=
    lookAt_cases settings agent w { pass with todo := rest } symbol readError
  · rw [hnote]
    refine ⟨h.news, h.cards, ?_, ?_⟩
    · rintro _ ⟨⟩
      exact ⟨hstart, hrest⟩
    · rintro _ ⟨⟩ question hquestion
      rw [show _ = pass.asking from rfl, hasking] at hquestion
      cases hquestion
  · rw [hask]
    refine ⟨h.news, h.cards, ?_, ?_⟩
    · rintro _ ⟨⟩
      exact ⟨hstart, hrest⟩
    · rintro _ ⟨⟩ question ⟨⟩
      exact ⟨hsymbol, h.found hsearch (hsearch.2 _ _ hstart symbol hsymbol) hitems⟩

omit [DecidableEq κ] in
/-- An answer comes in. -/
theorem Sound.receive (hreads : ReadsMembers contextCard)
    (h : w.Sound digest word settings agent events) {pass : SummarizerPass}
    (hpass : w.pass = some pass) {question : Asking} (hasking : pass.asking = some question)
    (reply : SummarizerReply) :
    (w.receive word contextCard settings agent pass question reply).Sound digest word settings
      agent events := by
  obtain ⟨hstart, hin⟩ := h.started pass hpass
  obtain ⟨hsymbol, hitems⟩ := h.asking pass hpass question hasking
  obtain ⟨status, hnote⟩ | ⟨raw, card, hparse, hstore⟩ :=
    receive_cases word contextCard settings agent w pass question reply
  · rw [hnote]
    refine ⟨h.news, h.cards, ?_, ?_⟩
    · rintro _ ⟨⟩
      exact ⟨hstart, hin⟩
    · rintro _ ⟨⟩ _ ⟨⟩
  · rw [hstore]
    obtain ⟨hcard, hasOf, hsources⟩ := accepted_card hreads hparse
    refine ⟨h.news, ?_, ?_, ?_⟩
    · intro row hrow
      rcases List.mem_append.mp hrow with hrow | hrow
      · exact h.cards row hrow
      · rw [List.mem_singleton.mp hrow]
        refine ⟨question.symbol, ⟨hcard, ⟨pass.symbols, hasOf ▸ hstart, hsymbol⟩,
          not_injection_of_accepted hparse, ?_⟩, by rw [hasOf]⟩
        intro s hs
        obtain ⟨i, hi, rfl⟩ := List.mem_map.mp (hsources s hs)
        obtain ⟨item, hbrought, hurl, hnames, hrecent⟩ := hitems i hi
        exact ⟨item, hbrought, by rw [hurl], hnames, hasOf ▸ hrecent⟩
    · rintro _ ⟨⟩
      exact ⟨hstart, hin⟩
    · rintro _ ⟨⟩ _ ⟨⟩

theorem Sound.step (hreads : ReadsMembers contextCard)
    (h : w.Sound digest word settings agent events) (event : SummarizerEvent)
    (hsearch : Searchable (events ++ [event])) :
    (SummarizerWorld.step digest word contextCard settings agent event w).Sound digest word
      settings agent (events ++ [event]) := by
  have hmore := h.append event
  unfold SummarizerWorld.step
  split
  next batch => exact h.storeNews batch
  next retentionDays now => exact hmore.pruneContext retentionDays now
  next symbols moment hpass =>
    refine ⟨hmore.news, hmore.cards, ?_, ?_⟩
    · rintro _ ⟨⟩
      refine ⟨by simp, fun s hs => ?_⟩
      rwa [fromKeys, List.mem_reverse, List.mem_dedup, List.mem_reverse] at hs
    · rintro _ ⟨⟩ _ ⟨⟩
  next readError pass hpass =>
    split
    next symbol rest hasking htodo => exact hmore.look hsearch hpass hasking htodo readError
    · exact hmore.noPass
    · exact hmore
  next reply pass hpass =>
    split
    next question hasking => exact hmore.receive hreads hpass hasking reply
    · exact hmore
  · exact hmore.noPass
  · exact hmore

theorem sound_run (hreads : ReadsMembers contextCard) {events : List SummarizerEvent}
    (hsearch : Searchable events) :
    (Lib.run (SummarizerWorld.step digest word contextCard settings agent) events
      SummarizerWorld.empty).Sound digest word settings agent events := by
  induction events using List.reverseRecOn with
  | nil =>
      refine ⟨?_, ?_, ?_, ?_⟩
      · intro row hrow
        cases hrow
      · intro row hrow
        cases hrow
      · rintro _ ⟨⟩
      · rintro _ ⟨⟩
  | append_singleton events event ih =>
      rw [Lib.run_append]
      refine (ih ⟨?_, ?_⟩).step hreads event hsearch
      · exact fun batch hbatch => hsearch.1 batch (List.mem_append_left _ hbatch)
      · exact fun symbols moment hstart => hsearch.2 symbols moment (List.mem_append_left _ hstart)

end SummarizerWorld

/-- **A card that is shown cites stored news.** In every history of news, passes and deletions, a
card that the trading prompt of a symbol gets was written for the symbol by a pass less than its
lifetime ago, without a phrase that the filter knows, and each of its sources is the address of an
item that was brought for this agent, names the symbol and was at most the look-back old. -/
theorem cards_are_sourced (hreads : ReadsMembers contextCard) {events : List SummarizerEvent}
    (hsearch : Searchable events) {symbol : Symbol} {now : Time} {card : ContextCard Time}
    (hactive : getActiveContextCard agent symbol now
      (Lib.run (SummarizerWorld.step digest word contextCard settings agent) events
        SummarizerWorld.empty).cards = some card) :
    Sourced word settings agent events symbol card ∧
      now < card.asOf + timedeltaHours settings.cardTtlHours := by
  have hsound : SummarizerWorld.Sound digest word settings agent events _ :=
    SummarizerWorld.sound_run hreads hsearch
  unfold getActiveContextCard at hactive
  split at hactive
  · cases hactive
  next row hrow =>
    split at hactive
    · -- the latest card has expired, and an older one is not shown in its place
      cases hactive
    next hfresh =>
      cases hactive
      obtain ⟨hmem, hcond⟩ := List.mem_filter.mp (List.mem_of_getLast? hrow)
      obtain ⟨hsymbol, -⟩ := of_decide_eq_true hcond
      obtain ⟨asked, hsourced, hexpires⟩ := hsound.cards row hmem
      have hsame : asked = symbol :=
        String.toList_inj.mp (hsourced.ofSymbol.symm.trans hsymbol)
      rw [hsame] at hsourced
      exact ⟨hsourced, hexpires ▸ not_le.mp hfresh⟩

/-! ## What a pass asks -/

/-- The symbols come up in their order, each one once and with one report, and the questions are at
most as many as a pass may ask, each with some items and not too many. -/
structure SummarizerPass.Accounted (settings : SummarizerSettings) (pass : SummarizerPass) :
    Prop where
  order : pass.status.map Prod.fst ++ (pass.asking.map Asking.symbol).toList ++ pass.todo
    = fromKeys pass.symbols
  asked : pass.asked.Sublist
    (pass.status.map Prod.fst ++ (pass.asking.map Asking.symbol).toList)
  calls : pass.asked.length = pass.calls
  cap : pass.calls ≤ settings.maxSymbolsPerRun
  question : ∀ question ∈ pass.asking, question.items ≠ [] ∧
    question.items.length ≤ settings.maxItemsPerCard

theorem accounted_start (settings : SummarizerSettings) (symbols : List Symbol) (moment : Time) :
    SummarizerPass.Accounted settings ⟨moment, symbols, fromKeys symbols, 0, [], none, []⟩ where
  order := rfl
  asked := List.nil_sublist _
  calls := rfl
  cap := Nat.zero_le _
  question := by rintro _ ⟨⟩

omit [DecidableEq κ] in
theorem SummarizerPass.Accounted.look {pass : SummarizerPass} (h : pass.Accounted settings)
    (hasking : pass.asking = none) {symbol : Symbol} {rest : List Symbol}
    (htodo : pass.todo = symbol :: rest) (w : SummarizerWorld κ) (readError : Option String) :
    (w.lookAt settings agent { pass with todo := rest } symbol readError).Accounted settings := by
  have horder := h.order
  have hasked := h.asked
  rw [hasking, htodo] at horder
  rw [hasking] at hasked
  simp only [Option.map_none, Option.toList_none, List.append_nil] at horder hasked
  obtain ⟨status, hnote⟩ | ⟨items, hcap, hitems, hne, -, hask⟩ :=
    SummarizerWorld.lookAt_cases settings agent w { pass with todo := rest } symbol readError
  · rw [hnote]
    refine ⟨?_, ?_, h.calls, h.cap, ?_⟩
    · simpa [SummarizerPass.note, hasking] using horder
    · simpa [SummarizerPass.note, hasking] using hasked.trans (List.sublist_append_left _ _)
    · intro question hquestion
      rw [show _ = pass.asking from rfl, hasking] at hquestion
      cases hquestion
  · rw [hask]
    refine ⟨?_, ?_, ?_, hcap, ?_⟩
    · simpa using horder
    · simpa using hasked
    · simpa using h.calls
    · rintro _ ⟨⟩
      exact ⟨hne, by simpa using length_getNewsForSymbol hitems⟩

theorem SummarizerPass.Accounted.note {pass : SummarizerPass} (h : pass.Accounted settings)
    {question : Asking} (hasking : pass.asking = some question) (status : SummarizerStatus) :
    ({ pass with asking := none }.note question.symbol status).Accounted settings := by
  have horder := h.order
  have hasked := h.asked
  rw [hasking] at horder hasked
  refine ⟨?_, ?_, h.calls, h.cap, ?_⟩
  · simpa [SummarizerPass.note] using horder
  · simpa [SummarizerPass.note] using hasked
  · rintro _ ⟨⟩

theorem accounted_step {w : SummarizerWorld κ}
    (h : ∀ pass ∈ w.pass, SummarizerPass.Accounted settings pass) (event : SummarizerEvent) :
    ∀ pass ∈ (SummarizerWorld.step digest word contextCard settings agent event w).pass,
      pass.Accounted settings := by
  unfold SummarizerWorld.step
  split
  · exact h
  · unfold SummarizerWorld.pruneContext
    split <;> exact h
  next symbols moment _ =>
    rintro _ ⟨⟩
    exact accounted_start settings symbols moment
  next readError pass hpass =>
    have haccounted := h pass hpass
    split
    next hasking htodo =>
      rintro _ ⟨⟩
      exact haccounted.look hasking htodo w readError
    · -- nothing is left to do, and the pass ends
      rintro _ ⟨⟩
    · exact h
  next reply pass hpass =>
    have haccounted := h pass hpass
    split
    next question hasking =>
      obtain ⟨status, hnote⟩ | ⟨raw, card, -, hstore⟩ :=
        SummarizerWorld.receive_cases word contextCard settings agent w pass question reply
      · rw [hnote]
        rintro _ ⟨⟩
        exact haccounted.note hasking status
      · rw [hstore]
        rintro _ ⟨⟩
        exact haccounted.note hasking _
    · exact h
  · rintro _ ⟨⟩
  · exact h

/-- **A pass keeps to its budget.** At every point of every run the symbols of the pass have come up
in their order, each of them once; those that the model was asked about are at most as many as the
settings allow, and none is asked about twice. -/
theorem pass_budget (events : List SummarizerEvent) :
    ∀ pass ∈ (Lib.run (SummarizerWorld.step digest word contextCard settings agent) events
      SummarizerWorld.empty).pass, pass.Accounted settings ∧ pass.asked.Nodup := by
  have hall : ∀ pass ∈ (Lib.run (SummarizerWorld.step digest word contextCard settings agent) events
      SummarizerWorld.empty).pass, pass.Accounted settings := by
    refine run_invariant (I := fun w : SummarizerWorld κ =>
      ∀ pass ∈ w.pass, SummarizerPass.Accounted settings pass) ?_ events ?_
    · exact fun event _ h => accounted_step h event
    · rintro _ ⟨⟩
  intro pass hpass
  refine ⟨hall pass hpass, ?_⟩
  -- what came up, what is asked and what is to do are the symbols, each one once
  have hnodup : (fromKeys pass.symbols).Nodup :=
    List.nodup_reverse.mpr (List.nodup_dedup _)
  rw [← (hall pass hpass).order] at hnodup
  exact (List.Nodup.of_append_left hnodup).sublist (hall pass hpass).asked

end Steps

end World

/-! ## A card from one item -/

theorem nothing_le {α : Type} : ([] : List α).length ≤ 5 := Nat.zero_le 5

/-- `ContextCard(**data, as_of=now)` for a card without catalysts and events, as far as texts and
bounds go. -/
def briefCard (data : Members) (now : Time) : Except Unit (ContextCard Time) :=
  match (field data "symbol").bind readStr, (field data "sources").bind readStrs with
  | some symbol, some sources =>
      if h : symbol.toList.length ≤ 20 ∧ (1 ≤ (sources.map String.toList).length ∧
          (sources.map String.toList).length ≤ 8) ∧
            ∀ s ∈ sources.map String.toList, s.length ≤ 1000 then
        .ok
          { symbol := symbol.toList, asOf := now, sentiment := 0, catalysts := [],
            eventRisk := [], sources := sources.map String.toList, confidence := 1,
            symbol_le := h.1, sentiment_mem := by norm_num, catalysts_le := nothing_le,
            catalyst_length := by simp, eventRisk_le := nothing_le, sources_mem := h.2.1,
            source_le := h.2.2, confidence_mem := by norm_num }
      else .error ()
  | _, _ => .error ()

theorem readsMembers_briefCard : ReadsMembers briefCard := by
  have hread : ∀ data now card, briefCard data now = .ok card → card.asOf = now ∧
      (∃ symbol, (field data "symbol").bind readStr = some symbol ∧ card.symbol = symbol.toList) ∧
      ∃ sources, (field data "sources").bind readStrs = some sources ∧
        card.sources = sources.map String.toList := by
    intro data now card h
    unfold briefCard at h
    split at h
    next symbol sources hsymbol hsources =>
      split at h
      · cases h
        exact ⟨rfl, ⟨symbol, hsymbol, rfl⟩, sources, hsources, rfl⟩
      · cases h
    · cases h
  refine ⟨fun data now card h => (hread data now card h).1, ?_, ?_⟩
  · intro data now card h
    obtain ⟨-, ⟨symbol, hsymbol, heq⟩, -⟩ := hread data now card h
    obtain ⟨v, hv, hstr⟩ := Option.bind_eq_some_iff.mp hsymbol
    rw [hv, eq_of_readStr hstr, heq]
    rfl
  · intro data now card h
    obtain ⟨-, -, sources, hsources, heq⟩ := hread data now card h
    obtain ⟨v, hv, hstrs⟩ := Option.bind_eq_some_iff.mp hsources
    obtain ⟨items, rfl, hmem⟩ := mem_of_readStrs hstrs
    refine ⟨items, hv, fun s hs => ?_⟩
    rw [heq] at hs
    obtain ⟨source, hsource, rfl⟩ := List.mem_map.mp hs
    exact hmem source hsource

def dailySettings : SummarizerSettings where
  cardTtlHours := 12
  lookbackHours := 24
  maxItemsPerCard := 8
  maxSymbolsPerRun := 5
  cardTtlHours_pos := by norm_num
  lookbackHours_pos := by norm_num
  maxItemsPerCard_pos := by norm_num
  maxSymbolsPerRun_pos := by norm_num

def listing : MatchedNews where
  source := "rss"
  url := "u"
  title := "Listed"
  text := "It is listed."
  publishedAt := 20
  symbols := ["BTC"]

/-- A reply that cites the address of the item, and one that nobody gave. -/
def briefReply : Text :=
  '\x7b' :: "\"symbol\":\"BTC\",\"sentiment\":0,\"sources\":[\"u\",\"v\"],".toList ++
    "\"confidence\":1".toList ++ ['\x7d']

/-- The item is stored, and a pass asks for a card of its symbol. -/
def onePass : List SummarizerEvent :=
  [.news ⟨"crypto", [listing]⟩, .start ["BTC"] 30, .look none,
    .answer ⟨[none, some briefReply], none⟩]

theorem cards_are_sourced_brief :
    ∃ card, getActiveContextCard "crypto" "BTC" 1000
        (Lib.run (SummarizerWorld.step Prod.mk asciiWord briefCard dailySettings "crypto") onePass
          SummarizerWorld.empty).cards = some card ∧
      Sourced asciiWord dailySettings "crypto" onePass "BTC" card ∧
        1000 < card.asOf + timedeltaHours dailySettings.cardTtlHours := by
  have hsome : (getActiveContextCard "crypto" "BTC" 1000
      (Lib.run (SummarizerWorld.step Prod.mk asciiWord briefCard dailySettings "crypto") onePass
        SummarizerWorld.empty).cards).isSome = true := by
    decide +kernel
  obtain ⟨card, hcard⟩ := Option.isSome_iff_exists.mp hsome
  have hsearch : Searchable onePass := by
    simp [Searchable, onePass, listing, PlainSymbol, PlainChar, Literal]
  exact ⟨card, hcard, cards_are_sourced readsMembers_briefCard hsearch hcard⟩

theorem pass_budget_brief :
    ∃ pass ∈ (Lib.run (SummarizerWorld.step Prod.mk asciiWord briefCard dailySettings "crypto")
      onePass SummarizerWorld.empty).pass,
        SummarizerPass.Accounted dailySettings pass ∧ pass.asked.Nodup := by
  have hsome : (Lib.run (SummarizerWorld.step Prod.mk asciiWord briefCard dailySettings "crypto")
      onePass SummarizerWorld.empty).pass.isSome = true := by
    decide +kernel
  obtain ⟨pass, hpass⟩ := Option.isSome_iff_exists.mp hsome
  exact ⟨pass, hpass, pass_budget onePass pass hpass⟩

end SmartyTrader
