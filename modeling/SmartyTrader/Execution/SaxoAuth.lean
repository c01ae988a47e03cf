import SmartyTrader.Core.Models
import SmartyTrader.Lib.History
import SmartyTrader.Lib.Runs

set_option autoImplicit false

/-! # The Saxo login

A refresh token is spent by the exchange that renews the pair, so the process and the token file
have to keep up with the token endpoint. The world below holds the process with its lock and the
file. The endpoint answers as it likes, with a new pair or an error, and may grant a request that
the process no longer waits for; what it promises are named conditions on the steps (`Renews`,
`Spends`). Answers may be lost, the file may fail to be written or be damaged, the process may die
at any point, and the login script may write a new pair into the file at any time.

`rotation_safe` says that no spent token is presented while every granted pair reaches the file,
`handed_out_valid` what may be said of a token that is handed out, and `spent_until_restart` that a
process left with a spent token stays without a session, whoever logs in, until it is restarted.
-/

namespace SmartyTrader

open Lib

/-! ## Tokens -/

structure TokenSet (τ : Type) where
  accessToken : String
  accessExpiresAt : τ
  refreshToken : String
  refreshExpiresAt : τ

/-- The body of a token response; the lifetimes are in microseconds. -/
structure TokenPayload where
  accessToken : String
  expiresIn : Time
  refreshToken : String
  refreshTokenExpiresIn : Option Time

/-- `DEFAULT_REFRESH_TTL` -/
def defaultRefreshTtl : Time := 2400 * 1000000

/-- The pair of a response that arrives at `now`. -/
def TokenPayload.tokens (payload : TokenPayload) (now : Time) : TokenSet Time where
  accessToken := payload.accessToken
  accessExpiresAt := now + payload.expiresIn
  refreshToken := payload.refreshToken
  refreshExpiresAt := now + payload.refreshTokenExpiresIn.getD defaultRefreshTtl

/-- What is at the path of the store. -/
inductive TokenFile where
  | missing
  | unreadable (kind : String)
  | stored (tokens : TokenSet Time)

structure OAuthConfig where
  path : String
  /-- `refresh_margin_seconds` -/
  margin : Time

/-- `TokenStore.load` -/
def TokenFile.load (path : String) : TokenFile → Except PyError (Option (TokenSet Time))
  | .missing => .ok none
  | .unreadable kind => .error (.raised s!"token file {path} is unreadable: {kind}")
  | .stored tokens => .ok (some tokens)

/-- `_current`: the pair in memory, else the one in the file. -/
def currentTokens (cfg : OAuthConfig) (file : TokenFile) :
    Option (TokenSet Time) → Except PyError (TokenSet Time)
  | some tokens => .ok tokens
  | none =>
      match file.load cfg.path with
      | .error err => .error err
      | .ok (some tokens) => .ok tokens
      | .ok none => .error (.raised
          s!"no Saxo login stored at {cfg.path} — run `python -m scripts.saxo_login`")

def refreshExpired : PyError :=
  .raised "the Saxo refresh token has expired — log in again with `python -m scripts.saxo_login`"

/-! ## The world -/

/-- What the endpoint answers. -/
inductive TokenReply where
  | granted (payload : TokenPayload)
  | rejected (status : ℕ) (detail : String)

/-- A refresh under way; its caller holds the lock. -/
structure Exchange where
  old : TokenSet Time
  /-- `access_token` waits for it, and not `refresh`. -/
  handOut : Bool
  reply : Option TokenReply

inductive OAuthEvent where
  /-- A token is handed out; `fresh` if right after an exchange. -/
  | handed (token : String) (expiresAt now : Time) (fresh : Bool)
  /-- The process sends a refresh token. -/
  | presented (refreshToken : String)
  /-- The endpoint has granted a new pair for a refresh token. -/
  | spent (refreshToken : String)
  | granted (tokens : TokenSet Time)
  | refused (err : PyError)
  | invalidated
  | restarted

structure OAuthWorld where
  /-- `_tokens` -/
  tokens : Option (TokenSet Time)
  exchange : Option Exchange
  /-- The refresh tokens of unanswered requests that the process no longer waits for. -/
  abandoned : List String
  file : TokenFile
  /-- When the process last looked at the clock. -/
  clock : Time
  /-- The newest event first. -/
  history : List OAuthEvent

inductive OAuthInput where
  /-- `access_token` or, if nothing is to be handed out, `refresh` (the keep-alive). -/
  | call (handOut : Bool) (now : Time)
  | invalidate (now : Time)
  /-- The endpoint answers the request under way. -/
  | serve (reply : TokenReply)
  /-- The endpoint grants a request that nobody waits for any more. -/
  | late (refreshToken : String)
  /-- The answer arrives; `saved` is what came of writing the file. -/
  | deliver (now : Time) (saved : Except PyError Unit)
  /-- The request fails, or its answer is lost or malformed. -/
  | lose (err : PyError)
  /-- `exchange_code`, by the login script. -/
  | login (payload : TokenPayload) (now : Time)
  /-- The file is removed, or spoilt in some way. -/
  | damage (kind : Option String)
  | restart

/-- `_refresh_locked`, up to the request. -/
def refreshLocked (handOut : Bool) (now : Time) (tokens : TokenSet Time) (w : OAuthWorld) :
    OAuthWorld :=
  if tokens.refreshExpiresAt ≤ now then { w with history := .refused refreshExpired :: w.history }
  else
    { w with
      exchange := some ⟨tokens, handOut, none⟩
      history := .presented tokens.refreshToken :: w.history }

/-- `access_token` and `refresh`, under the lock. -/
def callTokens (cfg : OAuthConfig) (handOut : Bool) (now : Time) (w : OAuthWorld) : OAuthWorld :=
  match currentTokens cfg w.file w.tokens with
  | .error err => { w with history := .refused err :: w.history }
  | .ok tokens =>
      let w := { w with tokens := some tokens }
      if handOut = true ∧ now < tokens.accessExpiresAt - cfg.margin then
        { w with
          history := .handed tokens.accessToken tokens.accessExpiresAt now false :: w.history }
      else refreshLocked handOut now tokens w

/-- `invalidate`: the access token counts as expired a second ago. -/
def invalidateTokens (cfg : OAuthConfig) (now : Time) (w : OAuthWorld) : OAuthWorld :=
  match currentTokens cfg w.file w.tokens with
  | .error err => { w with history := .refused err :: w.history }
  | .ok tokens =>
      { w with
        tokens := some { tokens with accessExpiresAt := now - 1000000 }
        history := .invalidated :: w.history }

/-- The endpoint's answer is on its way; with a new pair it has spent the old refresh token. -/
def serveRefresh (reply : TokenReply) (ex : Exchange) (w : OAuthWorld) : OAuthWorld :=
  match reply with
  | .granted _ =>
      { w with
        exchange := some { ex with reply := some reply }
        history := .spent ex.old.refreshToken :: w.history }
  | .rejected .. => { w with exchange := some { ex with reply := some reply } }

/-- The process waits no longer. A request without an answer may still reach the endpoint. -/
def abandon (w : OAuthWorld) : OAuthWorld :=
  match w.exchange with
  | some ⟨old, _, none⟩ =>
      { w with exchange := none, abandoned := old.refreshToken :: w.abandoned }
  | _ => { w with exchange := none }

/-- The answer is taken to memory, then to the file, and then handed out. -/
def deliverReply (now : Time) (saved : Except PyError Unit) (ex : Exchange) (reply : TokenReply)
    (w : OAuthWorld) : OAuthWorld :=
  match reply with
  | .rejected status detail =>
      { w with
        exchange := none
        history := .refused (.raised s!"token request rejected: HTTP {status} ({detail})")
          :: w.history }
  | .granted payload =>
      let fresh := payload.tokens now
      let w := { w with
        exchange := none
        tokens := some fresh
        history := .granted fresh :: w.history }
      match saved with
      | .error err => { w with history := .refused err :: w.history }
      | .ok _ =>
          let w := { w with file := .stored fresh }
          if ex.handOut then
            { w with
              history := .handed fresh.accessToken fresh.accessExpiresAt now true :: w.history }
          else w

/-- One step; a call waits for the lock, and a move that is not possible changes nothing. -/
def oauthStep (cfg : OAuthConfig) (i : OAuthInput) (w : OAuthWorld) : OAuthWorld :=
  match i, w.exchange with
  | .call handOut now, none => callTokens cfg handOut now { w with clock := now }
  | .invalidate now, none => invalidateTokens cfg now { w with clock := now }
  | .serve reply, some ex =>
      match ex.reply with
      | none => serveRefresh reply ex w
      | some _ => w
  | .late refreshToken, _ =>
      if refreshToken ∈ w.abandoned then
        { w with
          abandoned := w.abandoned.erase refreshToken
          history := .spent refreshToken :: w.history }
      else w
  | .deliver now saved, some ex =>
      match ex.reply with
      | none => w
      | some reply => deliverReply now saved ex reply { w with clock := now }
  | .lose err, some _ => { abandon w with history := .refused err :: w.history }
  | .login payload now, _ => { w with file := .stored (payload.tokens now) }
  | .damage none, _ => { w with file := .missing }
  | .damage (some kind), _ => { w with file := .unreadable kind }
  | .restart, _ => { abandon w with tokens := none, history := .restarted :: w.history }
  | _, _ => w

/-- Before the first login. -/
def OAuthWorld.initial : OAuthWorld where
  tokens := none
  exchange := none
  abandoned := []
  file := .missing
  clock := 0
  history := []

/-! ## Rotation -/

/-- The endpoint has granted a new pair for the refresh token. -/
def OAuthWorld.Spent (w : OAuthWorld) (refreshToken : String) : Prop :=
  .spent refreshToken ∈ w.history

/-- Every pair that the endpoint grants reaches the file: a granted answer is neither lost nor
forgotten by a restart, the file can be written, and no request is granted that was given up. -/
def Uncut : OAuthInput → OAuthWorld → Prop
  | .lose _, w => ∀ ex ∈ w.exchange, ∀ payload, ex.reply ≠ some (.granted payload)
  | .restart, w => ∀ ex ∈ w.exchange, ∀ payload, ex.reply ≠ some (.granted payload)
  | .deliver _ saved, _ => saved = .ok ()
  | .late refreshToken, w => refreshToken ∉ w.abandoned
  | _, _ => True

/-- The contract of the endpoint on new pairs: their refresh token was not spent before. -/
def Renews : OAuthInput → OAuthWorld → Prop
  | .serve (.granted payload), w => ∀ ex ∈ w.exchange,
      payload.refreshToken ≠ ex.old.refreshToken ∧ ¬ w.Spent payload.refreshToken
  | .login payload _, w => ¬ w.Spent payload.refreshToken
  | _, _ => True

/-- The refresh token that the process holds at the end of the exchange. -/
def Exchange.next (ex : Exchange) : String :=
  match ex.reply with
  | some (.granted payload) => payload.refreshToken
  | _ => ex.old.refreshToken

/-- What is presented was not spent before. -/
def PresentedOk : OAuthEvent → List OAuthEvent → Prop
  | .presented refreshToken, older => .spent refreshToken ∉ older
  | _, _ => True

/-- The refresh tokens that the process and the file hold are not spent, except that the file waits
for a pair that was granted. -/
structure SoundSession (w : OAuthWorld) : Prop where
  memory : w.exchange = none → ∀ tokens ∈ w.tokens, ¬ w.Spent tokens.refreshToken
  pending : ∀ ex ∈ w.exchange, ¬ w.Spent ex.next
  file : ∀ tokens, w.file = .stored tokens → w.Spent tokens.refreshToken →
    ∃ ex ∈ w.exchange, ∃ payload, ex.reply = some (.granted payload)
  presented : Justified PresentedOk w.history

theorem currentTokens_unspent {cfg : OAuthConfig} {w : OAuthWorld} {tokens : TokenSet Time}
    (h : SoundSession w) (hfree : w.exchange = none)
    (hcur : currentTokens cfg w.file w.tokens = .ok tokens) : ¬ w.Spent tokens.refreshToken := by
  unfold currentTokens at hcur
  split at hcur
  · next tokens' hmem =>
      obtain rfl : tokens' = tokens := by simpa using hcur
      exact h.memory hfree tokens' hmem
  · cases hfile : w.file with
    | missing => simp [hfile, TokenFile.load] at hcur
    | unreadable kind => simp [hfile, TokenFile.load] at hcur
    | stored stored =>
        obtain rfl : stored = tokens := by simpa [hfile, TokenFile.load] using hcur
        intro hspent
        obtain ⟨ex, hex, -⟩ := h.file stored hfile hspent
        rw [hfree] at hex
        cases hex

/-- The event spends no refresh token. -/
def OAuthEvent.isSpent : OAuthEvent → Bool
  | .spent _ => true
  | _ => false

theorem spent_cons {e : OAuthEvent} (he : e.isSpent = false) {history : List OAuthEvent}
    {refreshToken : String} :
    OAuthEvent.spent refreshToken ∈ e :: history ↔ .spent refreshToken ∈ history := by
  rw [List.mem_cons, or_iff_right]
  rintro rfl
  simp [OAuthEvent.isSpent] at he

/-- An event that spends nothing. -/
theorem SoundSession.record {w : OAuthWorld} (h : SoundSession w) {e : OAuthEvent}
    (he : e.isSpent = false) (hok : PresentedOk e w.history) :
    SoundSession { w with history := e :: w.history } where
  memory hfree tokens htok hspent := h.memory hfree tokens htok ((spent_cons he).mp hspent)
  pending ex hex hspent := h.pending ex hex ((spent_cons he).mp hspent)
  file tokens hfile hspent := h.file tokens hfile ((spent_cons he).mp hspent)
  presented := ⟨hok, h.presented⟩

/-- The lock is free, and the process holds an unspent pair. -/
theorem SoundSession.settle {w : OAuthWorld} (h : SoundSession w) (hfree : w.exchange = none)
    {tokens : TokenSet Time} (hunspent : ¬ w.Spent tokens.refreshToken) :
    SoundSession { w with tokens := some tokens } where
  memory := by
    rintro - tokens' hmem
    obtain rfl : tokens = tokens' := by simpa using hmem
    exact hunspent
  pending := by
    intro ex hex
    rw [show ({ w with tokens := some tokens } : OAuthWorld).exchange = w.exchange from rfl,
      hfree] at hex
    cases hex
  file := h.file
  presented := h.presented

theorem sound_clock {w : OAuthWorld} (h : SoundSession w) (clock : Time) :
    SoundSession { w with clock := clock } :=
  ⟨h.memory, h.pending, h.file, h.presented⟩

theorem sound_call {cfg : OAuthConfig} {w : OAuthWorld} (h : SoundSession w)
    (hfree : w.exchange = none) (handOut : Bool) (now : Time) :
    SoundSession (callTokens cfg handOut now w) := by
  unfold callTokens
  cases hcur : currentTokens cfg w.file w.tokens with
  | error err => exact h.record rfl trivial
  | ok tokens =>
      have hunspent := currentTokens_unspent h hfree hcur
      have hheld := h.settle hfree hunspent
      dsimp only
      split_ifs with hvalid
      · exact hheld.record rfl trivial
      · unfold refreshLocked
        split_ifs with hexpired
        · exact hheld.record rfl trivial
        · refine ⟨?_, ?_, ?_, ⟨hunspent, h.presented⟩⟩
          · intro hnone
            cases hnone
          · intro ex hex
            obtain rfl := Option.some.inj hex
            exact fun hspent => hunspent ((spent_cons rfl).mp hspent)
          · intro tokens' hfile hspent
            obtain ⟨ex, hex, -⟩ := h.file tokens' hfile ((spent_cons rfl).mp hspent)
            rw [hfree] at hex
            cases hex

theorem sound_invalidate {cfg : OAuthConfig} {w : OAuthWorld} (h : SoundSession w)
    (hfree : w.exchange = none) (now : Time) : SoundSession (invalidateTokens cfg now w) := by
  unfold invalidateTokens
  cases hcur : currentTokens cfg w.file w.tokens with
  | error err => exact h.record rfl trivial
  | ok tokens =>
      have hunspent := currentTokens_unspent h hfree hcur
      have hexpired : ¬ w.Spent { tokens with accessExpiresAt := now - 1000000 }.refreshToken :=
        hunspent
      exact (h.settle hfree hexpired).record rfl trivial

theorem sound_serve {reply : TokenReply} {ex : Exchange} {w : OAuthWorld} (h : SoundSession w)
    (hex : w.exchange = some ex) (hreply : ex.reply = none)
    (hrenews : Renews (.serve reply) w) : SoundSession (serveRefresh reply ex w) := by
  cases reply with
  | rejected status detail =>
      have hold : ¬ w.Spent ex.old.refreshToken := by
        have hnext := h.pending ex hex
        rwa [Exchange.next, hreply] at hnext
      refine ⟨(fun hnone => nomatch hnone), ?_, ?_, h.presented⟩
      · intro ex' hex'
        obtain rfl := Option.some.inj hex'
        exact hold
      · intro tokens hfile hspent
        obtain ⟨ex', hex', payload, hgranted⟩ := h.file tokens hfile hspent
        obtain rfl : ex = ex' := Option.some.inj (hex.symm.trans hex')
        rw [hreply] at hgranted
        cases hgranted
  | granted payload =>
      obtain ⟨hne, hnew⟩ := hrenews ex hex
      refine ⟨(fun hnone => nomatch hnone), ?_, ?_, ⟨trivial, h.presented⟩⟩
      · intro ex' hex'
        obtain rfl := Option.some.inj hex'
        intro hspent
        rcases List.mem_cons.mp hspent with heq | hspent
        · exact hne (OAuthEvent.spent.inj heq)
        · exact hnew hspent
      · exact fun _ _ _ => ⟨_, rfl, payload, rfl⟩

theorem sound_deliver {now : Time} {ex : Exchange} {reply : TokenReply} {w : OAuthWorld}
    (h : SoundSession w) (hex : w.exchange = some ex) (hheld : w.tokens = some ex.old)
    (hreply : ex.reply = some reply) :
    SoundSession (deliverReply now (.ok ()) ex reply w) := by
  have hnext := h.pending ex hex
  rw [Exchange.next, hreply] at hnext
  cases reply with
  | rejected status detail =>
      have hend : SoundSession { w with exchange := none } := by
        refine ⟨?_, (fun ex' hex' => nomatch hex'), ?_, h.presented⟩
        · rintro - tokens htok
          obtain rfl := Option.some.inj (hheld.symm.trans htok)
          exact hnext
        · intro tokens hfile hspent
          obtain ⟨ex', hex', payload, hgranted⟩ := h.file tokens hfile hspent
          obtain rfl : ex = ex' := Option.some.inj (hex.symm.trans hex')
          rw [hreply] at hgranted
          cases hgranted
      exact hend.record rfl trivial
  | granted payload =>
      have hstored : SoundSession { w with
          exchange := none
          tokens := some (payload.tokens now)
          file := .stored (payload.tokens now) } := by
        refine ⟨?_, (fun ex' hex' => nomatch hex'), ?_, h.presented⟩
        · rintro - tokens htok
          obtain rfl := Option.some.inj htok
          exact hnext
        · intro tokens hfile hspent
          obtain rfl := TokenFile.stored.inj hfile
          exact absurd hspent hnext
      have hgranted := hstored.record (e := .granted (payload.tokens now)) rfl trivial
      show SoundSession (if ex.handOut then _ else _)
      split_ifs
      · exact hgranted.record rfl trivial
      · exact hgranted

theorem abandon_same (w : OAuthWorld) : (abandon w).exchange = none ∧
    (abandon w).tokens = w.tokens ∧ (abandon w).file = w.file ∧
      (abandon w).history = w.history ∧ (abandon w).clock = w.clock := by
  unfold abandon
  split <;> exact ⟨rfl, rfl, rfl, rfl, rfl⟩

/-- The process holds the pair that it exchanges. -/
def Held (w : OAuthWorld) : Prop := ∀ ex ∈ w.exchange, w.tokens = some ex.old

/-- The exchange ends without a new pair. -/
theorem sound_abandon {w : OAuthWorld} (h : SoundSession w) (hheld : Held w)
    (huncut : ∀ ex ∈ w.exchange, ∀ payload, ex.reply ≠ some (.granted payload)) :
    SoundSession (abandon w) := by
  obtain ⟨hexchange, htokens, hfile, hhistory, -⟩ := abandon_same w
  refine ⟨?_, ?_, ?_, ?_⟩
  · rintro - tokens htok
    rw [htokens] at htok
    rw [OAuthWorld.Spent, hhistory]
    cases hex : w.exchange with
    | none => exact h.memory hex tokens htok
    | some ex =>
        obtain rfl : ex.old = tokens := Option.some.inj ((hheld ex hex).symm.trans htok)
        have hnext := h.pending ex hex
        unfold Exchange.next at hnext
        split at hnext
        next payload hgranted => exact absurd hgranted (huncut ex hex payload)
        · exact hnext
  · intro ex hex
    rw [hexchange] at hex
    cases hex
  · intro tokens hstored hspent
    rw [hfile] at hstored
    rw [OAuthWorld.Spent, hhistory] at hspent
    obtain ⟨ex, hex, payload, hgranted⟩ := h.file tokens hstored hspent
    exact absurd hgranted (huncut ex hex payload)
  · rw [hhistory]
    exact h.presented

/-- A file that holds no spent token. -/
theorem SoundSession.withFile {w : OAuthWorld} (h : SoundSession w) {file : TokenFile}
    (hfile : ∀ tokens, file = .stored tokens → ¬ w.Spent tokens.refreshToken) :
    SoundSession { w with file := file } :=
  ⟨h.memory, h.pending, fun tokens hf hspent => absurd hspent (hfile tokens hf), h.presented⟩

theorem held_call {cfg : OAuthConfig} {handOut : Bool} {now : Time} {w : OAuthWorld}
    (hfree : w.exchange = none) : Held (callTokens cfg handOut now w) := by
  have hnone : ∀ ex ∈ w.exchange, False := by
    intro ex hex
    rw [hfree] at hex
    cases hex
  unfold callTokens
  split
  · exact fun ex hex => (hnone ex hex).elim
  · dsimp only
    split_ifs
    · exact fun ex hex => (hnone ex hex).elim
    · unfold refreshLocked
      split_ifs
      · exact fun ex hex => (hnone ex hex).elim
      · intro ex hex
        obtain rfl := Option.some.inj hex
        rfl

theorem exchange_invalidate (cfg : OAuthConfig) (now : Time) (w : OAuthWorld) :
    (invalidateTokens cfg now w).exchange = w.exchange := by
  unfold invalidateTokens
  split <;> rfl

theorem exchange_deliver (now : Time) (saved : Except PyError Unit) (ex : Exchange)
    (reply : TokenReply) (w : OAuthWorld) :
    (deliverReply now saved ex reply w).exchange = none := by
  unfold deliverReply
  split
  · rfl
  · dsimp only
    split
    · rfl
    · split_ifs <;> rfl

theorem held_of_none {w : OAuthWorld} (hfree : w.exchange = none) : Held w := by
  intro ex hex
  rw [hfree] at hex
  cases hex

theorem held_serve {reply : TokenReply} {ex : Exchange} {w : OAuthWorld} (h : Held w)
    (hex : w.exchange = some ex) : Held (serveRefresh reply ex w) := by
  unfold serveRefresh
  split
  all_goals
    intro ex' hex'
    obtain rfl := Option.some.inj hex'
    exact h ex hex

theorem held_step (cfg : OAuthConfig) (i : OAuthInput) {w : OAuthWorld} (h : Held w) :
    Held (oauthStep cfg i w) := by
  unfold oauthStep
  split
  case h_1 handOut now hfree => exact held_call hfree
  case h_2 now hfree => exact held_of_none ((exchange_invalidate cfg now _).trans hfree)
  case h_3 reply ex hex =>
    split
    · exact held_serve h hex
    · exact h
  case h_4 refreshToken =>
    split_ifs
    · exact h
    · exact h
  case h_5 now saved ex hex =>
    split
    · exact h
    · exact held_of_none (exchange_deliver now saved ex _ _)
  case h_6 err ex hex => exact held_of_none (abandon_same w).1
  case h_10 => exact held_of_none (abandon_same w).1
  all_goals exact h

theorem sound_step (cfg : OAuthConfig) (i : OAuthInput) (w : OAuthWorld)
    (hcond : Uncut i w ∧ Renews i w) (h : SoundSession w ∧ Held w) :
    SoundSession (oauthStep cfg i w) ∧ Held (oauthStep cfg i w) := by
  refine ⟨?_, held_step cfg i h.2⟩
  obtain ⟨huncut, hrenews⟩ := hcond
  obtain ⟨h, hheld⟩ := h
  unfold oauthStep
  split
  case h_1 handOut now hfree => exact sound_call (sound_clock h now) hfree handOut now
  case h_2 now hfree => exact sound_invalidate (sound_clock h now) hfree now
  case h_3 reply ex hex =>
    split
    · next hreply => exact sound_serve h hex hreply hrenews
    · exact h
  case h_4 refreshToken => rwa [if_neg huncut]
  case h_5 now saved ex hex =>
    split
    · exact h
    · next reply hreply =>
        obtain rfl : saved = .ok () := huncut
        exact sound_deliver (sound_clock h now) hex (hheld ex hex) hreply
  case h_6 err ex hex =>
    rw [← (abandon_same w).2.2.2.1]
    exact (sound_abandon h hheld huncut).record rfl trivial
  case h_7 payload now =>
    refine h.withFile fun tokens hfile => ?_
    obtain rfl := TokenFile.stored.inj hfile
    exact hrenews
  case h_8 => exact h.withFile fun tokens hfile => nomatch hfile
  case h_9 kind => exact h.withFile fun tokens hfile => nomatch hfile
  case h_10 =>
    have hend := sound_abandon h hheld huncut
    have hgone : SoundSession { abandon w with tokens := none } := by
      refine ⟨?_, hend.pending, hend.file, hend.presented⟩
      rintro - tokens htok
      cases htok
    rw [← (abandon_same w).2.2.2.1]
    exact hgone.record rfl trivial
  case h_11 => exact h

theorem sound_initial : SoundSession OAuthWorld.initial where
  memory := by simp [OAuthWorld.initial]
  pending := by simp [OAuthWorld.initial]
  file := by simp [OAuthWorld.initial]
  presented := trivial

theorem held_run (cfg : OAuthConfig) (inputs : List OAuthInput) :
    Held (Lib.run (oauthStep cfg) inputs OAuthWorld.initial) :=
  run_invariant (fun i _ h => held_step cfg i h) inputs (held_of_none rfl)

/-- **Rotation.** However calls, rejections, logins, errors of the endpoint, damage to the file and
restarts interleave, while every granted pair reaches the file the process never presents a refresh
token that is spent; and with no exchange under way neither the process nor the file holds one. -/
theorem rotation_safe (cfg : OAuthConfig) (inputs : List OAuthInput)
    (huncut : EachStep (oauthStep cfg) Uncut inputs OAuthWorld.initial)
    (hrenews : EachStep (oauthStep cfg) Renews inputs OAuthWorld.initial) :
    let w := Lib.run (oauthStep cfg) inputs OAuthWorld.initial
    (∀ newer refreshToken older, w.history = newer ++ .presented refreshToken :: older →
      .spent refreshToken ∉ older) ∧
      (w.exchange = none → (∀ tokens ∈ w.tokens, ¬ w.Spent tokens.refreshToken) ∧
        ∀ tokens, w.file = .stored tokens → ¬ w.Spent tokens.refreshToken) := by
  intro w
  have h : SoundSession w ∧ Held w :=
    run_preserves (I := fun w => SoundSession w ∧ Held w)
      (fun i s hp hs => sound_step cfg i s hp hs) inputs (huncut.and hrenews)
      ⟨sound_initial, held_of_none rfl⟩
  refine ⟨?_, fun hfree => ⟨h.1.memory hfree, ?_⟩⟩
  · intro newer refreshToken older hsplit
    exact (justified_iff _).mp h.1.presented newer _ older hsplit
  · intro tokens hfile hspent
    obtain ⟨ex, hex, -⟩ := h.1.file tokens hfile hspent
    rw [hfree] at hex
    cases hex

/-! ## What is handed out -/

/-- The clock does not go back. -/
def Forward : OAuthInput → OAuthWorld → Prop
  | .call _ now, w => w.clock ≤ now
  | .invalidate now, w => w.clock ≤ now
  | .deliver now _, w => w.clock ≤ now
  | _, _ => True

/-- The events after which the pair in memory is another one. -/
def OAuthEvent.isTurn : OAuthEvent → Bool
  | .granted _ | .invalidated | .restarted => true
  | _ => false

/-- The process was told that its token is rejected, and has no new one since. A rejection is not
stored, so it ends with the process. -/
def Invalid : List OAuthEvent → Prop := Latest OAuthEvent.isTurn fun e _ => e = .invalidated

/-- What holds when a token is handed out: it comes right out of an exchange, or it is valid for
more than the margin and was not rejected. -/
def HandedOk (cfg : OAuthConfig) : OAuthEvent → List OAuthEvent → Prop
  | .handed token expiresAt _ true, older => ∃ tokens rest, older = .granted tokens :: rest ∧
      token = tokens.accessToken ∧ expiresAt = tokens.accessExpiresAt
  | .handed _ expiresAt now false, older => now + cfg.margin < expiresAt ∧ ¬ Invalid older
  | _, _ => True

structure ValidSession (cfg : OAuthConfig) (w : OAuthWorld) : Prop where
  invalid : Invalid w.history → ∃ tokens, w.tokens = some tokens ∧ tokens.accessExpiresAt < w.clock
  handed : Justified (HandedOk cfg) w.history

/-- An event after which the pair is the one it was. -/
theorem ValidSession.record {cfg : OAuthConfig} {w : OAuthWorld} (h : ValidSession cfg w)
    {e : OAuthEvent} (hturn : e.isTurn = false) (hguard : HandedOk cfg e w.history) :
    ValidSession cfg { w with history := e :: w.history } where
  invalid := by
    intro hinv
    refine h.invalid ?_
    simpa [Invalid, latest_cons, hturn] using hinv
  handed := ⟨hguard, h.handed⟩

/-- An event after which the pair is another one, but not a rejected one. -/
theorem ValidSession.turn {cfg : OAuthConfig} {w w' : OAuthWorld} (h : ValidSession cfg w)
    {e : OAuthEvent} (hturn : e.isTurn = true) (hne : e ≠ .invalidated)
    (hhistory : w'.history = e :: w.history) : ValidSession cfg w' where
  invalid := by
    intro hinv
    rw [hhistory, Invalid, latest_cons, if_pos hturn] at hinv
    exact absurd hinv hne
  handed := by
    rw [hhistory]
    refine ⟨?_, h.handed⟩
    cases e with
    | handed token expiresAt now fresh => simp [OAuthEvent.isTurn] at hturn
    | _ => trivial

theorem ValidSession.later {cfg : OAuthConfig} {w : OAuthWorld} (h : ValidSession cfg w)
    {now : Time} (hnow : w.clock ≤ now) : ValidSession cfg { w with clock := now } where
  invalid := by
    intro hinv
    obtain ⟨tokens, htok, hexp⟩ := h.invalid hinv
    exact ⟨tokens, htok, lt_of_lt_of_le hexp hnow⟩
  handed := h.handed

theorem valid_call {cfg : OAuthConfig} (hmargin : 0 ≤ cfg.margin) {w : OAuthWorld}
    (h : ValidSession cfg w) (handOut : Bool) :
    ValidSession cfg (callTokens cfg handOut w.clock w) := by
  unfold callTokens
  cases hcur : currentTokens cfg w.file w.tokens with
  | error err => exact h.record rfl trivial
  | ok tokens =>
      have hsame : ∀ held, w.tokens = some held → held = tokens := by
        intro held hheld
        simpa [currentTokens, hheld] using hcur
      have hinv : Invalid w.history → tokens.accessExpiresAt < w.clock := by
        intro hinv
        obtain ⟨held, hheld, hexp⟩ := h.invalid hinv
        rw [← hsame held hheld]
        exact hexp
      have hloaded : ValidSession cfg { w with tokens := some tokens } :=
        ⟨fun hi => ⟨tokens, rfl, hinv hi⟩, h.handed⟩
      dsimp only
      split_ifs with hvalid
      · refine hloaded.record rfl ⟨by linarith [hvalid.2], ?_⟩
        intro hi
        have hexp := hinv hi
        linarith [hvalid.2]
      · unfold refreshLocked
        split_ifs
        · exact hloaded.record rfl trivial
        · have hsent := hloaded.record (e := .presented tokens.refreshToken) rfl trivial
          exact ⟨hsent.invalid, hsent.handed⟩

theorem valid_invalidate {cfg : OAuthConfig} {w : OAuthWorld} (h : ValidSession cfg w) :
    ValidSession cfg (invalidateTokens cfg w.clock w) := by
  unfold invalidateTokens
  cases hcur : currentTokens cfg w.file w.tokens with
  | error err => exact h.record rfl trivial
  | ok tokens =>
      refine ⟨fun _ => ⟨_, rfl, ?_⟩, ⟨trivial, h.handed⟩⟩
      show w.clock - 1000000 < w.clock
      linarith

theorem valid_deliver {cfg : OAuthConfig} {saved : Except PyError Unit} {ex : Exchange}
    {reply : TokenReply} {w : OAuthWorld} (h : ValidSession cfg w) (now : Time) :
    ValidSession cfg (deliverReply now saved ex reply w) := by
  cases reply with
  | rejected status detail =>
      have hrefused : ValidSession cfg { w with exchange := none } := ⟨h.invalid, h.handed⟩
      exact hrefused.record rfl trivial
  | granted payload =>
      cases saved with
      | error err =>
          have hgranted : ValidSession cfg { w with
              exchange := none
              tokens := some (payload.tokens now)
              history := .granted (payload.tokens now) :: w.history } :=
            h.turn rfl (by simp) rfl
          exact hgranted.record rfl trivial
      | ok u =>
          have hgranted : ValidSession cfg { w with
              exchange := none
              tokens := some (payload.tokens now)
              file := .stored (payload.tokens now)
              history := .granted (payload.tokens now) :: w.history } :=
            h.turn rfl (by simp) rfl
          show ValidSession cfg (if ex.handOut then _ else _)
          split_ifs
          · exact hgranted.record rfl ⟨_, _, rfl, rfl, rfl⟩
          · exact hgranted

theorem valid_abandon {cfg : OAuthConfig} {w : OAuthWorld} (h : ValidSession cfg w) :
    ValidSession cfg (abandon w) := by
  obtain ⟨-, htokens, -, hhistory, hclock⟩ := abandon_same w
  refine ⟨?_, by rw [hhistory]; exact h.handed⟩
  rw [hhistory, htokens, hclock]
  exact h.invalid

theorem valid_step {cfg : OAuthConfig} (hmargin : 0 ≤ cfg.margin) (i : OAuthInput)
    (w : OAuthWorld) (hforward : Forward i w) (h : ValidSession cfg w) :
    ValidSession cfg (oauthStep cfg i w) := by
  unfold oauthStep
  split
  case h_1 handOut now _ =>
    exact valid_call (w := { w with clock := now }) hmargin (h.later hforward) handOut
  case h_2 now _ => exact valid_invalidate (w := { w with clock := now }) (h.later hforward)
  case h_3 reply ex _ =>
    split
    · cases reply with
      | granted payload =>
          have hspent := h.record (e := .spent ex.old.refreshToken) rfl trivial
          exact ⟨hspent.invalid, hspent.handed⟩
      | rejected status detail => exact ⟨h.invalid, h.handed⟩
    · exact h
  case h_4 refreshToken =>
    split_ifs
    · have hspent := h.record (e := .spent refreshToken) rfl trivial
      exact ⟨hspent.invalid, hspent.handed⟩
    · exact h
  case h_5 now saved ex _ =>
    split
    · exact h
    · exact valid_deliver (h.later hforward) now
  case h_6 err ex _ =>
    have hrefused := (valid_abandon h).record (e := .refused err) rfl trivial
    rw [(abandon_same w).2.2.2.1] at hrefused
    exact hrefused
  case h_7 payload now => exact ⟨h.invalid, h.handed⟩
  case h_8 => exact ⟨h.invalid, h.handed⟩
  case h_9 kind => exact ⟨h.invalid, h.handed⟩
  case h_10 => exact h.turn (e := .restarted) rfl (by simp) rfl
  case h_11 => exact h

/-- **What is handed out.** In every run under a clock that does not go back, a token that is handed
out comes right out of an exchange, or it is valid for more than the refresh margin and was not
rejected since the process started and since its last exchange. -/
theorem handed_out_valid (cfg : OAuthConfig) (hmargin : 0 ≤ cfg.margin) (inputs : List OAuthInput)
    (hforward : EachStep (oauthStep cfg) Forward inputs OAuthWorld.initial)
    (newer older : List OAuthEvent) (token : String) (expiresAt now : Time) (fresh : Bool)
    (hhanded : (Lib.run (oauthStep cfg) inputs OAuthWorld.initial).history
      = newer ++ .handed token expiresAt now fresh :: older) :
    HandedOk cfg (.handed token expiresAt now fresh) older := by
  have hinit : ValidSession cfg OAuthWorld.initial := ⟨fun hinv => absurd hinv latest_nil, trivial⟩
  have h : ValidSession cfg (Lib.run (oauthStep cfg) inputs OAuthWorld.initial) :=
    run_preserves (fun i s hp hs => valid_step hmargin i s hp hs) inputs hforward hinit
  exact (justified_iff _).mp h.handed newer _ older hhanded

/-! ## A spent refresh token -/

/-- The contract of the endpoint on spent refresh tokens: they get no new pair. -/
def Spends : OAuthInput → OAuthWorld → Prop
  | .serve (.granted _), w => ∀ ex ∈ w.exchange, ¬ w.Spent ex.old.refreshToken
  | _, _ => True

/-- The process holds the pair `tokens` of which the refresh token is spent, perhaps with the access
token expired by a rejection, and no new pair is on its way. -/
structure Stranded (tokens : TokenSet Time) (w : OAuthWorld) : Prop where
  memory : ∃ held, w.tokens = some held ∧ held.accessToken = tokens.accessToken ∧
    held.refreshToken = tokens.refreshToken ∧
    (held.accessExpiresAt = tokens.accessExpiresAt ∨ held.accessExpiresAt < w.clock)
  spent : w.Spent tokens.refreshToken
  pending : ∀ ex ∈ w.exchange, ex.old.refreshToken = tokens.refreshToken ∧
    ∀ payload, ex.reply ≠ some (.granted payload)

/-- What a stranded process can still do: present the spent token, and hand out the access token it
has while that is valid. -/
def StrandedOk (cfg : OAuthConfig) (tokens : TokenSet Time) : OAuthEvent → Prop
  | .handed token _ now _ => token = tokens.accessToken ∧ now + cfg.margin < tokens.accessExpiresAt
  | .presented refreshToken => refreshToken = tokens.refreshToken
  | .granted _ => False
  | .restarted => False
  | _ => True

/-- From one world to another with only such events. -/
def StrandedStep (cfg : OAuthConfig) (tokens : TokenSet Time) (w w' : OAuthWorld) : Prop :=
  Stranded tokens w' ∧ ∃ newer, w'.history = newer ++ w.history ∧
    ∀ e ∈ newer, StrandedOk cfg tokens e

theorem StrandedStep.same {cfg : OAuthConfig} {tokens : TokenSet Time} {w w' : OAuthWorld}
    (h : Stranded tokens w') (hhistory : w'.history = w.history) :
    StrandedStep cfg tokens w w' := ⟨h, [], hhistory, by simp⟩

theorem StrandedStep.one {cfg : OAuthConfig} {tokens : TokenSet Time} {w w' : OAuthWorld}
    (h : Stranded tokens w') {e : OAuthEvent} (hhistory : w'.history = e :: w.history)
    (he : StrandedOk cfg tokens e) : StrandedStep cfg tokens w w' :=
  ⟨h, [e], hhistory, by simpa using he⟩

section Stranded

variable {cfg : OAuthConfig} {tokens : TokenSet Time}

theorem stranded_call (hmargin : 0 ≤ cfg.margin) {w : OAuthWorld} (h : Stranded tokens w)
    (handOut : Bool) : StrandedStep cfg tokens w (callTokens cfg handOut w.clock w) := by
  obtain ⟨held, hheld, haccess, hrefresh, hexp⟩ := h.memory
  have hcur : currentTokens cfg w.file w.tokens = .ok held := by simp [currentTokens, hheld]
  have hkept : Stranded tokens { w with tokens := some held } :=
    ⟨⟨held, rfl, haccess, hrefresh, hexp⟩, h.spent, h.pending⟩
  unfold callTokens
  rw [hcur]
  dsimp only
  split_ifs with hvalid
  · refine .one ⟨hkept.memory, List.mem_cons_of_mem _ h.spent, h.pending⟩ rfl ⟨haccess, ?_⟩
    rcases hexp with heq | hlt
    · rw [← heq]
      linarith [hvalid.2]
    · linarith [hvalid.2]
  · unfold refreshLocked
    split_ifs
    · exact .one ⟨hkept.memory, List.mem_cons_of_mem _ h.spent, h.pending⟩ rfl trivial
    · refine .one ⟨hkept.memory, List.mem_cons_of_mem _ h.spent, ?_⟩ rfl hrefresh
      intro ex hex
      obtain rfl := Option.some.inj hex
      exact ⟨hrefresh, by simp⟩

theorem stranded_invalidate {w : OAuthWorld} (h : Stranded tokens w) :
    StrandedStep cfg tokens w (invalidateTokens cfg w.clock w) := by
  obtain ⟨held, hheld, haccess, hrefresh, -⟩ := h.memory
  have hcur : currentTokens cfg w.file w.tokens = .ok held := by simp [currentTokens, hheld]
  unfold invalidateTokens
  rw [hcur]
  refine .one ⟨⟨_, rfl, haccess, hrefresh, .inr ?_⟩, List.mem_cons_of_mem _ h.spent, h.pending⟩
    rfl trivial
  show w.clock - 1000000 < w.clock
  linarith

theorem stranded_serve {reply : TokenReply} {ex : Exchange} {w : OAuthWorld}
    (h : Stranded tokens w) (hex : w.exchange = some ex) (hspends : Spends (.serve reply) w) :
    StrandedStep cfg tokens w (serveRefresh reply ex w) := by
  obtain ⟨hold, -⟩ := h.pending ex hex
  cases reply with
  | granted payload => exact absurd (hold ▸ h.spent) (hspends ex hex)
  | rejected status detail =>
      refine .same ⟨h.memory, h.spent, ?_⟩ rfl
      intro ex' hex'
      obtain rfl := Option.some.inj hex'
      exact ⟨hold, by simp⟩

theorem stranded_later {w : OAuthWorld} (h : Stranded tokens w) {now : Time}
    (hnow : w.clock ≤ now) : Stranded tokens { w with clock := now } := by
  obtain ⟨held, hheld, haccess, hrefresh, hexp⟩ := h.memory
  exact ⟨⟨held, hheld, haccess, hrefresh, hexp.imp_right fun hlt => lt_of_lt_of_le hlt hnow⟩,
    h.spent, h.pending⟩

theorem stranded_step (hmargin : 0 ≤ cfg.margin) {i : OAuthInput} {w : OAuthWorld}
    (hforward : Forward i w) (hspends : Spends i w) (hstay : i ≠ .restart)
    (h : Stranded tokens w) : StrandedStep cfg tokens w (oauthStep cfg i w) := by
  unfold oauthStep
  split
  case h_1 handOut now _ =>
    exact stranded_call (w := { w with clock := now }) hmargin (stranded_later h hforward) handOut
  case h_2 now _ =>
    exact stranded_invalidate (w := { w with clock := now }) (stranded_later h hforward)
  case h_3 reply ex hex =>
    split
    · exact stranded_serve h hex hspends
    · exact .same h rfl
  case h_4 refreshToken =>
    split_ifs
    · exact .one ⟨h.memory, List.mem_cons_of_mem _ h.spent, h.pending⟩ rfl trivial
    · exact .same h rfl
  case h_5 now saved ex hex =>
    split
    · exact .same h rfl
    · next reply hreply =>
        cases reply with
        | granted payload => exact absurd hreply ((h.pending ex hex).2 payload)
        | rejected status detail =>
            have hlater : Stranded tokens { w with clock := now } := stranded_later h hforward
            refine .one ⟨hlater.memory, List.mem_cons_of_mem _ h.spent, ?_⟩ rfl trivial
            intro ex' hex'
            cases hex'
  case h_6 err ex _ =>
    obtain ⟨hexchange, htokens, -, -, hclock⟩ := abandon_same w
    refine .one ⟨?_, List.mem_cons_of_mem _ h.spent, ?_⟩ rfl trivial
    · rw [htokens, hclock]
      exact h.memory
    · rw [hexchange]
      simp
  case h_7 payload now => exact .same ⟨h.memory, h.spent, h.pending⟩ rfl
  case h_8 => exact .same ⟨h.memory, h.spent, h.pending⟩ rfl
  case h_9 kind => exact .same ⟨h.memory, h.spent, h.pending⟩ rfl
  case h_10 => exact absurd rfl hstay
  case h_11 => exact .same h rfl

theorem stranded_run (hmargin : 0 ≤ cfg.margin) (inputs : List OAuthInput) {w : OAuthWorld}
    (hforward : EachStep (oauthStep cfg) Forward inputs w)
    (hspends : EachStep (oauthStep cfg) Spends inputs w) (hstay : .restart ∉ inputs)
    (h : Stranded tokens w) :
    StrandedStep cfg tokens w (Lib.run (oauthStep cfg) inputs w) := by
  induction inputs generalizing w with
  | nil => exact .same h rfl
  | cons i rest ih =>
      have hne : i ≠ .restart := fun heq => hstay (heq ▸ List.mem_cons_self ..)
      obtain ⟨hnext, first, hfirst, hfirstOk⟩ :=
        stranded_step hmargin hforward.1 hspends.1 hne h
      obtain ⟨hend, later, hlater, hlaterOk⟩ :=
        ih hforward.2 hspends.2 (fun hmem => hstay (List.mem_cons_of_mem _ hmem)) hnext
      refine ⟨hend, later ++ first, ?_, ?_⟩
      · rw [run_cons, hlater, hfirst, List.append_assoc]
      · intro e he
        rcases List.mem_append.mp he with he | he
        · exact hlaterOk e he
        · exact hfirstOk e he

end Stranded

/-- **Stranded until the restart.** Where the endpoint has granted a new pair that the process will
not get, because the answer was lost or went to a request that was given up, the process goes on
with a spent refresh token: until it is restarted it takes no new pair, whatever logins the file
gets, and it hands out the access token it has while that is valid and nothing afterwards. -/
theorem spent_until_restart (cfg : OAuthConfig) (hmargin : 0 ≤ cfg.margin)
    (before after : List OAuthInput) (tokens : TokenSet Time)
    (hheld : (Lib.run (oauthStep cfg) before OAuthWorld.initial).tokens = some tokens)
    (hspent : (Lib.run (oauthStep cfg) before OAuthWorld.initial).Spent tokens.refreshToken)
    (hlost : ∀ ex ∈ (Lib.run (oauthStep cfg) before OAuthWorld.initial).exchange,
      ∀ payload, ex.reply ≠ some (.granted payload))
    (hstay : .restart ∉ after)
    (hforward : EachStep (oauthStep cfg) Forward after
      (Lib.run (oauthStep cfg) before OAuthWorld.initial))
    (hspends : EachStep (oauthStep cfg) Spends after
      (Lib.run (oauthStep cfg) before OAuthWorld.initial)) :
    StrandedStep cfg tokens (Lib.run (oauthStep cfg) before OAuthWorld.initial)
      (Lib.run (oauthStep cfg) (before ++ after) OAuthWorld.initial) := by
  have hpair := held_run cfg before
  rw [run_append]
  refine stranded_run hmargin after hforward hspends hstay ⟨?_, hspent, ?_⟩
  · exact ⟨tokens, hheld, rfl, rfl, .inl rfl⟩
  · intro ex hex
    obtain rfl : ex.old = tokens := Option.some.inj ((hpair ex hex).symm.trans hheld)
    exact ⟨rfl, hlost ex hex⟩

/-- Twenty minutes of access, forty of refresh. -/
def simPair (name : String) : TokenPayload where
  accessToken := "access " ++ name
  expiresIn := 1200 * 1000000
  refreshToken := "refresh " ++ name
  refreshTokenExpiresIn := none

def simConfig : OAuthConfig where
  path := "saxo.json"
  margin := 120 * 1000000

/-- A login and a renewal eighteen minutes later, which the endpoint first answers with an error. -/
def renewal : List OAuthInput :=
  [.login (simPair "1") 0, .call true 0, .call true 1080000000, .serve (.rejected 503 "busy"),
    .deliver 1080000000 (.ok ()), .call true 1081000000, .serve (.granted (simPair "2"))]

theorem rotation_safe_renewal :
    let w := Lib.run (oauthStep simConfig)
      (renewal ++ [.deliver 1081000000 (.ok ()), .call true 1082000000]) OAuthWorld.initial
    (∀ newer refreshToken older, w.history = newer ++ .presented refreshToken :: older →
      .spent refreshToken ∉ older) ∧
      (w.exchange = none → (∀ tokens ∈ w.tokens, ¬ w.Spent tokens.refreshToken) ∧
        ∀ tokens, w.file = .stored tokens → ¬ w.Spent tokens.refreshToken) := by
  refine rotation_safe simConfig _ ⟨trivial, trivial, trivial, trivial, rfl, trivial, trivial, rfl,
    trivial, trivial⟩ ⟨?_, trivial, trivial, trivial, trivial, trivial, ?_, trivial, trivial,
      trivial⟩
  · intro hspent
    cases hspent
  · intro ex hex
    obtain rfl : ex = ⟨(simPair "1").tokens 0, true, none⟩ := (Option.some.inj hex).symm
    refine ⟨by decide, fun hspent => ?_⟩
    simp [OAuthWorld.Spent, oauthStep, callTokens, currentTokens, TokenFile.load, refreshLocked,
      serveRefresh, deliverReply, simPair, simConfig, TokenPayload.tokens, OAuthWorld.initial,
      defaultRefreshTtl] at hspent

/-- After a rejection the token is exchanged, and the new one is handed out again. -/
theorem handed_out_valid_login :
    HandedOk simConfig (.handed "access 2" 2400000000 1201000000 false)
      [.handed "access 2" 2400000000 1200000000 true, .granted ((simPair "2").tokens 1200000000),
        .spent "refresh 1", .presented "refresh 1", .invalidated,
        .handed "access 1" 1200000000 0 false] :=
  handed_out_valid simConfig (by decide)
    [.login (simPair "1") 0, .call true 0, .invalidate 1000000, .call true 1200000000,
      .serve (.granted (simPair "2")), .deliver 1200000000 (.ok ()), .call true 1201000000]
    ⟨trivial, le_rfl, (by decide : (0 : Time) ≤ 1000000),
      (by decide : (1000000 : Time) ≤ 1200000000), trivial, le_refl (1200000000 : Time),
      (by decide : (1200000000 : Time) ≤ 1201000000), trivial⟩
    [] _ "access 2" 2400000000 1201000000 false rfl

/-- The granted pair is lost. A login does not help, and the next exchange is rejected. -/
theorem spent_until_restart_login :
    StrandedStep simConfig ((simPair "1").tokens 0)
      (Lib.run (oauthStep simConfig) (renewal ++ [.lose (.raised "timeout")]) OAuthWorld.initial)
      (Lib.run (oauthStep simConfig) ((renewal ++ [.lose (.raised "timeout")]) ++
        [.login (simPair "3") 1090000000, .call true 1090000000,
          .serve (.rejected 401 "invalid_grant"), .deliver 1091000000 (.ok ())])
        OAuthWorld.initial) :=
  spent_until_restart simConfig (by decide) (renewal ++ [.lose (.raised "timeout")])
    [.login (simPair "3") 1090000000, .call true 1090000000,
      .serve (.rejected 401 "invalid_grant"), .deliver 1091000000 (.ok ())]
    ((simPair "1").tokens 0) rfl
    (List.mem_cons_of_mem _ List.mem_cons_self) (fun _ hex => nomatch hex) (by simp)
    ⟨trivial, (by decide : (1081000000 : Time) ≤ 1090000000), trivial,
      (by decide : (1090000000 : Time) ≤ 1091000000), trivial⟩
    ⟨trivial, trivial, trivial, trivial, trivial⟩

end SmartyTrader
