import SmartyTrader.Lib.Lines
import SmartyTrader.Lib.Reader

set_option autoImplicit false

/-! # A JSON decoder

What `json.JSONDecoder().raw_decode` accepts: a value at the front of a text, with whatever behind
it. Strings are strict (no control characters) and come as code points, since an escape may stand
for a lone surrogate; numbers are kept as they are written; `NaN` and the infinities are read as
numbers. Of an object's members with one key the last counts, so the list keeps them all in order.
An object ends at its brace, so it is read whatever follows it (`objectAt_local`).
-/

namespace Lib.Json

open Reader

inductive Value where
  | null
  | bool (b : Bool)
  | num (lexeme : Text)
  | str (s : List ℕ)
  | arr (items : List Value)
  | obj (members : List (List ℕ × Value))

/-- The four white space characters. -/
def isWs (c : Char) : Bool := c = ' ' || c = '\t' || c = '\n' || c = '\r'

/-- The next character that is not white space. -/
def token : Reader Char Char := next.spaced isWs

/-! ## Strings -/

def hexDigit (c : Char) : Option ℕ :=
  if c.isDigit then some (c.toNat - 48)
  else if 'a' ≤ c ∧ c ≤ 'f' then some (c.toNat - 87)
  else if 'A' ≤ c ∧ c ≤ 'F' then some (c.toNat - 55)
  else none

def hex : Reader Char ℕ := next.bind fun c =>
  match hexDigit c with
  | some d => pure d
  | none => fail

def hex4 : Reader Char ℕ :=
  hex.bind fun a => hex.bind fun b => hex.bind fun c => hex.map fun d =>
    ((a * 16 + b) * 16 + c) * 16 + d

/-- What stands behind a backslash. -/
def escape : Reader Char ℕ := next.bind fun c =>
  if c = 'u' then hex4
  else if c = '"' ∨ c = '\\' ∨ c = '/' then pure c.toNat
  else if c = 'b' then pure 8
  else if c = 'f' then pure 12
  else if c = 'n' then pure 10
  else if c = 'r' then pure 13
  else if c = 't' then pure 9
  else fail

/-- One character of a string, of which `c` has been read. -/
def unitFrom (c : Char) : Reader Char ℕ :=
  if c = '\\' then escape else if c.toNat < 0x20 then fail else pure c.toNat

/-- The characters up to the closing quote. -/
def units : ℕ → Reader Char (List ℕ)
  | 0 => fail
  | n + 1 => next.bind fun c =>
      if c = '"' then pure [] else (unitFrom c).bind fun u => (units n).map (u :: ·)

/-- A high surrogate and the low one behind it are one character. -/
def joinSurrogates : List ℕ → List ℕ
  | hi :: lo :: s =>
      if 0xD800 ≤ hi ∧ hi ≤ 0xDBFF ∧ 0xDC00 ≤ lo ∧ lo ≤ 0xDFFF then
        (0x10000 + (hi - 0xD800) * 0x400 + (lo - 0xDC00)) :: joinSurrogates s
      else hi :: joinSurrogates (lo :: s)
  | s => s

/-- The rest of a string whose opening quote has been read. -/
def scanString : Reader Char (List ℕ) :=
  Reader.map joinSurrogates fun text => units (text.length + 1) text

/-! ## Numbers -/

def digit : Reader Char Char := next.bind fun c => if c.isDigit then pure c else fail

def digits : Reader Char Text := many Char.isDigit

def digits1 : Reader Char Text := digit.bind fun c => digits.map (c :: ·)

/-- `(\.\d+)?` -/
def fraction : Reader Char Text := opt <| next.bind fun c =>
  if c = '.' then digits1.map (c :: ·) else fail

/-- `([eE][-+]?\d+)?` -/
def exponent : Reader Char Text := opt <| next.bind fun c =>
  if c = 'e' ∨ c = 'E' then
    next.bind fun sign =>
      if sign = '-' ∨ sign = '+' then digits1.map fun ds => c :: sign :: ds
      else if sign.isDigit then digits.map fun ds => c :: sign :: ds
      else fail
  else fail

/-- A number without its sign, of which `c` has been read. -/
def numberFrom (c : Char) : Reader Char Text :=
  (if c = '0' then pure ['0'] else if c.isDigit then digits.map (c :: ·) else fail : Reader Char Text).bind
    fun whole => fraction.bind fun frac => exponent.map fun exp => whole ++ frac ++ exp

/-! ## Values -/

/-- What follows an opening brace. -/
def objectBody (members : Reader Char (List (List ℕ × Value))) : Reader Char Value :=
  token.bind fun c =>
    if c = '}' then pure (.obj [])
    else if c = '"' then members.map .obj
    else fail

/-- What follows an opening bracket. -/
def arrayBody (elements : Reader Char (List Value)) : Reader Char Value :=
  (token.bind fun c => if c = ']' then pure (.arr []) else fail).or
    ((elements.spaced isWs).map .arr)

mutual

/-- The value at the front of a text. -/
def scanOnce : ℕ → Reader Char Value
  | 0 => fail
  | n + 1 => next.bind fun c =>
      if c = '"' then scanString.map .str
      else if c = '{' then objectBody (members n)
      else if c = '[' then arrayBody (elements n)
      else if c = 'n' then word "ull".toList .null
      else if c = 't' then word "rue".toList (.bool true)
      else if c = 'f' then word "alse".toList (.bool false)
      else if c = 'N' then word "aN".toList (.num "NaN".toList)
      else if c = 'I' then word "nfinity".toList (.num "Infinity".toList)
      else if c = '-' then
        next.bind fun d =>
          if d = 'I' then word "nfinity".toList (.num "-Infinity".toList)
          else (numberFrom d).map fun number => .num ('-' :: number)
      else (numberFrom c).map .num

/-- What follows the opening quote of a key. -/
def members : ℕ → Reader Char (List (List ℕ × Value))
  | 0 => fail
  | n + 1 => scanString.bind fun key => token.bind fun c =>
      if c = ':' then
        ((scanOnce n).spaced isWs).bind fun value => token.bind fun c =>
          if c = '}' then pure [(key, value)]
          else if c = ',' then token.bind fun c =>
            if c = '"' then (members n).map ((key, value) :: ·) else fail
          else fail
      else fail

/-- The values of an array up to its closing bracket. -/
def elements : ℕ → Reader Char (List Value)
  | 0 => fail
  | n + 1 => (scanOnce n).bind fun value => token.bind fun c =>
      if c = ']' then pure [value]
      else if c = ',' then ((elements n).spaced isWs).map (value :: ·)
      else fail

end

/-! ## Strings and numbers are local -/

theorem local_token : Local Anything token := local_next.spaced takes_next isWs

theorem takes_token : Takes token := takes_next.spaced isWs

variable {ok : Text → Prop}

theorem local_hex : Local ok hex := by
  apply local_next.andThen
  intro c
  cases hexDigit c with
  | none => exact local_fail
  | some d => exact local_pure d

theorem local_hex4 : Local ok hex4 := by
  apply local_hex.andThen
  intro a
  apply local_hex.andThen
  intro b
  apply local_hex.andThen
  intro c
  exact local_hex.map _

theorem local_escape : Local ok escape := by
  apply local_next.andThen
  intro c
  apply Local.ite (fun _ => local_hex4)
  intro _
  apply Local.ite (fun _ => local_pure _)
  intro _
  apply Local.ite (fun _ => local_pure _)
  intro _
  apply Local.ite (fun _ => local_pure _)
  intro _
  apply Local.ite (fun _ => local_pure _)
  intro _
  apply Local.ite (fun _ => local_pure _)
  intro _
  exact Local.ite (fun _ => local_pure _) fun _ => local_fail

theorem local_unitFrom (c : Char) : Local ok (unitFrom c) := by
  unfold unitFrom
  split_ifs
  · exact local_escape
  · exact local_fail
  · exact local_pure _

theorem units_local (n : ℕ) : LocalAt 0 ok units n ∧ Takes (units n) := by
  induction n with
  | zero =>
      constructor
      · intro text v rest hread
        cases hread
      · intro text v rest hread
        cases hread
  | succ n ih =>
      apply LocalAt.round (fun _ => rfl) local_next takes_next
      · intro c
        apply LocalAt.ite
        · exact fun _ => LocalAt.pure _
        · exact fun _ => LocalAt.after (local_unitFrom c) fun u => ih.1.map (u :: ·)

theorem local_scanString : Local ok scanString :=
  (Local.of_fuel fun n => (units_local n).1).map joinSurrogates

theorem takes_scanString : Takes scanString := by
  apply Takes.map
  intro text v rest hread
  exact (@units_local Anything _).2 _ _ _ hread

/-- What a number may go on with. -/
def numberChar (c : Char) : Bool := c.isDigit || c = '.' || c = 'e' || c = 'E'

theorem local_digit : Local ok digit := by
  apply local_next.andThen
  intro c
  split_ifs
  · exact local_pure _
  · exact local_fail

theorem local_digits1 : Local (Stops Char.isDigit) digits1 :=
  local_digit.andThen fun c => (local_many Char.isDigit).map (c :: ·)

theorem local_fraction : Local (Stops fun c => c.isDigit || c = '.') fraction := by
  apply Local.opt
  · apply local_next.andThen
    intro c
    split_ifs
    · exact (local_digits1.map _).mono fun rest hrest => hrest.mono (by simp +contextual)
    · exact local_fail
  · intro rest hrest
    cases rest with
    | nil => rfl
    | cons c rest =>
        have hc : c ≠ '.' := by
          have := hrest c rfl
          simp only [Bool.or_eq_false_iff, decide_eq_false_iff_not] at this
          exact this.2
        simp [Reader.bind, next, hc, fail]

theorem local_exponent : Local (Stops numberChar) exponent := by
  apply Local.opt
  · apply local_next.andThen
    intro c
    have hmono : ∀ rest, Stops numberChar rest → Stops Char.isDigit rest :=
      fun rest hrest => hrest.mono (by simp +contextual [numberChar])
    split_ifs
    · apply local_next.andThen
      intro sign
      split_ifs
      · exact (local_digits1.map _).mono hmono
      · exact ((local_many Char.isDigit).map _).mono hmono
      · exact local_fail
    · exact local_fail
  · intro rest hrest
    cases rest with
    | nil => rfl
    | cons c rest =>
        have hc : ¬ (c = 'e' ∨ c = 'E') := by
          have := hrest c rfl
          simp only [numberChar, Bool.or_eq_false_iff, decide_eq_false_iff_not] at this
          tauto
        simp [Reader.bind, next, hc, fail]

/-- In front of any other character there is no exponent. -/
theorem exponent_of_ne {c : Char} {text : Text} (hc : ¬ (c = 'e' ∨ c = 'E')) :
    exponent (c :: text) = some ([], c :: text) := by
  simp [exponent, opt, Reader.bind, next, hc, fail]

theorem fraction_of_ne {c : Char} {text : Text} (hc : c ≠ '.') :
    fraction (c :: text) = some ([], c :: text) := by
  simp [fraction, opt, Reader.bind, next, hc, fail]

theorem local_numberFrom (c : Char) : Local (Stops numberChar) (numberFrom c) := by
  have hmono : ∀ rest, Stops numberChar rest → Stops Char.isDigit rest :=
    fun rest hrest => hrest.mono (by simp +contextual [numberChar])
  have hwhole : Local (Stops Char.isDigit) (if c = '0' then pure ['0']
      else if c.isDigit then digits.map (c :: ·) else fail : Reader Char Text) := by
    split_ifs
    · exact local_pure _
    · exact (local_many Char.isDigit).map _
    · exact local_fail
  apply hwhole.bind
  · intro whole
    apply local_fraction.bind fun frac => local_exponent.map _
    -- a digit or a point in front of the exponent would be left behind the number
    intro frac text v rest hread hrest
    obtain ⟨exp, hexp, -⟩ := map_eq_some_iff.mp hread
    apply stops_of_cons
    rintro d s rfl
    by_contra hnumber
    have hne : ¬ (d = 'e' ∨ d = 'E') := by
      rintro (rfl | rfl)
      · exact hnumber (by decide)
      · exact hnumber (by decide)
    rw [exponent_of_ne hne] at hexp
    cases hexp
    have hend := hrest d rfl
    simp only [numberChar, Bool.or_eq_false_iff, decide_eq_false_iff_not] at hend
    simp [hend.1.1.1, hend.1.1.2] at hnumber
  · intro whole text v rest hread hrest
    obtain ⟨frac, mid, hfrac, hread⟩ := bind_eq_some_iff.mp hread
    obtain ⟨exp, hexp, -⟩ := map_eq_some_iff.mp hread
    apply stops_of_cons
    rintro d s rfl
    by_contra hdigit
    rw [Bool.not_eq_false] at hdigit
    have hpoint : d ≠ '.' := by
      rintro rfl
      exact absurd hdigit (by decide)
    have hne : ¬ (d = 'e' ∨ d = 'E') := by
      rintro (rfl | rfl)
      · exact absurd hdigit (by decide)
      · exact absurd hdigit (by decide)
    rw [fraction_of_ne hpoint] at hfrac
    cases hfrac
    rw [exponent_of_ne hne] at hexp
    cases hexp
    have hend := hrest d rfl
    simp [numberChar, hdigit] at hend

/-! ## Values are local -/

/-- What is read behind a token tells the number in front of it where to end. -/
theorem stops_of_token {β : Type} {g : Char → Reader Char β} {text : Text} {read : β × Text}
    (hread : token.bind g text = some read)
    (hg : ∀ c s, g c s = some read → numberChar c = false) : Stops numberChar text := by
  apply stops_of_cons
  rintro c s rfl
  by_cases hc : isWs c = true
  · simp only [isWs, Bool.or_eq_true, decide_eq_true_eq] at hc
    rcases hc with ((rfl | rfl) | rfl) | rfl <;> decide
  · have htoken : token (c :: s) = some (c, s) := by
      simp [token, spaced, next, hc]
    rw [Reader.bind, htoken] at hread
    exact hg c s hread

variable {n : ℕ}

/-- Nothing that an array holds begins with its closing bracket. -/
theorem elements_bracket (m : ℕ) (text : Text) : elements m (']' :: text) = none := by
  cases m with
  | zero => rfl
  | succ m =>
      cases m with
      | zero => rfl
      | succ m =>
          rw [elements, scanOnce]
          rfl

theorem local_arrayBody (helements : LocalAt 0 Anything elements n) (htakes : Takes (elements n)) :
    LocalAt 0 Anything (fun m => arrayBody (elements m)) n := by
  apply LocalAt.or
  · apply Local.at
    apply local_token.andThen
    intro c
    split_ifs
    · exact local_pure _
    · exact local_fail
  · exact (helements.spaced htakes isWs).map _
  · rintro m text ⟨v, rest⟩ hread
    obtain ⟨items, hitems, -⟩ := map_eq_some_iff.mp hread
    have hitems : elements m (text.dropWhile isWs) = some (items, rest) := hitems
    cases htext : text.dropWhile isWs with
    | nil => simp [Reader.bind, token, spaced, next, htext]
    | cons c s =>
        have hc : c ≠ ']' := by
          rintro rfl
          rw [htext, elements_bracket] at hitems
          cases hitems
        simp [Reader.bind, token, spaced, next, htext, hc, fail]

theorem local_objectBody (hmembers : LocalAt 0 Anything members n) :
    LocalAt 0 Anything (fun m => objectBody (members m)) n := by
  apply (LocalAt.bind_local local_token takes_token _).weaken
  intro c
  apply LocalAt.ite (fun _ => LocalAt.pure _)
  intro _
  exact LocalAt.ite (fun _ => hmembers.map _) fun _ => LocalAt.fail

theorem scanOnce_step (hmembers : LocalAt 0 Anything members n)
    (helements : LocalAt 0 Anything elements n) (htakes : Takes (elements n)) :
    LocalAt 0 (Stops numberChar) scanOnce (n + 1) ∧ Takes (scanOnce (n + 1)) := by
  have hany : ∀ rest : Text, Stops numberChar rest → Anything rest := fun _ _ => trivial
  apply LocalAt.round (fun m => by rw [scanOnce]) local_next takes_next
  · intro c
    apply LocalAt.ite (fun _ => (local_scanString.map _).at _ _)
    intro _
    apply LocalAt.ite (fun _ => (local_objectBody hmembers).mono hany)
    intro _
    apply LocalAt.ite (fun _ => (local_arrayBody helements htakes).mono hany)
    intro _
    apply LocalAt.ite (fun _ => (local_word _ _).at _ _)
    intro _
    apply LocalAt.ite (fun _ => (local_word _ _).at _ _)
    intro _
    apply LocalAt.ite (fun _ => (local_word _ _).at _ _)
    intro _
    apply LocalAt.ite (fun _ => (local_word _ _).at _ _)
    intro _
    apply LocalAt.ite (fun _ => (local_word _ _).at _ _)
    intro _
    apply LocalAt.ite
    · intro _
      apply Local.at
      apply local_next.andThen
      intro d
      split_ifs
      · exact local_word _ _
      · exact (local_numberFrom d).map _
    · exact fun _ => ((local_numberFrom c).map _).at _ _

/-- What follows the value of a member. -/
def afterMember (n : ℕ) (key : List ℕ) (value : Value) : Reader Char (List (List ℕ × Value)) :=
  token.bind fun c =>
    if c = '}' then pure [(key, value)]
    else if c = ',' then token.bind fun c =>
      if c = '"' then (members n).map ((key, value) :: ·) else fail
    else fail

theorem members_succ (n : ℕ) : members (n + 1) = scanString.bind fun key => token.bind fun c =>
    if c = ':' then ((scanOnce n).spaced isWs).bind (afterMember n key) else fail := by
  rw [members]
  rfl

/-- What follows a value of an array. -/
def afterElement (n : ℕ) (value : Value) : Reader Char (List Value) :=
  token.bind fun c =>
    if c = ']' then pure [value]
    else if c = ',' then ((elements n).spaced isWs).map (value :: ·)
    else fail

theorem elements_succ (n : ℕ) : elements (n + 1) = (scanOnce n).bind (afterElement n) := by
  rw [elements]
  rfl

theorem afterMember_local (hmembers : LocalAt 0 Anything members n) (key : List ℕ)
    (value : Value) :
    LocalAt 0 Anything (fun m => afterMember m key value) n ∧ Takes (afterMember n key value) := by
  have hinner : ∀ c, LocalAt 0 Anything (fun m => if c = '}' then pure [(key, value)]
      else if c = ',' then token.bind fun c =>
        if c = '"' then (members m).map ((key, value) :: ·) else fail
      else fail) n := by
    intro c
    apply LocalAt.ite (fun _ => LocalAt.pure _)
    intro _
    apply LocalAt.ite _ fun _ => LocalAt.fail
    intro _
    apply (LocalAt.bind_local local_token takes_token _).weaken
    intro c
    exact LocalAt.ite (fun _ => hmembers.map _) fun _ => LocalAt.fail
  constructor
  · exact (LocalAt.bind_local local_token takes_token hinner).weaken
  · exact takes_token.bind fun c text v rest hread => (hinner c).length_le hread

/-- A number ends before the comma or the brace behind its member. -/
theorem stops_of_afterMember {key : List ℕ} {value : Value} {text : Text}
    {read : List (List ℕ × Value) × Text} (hread : afterMember n key value text = some read) :
    Stops numberChar text := by
  apply stops_of_token hread
  intro c s hc
  by_cases hbrace : c = '}'
  · rw [hbrace]
    decide
  · by_cases hcomma : c = ','
    · rw [hcomma]
      decide
    · rw [if_neg hbrace, if_neg hcomma] at hc
      cases hc

theorem members_step (hscan : LocalAt 0 (Stops numberChar) scanOnce n) (htakes : Takes (scanOnce n))
    (hmembers : LocalAt 0 Anything members n) :
    LocalAt 0 Anything members (n + 1) ∧ Takes (members (n + 1)) := by
  apply LocalAt.round members_succ local_scanString takes_scanString
  · intro key
    apply (LocalAt.bind_local local_token takes_token _).weaken
    intro c
    apply LocalAt.ite _ fun _ => LocalAt.fail
    intro _
    have hafter := afterMember_local hmembers key
    apply (LocalAt.bind (hscan.spaced htakes isWs) (htakes.spaced isWs) (fun u => (hafter u).1)
      (fun u => (hafter u).2) _).weaken
    intro m value text v rest hread _
    exact stops_of_afterMember hread

theorem afterElement_local (helements : LocalAt 0 Anything elements n) (htakes : Takes (elements n))
    (value : Value) :
    LocalAt 0 Anything (fun m => afterElement m value) n ∧ Takes (afterElement n value) := by
  have hinner : ∀ c, LocalAt 0 Anything (fun m => if c = ']' then pure [value]
      else if c = ',' then ((elements m).spaced isWs).map (value :: ·) else fail) n := by
    intro c
    apply LocalAt.ite (fun _ => LocalAt.pure _)
    intro _
    exact LocalAt.ite (fun _ => (helements.spaced htakes isWs).map _) fun _ => LocalAt.fail
  constructor
  · exact (LocalAt.bind_local local_token takes_token hinner).weaken
  · exact takes_token.bind fun c text v rest hread => (hinner c).length_le hread

/-- A number ends before the comma or the bracket behind it. -/
theorem stops_of_afterElement {value : Value} {text : Text} {read : List Value × Text}
    (hread : afterElement n value text = some read) : Stops numberChar text := by
  apply stops_of_token hread
  intro c s hc
  by_cases hbracket : c = ']'
  · rw [hbracket]
    decide
  · by_cases hcomma : c = ','
    · rw [hcomma]
      decide
    · rw [if_neg hbracket, if_neg hcomma] at hc
      cases hc

theorem elements_step (hscan : LocalAt 0 (Stops numberChar) scanOnce n) (htakes : Takes (scanOnce n))
    (helements : LocalAt 0 Anything elements n) (hetakes : Takes (elements n)) :
    LocalAt 0 Anything elements (n + 1) ∧ Takes (elements (n + 1)) := by
  have hafter := afterElement_local helements hetakes
  apply LocalAt.round_nested elements_succ hscan htakes (fun u => (hafter u).1)
    (fun u => (hafter u).2)
  intro m value text v rest hread _
  exact stops_of_afterElement hread

/-- Each reader is local, with fuel for what it reads. -/
theorem readers_local (n : ℕ) :
    (LocalAt 0 (Stops numberChar) scanOnce n ∧ Takes (scanOnce n)) ∧
      (LocalAt 0 Anything members n ∧ Takes (members n)) ∧
      (LocalAt 0 Anything elements n ∧ Takes (elements n)) := by
  induction n with
  | zero =>
      refine ⟨⟨?_, ?_⟩, ⟨?_, ?_⟩, ⟨?_, ?_⟩⟩ <;>
        · intro text v rest hread
          cases hread
  | succ n ih =>
      obtain ⟨⟨hscan, hstakes⟩, ⟨hmembers, -⟩, ⟨helements, hetakes⟩⟩ := ih
      exact ⟨scanOnce_step hmembers helements hetakes, members_step hscan hstakes hmembers,
        elements_step hscan hstakes helements hetakes⟩

/-! ## Objects -/

theorem suffix_of_token {text rest : Text} {c : Char} (h : token text = some (c, rest)) :
    (c :: rest) <:+ text := by
  have hnext : next (text.dropWhile isWs) = some (c, rest) := h
  cases htext : text.dropWhile isWs with
  | nil =>
      rw [htext] at hnext
      cases hnext
  | cons d s =>
      obtain ⟨rfl, rfl⟩ : d = c ∧ s = rest := by simpa [htext, next] using hnext
      rw [← htext]
      exact List.dropWhile_suffix _

/-- The members of an object end with its brace. -/
theorem brace_of_members {text rest : Text} {ms : List (List ℕ × Value)}
    (h : members n text = some (ms, rest)) : ('}' :: rest) <:+ text := by
  induction n generalizing text ms with
  | zero => cases h
  | succ n ih =>
      rw [members_succ] at h
      obtain ⟨key, t₁, hkey, h⟩ := bind_eq_some_iff.mp h
      obtain ⟨c, t₂, hcolon, h⟩ := bind_eq_some_iff.mp h
      have hsuffix : t₂ <:+ text :=
        ((List.suffix_cons c t₂).trans (suffix_of_token hcolon)).trans
          ((@local_scanString Anything).at 0 0 |>.suffix hkey)
      split_ifs at h with hc
      · obtain ⟨value, t₃, hvalue, h⟩ := bind_eq_some_iff.mp h
        have hscan := (readers_local n).1
        have hsuffix : t₃ <:+ text := ((hscan.1.spaced hscan.2 isWs).suffix hvalue).trans hsuffix
        obtain ⟨d, t₄, htoken, h⟩ := bind_eq_some_iff.mp h
        have hsuffix := (suffix_of_token htoken).trans hsuffix
        split_ifs at h with hbrace hcomma
        · cases h
          rwa [← hbrace]
        · obtain ⟨q, t₅, hquote, h⟩ := bind_eq_some_iff.mp h
          have hsuffix : t₅ <:+ text := ((List.suffix_cons q t₅).trans (suffix_of_token hquote)).trans
            ((List.suffix_cons d t₄).trans hsuffix)
          split_ifs at h with hq
          · obtain ⟨more, hmore, -⟩ := map_eq_some_iff.mp h
            exact (ih hmore).trans hsuffix
          · cases h
        · cases h
      · cases h

/-- `raw_decode` at the front of a text. -/
def decode (text : Text) : Option (Value × Text) := scanOnce (text.length + 1) text

theorem decode_brace (s : Text) :
    decode ('{' :: s) = objectBody (members (s.length + 1)) s := by
  rw [decode, scanOnce]
  rfl

/-- The value that an opening brace begins is read off every text that goes on as far. -/
theorem decode_local {s rest : Text} {v : Value} (h : decode ('{' :: s) = some (v, rest)) :
    ∃ lex, s = lex ++ rest ∧ ∀ rest', decode ('{' :: (lex ++ rest')) = some (v, rest') := by
  rw [decode_brace] at h
  have hlocal := local_objectBody (readers_local (s.length + 1)).2.1.1
  obtain ⟨lex, hs, hlex⟩ := hlocal _ _ _ h
  refine ⟨lex, hs, fun rest' => ?_⟩
  rw [decode_brace]
  apply hlex _ _ _ trivial
  rw [List.length_append]
  omega

/-- It is an object, and ends with its closing brace. -/
theorem decode_ends {s rest : Text} {v : Value} (h : decode ('{' :: s) = some (v, rest)) :
    (∃ ms, v = .obj ms) ∧ ('}' :: rest) <:+ s := by
  rw [decode_brace] at h
  obtain ⟨c, t, htoken, h⟩ := bind_eq_some_iff.mp h
  have hsuffix := suffix_of_token htoken
  split_ifs at h with hbrace hquote
  · cases h
    rw [← hbrace]
    exact ⟨⟨[], rfl⟩, hsuffix⟩
  · obtain ⟨ms, hms, rfl⟩ := map_eq_some_iff.mp h
    exact ⟨⟨ms, rfl⟩, (brace_of_members hms).trans ((List.suffix_cons c t).trans hsuffix)⟩
  · cases h

/-- A reader that never reads an object. -/
def ReadsNoObject (f : Reader Char Value) : Prop := ∀ text ms rest, f text ≠ some (.obj ms, rest)

theorem ReadsNoObject.ite {p : Prop} [Decidable p] {f g : Reader Char Value}
    (hf : p → ReadsNoObject f) (hg : ¬ p → ReadsNoObject g) :
    ReadsNoObject (if p then f else g) := by
  by_cases hp : p
  · rw [if_pos hp]
    exact hf hp
  · rw [if_neg hp]
    exact hg hp

theorem ReadsNoObject.bind {β : Type} (f : Reader Char β) {g : β → Reader Char Value}
    (hg : ∀ u, ReadsNoObject (g u)) : ReadsNoObject (f.bind g) := by
  intro text ms rest h
  obtain ⟨u, mid, -, h⟩ := bind_eq_some_iff.mp h
  exact hg u mid ms rest h

theorem readsNoObject_fail : ReadsNoObject fail := fun _ _ _ h => by cases h

theorem readsNoObject_pure {v : Value} (hv : ∀ ms, v ≠ .obj ms) : ReadsNoObject (pure v) := by
  intro text ms rest h
  cases h
  exact hv ms rfl

theorem readsNoObject_map {β : Type} (f : Reader Char β) {k : β → Value}
    (hk : ∀ u ms, k u ≠ .obj ms) : ReadsNoObject (f.map k) := by
  intro text ms rest h
  obtain ⟨u, -, hu⟩ := map_eq_some_iff.mp h
  exact hk u ms hu

theorem readsNoObject_num (f : Reader Char Text) (k : Text → Text) :
    ReadsNoObject (f.map fun number => .num (k number)) :=
  readsNoObject_map f fun _ _ hu => by cases hu

theorem readsNoObject_word (w : Text) {v : Value} (hv : ∀ ms, v ≠ .obj ms) :
    ReadsNoObject (word w v) := by
  intro text ms rest h
  unfold word at h
  split_ifs at h
  cases h
  exact hv ms rfl

theorem readsNoObject_arrayBody (elements : Reader Char (List Value)) :
    ReadsNoObject (arrayBody elements) := by
  intro text ms rest h
  rcases Option.or_eq_some_iff.mp h with h | ⟨-, h⟩
  · have hclosed : ReadsNoObject (token.bind fun c => if c = ']' then pure (.arr []) else fail) :=
      ReadsNoObject.bind token fun c => ReadsNoObject.ite
        (fun _ => readsNoObject_pure fun _ hv => by cases hv) fun _ => readsNoObject_fail
    exact hclosed text ms rest h
  · exact readsNoObject_map _ (fun _ _ hu => by cases hu) text ms rest h

/-- Only a brace begins an object. -/
theorem brace_of_decode {text rest : Text} {ms : List (List ℕ × Value)}
    (h : decode text = some (.obj ms, rest)) : ∃ s, text = '{' :: s := by
  rw [decode, scanOnce] at h
  obtain ⟨c, s, hnext, h⟩ := bind_eq_some_iff.mp h
  obtain rfl : text = c :: s := by
    cases text with
    | nil => cases hnext
    | cons d t =>
        cases hnext
        rfl
  by_cases hbrace : c = '{'
  · exact ⟨s, by rw [hbrace]⟩
  exfalso
  refine (?_ : ReadsNoObject _) s ms rest h
  apply ReadsNoObject.ite (fun _ => readsNoObject_map _ fun _ _ hu => by cases hu)
  intro _
  apply ReadsNoObject.ite (fun hc => absurd hc hbrace)
  intro _
  apply ReadsNoObject.ite (fun _ => readsNoObject_arrayBody _)
  intro _
  apply ReadsNoObject.ite (fun _ => readsNoObject_word _ fun _ hv => by cases hv)
  intro _
  apply ReadsNoObject.ite (fun _ => readsNoObject_word _ fun _ hv => by cases hv)
  intro _
  apply ReadsNoObject.ite (fun _ => readsNoObject_word _ fun _ hv => by cases hv)
  intro _
  apply ReadsNoObject.ite (fun _ => readsNoObject_word _ fun _ hv => by cases hv)
  intro _
  apply ReadsNoObject.ite (fun _ => readsNoObject_word _ fun _ hv => by cases hv)
  intro _
  apply ReadsNoObject.ite
  · intro _
    apply ReadsNoObject.bind
    intro d
    exact ReadsNoObject.ite (fun _ => readsNoObject_word _ fun _ hv => by cases hv)
      fun _ => readsNoObject_num _ _
  · exact fun _ => readsNoObject_num _ id

example : (decode "\x7b\"a\": [1.5e3, \"x\\u00e9\"], \"b\": null\x7d, ...".toList).map Prod.snd =
    some ", ...".toList := by decide +kernel

end Lib.Json
