import SmartyTrader.Lib.Json

set_option autoImplicit false

/-! # A JSON encoder

What `json.dumps` writes, and that the decoder of `Lib.Json` reads it back (`decode_dump`). Two
things differ between encoders: whether everything beyond ASCII is escaped, and the white space
behind a comma or a colon. A number is written as its lexeme; whoever writes one owes that the
decoder takes it for a number (`IsNumber`).
-/

namespace Lib.Json

open Reader

/-- How texts are laid out. -/
structure Layout where
  /-- Escape everything beyond ASCII. -/
  ascii : Bool
  /-- What stands behind a comma or a colon. -/
  gap : Text
  gap_ws : ∀ c ∈ gap, isWs c = true

/-! ## Writing strings -/

/-- The digit `d`, in lower case. -/
def hexChar (d : ℕ) : Char := Char.ofNat (if d < 10 then 48 + d else 87 + d)

def hexText (u : ℕ) : Text :=
  [hexChar (u / 4096 % 16), hexChar (u / 256 % 16), hexChar (u / 16 % 16), hexChar (u % 16)]

def escaped (u : ℕ) : Text := '\\' :: 'u' :: hexText u

/-- The two halves of a character beyond the first 65536. -/
def highHalf (u : ℕ) : ℕ := 0xD800 + (u - 0x10000) / 0x400 % 0x400

def lowHalf (u : ℕ) : ℕ := 0xDC00 + (u - 0x10000) % 0x400

/-- The letter behind the backslash of a short escape. -/
def shortEscape (u : ℕ) : Option Char :=
  if u = 34 then some '"'
  else if u = 92 then some '\\'
  else if u = 8 then some 'b'
  else if u = 12 then some 'f'
  else if u = 10 then some 'n'
  else if u = 13 then some 'r'
  else if u = 9 then some 't'
  else none

/-- One character of a string. -/
def unitText (layout : Layout) (u : ℕ) : Text :=
  match shortEscape u with
  | some c => ['\\', c]
  | none =>
      if u < 0x20 then escaped u
      else if layout.ascii = true ∧ 0x7E < u then
        if 0xFFFF < u then escaped (highHalf u) ++ escaped (lowHalf u) else escaped u
      else [Char.ofNat u]

/-- What stands behind the opening quote. -/
def stringRest (layout : Layout) (s : List ℕ) : Text := s.flatMap (unitText layout) ++ ['"']

def stringText (layout : Layout) (s : List ℕ) : Text := '"' :: stringRest layout s

/-! ## Writing values -/

mutual

def dump (layout : Layout) : Value → Text
  | .null => "null".toList
  | .bool true => "true".toList
  | .bool false => "false".toList
  | .num lexeme => lexeme
  | .str s => stringText layout s
  | .arr items => '[' :: dumpItems layout items
  | .obj members => '{' :: dumpMembers layout members

/-- The values of an array up to its closing bracket. -/
def dumpItems (layout : Layout) : List Value → Text
  | [] => [']']
  | [v] => dump layout v ++ [']']
  | v :: w :: rest => dump layout v ++ ',' :: (layout.gap ++ dumpItems layout (w :: rest))

/-- The members of an object up to its closing brace. -/
def dumpMembers (layout : Layout) : List (List ℕ × Value) → Text
  | [] => ['}']
  | [(key, v)] => stringText layout key ++ ':' :: (layout.gap ++ (dump layout v ++ ['}']))
  | (key, v) :: m :: rest =>
      stringText layout key ++ ':' :: (layout.gap ++ (dump layout v ++
        ',' :: (layout.gap ++ dumpMembers layout (m :: rest))))

end

/-- The layout of `json.dumps`. -/
def Layout.python : Layout := ⟨true, [' '], by simp [isWs]⟩

/-- The compact layout. -/
def Layout.compact : Layout := ⟨false, [], by simp⟩

example : String.ofList (dump .python (.obj [([97], .arr [.str [233, 0x1F600], .num ['1'], .null])]))
    = "\x7b\"a\": [\"\\u00e9\\ud83d\\ude00\", 1, null]\x7d" := by decide

/-- The decoder takes the text for the number it is. -/
def IsNumber (lexeme : Text) : Prop := decode lexeme = some (.num lexeme, [])

/-- Characters: no surrogates. -/
def Scalars (s : List ℕ) : Prop := ∀ u ∈ s, u.isValidChar

mutual

/-- What the encoder is asked to write: strings of characters, and numbers. -/
def Writable : Value → Prop
  | .num lexeme => IsNumber lexeme
  | .str s => Scalars s
  | .arr items => WritableItems items
  | .obj members => WritableMembers members
  | _ => True

def WritableItems : List Value → Prop
  | [] => True
  | v :: rest => Writable v ∧ WritableItems rest

def WritableMembers : List (List ℕ × Value) → Prop
  | [] => True
  | (key, v) :: rest => Scalars key ∧ Writable v ∧ WritableMembers rest

end

/-! ## Reading strings back -/

theorem hexDigit_hexChar {d : ℕ} (h : d < 16) : hexDigit (hexChar d) = some d := by
  have hall : ∀ d : Fin 16, hexDigit (hexChar d) = some d.val := by decide
  exact hall ⟨d, h⟩

theorem hex_hexChar {d : ℕ} (h : d < 16) (text : Text) :
    hex (hexChar d :: text) = some (d, text) := by
  simp only [hex, Reader.bind, next, Option.bind_some, hexDigit_hexChar h]
  rfl

theorem hex4_hexText {u : ℕ} (h : u < 0x10000) (text : Text) :
    hex4 (hexText u ++ text) = some (u, text) := by
  have hmod (n : ℕ) : n % 16 < 16 := Nat.mod_lt _ (by decide)
  show hex4 (hexChar _ :: hexChar _ :: hexChar _ :: hexChar _ :: text) = _
  simp only [hex4, Reader.bind, Reader.map, hex_hexChar (hmod _), Option.bind_some,
    Option.map_some, Option.some.injEq, Prod.mk.injEq, and_true]
  omega

theorem escape_hexText {u : ℕ} (h : u < 0x10000) (text : Text) :
    escape ('u' :: (hexText u ++ text)) = some (u, text) :=
  hex4_hexText h text

theorem escape_shortEscape {u : ℕ} {c : Char} (h : shortEscape u = some c) (text : Text) :
    escape (c :: text) = some (u, text) := by
  unfold shortEscape at h
  split_ifs at h <;> (cases h; subst u; rfl)

/-- What the decoder sees of a character. -/
def spread (layout : Layout) (u : ℕ) : List ℕ :=
  if layout.ascii = true ∧ 0xFFFF < u then [highHalf u, lowHalf u] else [u]

variable (layout : Layout)

theorem units_escape {u : ℕ} {text text' : Text} (h : escape text = some (u, text')) (n : ℕ) :
    units (n + 1) ('\\' :: text) = (units n).map (u :: ·) text' := by
  show (unitFrom '\\').bind (fun u => (units n).map (u :: ·)) text = _
  show (escape text).bind (fun read => (units n).map (read.1 :: ·) read.2) = _
  rw [h]
  rfl

theorem units_escaped {u : ℕ} (h : u < 0x10000) (n : ℕ) (text : Text) :
    units (n + 1) (escaped u ++ text) = (units n).map (u :: ·) text :=
  units_escape (escape_hexText h text) n

theorem units_plain {c : Char} (hquote : c ≠ '"') (hslash : c ≠ '\\') (hcontrol : 0x20 ≤ c.toNat)
    (n : ℕ) (text : Text) : units (n + 1) (c :: text) = (units n).map (c.toNat :: ·) text := by
  show (if c = '"' then pure [] else (unitFrom c).bind fun u => (units n).map (u :: ·)) text = _
  rw [if_neg hquote, unitFrom, if_neg hslash, if_neg (by omega)]
  rfl

theorem highHalf_lt (u : ℕ) : highHalf u < 0x10000 := by
  unfold highHalf
  omega

theorem lowHalf_lt (u : ℕ) : lowHalf u < 0x10000 := by
  unfold lowHalf
  omega

theorem toNat_ofNat {u : ℕ} (hu : u.isValidChar) : (Char.ofNat u).toNat = u := by
  unfold Char.ofNat
  rw [dif_pos hu]
  rfl

theorem units_unitText {u : ℕ} (hu : u.isValidChar) (n : ℕ) (text : Text) :
    units (n + (spread layout u).length) (unitText layout u ++ text)
      = (units n).map (spread layout u ++ ·) text := by
  have hbig : u < 0x110000 := by
    rcases hu with h | h <;> omega
  unfold unitText
  cases hshort : shortEscape u with
  | some c =>
      -- every short escape stands for a control character, a quote or a backslash
      have hsmall : u ≤ 92 := by
        unfold shortEscape at hshort
        split_ifs at hshort <;> omega
      have hone : spread layout u = [u] := if_neg (by omega)
      rw [hone]
      exact units_escape (escape_shortEscape hshort text) n
  | none =>
      have hquote : u ≠ 34 := by
        rintro rfl
        cases hshort
      have hslash : u ≠ 92 := by
        rintro rfl
        cases hshort
      show units _ ((if u < 0x20 then _ else _) ++ text) = _
      by_cases hcontrol : u < 0x20
      · have hone : spread layout u = [u] := if_neg (by omega)
        rw [if_pos hcontrol, hone]
        exact units_escaped (by omega) n text
      · rw [if_neg hcontrol]
        by_cases hascii : layout.ascii = true ∧ 0x7E < u
        · rw [if_pos hascii]
          by_cases hhigh : 0xFFFF < u
          · have htwo : spread layout u = [highHalf u, lowHalf u] := if_pos ⟨hascii.1, hhigh⟩
            rw [if_pos hhigh, htwo, List.append_assoc]
            show units (n + 1 + 1) _ = _
            rw [units_escaped (highHalf_lt u), Reader.map, units_escaped (lowHalf_lt u), Reader.map,
              Option.map_map]
            rfl
          · have hone : spread layout u = [u] := if_neg (by omega)
            rw [if_neg hhigh, hone]
            exact units_escaped (by omega) n text
        · have hone : spread layout u = [u] := by
            refine if_neg ?_
            rintro ⟨ha, hbeyond⟩
            exact hascii ⟨ha, by omega⟩
          have hnat := toNat_ofNat hu
          have hne (k : ℕ) (hk : u ≠ k) (c : Char) (hc : c.toNat = k) : Char.ofNat u ≠ c := by
            rintro rfl
            exact hk (hnat.symm.trans hc)
          have hplain := units_plain (hne 34 hquote '"' rfl) (hne 92 hslash '\\' rfl)
            (by omega) n text
          rw [hnat] at hplain
          rw [if_neg hascii, hone]
          exact hplain

/-- The decoder's view of a whole string. -/
theorem units_stringRest {s : List ℕ} (hs : Scalars s) (rest : Text) :
    ∀ n, (s.flatMap (spread layout)).length < n →
      units n (stringRest layout s ++ rest) = some (s.flatMap (spread layout), rest) := by
  induction s with
  | nil =>
      intro n hn
      cases n with
      | zero => simp at hn
      | succ n => rfl
  | cons u s ih =>
      intro n hn
      have hu : u.isValidChar := hs u List.mem_cons_self
      rw [List.flatMap_cons, List.length_append] at hn
      have hfuel : n = n - (spread layout u).length + (spread layout u).length := by omega
      have htext : stringRest layout (u :: s) ++ rest
          = unitText layout u ++ (stringRest layout s ++ rest) := by
        simp [stringRest]
      rw [htext, hfuel, units_unitText layout hu, Reader.map,
        ih (fun v hv => hs v (List.mem_cons_of_mem _ hv)) _ (by omega)]
      rfl

/-! ## Joining the halves -/

/-- Not half of a character. -/
def Whole (u : ℕ) : Prop := ¬ (0xD800 ≤ u ∧ u ≤ 0xDFFF)

theorem whole_of_scalar {u : ℕ} (hu : u.isValidChar) : Whole u := by
  unfold Whole
  rcases hu with h | h <;> omega

theorem joinSurrogates_whole {u : ℕ} (hu : Whole u) (s : List ℕ) :
    joinSurrogates (u :: s) = u :: joinSurrogates s := by
  unfold Whole at hu
  cases s with
  | nil => rfl
  | cons v s =>
      rw [joinSurrogates, if_neg (by omega)]

theorem joinSurrogates_halves {u : ℕ} (hlow : 0xFFFF < u) (hhigh : u < 0x110000) (s : List ℕ) :
    joinSurrogates (highHalf u :: lowHalf u :: s) = u :: joinSurrogates s := by
  have hjoin : 0x10000 + (highHalf u - 0xD800) * 0x400 + (lowHalf u - 0xDC00) = u := by
    unfold highHalf lowHalf
    omega
  rw [joinSurrogates, if_pos (by unfold highHalf lowHalf; omega), hjoin]

theorem joinSurrogates_spread {s : List ℕ} (hs : Scalars s) :
    joinSurrogates (s.flatMap (spread layout)) = s := by
  induction s with
  | nil => rfl
  | cons u s ih =>
      have hu : u.isValidChar := hs u List.mem_cons_self
      have hrest := ih fun v hv => hs v (List.mem_cons_of_mem _ hv)
      rw [List.flatMap_cons]
      by_cases h : layout.ascii = true ∧ 0xFFFF < u
      · have hbig : u < 0x110000 := by rcases hu with h | h <;> omega
        rw [spread, if_pos h, List.cons_append, List.cons_append, List.nil_append,
          joinSurrogates_halves h.2 hbig, hrest]
      · rw [spread, if_neg h, List.cons_append, List.nil_append,
          joinSurrogates_whole (whole_of_scalar hu), hrest]

theorem length_spread_le {u : ℕ} : (spread layout u).length ≤ (unitText layout u).length := by
  unfold unitText
  cases hshort : shortEscape u with
  | some c =>
      have hsmall : u ≤ 92 := by
        unfold shortEscape at hshort
        split_ifs at hshort <;> omega
      rw [spread, if_neg (by omega)]
      simp
  | none =>
      show _ ≤ List.length (if u < 0x20 then _ else _)
      by_cases h : layout.ascii = true ∧ 0xFFFF < u
      · have hascii : layout.ascii = true ∧ 0x7E < u := ⟨h.1, by omega⟩
        rw [spread, if_pos h, if_neg (by omega), if_pos hascii, if_pos h.2]
        simp [escaped, hexText]
      · rw [spread, if_neg h]
        split_ifs <;> simp [escaped, hexText]

theorem length_flatMap_spread_lt (s : List ℕ) (rest : Text) :
    (s.flatMap (spread layout)).length < (stringRest layout s ++ rest).length + 1 := by
  have hle : (s.flatMap (spread layout)).length ≤ (s.flatMap (unitText layout)).length := by
    induction s with
    | nil => exact le_rfl
    | cons u s ih =>
        rw [List.flatMap_cons, List.flatMap_cons, List.length_append, List.length_append]
        exact Nat.add_le_add (length_spread_le layout) ih
  rw [stringRest, List.length_append, List.length_append]
  omega

/-- **Strings are read back.** -/
theorem scanString_stringRest {s : List ℕ} (hs : Scalars s) (rest : Text) :
    scanString (stringRest layout s ++ rest) = some (s, rest) := by
  have hunits := units_stringRest layout hs rest _ (length_flatMap_spread_lt layout s rest)
  show (units _ (stringRest layout s ++ rest)).map _ = _
  rw [hunits, Option.map_some, joinSurrogates_spread layout hs]

/-! ## White space -/

theorem scanOnce_ws {c : Char} (hc : isWs c = true) (n : ℕ) (text : Text) :
    scanOnce n (c :: text) = none := by
  simp only [isWs, Bool.or_eq_true, decide_eq_true_eq] at hc
  cases n with
  | zero => rfl
  | succ n =>
      rw [scanOnce]
      rcases hc with ((rfl | rfl) | rfl) | rfl <;> rfl

/-- No value begins with white space. -/
theorem head_of_scanOnce {n : ℕ} {text : Text} {read : Value × Text}
    (h : scanOnce n text = some read) : ∃ c t, text = c :: t ∧ isWs c = false := by
  cases text with
  | nil =>
      cases n with
      | zero => cases h
      | succ n =>
          rw [scanOnce] at h
          cases h
  | cons c t =>
      refine ⟨c, t, rfl, ?_⟩
      cases hc : isWs c with
      | false => rfl
      | true =>
          rw [scanOnce_ws hc] at h
          cases h

theorem head_of_elements {n : ℕ} {text : Text} {read : List Value × Text}
    (h : elements n text = some read) : ∃ c t, text = c :: t ∧ isWs c = false ∧ c ≠ ']' := by
  have hbracket (t : Text) (ht : text = ']' :: t) : False := by
    rw [ht, elements_bracket] at h
    cases h
  cases n with
  | zero => cases h
  | succ n =>
      rw [elements_succ] at h
      obtain ⟨v, mid, hv, -⟩ := bind_eq_some_iff.mp h
      obtain ⟨c, t, ht, hc⟩ := head_of_scanOnce hv
      refine ⟨c, t, ht, hc, ?_⟩
      rintro rfl
      exact hbracket t ht

theorem token_cons {c : Char} (hc : isWs c = false) (text : Text) :
    token (c :: text) = some (c, text) := by
  simp [token, spaced, next, hc]

variable {β : Type} (f : Reader Char β)

theorem spaced_gap (text : Text) :
    f.spaced isWs (layout.gap ++ text) = f.spaced isWs text := by
  rw [spaced, spaced, List.dropWhile_append_of_pos layout.gap_ws]

theorem spaced_cons {c : Char} (hc : isWs c = false) (text : Text) :
    f.spaced isWs (c :: text) = f (c :: text) := by
  rw [spaced, List.dropWhile_cons_of_neg (by simp [hc])]

theorem word_append (w : Text) (v : β) (rest : Text) : word w v (w ++ rest) = some (v, rest) := by
  simp [word]

/-! ## Reading values back -/

theorem scanOnce_num {lexeme : Text} (h : IsNumber lexeme) {n : ℕ} {rest : Text}
    (hn : lexeme.length ≤ n) (hrest : Stops numberChar rest) :
    scanOnce n (lexeme ++ rest) = some (.num lexeme, rest) := by
  obtain ⟨lex, hlex, hread⟩ := (readers_local _).1.1 _ _ _ h
  rw [List.append_nil] at hlex
  subst hlex
  exact hread n rest hn hrest

/-- A reader that reads the values of an array reads the array. -/
theorem arrayBody_of_elements {n : ℕ} {text rest : Text} {items : List Value}
    (h : elements n text = some (items, rest)) :
    arrayBody (elements n) text = some (.arr items, rest) := by
  obtain ⟨c, t, rfl, hws, hne⟩ := head_of_elements h
  show Option.or (token.bind _ (c :: t)) (((elements n).spaced isWs).map Value.arr (c :: t)) = _
  rw [Reader.bind, token_cons hws, Option.bind_some, if_neg hne, Reader.map, spaced_cons _ hws, h]
  rfl

theorem stops_cons {c : Char} (hc : numberChar c = false) (text : Text) :
    Stops numberChar (c :: text) := by
  intro d hd
  cases hd
  exact hc

/-- The value of a member and what follows it. -/
theorem members_of_scan {n : ℕ} {key : List ℕ} (hkey : Scalars key) {v : Value} {text tail : Text}
    (hv : scanOnce n text = some (v, tail)) :
    members (n + 1) (stringRest layout key ++ ':' :: (layout.gap ++ text))
      = afterMember n key v tail := by
  obtain ⟨c, t, rfl, hws⟩ := head_of_scanOnce hv
  rw [members_succ, Reader.bind, scanString_stringRest layout hkey, Option.bind_some]
  show (token.bind _) (':' :: _) = _
  rw [Reader.bind, token_cons (by decide), Option.bind_some, if_pos rfl, Reader.bind, spaced_gap,
    spaced_cons _ hws, hv, Option.bind_some]

/-- With fuel `n` the texts of up to that length are read back: values in front of whatever does
not go on with a number, arrays up to their bracket, objects up to their brace. -/
structure ReadsBack (n : ℕ) : Prop where
  value : ∀ v rest, Writable v → (dump layout v).length ≤ n → Stops numberChar rest →
    scanOnce n (dump layout v ++ rest) = some (v, rest)
  items : ∀ v vs rest, WritableItems (v :: vs) → (dumpItems layout (v :: vs)).length ≤ n →
    elements n (dumpItems layout (v :: vs) ++ rest) = some (v :: vs, rest)
  members : ∀ key v ms rest, WritableMembers ((key, v) :: ms) →
    (dumpMembers layout ((key, v) :: ms)).length ≤ n + 1 →
      members n ((dumpMembers layout ((key, v) :: ms)).tail ++ rest) = some ((key, v) :: ms, rest)

theorem dumpMembers_quote (key : List ℕ) (v : Value) (ms : List (List ℕ × Value)) :
    dumpMembers layout ((key, v) :: ms) = '"' :: (dumpMembers layout ((key, v) :: ms)).tail := by
  cases ms <;> rfl

section Step

variable {layout} {n : ℕ} (ih : ReadsBack layout n)

include ih

theorem scanOnce_step_dump (v : Value) (rest : Text) (hv : Writable v)
    (hn : (dump layout v).length ≤ n + 1) (hrest : Stops numberChar rest) :
    scanOnce (n + 1) (dump layout v ++ rest) = some (v, rest) := by
  cases v with
  | num lexeme => exact scanOnce_num hv hn hrest
  | null =>
      rw [scanOnce]
      exact word_append "ull".toList Value.null rest
  | bool b =>
      rw [scanOnce]
      cases b with
      | true => exact word_append "rue".toList (Value.bool true) rest
      | false => exact word_append "alse".toList (Value.bool false) rest
  | str s =>
      rw [scanOnce]
      show scanString.map Value.str (stringRest layout s ++ rest) = _
      rw [Reader.map, scanString_stringRest layout hv]
      rfl
  | arr items =>
      rw [scanOnce]
      show arrayBody (elements n) (dumpItems layout items ++ rest) = _
      cases items with
      | nil => rfl
      | cons v vs =>
          apply arrayBody_of_elements
          apply ih.items v vs rest hv
          simpa [dump] using hn
  | obj ms =>
      rw [scanOnce]
      show objectBody (members n) (dumpMembers layout ms ++ rest) = _
      cases ms with
      | nil => rfl
      | cons m ms =>
          obtain ⟨key, v⟩ := m
          rw [dumpMembers_quote]
          show ((members n).map Value.obj) ((dumpMembers layout ((key, v) :: ms)).tail ++ rest) = _
          rw [dump, List.length_cons] at hn
          rw [Reader.map, ih.members key v ms rest hv (by omega)]
          rfl

theorem elements_step_dump (v : Value) (vs : List Value) (rest : Text)
    (hv : WritableItems (v :: vs)) (hn : (dumpItems layout (v :: vs)).length ≤ n + 1) :
    elements (n + 1) (dumpItems layout (v :: vs) ++ rest) = some (v :: vs, rest) := by
  rw [elements_succ]
  cases vs with
  | nil =>
      simp only [dumpItems, List.length_append, List.length_singleton] at hn
      rw [dumpItems, List.append_assoc, List.singleton_append, Reader.bind,
        ih.value v _ hv.1 (by omega) (stops_cons (by decide) _)]
      rfl
  | cons w ws =>
      simp only [dumpItems, List.length_append, List.length_cons] at hn
      have hmore := ih.items w ws rest hv.2 (by omega)
      obtain ⟨c, t, htext, hws, -⟩ := head_of_elements hmore
      rw [dumpItems, List.append_assoc, List.cons_append, Reader.bind,
        ih.value v _ hv.1 (by omega) (stops_cons (by decide) _)]
      show (((elements n).spaced isWs).map (v :: ·)) (layout.gap ++ _ ++ rest) = _
      rw [Reader.map, List.append_assoc, spaced_gap, htext, spaced_cons _ hws, ← htext, hmore]
      rfl

theorem members_step_dump (key : List ℕ) (v : Value) (ms : List (List ℕ × Value)) (rest : Text)
    (hv : WritableMembers ((key, v) :: ms))
    (hn : (dumpMembers layout ((key, v) :: ms)).length ≤ n + 2) :
    members (n + 1) ((dumpMembers layout ((key, v) :: ms)).tail ++ rest)
      = some ((key, v) :: ms, rest) := by
  cases ms with
  | nil =>
      simp only [dumpMembers, stringText, List.cons_append, List.length_append, List.length_cons,
        List.length_nil] at hn
      have hscan := ih.value v ('}' :: rest) hv.2.1 (by omega) (stops_cons (by decide) _)
      have htext : (dumpMembers layout [(key, v)]).tail ++ rest
          = stringRest layout key ++ ':' :: (layout.gap ++ (dump layout v ++ '}' :: rest)) := by
        simp [dumpMembers, stringText]
      rw [htext, members_of_scan layout hv.1 hscan]
      rfl
  | cons m ms =>
      obtain ⟨key', w⟩ := m
      simp only [dumpMembers, stringText, List.cons_append, List.length_append, List.length_cons]
        at hn
      have hmore := ih.members key' w ms rest hv.2.2 (by omega)
      have hscan := ih.value v
        (',' :: (layout.gap ++ (dumpMembers layout ((key', w) :: ms) ++ rest)))
        hv.2.1 (by omega) (stops_cons (by decide) _)
      have htext : (dumpMembers layout ((key, v) :: (key', w) :: ms)).tail ++ rest
          = stringRest layout key ++ ':' :: (layout.gap ++ (dump layout v ++
            ',' :: (layout.gap ++ (dumpMembers layout ((key', w) :: ms) ++ rest)))) := by
        simp [dumpMembers, stringText]
      have hgap : token (layout.gap ++ (dumpMembers layout ((key', w) :: ms) ++ rest))
          = some ('"', (dumpMembers layout ((key', w) :: ms)).tail ++ rest) := by
        rw [token, spaced_gap, dumpMembers_quote]
        rfl
      -- behind the value stand the comma and the quote of the next key
      rw [htext, members_of_scan layout hv.1 hscan, afterMember, Reader.bind,
        token_cons (by decide), Option.bind_some, if_neg (by simp), if_pos rfl, Reader.bind, hgap,
        Option.bind_some, if_pos rfl, Reader.map, hmore]
      rfl

end Step

theorem readsBack (n : ℕ) : ReadsBack layout n := by
  induction n with
  | zero =>
      constructor
      · intro v rest hv hn hrest
        cases v with
        | num lexeme => exact scanOnce_num hv hn hrest
        | bool b => cases b <;> simp [dump] at hn
        | _ => simp [dump, stringText] at hn
      · intro v vs rest _ hn
        cases vs <;> simp [dumpItems] at hn
      · intro key v ms rest _ hn
        cases ms <;> simp [dumpMembers, stringText] at hn
  | succ n ih =>
      exact ⟨scanOnce_step_dump ih, elements_step_dump ih, members_step_dump ih⟩

/-- **What is written is read back.** -/
theorem decode_dump {v : Value} (hv : Writable v) {rest : Text} (hrest : Stops numberChar rest) :
    decode (dump layout v ++ rest) = some (v, rest) :=
  (readsBack layout _).value v rest hv (by rw [List.length_append]; omega) hrest

/-- `json.loads`: one value and nothing but white space around it. -/
def loads (text : Text) : Option Value :=
  (decode (text.dropWhile isWs)).bind fun read => if read.2.all isWs then some read.1 else none

theorem loads_dump {v : Value} (hv : Writable v) : loads (dump layout v) = some v := by
  have hnil : Stops numberChar [] := fun c hc => by cases hc
  have hdecode := decode_dump layout hv hnil
  rw [List.append_nil] at hdecode
  obtain ⟨c, t, htext, hws⟩ := head_of_scanOnce hdecode
  have hdrop : (dump layout v).dropWhile isWs = dump layout v := by
    rw [htext, List.dropWhile_cons_of_neg (by simp [hws])]
  rw [loads, hdrop, hdecode]
  rfl

end Lib.Json
