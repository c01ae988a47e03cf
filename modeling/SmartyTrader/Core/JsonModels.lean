import SmartyTrader.Core.LlmClient
import SmartyTrader.Lib.JsonDump

set_option autoImplicit false

/-! # Models as JSON objects

A model is written as an object with one member for each field that is not `None`, and read back
field by field. The reader takes each field from its own JSON type; a field that is absent or
`null` is `None`, and a key that is no field's is refused.
-/

namespace SmartyTrader

open Lib

/-! ## Objects -/

/-- The members of a model, which fields of `None` leave out. -/
def present (fields : List (String × Option Json.Value)) : Members :=
  fields.filterMap fun f => f.2.map fun v => (codes f.1, v)

theorem codes_injective : Function.Injective codes := by
  intro a b h
  have hchars : a.toList = b.toList := by
    have hmap := congrArg (List.map Char.ofNat) h
    simpa [codes, List.map_map, Function.comp_def] using hmap
  exact String.toList_inj.mp hchars

theorem mem_present_iff {fields : List (String × Option Json.Value)} {name : String}
    {v : Json.Value} : (codes name, v) ∈ present fields ↔ (name, some v) ∈ fields := by
  simp only [present, List.mem_filterMap, Option.map_eq_some_iff, Prod.mk.injEq]
  constructor
  · rintro ⟨⟨name', v'⟩, hmem, w, hw, hname, rfl⟩
    obtain rfl : name' = name := codes_injective hname
    rw [← hw]
    exact hmem
  · intro hmem
    exact ⟨(name, some v), hmem, v, rfl, rfl, rfl⟩

theorem key_of_mem_present {fields : List (String × Option Json.Value)}
    {m : List ℕ × Json.Value} (h : m ∈ present fields) : ∃ f ∈ fields, m.1 = codes f.1 := by
  simp only [present, List.mem_filterMap, Option.map_eq_some_iff] at h
  obtain ⟨f, hf, v, -, rfl⟩ := h
  exact ⟨f, hf, rfl⟩

/-- The value of a field whose name stands once. -/
theorem eq_of_mem_fields {fields : List (String × Option Json.Value)}
    (hnodup : (fields.map Prod.fst).Nodup) {name : String} {v w : Option Json.Value}
    (hv : (name, v) ∈ fields) (hw : (name, w) ∈ fields) : v = w := by
  have hinj := List.inj_on_of_nodup_map hnodup
  exact congrArg Prod.snd (hinj hv hw rfl)

/-- Every field is found under its name. -/
theorem field_present {fields : List (String × Option Json.Value)}
    (hnodup : (fields.map Prod.fst).Nodup) {name : String} {v : Option Json.Value}
    (hmem : (name, v) ∈ fields) : field (present fields) name = v := by
  unfold field
  cases hfind : (present fields).reverse.find? fun member => member.1 = codes name with
  | none =>
      -- a field that is present would have been found
      cases v with
      | none => rfl
      | some w =>
          have hno := List.find?_eq_none.mp hfind (codes name, w)
            (List.mem_reverse.mpr (mem_present_iff.mpr hmem))
          simp at hno
  | some m =>
      obtain ⟨key, w⟩ := m
      have hkey : key = codes name := by simpa using List.find?_some hfind
      have hin : (key, w) ∈ present fields :=
        List.mem_reverse.mp (List.mem_of_find?_eq_some hfind)
      rw [hkey] at hin
      exact eq_of_mem_fields hnodup (mem_present_iff.mp hin) hmem

theorem field_popField_ne {name other : String} (h : other ≠ name) (data : Members) :
    field (popField data name) other = field data other := by
  have hkeep : ∀ m : List ℕ × Json.Value, decide (decide (m.1 ≠ codes name) = true ∧
      decide (m.1 = codes other) = true) = decide (m.1 = codes other) := by
    intro m
    by_cases hm : m.1 = codes other
    · have hne : codes other ≠ codes name := fun heq => h (codes_injective heq)
      simp [hm, hne]
    · simp [hm]
  unfold field popField
  rw [← List.filter_reverse, List.find?_filter]
  exact congrArg (fun p => (data.reverse.find? p).map Prod.snd) (funext hkeep)

theorem field_setField_self (data : Members) (name : String) (value : Json.Value) :
    field (setField data name value) name = some value := by
  simp [field, setField]

theorem field_setField_ne {name other : String} (h : other ≠ name) (data : Members)
    (value : Json.Value) : field (setField data name value) other = field data other := by
  have hne : codes name ≠ codes other := fun heq => h (codes_injective heq).symm
  rw [← field_popField_ne h data]
  simp [field, setField, hne]

/-- `extra="forbid"`. -/
def onlyKeys (names : List String) (data : Members) : Bool :=
  data.all fun m => names.any fun name => m.1 = codes name

theorem onlyKeys_present {fields : List (String × Option Json.Value)} :
    onlyKeys (fields.map Prod.fst) (present fields) = true := by
  rw [onlyKeys, List.all_eq_true]
  intro m hm
  obtain ⟨f, hf, hkey⟩ := key_of_mem_present hm
  rw [List.any_eq_true]
  exact ⟨f.1, List.mem_map_of_mem hf, by simp [hkey]⟩

theorem scalars_codes (s : String) : Json.Scalars (codes s) := by
  intro u hu
  obtain ⟨c, -, rfl⟩ := List.mem_map.mp hu
  exact c.valid

theorem writable_present {fields : List (String × Option Json.Value)}
    (h : ∀ f ∈ fields, ∀ v ∈ f.2, Json.Writable v) : Json.Writable (.obj (present fields)) := by
  show Json.WritableMembers (present fields)
  induction fields with
  | nil => trivial
  | cons f fields ih =>
      have hrest := ih fun g hg => h g (List.mem_cons_of_mem _ hg)
      obtain ⟨name, v⟩ := f
      cases v with
      | none => exact hrest
      | some v =>
          exact ⟨scalars_codes name, h _ List.mem_cons_self v rfl, hrest⟩

/-! ## Fields -/

/-- An optional value within its bounds. -/
abbrev Bounded {α : Type} (p : α → Prop) := { x : Option α // ∀ v ∈ x, p v }

/-- One field of a model, `none` where the model is refused. -/
def readField {α : Type} (p : α → Prop) [DecidablePred p] (read : Json.Value → Option α)
    (data : Members) (name : String) : Option (Bounded p) :=
  match field data name with
  | none => some ⟨none, by simp⟩
  | some .null => some ⟨none, by simp⟩
  | some v =>
      match read v with
      | none => none
      | some a => if h : p a then some ⟨some a, by simpa using h⟩ else none

/-- A field that is written with `write` and read with `read`. -/
theorem readField_present {α : Type} {p : α → Prop} [DecidablePred p]
    {read : Json.Value → Option α} {write : α → Json.Value} {data : Members} {name : String}
    {x : Option α} (hfield : field data name = x.map write) (hp : ∀ v ∈ x, p v)
    (hread : ∀ v ∈ x, read (write v) = some v ∧ write v ≠ .null) :
    readField p read data name = some ⟨x, hp⟩ := by
  unfold readField
  rw [hfield]
  cases x with
  | none => rfl
  | some a =>
      obtain ⟨hra, hnull⟩ := hread a rfl
      have ha : p a := hp a rfl
      rw [Option.map_some]
      clear hfield hread
      generalize write a = v at hra hnull
      cases v with
      | null => exact absurd rfl hnull
      | _ =>
          simp only [hra]
          exact dif_pos ha

/-! ## Integers -/

/-- `str(n)`. -/
def intText : ℤ → Text
  | .ofNat n => Nat.toDigits 10 n
  | .negSucc n => '-' :: Nat.toDigits 10 (n + 1)

/-- An integer literal. -/
def intOf : Text → Option ℤ
  | '-' :: ds => if ds.all Char.isDigit then some (-(Nat.ofDigitChars 10 ds 0)) else none
  | ds => if ds.all Char.isDigit then some (Nat.ofDigitChars 10 ds 0) else none

theorem all_isDigit_toDigits (n : ℕ) : (Nat.toDigits 10 n).all Char.isDigit = true :=
  List.all_eq_true.mpr fun _ hc => Nat.isDigit_of_mem_toDigits (by decide) (by decide) hc

theorem intOf_intText (n : ℤ) : intOf (intText n) = some n := by
  cases n with
  | ofNat n =>
      have hsign : ∀ ds, Nat.toDigits 10 n ≠ '-' :: ds := by
        intro ds h
        have hall := all_isDigit_toDigits n
        rw [h] at hall
        simp at hall
      show intOf (Nat.toDigits 10 n) = _
      unfold intOf
      split
      · next ds h => exact absurd h (hsign ds)
      · rw [if_pos (all_isDigit_toDigits n), Nat.ofDigitChars_ten_toDigits]
        rfl
  | negSucc n =>
      show (if (Nat.toDigits 10 (n + 1)).all Char.isDigit then _ else none) = _
      rw [if_pos (all_isDigit_toDigits _), Nat.ofDigitChars_ten_toDigits]
      rfl

/-- No number but zero begins with a zero. -/
theorem toDigits_head {n : ℕ} (hn : 0 < n) :
    ∃ c ds, Nat.toDigits 10 n = c :: ds ∧ c ≠ '0' ∧ c.isDigit = true := by
  induction n using Nat.strong_induction_on with
  | _ n ih =>
      by_cases hsmall : n < 10
      · refine ⟨n.digitChar, [], Nat.toDigits_of_lt_base hsmall, ?_, ?_⟩
        · rw [Ne, Nat.digitChar_eq_zero]
          omega
        · simp [Nat.isDigit_digitChar, hsmall]
      · obtain ⟨c, ds, hds, hc, hdigit⟩ := ih (n / 10) (by omega) (by omega)
        refine ⟨c, ds ++ [(n % 10).digitChar], ?_, hc, hdigit⟩
        rw [Nat.toDigits_of_base_le (by decide) (by omega), hds]
        rfl

/-- Digits without a leading zero are a number for the decoder. -/
theorem numberFrom_digits {c : Char} {ds : Text} (hc : c ≠ '0') (hdigit : c.isDigit = true)
    (hds : ds.all Char.isDigit = true) : Json.numberFrom c ds = some (c :: ds, []) := by
  have hall : ∀ d ∈ ds, d.isDigit = true := fun d hd => List.all_eq_true.mp hds d hd
  have htake : ds.takeWhile Char.isDigit = ds := List.takeWhile_eq_self_iff.mpr hall
  have hdrop : ds.dropWhile Char.isDigit = [] := List.dropWhile_eq_nil_iff.mpr hall
  have hdigits : Json.digits ds = some (ds, []) := by
    rw [Json.digits, Reader.many, htake, hdrop]
  rw [Json.numberFrom, if_neg hc, if_pos hdigit, Reader.bind, Reader.map, hdigits]
  show some (c :: ds ++ [] ++ [], []) = _
  simp

theorem isNumber_of_numberFrom {c : Char} {ds : Text} (hdigit : c.isDigit = true)
    (h : Json.numberFrom c ds = some (c :: ds, [])) : Json.IsNumber (c :: ds) := by
  have hne {x : Char} (hx : x.isDigit = false) : c ≠ x := by
    rintro rfl
    rw [hdigit] at hx
    cases hx
  show Json.scanOnce (ds.length + 1 + 1) (c :: ds) = _
  rw [Json.scanOnce]
  show (if c = '"' then _ else _ : Reader Char Json.Value) ds = _
  rw [if_neg (hne rfl), if_neg (hne rfl), if_neg (hne rfl), if_neg (hne rfl), if_neg (hne rfl),
    if_neg (hne rfl), if_neg (hne rfl), if_neg (hne rfl), if_neg (hne rfl), Reader.map, h]
  rfl

theorem isNumber_neg {c : Char} {ds : Text} (hdigit : c.isDigit = true)
    (h : Json.numberFrom c ds = some (c :: ds, [])) : Json.IsNumber ('-' :: c :: ds) := by
  have hne : c ≠ 'I' := by
    rintro rfl
    cases hdigit
  show Json.scanOnce _ ('-' :: c :: ds) = _
  rw [Json.scanOnce]
  show (if c = 'I' then _ else _ : Reader Char Json.Value) ds = _
  rw [if_neg hne, Reader.map, h]
  rfl

theorem isNumber_intText (n : ℤ) : Json.IsNumber (intText n) := by
  have hdigits {m : ℕ} (hm : 0 < m) : ∃ c ds, Nat.toDigits 10 m = c :: ds ∧
      c.isDigit = true ∧ Json.numberFrom c ds = some (c :: ds, []) := by
    obtain ⟨c, ds, hds, hc, hdigit⟩ := toDigits_head hm
    have hall := all_isDigit_toDigits m
    rw [hds, List.all_cons, Bool.and_eq_true] at hall
    exact ⟨c, ds, hds, hdigit, numberFrom_digits hc hdigit hall.2⟩
  cases n with
  | ofNat n =>
      show Json.IsNumber (Nat.toDigits 10 n)
      rcases Nat.eq_zero_or_pos n with rfl | hn
      · exact rfl
      · obtain ⟨c, ds, hds, hdigit, hread⟩ := hdigits hn
        rw [hds]
        exact isNumber_of_numberFrom hdigit hread
  | negSucc n =>
      show Json.IsNumber ('-' :: Nat.toDigits 10 (n + 1))
      obtain ⟨c, ds, hds, hdigit, hread⟩ := hdigits (Nat.succ_pos n)
      rw [hds]
      exact isNumber_neg hdigit hread

/-! ## Decimals -/

/-- The digits in front, and what follows them. -/
def spanDigits (text : Text) : Text × Text :=
  (text.takeWhile Char.isDigit, text.dropWhile Char.isDigit)

/-- The exponent behind a number. -/
def exponentOf : Text → Option ℤ
  | [] => some 0
  | e :: ds => if e = 'e' ∨ e = 'E' then
      match ds with
      | '+' :: ds => intOf ds
      | ds => intOf ds
    else none

/-- A number without its sign. -/
def unsignedOf (text : Text) : Option ℚ :=
  let (whole, rest) := spanDigits text
  let (fraction, rest) := match rest with
    | '.' :: rest => spanDigits rest
    | rest => ([], rest)
  (exponentOf rest).map fun e =>
    (Nat.ofDigitChars 10 (whole ++ fraction) 0 : ℚ) * 10 ^ (e - (fraction.length : ℤ))

/-- The rational that a decimal number spells. -/
def decimalOf : Text → Option ℚ
  | '-' :: text => (unsignedOf text).map (-·)
  | text => unsignedOf text

/-- A text of a float: the decoder takes it for a number, and it spells the float. -/
structure Spells (text : Text) (x : ℚ) : Prop where
  number : Json.IsNumber text
  value : decimalOf text = some x

example : decimalOf "2.5e-05".toList = some (1 / 40000) := by decide +kernel

/-! ## The JSON types of the fields -/

/-- A string without surrogates. -/
def readStr : Json.Value → Option String
  | .str s => if ∀ u ∈ s, u.isValidChar then some (String.ofList (s.map Char.ofNat)) else none
  | _ => none

/-- How a number is read from a string. -/
structure Coercions where
  toInt : Text → Option ℤ
  toFloat : Text → Option ℚ

def readInt (lax : Coercions) : Json.Value → Option ℤ
  | .num lexeme => intOf lexeme
  | .str units => (readStr (.str units)).bind fun s => lax.toInt s.toList
  | _ => none

def readFloat (lax : Coercions) : Json.Value → Option ℚ
  | .num lexeme => decimalOf lexeme
  | .str units => (readStr (.str units)).bind fun s => lax.toFloat s.toList
  | _ => none

def readStrs : Json.Value → Option (List String)
  | .arr items => items.mapM readStr
  | _ => none

def strValue (s : String) : Json.Value := .str (codes s)

def strsValue (ss : List String) : Json.Value := .arr (ss.map strValue)

theorem readInt_intText (lax : Coercions) (n : ℤ) : readInt lax (.num (intText n)) = some n :=
  intOf_intText n

theorem readStr_strValue (s : String) : readStr (strValue s) = some s := by
  have hscalars : ∀ u ∈ codes s, u.isValidChar := scalars_codes s
  show (if ∀ u ∈ codes s, u.isValidChar then _ else none) = _
  rw [if_pos hscalars]
  simp [codes, Function.comp_def]

theorem readStrs_strsValue (ss : List String) : readStrs (strsValue ss) = some ss := by
  show (ss.map strValue).mapM readStr = some ss
  induction ss with
  | nil => rfl
  | cons s ss ih => rw [List.map_cons, List.mapM_cons, readStr_strValue, ih]; rfl

theorem writable_strsValue (ss : List String) : Json.Writable (strsValue ss) := by
  show Json.WritableItems (ss.map strValue)
  induction ss with
  | nil => trivial
  | cons s ss ih => exact ⟨scalars_codes s, ih⟩

/-- Only the value of a string is read as the string. -/
theorem eq_of_readStr {v : Json.Value} {s : String} (h : readStr v = some s) : v = strValue s := by
  cases v with
  | str units =>
      rw [readStr] at h
      split at h
      next hscalars =>
        cases h
        have hback : units.map (fun u => (Char.ofNat u).toNat) = units.map id := by
          refine List.map_congr_left fun u hu => ?_
          exact Json.toNat_ofNat (hscalars u hu)
        simp [strValue, codes, Function.comp_def, hback]
      · cases h
  | _ => cases h

theorem mem_of_mapM {α β : Type} {f : α → Option β} {l : List α} {r : List β}
    (h : l.mapM f = some r) : ∀ b ∈ r, ∃ a ∈ l, f a = some b := by
  induction l generalizing r with
  | nil =>
      cases h
      intro b hb
      cases hb
  | cons a l ih =>
      rw [List.mapM_cons] at h
      obtain ⟨b, hb, hrest⟩ := Option.bind_eq_some_iff.mp h
      obtain ⟨rest, hmap, hr⟩ := Option.bind_eq_some_iff.mp hrest
      cases hr
      intro c hc
      rcases List.mem_cons.mp hc with rfl | hc
      · exact ⟨a, List.mem_cons_self, hb⟩
      · obtain ⟨a', ha', hfa'⟩ := ih hmap c hc
        exact ⟨a', List.mem_cons_of_mem _ ha', hfa'⟩

theorem length_of_mapM {α β : Type} {f : α → Option β} {l : List α} {r : List β}
    (h : l.mapM f = some r) : l.length = r.length := by
  induction l generalizing r with
  | nil =>
      cases h
      rfl
  | cons a l ih =>
      rw [List.mapM_cons] at h
      obtain ⟨b, -, hrest⟩ := Option.bind_eq_some_iff.mp h
      obtain ⟨rest, hmap, hr⟩ := Option.bind_eq_some_iff.mp hrest
      cases hr
      rw [List.length_cons, List.length_cons, ih hmap]

theorem mem_of_readStrs {v : Json.Value} {ss : List String} (h : readStrs v = some ss) :
    ∃ items, v = .arr items ∧ ∀ s ∈ ss, strValue s ∈ items := by
  cases v with
  | arr items =>
      refine ⟨items, rfl, fun s hs => ?_⟩
      obtain ⟨item, hitem, hread⟩ := mem_of_mapM (f := readStr) h s hs
      rw [← eq_of_readStr hread]
      exact hitem
  | _ => cases h

end SmartyTrader
