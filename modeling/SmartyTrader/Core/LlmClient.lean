import SmartyTrader.Core.Models
import SmartyTrader.Lib.Json
import SmartyTrader.Lib.Lines
import SmartyTrader.Lib.Words

set_option autoImplicit false

/-! # Reading a signal out of an answer

Reasoning models put their scratch work in tags in front of the answer. `_strip_reasoning` drops it,
`_json_objects` collects the objects of what is left, and `_parse_signal` takes the last of them
that validates. The JSON decoder and the signal model are parameters here. The tags are matched
without regard to case; besides the ASCII letters this lets in the dotted and the dotless `i` and
the Kelvin sign.
-/

namespace SmartyTrader

open Lib Lib.Words

/-! ## Matching without regard to case -/

/-- The lower case of a character, where that is a letter of the tags. -/
def lowered (c : Char) : Char :=
  if c.isUpper then c.toLower
  else if c = '\u0130' then 'i'
  else if c = '\u212A' then 'k'
  else c

/-- What a letter of a pattern stands for under `re.IGNORECASE`. -/
def ignoreCase (p c : Char) : Bool := lowered c = p || (p = 'i' && c = '\u0131')

/-- What a character of a group stands for in a reference back to the group. -/
def sameFolded (p c : Char) : Bool := lowered c = lowered p

/-- `<(?:think|thinking)>` at the front of a text: the name, and what follows. -/
def openAt (text : Text) : Option (Text × Text) :=
  ((matchWord ignoreCase "<think>".toList text).or
      (matchWord ignoreCase "<thinking>".toList text)).map
    fun read => ((read.1.drop 1).dropLast, read.2)

/-- `</(?:think|thinking)>` at the front of a text: what follows. -/
def closeAt (text : Text) : Option Text :=
  ((matchWord ignoreCase "</think>".toList text).or
    (matchWord ignoreCase "</thinking>".toList text)).map Prod.snd

/-- `</\1>` at the front of a text, for a group that matched `name`: what follows. -/
def closeOf (name text : Text) : Option Text :=
  (matchWord sameFolded ("</".toList ++ name ++ ">".toList) text).map Prod.snd

/-! ## Dropping the reasoning -/

/-- `.*?</\1>`: what follows the first closing tag for `name`. -/
def findClose (name : Text) : Text → Option Text
  | [] => none
  | c :: cs => (closeOf name (c :: cs)).or (findClose name cs)

/-- `_THINK_BLOCK_RE` at the front of a text: what follows the block. -/
def afterBlock (text : Text) : Option Text :=
  (openAt text).bind fun opened => findClose opened.1 opened.2

theorem length_matchWord {β : Type} {fits : β → Char → Bool} {word : List β} {text : Text}
    {read : Text × Text} (h : matchWord fits word text = some read) :
    text.length = word.length + read.2.length := by
  obtain ⟨htext, hall⟩ := matchWord_eq_some_iff.mp h
  rw [htext, List.length_append, hall.length_eq]

theorem length_openAt {text : Text} {opened : Text × Text} (h : openAt text = some opened) :
    opened.2.length < text.length := by
  obtain ⟨read, hread, rfl⟩ := Option.map_eq_some_iff.mp h
  rcases Option.or_eq_some_iff.mp hread with hread | ⟨-, hread⟩
  · have := length_matchWord hread
    simp at this
    dsimp only
    omega
  · have := length_matchWord hread
    simp at this
    dsimp only
    omega

theorem length_findClose {name text rest : Text} (h : findClose name text = some rest) :
    rest.length ≤ text.length := by
  induction text with
  | nil => cases h
  | cons c cs ih =>
      rcases Option.or_eq_some_iff.mp h with hclose | ⟨-, hlater⟩
      · obtain ⟨read, hread, rfl⟩ := Option.map_eq_some_iff.mp hclose
        have := length_matchWord hread
        omega
      · have := ih hlater
        rw [List.length_cons]
        omega

theorem length_afterBlock {text rest : Text} (h : afterBlock text = some rest) :
    rest.length < text.length := by
  obtain ⟨opened, hopen, hclose⟩ := Option.bind_eq_some_iff.mp h
  have := length_openAt hopen
  have := length_findClose hclose
  omega

/-- `_THINK_BLOCK_RE.sub("", text)`. -/
def dropBlocks (text : Text) : Text :=
  match text with
  | [] => []
  | c :: cs =>
      match _h : afterBlock (c :: cs) with
      | some rest => dropBlocks rest
      | none => c :: dropBlocks cs
  termination_by text.length
  decreasing_by
    · exact length_afterBlock _h
    · exact Nat.lt_succ_self _

theorem dropBlocks_of_block {c : Char} {cs rest : Text} (h : afterBlock (c :: cs) = some rest) :
    dropBlocks (c :: cs) = dropBlocks rest := by
  rw [dropBlocks.eq_def]
  dsimp only
  split
  · next hsome =>
      rw [Option.some.inj (h.symm.trans hsome)]
  · next hnone =>
      rw [h] at hnone
      cases hnone

theorem dropBlocks_of_no_block {c : Char} {cs : Text} (h : afterBlock (c :: cs) = none) :
    dropBlocks (c :: cs) = c :: dropBlocks cs := by
  rw [dropBlocks.eq_def]
  dsimp only
  split
  · next hsome =>
      rw [h] at hsome
      cases hsome
  · rfl

/-- What follows the last closing tag, if there is one. -/
def afterLastClose : Text → Option Text
  | [] => none
  | c :: cs => (afterLastClose cs).or (closeAt (c :: cs))

/-- What stands before the first opening tag. -/
def beforeOpen : Text → Text
  | [] => []
  | c :: cs => if (openAt (c :: cs)).isSome then [] else c :: beforeOpen cs

/-- `_strip_reasoning`. -/
def stripReasoning (text : Text) : Text :=
  let text := dropBlocks text
  let text := (afterLastClose text).getD text
  CharTable.trim isSpace (beforeOpen text)

/-! ## The objects of an answer -/

/-- The JSON decoder and the signal model: `raw_decode` from an index, with the index behind the
value; the object that a value is; `data.pop("is_fallback", None)`; and `TradeSignal(**data)`. -/
structure SignalReader (V O S E : Type) where
  rawDecode : Text → ℕ → Option (V × ℕ)
  asObject : V → Option O
  popFallback : O → O
  validate : O → Except E S

/-- How `_parse_signal` fails. -/
inductive ParseFailure (E : Type) where
  /-- `JSONDecodeError("No JSON object in LLM response", text, 0)`. -/
  | noObject (text : Text)
  | invalid (error : E)
  /-- `assert last_error is not None`. -/
  | noError
  deriving DecidableEq

/-- `text.find("{", i)`. -/
def findBrace (text : Text) (i : ℕ) : Option ℕ :=
  ((text.drop i).findIdx? (· = '{')).map fun k => i + k

namespace SignalReader

variable {V O S E : Type} (reader : SignalReader V O S E)

/-- The loop of `_json_objects`, with one round for each index at most. -/
def scanObjects (text : Text) : ℕ → Option ℕ → List O
  | 0, _ => []
  | _, none => []
  | n + 1, some i =>
      match reader.rawDecode text i with
      | none => scanObjects text n (findBrace text (i + 1))
      | some (value, stop) =>
          (reader.asObject value).toList ++ scanObjects text n (findBrace text stop)

/-- `_json_objects`. -/
def jsonObjects (text : Text) : List O :=
  reader.scanObjects text (text.length + 1) (findBrace text 0)

/-- The loop over the candidates, with the last error so far. -/
def firstValid : List O → Option E → Except (ParseFailure E) S
  | [], none => .error .noError
  | [], some error => .error (.invalid error)
  | data :: rest, _ =>
      match reader.validate (reader.popFallback data) with
      | .ok signal => .ok signal
      | .error error => firstValid rest (some error)

/-- `_parse_signal`. -/
def parseSignal (raw : Text) : Except (ParseFailure E) S :=
  let text := stripReasoning raw
  let candidates := reader.jsonObjects text
  match candidates with
  | [] => .error (.noObject text)
  | _ => reader.firstValid candidates.reverse none

end SignalReader

/-! ## With the JSON decoder -/

/-- The members of an object, the last of one name being the one that counts. -/
abbrev Members := List (List ℕ × Json.Value)

/-- `JSONDecoder().raw_decode(text, i)`. -/
def rawDecode (text : Text) (i : ℕ) : Option (Json.Value × ℕ) :=
  (Json.decode (text.drop i)).map fun read => (read.1, text.length - read.2.length)

/-- `isinstance(obj, dict)`. -/
def asDict : Json.Value → Option Members
  | .obj data => some data
  | _ => none

/-- The code points of a name. -/
def codes (name : String) : List ℕ := name.toList.map Char.toNat

/-- `data.get(name)`. -/
def field (data : Members) (name : String) : Option Json.Value :=
  (data.reverse.find? fun member => member.1 = codes name).map Prod.snd

/-- `data.pop(name, None)`, as to what it leaves. -/
def popField (data : Members) (name : String) : Members :=
  data.filter fun member => member.1 ≠ codes name

/-- `data[name] = value`. -/
def setField (data : Members) (name : String) (value : Json.Value) : Members :=
  popField data name ++ [(codes name, value)]

/-- The reader of JSON, for a signal model. -/
def jsonReader {S E : Type} (validate : Members → Except E S) :
    SignalReader Json.Value Members S E where
  rawDecode := rawDecode
  asObject := asDict
  popFallback data := popField data "is_fallback"
  validate := validate

/-- `_json_objects`, which asks no signal model. -/
def jsonDicts (text : Text) : List Members :=
  (jsonReader fun _ => (.error () : Except Unit Unit)).jsonObjects text

end SmartyTrader
