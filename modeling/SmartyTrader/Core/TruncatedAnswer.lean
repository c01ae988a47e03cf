import SmartyTrader.Core.ReasoningTags

set_option autoImplicit false

/-! # An answer that was cut off

The scan of `_json_objects` takes the objects of a text from left to right. Where an answer is cut
inside an object, that object cannot be read any more, and the scan goes on with the braces inside
of it: the nested objects that `_json_objects` means to skip become candidates. An object is read
off the answer or off its beginning alike (`rawDecode_take`), so which of them a cut brings to light
can be said of the whole answer (`Arrives`).
-/

namespace SmartyTrader

open Lib Relation

/-! ## Reading a text and its beginning -/

theorem findBrace_eq_some {text : Text} {i k : ℕ} (h : findBrace text i = some k) :
    i ≤ k ∧ ∃ s, text.drop k = '{' :: s := by
  obtain ⟨j, hj, rfl⟩ := Option.map_eq_some_iff.mp h
  refine ⟨Nat.le_add_right i j, ?_⟩
  obtain ⟨hlt, hbrace, -⟩ := List.findIdx?_eq_some_iff_getElem.mp hj
  refine ⟨text.drop (i + j + 1), ?_⟩
  rw [List.length_drop] at hlt
  rw [List.drop_eq_getElem_cons (by omega)]
  simp only [List.getElem_drop, decide_eq_true_eq] at hbrace
  rw [hbrace]

theorem findBrace_take (text : Text) (n i k : ℕ) :
    findBrace (text.take n) i = some k ↔ findBrace text i = some k ∧ k < n := by
  rw [findBrace, findBrace, List.drop_take, List.findIdx?_take]
  cases (text.drop i).findIdx? (· = '{') with
  | none => simp
  | some j =>
      simp only [Option.bind_some, Option.guard, Option.map_some, Option.some.injEq]
      by_cases hj : j < n - i
      · simp only [hj, decide_true, if_true, Option.map_some, Option.some.injEq]
        omega
      · simp only [hj, decide_false, Bool.false_eq_true, if_false, Option.map_none, reduceCtorEq,
          false_iff]
        omega

theorem rawDecode_eq_some_iff {text s : Text} {i stop : ℕ} {v : Json.Value}
    (hbrace : text.drop i = '{' :: s) :
    rawDecode text i = some (v, stop) ↔
      ∃ rest, Json.decode ('{' :: s) = some (v, rest) ∧ text.length - rest.length = stop := by
  simp [rawDecode, hbrace]

theorem length_of_drop {text s : Text} {i : ℕ} {c : Char} (h : text.drop i = c :: s) :
    text.length = i + 1 + s.length := by
  have hlength := congrArg List.length h
  simp only [List.length_drop, List.length_cons] at hlength
  omega

/-- What an opening brace begins is an object, and ends with a closing brace. -/
theorem rawDecode_ends {text s : Text} {i stop : ℕ} {v : Json.Value}
    (hbrace : text.drop i = '{' :: s) (h : rawDecode text i = some (v, stop)) :
    i < stop ∧ stop ≤ text.length ∧ (∃ data, v = .obj data) ∧
      (text.take stop).getLast? = some '}' := by
  obtain ⟨rest, hdecode, hstop⟩ := (rawDecode_eq_some_iff hbrace).mp h
  obtain ⟨hdata, front, hfront⟩ := Json.decode_ends hdecode
  have hlength := length_of_drop hbrace
  have htext : text = (text.take i ++ '{' :: front ++ ['}']) ++ rest := by
    calc text = text.take i ++ text.drop i := (List.take_append_drop i text).symm
      _ = _ := by rw [hbrace, ← hfront]; simp
  have hs : s.length = front.length + 1 + rest.length := by
    rw [← hfront, List.length_append, List.length_cons]
    omega
  have hstop' : stop = (text.take i ++ '{' :: front ++ ['}']).length := by
    simp only [List.length_append, List.length_cons, List.length_take, List.length_nil]
    omega
  refine ⟨by omega, by omega, hdata, ?_⟩
  have htake : text.take stop = text.take i ++ '{' :: front ++ ['}'] := by
    rw [hstop']
    exact (congrArg (List.take _) htext).trans List.take_left
  rw [htake, List.getLast?_append]
  rfl

theorem brace_of_rawDecode {text : Text} {stop : ℕ} {data : Members}
    (h : rawDecode text 0 = some (.obj data, stop)) : ∃ s, text = '{' :: s := by
  obtain ⟨⟨v, rest⟩, hdecode, heq⟩ := Option.map_eq_some_iff.mp h
  cases heq
  exact Json.brace_of_decode hdecode

/-- An object is read off a text just as off its beginning, if it ends there. -/
theorem rawDecode_take {text s : Text} {n i : ℕ} (hn : n ≤ text.length) (hi : i < n)
    (hbrace : text.drop i = '{' :: s) (v : Json.Value) (stop : ℕ) :
    rawDecode (text.take n) i = some (v, stop) ↔ rawDecode text i = some (v, stop) ∧ stop ≤ n := by
  have hlength := length_of_drop hbrace
  have hbrace' : (text.take n).drop i = '{' :: s.take (n - i - 1) := by
    rw [List.drop_take, hbrace]
    obtain ⟨m, hm⟩ := Nat.exists_eq_succ_of_ne_zero (show n - i ≠ 0 by omega)
    rw [hm, Nat.succ_eq_add_one, List.take_succ_cons, Nat.add_sub_cancel]
  rw [rawDecode_eq_some_iff hbrace, rawDecode_eq_some_iff hbrace', List.length_take,
    min_eq_left hn]
  constructor
  · rintro ⟨rest, hdecode, hstop⟩
    obtain ⟨lex, hs, hagain⟩ := Json.decode_local hdecode
    refine ⟨⟨rest ++ s.drop (n - i - 1), ?_, ?_⟩, by omega⟩
    · rw [← hagain, ← List.append_assoc, ← hs, List.take_append_drop]
    · have := congrArg List.length hs
      simp only [List.length_take, List.length_append] at this
      rw [List.length_append, List.length_drop]
      omega
  · rintro ⟨⟨rest, hdecode, hstop⟩, hle⟩
    obtain ⟨lex, hs, hagain⟩ := Json.decode_local hdecode
    have hs' := congrArg List.length hs
    rw [List.length_append] at hs'
    refine ⟨rest.take (n - stop), ?_, ?_⟩
    · rw [← hagain, hs, List.take_append, List.take_of_length_le (by omega)]
      congr 4
      omega
    · rw [List.length_take]
      omega

/-! ## The scan of a text that is cut -/

/-- Where the scan of a text cut at `n` goes on from index `i`. -/
def scanNext (text : Text) (n i : ℕ) : Option ℕ :=
  match rawDecode text i with
  | none => findBrace text (i + 1)
  | some (_, stop) => if stop ≤ n then findBrace text stop else findBrace text (i + 1)

/-- The scan of a text cut at `n` looks for an object at index `i`: none that it takes covers the
brace there. -/
def Arrives (text : Text) (n i : ℕ) : Prop :=
  ∃ first, findBrace text 0 = some first ∧
    ReflTransGen (fun i k => scanNext text n i = some k) first i

/-- It goes on to a later brace. -/
theorem scanNext_eq_some {text s : Text} {n i k : ℕ} (hbrace : text.drop i = '{' :: s)
    (h : scanNext text n i = some k) : i < k ∧ ∃ s, text.drop k = '{' :: s := by
  unfold scanNext at h
  split at h
  · have := findBrace_eq_some h
    exact ⟨this.1, this.2⟩
  · next v stop hread =>
      split_ifs at h
      · have := findBrace_eq_some h
        exact ⟨(rawDecode_ends hbrace hread).1.trans_le this.1, this.2⟩
      · have := findBrace_eq_some h
        exact ⟨this.1, this.2⟩

theorem brace_of_chain {text : Text} {n i k : ℕ} (hbrace : ∃ s, text.drop i = '{' :: s)
    (h : ReflTransGen (fun i k => scanNext text n i = some k) i k) :
    i ≤ k ∧ ∃ s, text.drop k = '{' :: s := by
  induction h with
  | refl => exact ⟨le_rfl, hbrace⟩
  | tail _ hnext ih =>
      obtain ⟨hle, s, hs⟩ := ih
      have := scanNext_eq_some hs hnext
      exact ⟨hle.trans this.1.le, this.2⟩

theorem Arrives.brace {text : Text} {n i : ℕ} (h : Arrives text n i) :
    ∃ s, text.drop i = '{' :: s := by
  obtain ⟨first, hfirst, hchain⟩ := h
  exact (brace_of_chain (findBrace_eq_some hfirst).2 hchain).2

variable {S E : Type} (validate : Members → Except E S)

theorem findBrace_take_eq (text : Text) (n i : ℕ) : findBrace (text.take n) i =
    (findBrace text i).filter fun k => k < n := by
  ext k
  rw [findBrace_take, Option.filter_eq_some_iff, decide_eq_true_eq]

/-- One round of the scan of a text that is cut, at an object that it takes. -/
theorem scanObjects_of_taken {text s : Text} {n i stop : ℕ} {data : Members} (hn : n ≤ text.length)
    (hbrace : text.drop i = '{' :: s) (hread : rawDecode text i = some (.obj data, stop))
    (hstop : stop ≤ n) (fuel : ℕ) :
    (jsonReader validate).scanObjects (text.take n) (fuel + 1) (some i) =
      data :: (jsonReader validate).scanObjects (text.take n) fuel
        ((scanNext text n i).filter fun k => k < n) := by
  have hi : i < n := (rawDecode_ends hbrace hread).1.trans_le hstop
  have htake := (rawDecode_take hn hi hbrace _ _).mpr ⟨hread, hstop⟩
  have hnext : scanNext text n i = findBrace text stop := by
    simp only [scanNext, hread, if_pos hstop]
  rw [SignalReader.scanObjects, hnext, ← findBrace_take_eq]
  simp only [jsonReader, htake]
  rfl

/-- One round at a brace that begins nothing it can read. -/
theorem scanObjects_of_not_taken {text s : Text} {n i : ℕ} (hn : n ≤ text.length) (hi : i < n)
    (hbrace : text.drop i = '{' :: s)
    (hnot : ¬ ∃ data stop, rawDecode text i = some (.obj data, stop) ∧ stop ≤ n) (fuel : ℕ) :
    (jsonReader validate).scanObjects (text.take n) (fuel + 1) (some i) =
      (jsonReader validate).scanObjects (text.take n) fuel
        ((scanNext text n i).filter fun k => k < n) := by
  have hread : ∀ v stop, rawDecode text i = some (v, stop) → n < stop := by
    intro v stop hread
    obtain ⟨-, -, ⟨data, rfl⟩, -⟩ := rawDecode_ends hbrace hread
    by_contra hstop
    exact hnot ⟨data, stop, hread, not_lt.mp hstop⟩
  have htake : rawDecode (text.take n) i = none := by
    rw [Option.eq_none_iff_forall_ne_some]
    rintro ⟨v, stop⟩ hsome
    obtain ⟨hsome, hstop⟩ := (rawDecode_take hn hi hbrace _ _).mp hsome
    exact absurd hstop (not_le.mpr (hread v stop hsome))
  have hnext : scanNext text n i = findBrace text (i + 1) := by
    unfold scanNext
    split
    · rfl
    · next v stop hsome => rw [if_neg (not_le.mpr (hread v stop hsome))]
  rw [SignalReader.scanObjects, hnext, ← findBrace_take_eq]
  simp only [jsonReader, htake]

/-- The scan of a text cut at `n` takes this object. -/
def Taken (text : Text) (n : ℕ) (data : Members) : Prop :=
  ∃ i stop, Arrives text n i ∧ rawDecode text i = some (.obj data, stop) ∧ stop ≤ n

theorem taken_of_mem_scanObjects {text : Text} {n : ℕ} (hn : n ≤ text.length) {data : Members}
    {fuel : ℕ} {start : Option ℕ} (hstart : ∀ i, start = some i → Arrives text n i ∧ i < n)
    (h : data ∈ (jsonReader validate).scanObjects (text.take n) fuel start) :
    Taken text n data := by
  induction fuel generalizing start with
  | zero => cases h
  | succ fuel ih =>
      cases start with
      | none => cases h
      | some i =>
          obtain ⟨harrives, hi⟩ := hstart i rfl
          obtain ⟨s, hbrace⟩ := harrives.brace
          -- wherever it goes on, it arrives
          have hnext : ∀ k, (scanNext text n i).filter (fun k => k < n) = some k →
              Arrives text n k ∧ k < n := by
            intro k hk
            rw [Option.filter_eq_some_iff, decide_eq_true_eq] at hk
            obtain ⟨first, hfirst, hchain⟩ := harrives
            exact ⟨⟨first, hfirst, hchain.tail hk.1⟩, hk.2⟩
          by_cases htaken : ∃ data stop, rawDecode text i = some (.obj data, stop) ∧ stop ≤ n
          · obtain ⟨data', stop, hread, hstop⟩ := htaken
            rw [scanObjects_of_taken validate hn hbrace hread hstop] at h
            rcases List.mem_cons.mp h with rfl | h
            · exact ⟨i, stop, harrives, hread, hstop⟩
            · exact ih hnext h
          · rw [scanObjects_of_not_taken validate hn hi hbrace htaken] at h
            exact ih hnext h

theorem mem_scanObjects_of_chain {text : Text} {n i k stop : ℕ} (hn : n ≤ text.length)
    {data : Members} (hbrace : ∃ s, text.drop i = '{' :: s)
    (hchain : ReflTransGen (fun i k => scanNext text n i = some k) i k)
    (hread : rawDecode text k = some (.obj data, stop)) (hstop : stop ≤ n) {fuel : ℕ}
    (hfuel : n - i < fuel) :
    data ∈ (jsonReader validate).scanObjects (text.take n) fuel (some i) := by
  induction hchain using ReflTransGen.head_induction_on generalizing fuel with
  | refl =>
      obtain ⟨s, hbrace⟩ := hbrace
      obtain ⟨fuel, rfl⟩ := Nat.exists_eq_succ_of_ne_zero (show fuel ≠ 0 by omega)
      rw [Nat.succ_eq_add_one, scanObjects_of_taken validate hn hbrace hread hstop]
      exact List.mem_cons_self
  | head hnext hchain ih =>
      rename_i i j
      obtain ⟨s, hbrace⟩ := hbrace
      obtain ⟨hij, hbrace'⟩ := scanNext_eq_some hbrace hnext
      obtain ⟨hjk, s', hs'⟩ := brace_of_chain hbrace' hchain
      have hkn : k < n := (rawDecode_ends hs' hread).1.trans_le hstop
      obtain ⟨fuel, rfl⟩ := Nat.exists_eq_succ_of_ne_zero (show fuel ≠ 0 by omega)
      have hfilter : (scanNext text n i).filter (fun k => k < n) = some j := by
        rw [Option.filter_eq_some_iff, decide_eq_true_eq]
        exact ⟨hnext, by omega⟩
      have hlater := ih hbrace' (show n - j < fuel by omega)
      by_cases htaken : ∃ data stop, rawDecode text i = some (.obj data, stop) ∧ stop ≤ n
      · obtain ⟨data', stop', hread', hstop'⟩ := htaken
        rw [Nat.succ_eq_add_one, scanObjects_of_taken validate hn hbrace hread' hstop', hfilter]
        exact List.mem_cons_of_mem _ hlater
      · rw [Nat.succ_eq_add_one, scanObjects_of_not_taken validate hn (by omega) hbrace htaken,
          hfilter]
        exact hlater

/-- What `_json_objects` finds in a text that is cut. -/
theorem mem_jsonObjects_iff {text : Text} {n : ℕ} (hn : n ≤ text.length) (data : Members) :
    data ∈ (jsonReader validate).jsonObjects (text.take n) ↔ Taken text n data := by
  unfold SignalReader.jsonObjects
  constructor
  · apply taken_of_mem_scanObjects validate hn
    intro i hi
    rw [findBrace_take] at hi
    exact ⟨⟨i, hi.1, ReflTransGen.refl⟩, hi.2⟩
  · rintro ⟨k, stop, ⟨first, hfirst, hchain⟩, hread, hstop⟩
    obtain ⟨-, hbrace⟩ := findBrace_eq_some hfirst
    obtain ⟨hle, s, hs⟩ := brace_of_chain hbrace hchain
    have hkn : k < n := (rawDecode_ends hs hread).1.trans_le hstop
    have hstart : findBrace (text.take n) 0 = some first :=
      (findBrace_take text n 0 first).mpr ⟨hfirst, by omega⟩
    rw [hstart]
    apply mem_scanObjects_of_chain validate hn hbrace hchain hread hstop
    rw [List.length_take, min_eq_left hn]
    omega

/-- An object that ends before the cut is reached as soon as the text goes that far. -/
theorem Arrives.of_le {text : Text} {n m i : ℕ} (hmn : m ≤ n) (him : i < m)
    (h : Arrives text n i) : Arrives text m i := by
  obtain ⟨first, hfirst, hchain⟩ := h
  refine ⟨first, hfirst, ?_⟩
  have hbrace := (findBrace_eq_some hfirst).2
  clear hfirst
  induction hchain using ReflTransGen.head_induction_on with
  | refl => exact ReflTransGen.refl
  | head hnext hchain ih =>
      rename_i j k
      obtain ⟨s, hs⟩ := hbrace
      obtain ⟨hjk, hbrace'⟩ := scanNext_eq_some hs hnext
      have hki := (brace_of_chain hbrace' hchain).1
      refine ReflTransGen.head ?_ (ih hbrace')
      unfold scanNext at hnext ⊢
      cases hread : rawDecode text j with
      | none =>
          rw [hread] at hnext
          exact hnext
      | some read =>
          obtain ⟨v, stop⟩ := read
          simp only [hread] at hnext ⊢
          by_cases hstop : stop ≤ n
          · rw [if_pos hstop] at hnext
            have := (findBrace_eq_some hnext).1
            rw [if_pos (by omega)]
            exact hnext
          · rw [if_neg hstop] at hnext
            rw [if_neg (by omega)]
            exact hnext

/-! ## The outcome -/

/-- The signal model does not take the object. -/
def Rejected (data : Members) : Prop :=
  ∃ error, validate ((jsonReader validate).popFallback data) = .error error

/-- `_parse_signal` raises. -/
def Raises (raw : Text) : Prop := ∃ failure, (jsonReader validate).parseSignal raw = .error failure

theorem firstValid_error_iff (candidates : List Members) (last : Option E) :
    (∃ failure, (jsonReader validate).firstValid candidates last = .error failure) ↔
      ∀ data ∈ candidates, Rejected validate data := by
  induction candidates generalizing last with
  | nil =>
      cases last with
      | none => exact iff_of_true ⟨_, rfl⟩ (List.forall_mem_nil _)
      | some error => exact iff_of_true ⟨_, rfl⟩ (List.forall_mem_nil _)
  | cons data rest ih =>
      rw [List.forall_mem_cons, SignalReader.firstValid]
      cases hvalid : (jsonReader validate).validate ((jsonReader validate).popFallback data) with
      | ok signal =>
          constructor
          · rintro ⟨failure, h⟩
            cases h
          · rintro ⟨⟨error, herror⟩, -⟩
            cases hvalid.symm.trans herror
      | error error => exact (ih (some error)).trans (iff_and_self.mpr fun _ => ⟨error, hvalid⟩)

theorem raises_iff (raw : Text) :
    Raises validate raw ↔
      ∀ data ∈ (jsonReader validate).jsonObjects (stripReasoning raw), Rejected validate data := by
  unfold Raises SignalReader.parseSignal
  dsimp only
  split
  · next hnil =>
      rw [hnil]
      exact iff_of_true ⟨_, rfl⟩ (List.forall_mem_nil _)
  · rw [firstValid_error_iff]
    simp only [List.mem_reverse]

/-- What `_parse_signal` makes of a text, by the objects that the scan takes. -/
theorem raises_iff_taken (raw : Text) :
    Raises validate raw ↔
      ∀ data, Taken (stripReasoning raw) (stripReasoning raw).length data →
        Rejected validate data := by
  rw [raises_iff]
  apply forall_congr'
  intro data
  have hmem := mem_jsonObjects_iff validate (le_refl (stripReasoning raw).length) data
  rw [List.take_length] at hmem
  rw [hmem]

/-! ## Texts without tags -/

theorem Occurs.of_take {found : Text → Bool} {text : Text} {n : ℕ}
    (hmore : ∀ s t, found s = true → found (s ++ t) = true) (h : Occurs found (text.take n)) :
    Occurs found text := by
  obtain ⟨s, hs, hfound⟩ := h
  obtain ⟨front, hfront⟩ := (List.mem_tails _ _).mp hs
  refine ⟨s ++ text.drop n, (List.mem_tails _ _).mpr ⟨front, ?_⟩, hmore _ _ hfound⟩
  rw [← List.append_assoc, hfront, List.take_append_drop]

theorem isSome_matchWord_append {fits : Char → Char → Bool} {word s : Text} (t : Text)
    (h : (Words.matchWord fits word s).isSome) : (Words.matchWord fits word (s ++ t)).isSome := by
  obtain ⟨⟨read, rest⟩, hread⟩ := Option.isSome_iff_exists.mp h
  rw [Words.matchWord_append t hread]
  rfl

theorem not_hasOpen_take {text : Text} (n : ℕ) (h : ¬ HasOpen text) : ¬ HasOpen (text.take n) := by
  apply mt (Occurs.of_take _) h
  intro s t hs
  rw [isSome_openAt, Bool.or_eq_true] at hs ⊢
  exact hs.imp (isSome_matchWord_append t) (isSome_matchWord_append t)

theorem not_hasClose_take {text : Text} (n : ℕ) (h : ¬ HasClose text) :
    ¬ HasClose (text.take n) := by
  apply mt (Occurs.of_take _) h
  intro s t hs
  rw [isSome_closeAt, Bool.or_eq_true] at hs ⊢
  exact hs.imp (isSome_matchWord_append t) (isSome_matchWord_append t)

/-- Stripping the beginning of an object leaves a beginning of it. -/
theorem trim_take {text s : Text} (hbrace : text = '{' :: s) (n : ℕ) :
    ∃ m ≤ n, CharTable.trim isSpace (text.take n) = text.take m := by
  have hfront : (text.take n).dropWhile isSpace = text.take n := by
    cases n with
    | zero => rfl
    | succ n =>
        rw [hbrace, List.take_succ_cons]
        rfl
  have hbegin : CharTable.trim isSpace (text.take n) <+: text.take n := by
    rw [CharTable.trim, hfront, ← List.reverse_suffix, List.reverse_reverse]
    exact List.dropWhile_suffix _
  refine ⟨(CharTable.trim isSpace (text.take n)).length, ?_, ?_⟩
  · exact hbegin.length_le.trans (List.length_take_le _ _)
  · exact List.prefix_iff_eq_take.mp (hbegin.trans (List.take_prefix n text))

/-- **When an answer that is cut off is never traded.** In a text that is one object, every object
that ends before the text does, and that the scan comes to when the text is cut right behind it, has
to be one that the signal model rejects. For a text with tags the same is said of what is left of
its beginnings. -/
theorem truncated_raises_iff (text : Text) (data : Members)
    (hread : rawDecode text 0 = some (.obj data, text.length)) :
    ((∀ n < text.length, Raises validate (text.take n)) ↔
        ∀ n < text.length, ∀ inner,
          Taken (stripReasoning (text.take n)) (stripReasoning (text.take n)).length inner →
            Rejected validate inner) ∧
      (¬ HasOpen text → ¬ HasClose text →
        ((∀ n < text.length, Raises validate (text.take n)) ↔
          ∀ i stop inner, rawDecode text i = some (.obj inner, stop) → stop < text.length →
            Arrives text stop i → Rejected validate inner)) := by
  refine ⟨forall₂_congr fun n _ => raises_iff_taken validate _, fun hopen hclose => ?_⟩
  have hstrip : ∀ n, stripReasoning (text.take n) = CharTable.trim isSpace (text.take n) :=
    fun n => stripReasoning_of_clean (not_hasOpen_take n hopen) (not_hasClose_take n hclose)
  obtain ⟨s, hbrace⟩ := brace_of_rawDecode hread
  constructor
  · intro hraises i stop inner hinner hstop harrives
    -- the text cut right behind the object
    obtain ⟨t, ht⟩ := harrives.brace
    obtain ⟨hi, -, -, hlast⟩ := rawDecode_ends ht hinner
    have hfront : text.take stop = '{' :: s.take (stop - 1) := by
      obtain ⟨k, rfl⟩ := Nat.exists_eq_succ_of_ne_zero (show stop ≠ 0 by omega)
      rw [hbrace, Nat.succ_eq_add_one, List.take_succ_cons, Nat.add_sub_cancel]
    have hcut := (raises_iff validate _).mp (hraises stop hstop)
    rw [hstrip, trim_of_braces hfront hlast] at hcut
    exact hcut inner ((mem_jsonObjects_iff validate hstop.le inner).mpr
      ⟨i, stop, harrives, hinner, le_rfl⟩)
  · intro hinner n hn
    obtain ⟨m, hmn, hm⟩ := trim_take hbrace n
    rw [raises_iff, hstrip, hm]
    intro inner hmem
    obtain ⟨i, stop, harrives, hread', hstop⟩ :=
      (mem_jsonObjects_iff validate (by omega) inner).mp hmem
    obtain ⟨t, ht⟩ := harrives.brace
    have hi := (rawDecode_ends ht hread').1
    exact hinner i stop inner hread' (by omega) (harrives.of_le hstop hi)

/-! ## A signal that quotes another -/

def buyAnswer : Text := plainAnswer "buy".toList

/-- A signal to hold that quotes an earlier one. -/
def quotingAnswer : Text :=
  '{' :: plainFields "hold".toList ++ ",\"previous\":".toList ++ buyAnswer ++ ['}']

theorem obj_of_rawDecode {text : Text} {stop : ℕ} (hbrace : text.head? = some '{')
    (h : (rawDecode text 0).map Prod.snd = some stop) :
    ∃ data, rawDecode text 0 = some (.obj data, stop) := by
  obtain ⟨⟨v, stop'⟩, hread, rfl⟩ := Option.map_eq_some_iff.mp h
  obtain ⟨s, rfl⟩ := List.head?_eq_some_iff.mp hbrace
  obtain ⟨-, -, ⟨data, rfl⟩, -⟩ := rawDecode_ends rfl hread
  exact ⟨data, hread⟩

/-- Cut inside, the flat one is nothing. -/
theorem truncated_raises_iff_flat :
    (∃ data, rawDecode buyAnswer 0 = some (.obj data, buyAnswer.length)) ∧
      ∀ n < buyAnswer.length, Raises plainSignal (buyAnswer.take n) := by
  have hclean : '<' ∉ buyAnswer := by decide +kernel
  obtain ⟨data, hread⟩ :=
    @obj_of_rawDecode buyAnswer buyAnswer.length (by decide +kernel) (by decide +kernel)
  refine ⟨⟨data, hread⟩, ?_⟩
  apply ((truncated_raises_iff plainSignal buyAnswer data hread).2
    (tagLike_openAt.not_occurs_of_not_mem hclean)
    (tagLike_closeAt.not_occurs_of_not_mem hclean)).mpr
  intro i stop inner hinner hstop harrives
  obtain ⟨s, hs⟩ := harrives.brace
  have hlength := length_of_drop hs
  have honly : ∀ i < buyAnswer.length, (buyAnswer.drop i).head? = some '{' → i = 0 := by
    decide +kernel
  obtain rfl := honly i (by omega) (by rw [hs]; rfl)
  have := Option.some.inj (hread.symm.trans hinner)
  simp only [Prod.mk.injEq] at this
  omega

/-- Cut before its last brace, the signal to hold is the signal to buy that it quotes. -/
theorem truncated_answer_trades :
    (∃ data, rawDecode quotingAnswer 0 = some (.obj data, quotingAnswer.length)) ∧
      (jsonReader plainSignal).parseSignal quotingAnswer = .ok (codes "hold") ∧
      (jsonReader plainSignal).parseSignal (quotingAnswer.take (quotingAnswer.length - 1)) =
        .ok (codes "buy") := by
  refine ⟨obj_of_rawDecode (by decide +kernel) (by decide +kernel), ?_, ?_⟩
  · rw [SignalReader.parseSignal, stripReasoning_of_braces (by decide +kernel) (by decide +kernel)
      (by decide +kernel)]
    decide +kernel
  · rw [SignalReader.parseSignal, stripReasoning_of_braces (by decide +kernel) (by decide +kernel)
      (by decide +kernel)]
    decide +kernel

end SmartyTrader
