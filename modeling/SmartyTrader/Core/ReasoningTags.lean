import SmartyTrader.Core.LlmClient

set_option autoImplicit false

/-! # Reasoning never influences the signal

Every tag begins with a `<` and has none behind it, so a tag of a joined text is a tag of one of its
parts. That is all that the three ways of leaving reasoning in an answer need: a closed block, a
preamble without its opening tag, and a block that was never closed.
-/

namespace SmartyTrader

open Lib Lib.Words

/-! ## Tags in a text -/

/-- `found` holds at some place of the text. -/
def Occurs (found : Text → Bool) (text : Text) : Prop := ∃ s ∈ text.tails, found s = true

instance (found : Text → Bool) (text : Text) : Decidable (Occurs found text) :=
  inferInstanceAs (Decidable (∃ s ∈ text.tails, found s = true))

/-- An opening tag, `<think>` or `<thinking>`, in any case. -/
def HasOpen (text : Text) : Prop := Occurs (fun s => (openAt s).isSome) text

/-- A closing tag, `</think>` or `</thinking>`, in any case. -/
def HasClose (text : Text) : Prop := Occurs (fun s => (closeAt s).isSome) text

/-- A `</think>` in any case. -/
def HasThinkClose (text : Text) : Prop :=
  Occurs (fun s => (closeOf "think".toList s).isSome) text

instance (text : Text) : Decidable (HasOpen text) := inferInstanceAs (Decidable (Occurs _ _))
instance (text : Text) : Decidable (HasClose text) := inferInstanceAs (Decidable (Occurs _ _))
instance (text : Text) : Decidable (HasThinkClose text) := inferInstanceAs (Decidable (Occurs _ _))

theorem occurs_cons_iff {found : Text → Bool} {c : Char} {cs : Text} :
    Occurs found (c :: cs) ↔ found (c :: cs) = true ∨ Occurs found cs := by
  simp [Occurs, List.tails]

/-- A tag begins with `<` and ends before the next one. -/
structure TagLike (found : Text → Bool) : Prop where
  nil : found [] = false
  first : ∀ c cs, found (c :: cs) = true → c = '<'
  apart : ∀ s t, s ≠ [] → found (s ++ '<' :: t) = true → found s = true

theorem TagLike.not_occurs_nil {found : Text → Bool} (h : TagLike found) : ¬ Occurs found [] := by
  simp [Occurs, h.nil]

/-- A tag of a joined text is a tag of one of its parts. -/
theorem TagLike.occurs_append {found : Text → Bool} (h : TagLike found) {s t : Text}
    (hocc : Occurs found (s ++ '<' :: t)) : Occurs found s ∨ Occurs found ('<' :: t) := by
  induction s with
  | nil => exact Or.inr hocc
  | cons c s ih =>
      rw [List.cons_append, occurs_cons_iff] at hocc
      rcases hocc with hfound | hocc
      · exact Or.inl (occurs_cons_iff.mpr (Or.inl (h.apart (c :: s) t (by simp) hfound)))
      · rcases ih hocc with hocc | hocc
        · exact Or.inl (occurs_cons_iff.mpr (Or.inr hocc))
        · exact Or.inr hocc

/-- At a place that is not `<` there is no tag. -/
theorem TagLike.occurs_cons_of_ne {found : Text → Bool} (h : TagLike found) {c : Char} {cs : Text}
    (hc : c ≠ '<') : Occurs found (c :: cs) ↔ Occurs found cs := by
  rw [occurs_cons_iff]
  exact or_iff_right fun hfound => hc (h.first c cs hfound)

/-- A word that begins with `<` is a tag when no later letter of it stands for a `<`. -/
theorem TagLike.word {fits : Char → Char → Bool} {word : Text}
    (hfirst : ∀ c, fits '<' c = true → c = '<')
    (hlater : (word.any fun p => fits p '<') = false) :
    TagLike fun s => (matchWord fits ('<' :: word) s).isSome where
  nil := rfl
  first c cs hfound := by
    apply hfirst
    by_contra hfits
    rw [Bool.not_eq_true] at hfits
    simp [matchWord, hfits] at hfound
  apart s t hne hfound := by
    obtain ⟨⟨read, rest⟩, hread⟩ := Option.isSome_iff_exists.mp hfound
    have hlater' : ∀ p ∈ word, fits p '<' = false := by simpa using hlater
    obtain ⟨rest', hread', -⟩ := matchWord_of_append hne hlater' hread
    rw [hread']
    rfl

theorem TagLike.or {found other : Text → Bool} (h : TagLike found) (h' : TagLike other) :
    TagLike fun s => found s || other s where
  nil := by simp [h.nil, h'.nil]
  first c cs hfound := by
    rcases Bool.or_eq_true_iff.mp hfound with hfound | hfound
    · exact h.first c cs hfound
    · exact h'.first c cs hfound
  apart s t hne hfound := by
    apply Bool.or_eq_true_iff.mpr
    rcases Bool.or_eq_true_iff.mp hfound with hfound | hfound
    · exact Or.inl (h.apart s t hne hfound)
    · exact Or.inr (h'.apart s t hne hfound)

/-! ## The three patterns -/

theorem isLower_toLower_of_isUpper {c : Char} (h : c.isUpper = true) :
    c.toLower.isLower = true := by
  obtain ⟨hA, hZ⟩ := of_decide_eq_true h
  have hval : c.toLower.val = c.val + ('a'.val - 'A'.val) := congrArg Char.val (dif_pos ⟨hA, hZ⟩)
  show (decide (c.toLower.val ≥ 'a'.val) && decide (c.toLower.val ≤ 'z'.val)) = true
  rw [hval, Bool.and_eq_true, decide_eq_true_eq, decide_eq_true_eq]
  rw [ge_iff_le, UInt32.le_iff_toNat_le] at *
  constructor
  · grind [UInt32.toNat_add, UInt32.le_iff_toNat_le]
  · grind [UInt32.toNat_add, UInt32.le_iff_toNat_le]

/-- Only the letters of the alphabet have other characters that they stand for. -/
theorem eq_of_lowered_eq {c d : Char} (h : lowered c = d) (hd : d.isLower = false) : c = d := by
  unfold lowered at h
  split_ifs at h with hupper hdotted hkelvin
  · rw [← h, isLower_toLower_of_isUpper hupper] at hd
    cases hd
  · rw [← h] at hd
    exact absurd hd (by decide)
  · rw [← h] at hd
    exact absurd hd (by decide)
  · exact h

theorem eq_of_ignoreCase {c d : Char} (h : ignoreCase d c = true) (hd : d.isLower = false) :
    c = d := by
  rcases Bool.or_eq_true_iff.mp h with hlow | hdotless
  · exact eq_of_lowered_eq (of_decide_eq_true hlow) hd
  · have hi : d = 'i' := of_decide_eq_true (Bool.and_eq_true_iff.mp hdotless).1
    rw [hi] at hd
    exact absurd hd (by decide)

theorem eq_of_sameFolded {c d : Char} (h : sameFolded d c = true) (hd : lowered d = d)
    (hlower : d.isLower = false) : c = d :=
  eq_of_lowered_eq ((of_decide_eq_true h).trans hd) hlower

theorem isSome_openAt (s : Text) : (openAt s).isSome =
    ((matchWord ignoreCase "<think>".toList s).isSome ||
      (matchWord ignoreCase "<thinking>".toList s).isSome) := by
  rw [openAt, Option.isSome_map, Option.isSome_or]

theorem isSome_closeAt (s : Text) : (closeAt s).isSome =
    ((matchWord ignoreCase "</think>".toList s).isSome ||
      (matchWord ignoreCase "</thinking>".toList s).isSome) := by
  rw [closeAt, Option.isSome_map, Option.isSome_or]

theorem tagLike_openAt : TagLike fun s => (openAt s).isSome := by
  have hfirst : ∀ c, ignoreCase '<' c = true → c = '<' := fun c h => eq_of_ignoreCase h (by decide)
  have hthink := @TagLike.word ignoreCase "think>".toList hfirst (by decide)
  have hthinking := @TagLike.word ignoreCase "thinking>".toList hfirst (by decide)
  rw [funext isSome_openAt]
  exact hthink.or hthinking

theorem tagLike_closeAt : TagLike fun s => (closeAt s).isSome := by
  have hfirst : ∀ c, ignoreCase '<' c = true → c = '<' := fun c h => eq_of_ignoreCase h (by decide)
  have hthink := @TagLike.word ignoreCase "/think>".toList hfirst (by decide)
  have hthinking := @TagLike.word ignoreCase "/thinking>".toList hfirst (by decide)
  rw [funext isSome_closeAt]
  exact hthink.or hthinking

theorem tagLike_closeOf_think : TagLike fun s => (closeOf "think".toList s).isSome := by
  have hfirst : ∀ c, sameFolded '<' c = true → c = '<' :=
    fun c h => eq_of_sameFolded h (by decide) (by decide)
  have heq : (fun s => (closeOf "think".toList s).isSome) = fun s =>
      (matchWord sameFolded "</think>".toList s).isSome := by
    funext s
    simp [closeOf]
  rw [heq]
  exact @TagLike.word sameFolded "/think>".toList hfirst (by decide)

/-! ## A closing tag of a block is a closing tag -/

/-- What a group's letter stands for in a reference, the pattern's letter stands for too. -/
theorem ignoreCase_of_sameFolded {p n c : Char} (hn : ignoreCase p n = true)
    (hc : sameFolded n c = true) : ignoreCase p c = true := by
  have hsame : lowered c = lowered n := of_decide_eq_true hc
  rcases Bool.or_eq_true_iff.mp hn with hlow | hdotless
  · have hlow : lowered n = p := of_decide_eq_true hlow
    simp [ignoreCase, hsame, hlow]
  · -- the dotless `i` is its own lower case, and no other character has it for one
    obtain ⟨hp, hn⟩ := Bool.and_eq_true_iff.mp hdotless
    have hn : n = '\u0131' := of_decide_eq_true hn
    subst hn
    have hlow : lowered c = '\u0131' := hsame.trans (by decide)
    have hc : c = '\u0131' := eq_of_lowered_eq hlow (by decide)
    simp [ignoreCase, of_decide_eq_true hp, hc]

theorem forall₂_ignoreCase_of_sameFolded {word name read : Text}
    (hname : List.Forall₂ (fun p n => ignoreCase p n = true) word name)
    (hread : List.Forall₂ (fun n c => sameFolded n c = true) name read) :
    List.Forall₂ (fun p c => ignoreCase p c = true) word read := by
  induction hname generalizing read with
  | nil =>
      cases hread
      exact .nil
  | cons hn _ ih =>
      cases hread with
      | cons hc hread => exact .cons (ignoreCase_of_sameFolded hn hc) (ih hread)

/-- The closing tag of a block is a closing tag. -/
theorem closeAt_of_closeOf {word name text : Text}
    (hword : word = "think".toList ∨ word = "thinking".toList)
    (hname : List.Forall₂ (fun p n => ignoreCase p n = true) word name)
    (hclose : (closeOf name text).isSome) : (closeAt text).isSome := by
  rw [closeOf, Option.isSome_map] at hclose
  obtain ⟨⟨read, rest⟩, hmatch⟩ := Option.isSome_iff_exists.mp hclose
  obtain ⟨htext, hread⟩ := matchWord_eq_some_iff.mp hmatch
  have hopen : List.Forall₂ (fun p n => ignoreCase p n = true) ("</".toList ++ word ++ ">".toList)
      ("</".toList ++ name ++ ">".toList) := by
    apply List.rel_append
    · exact List.rel_append (by decide) hname
    · decide
  have hmatch : (matchWord ignoreCase ("</".toList ++ word ++ ">".toList) text).isSome := by
    rw [matchWord_eq_some_iff.mpr ⟨htext, forall₂_ignoreCase_of_sameFolded hopen hread⟩]
    rfl
  rw [isSome_closeAt, Bool.or_eq_true]
  rcases hword with rfl | rfl
  · exact Or.inl hmatch
  · exact Or.inr hmatch

/-- The group of an opening tag is one of the two names. -/
theorem name_of_openAt {text : Text} {opened : Text × Text} (h : openAt text = some opened) :
    ∃ word, (word = "think".toList ∨ word = "thinking".toList) ∧
      List.Forall₂ (fun p n => ignoreCase p n = true) word opened.1 := by
  obtain ⟨⟨read, rest⟩, hread, rfl⟩ := Option.map_eq_some_iff.mp h
  -- what is left of the tag without its two brackets
  have hinner : ∀ word : Text,
      List.Forall₂ (fun p c => ignoreCase p c = true) ("<".toList ++ word ++ ">".toList) read →
        List.Forall₂ (fun p c => ignoreCase p c = true) word ((read.drop 1).dropLast) := by
    intro word hall
    have hdrop := List.forall₂_drop 1 hall
    have htake := List.forall₂_take ((read.drop 1).length - 1) hdrop
    rw [← List.dropLast_eq_take, ← hdrop.length_eq] at htake
    simpa using htake
  rcases Option.or_eq_some_iff.mp hread with hread | ⟨-, hread⟩
  · exact ⟨_, Or.inl rfl, hinner _ (matchWord_eq_some_iff.mp hread).2⟩
  · exact ⟨_, Or.inr rfl, hinner _ (matchWord_eq_some_iff.mp hread).2⟩

/-- What is behind a tag ends the text. -/
theorem suffix_of_openAt {text : Text} {opened : Text × Text} (h : openAt text = some opened) :
    opened.2 <:+ text := by
  obtain ⟨⟨read, rest⟩, hread, rfl⟩ := Option.map_eq_some_iff.mp h
  rcases Option.or_eq_some_iff.mp hread with hread | ⟨-, hread⟩
  · exact ⟨read, (matchWord_eq_some_iff.mp hread).1.symm⟩
  · exact ⟨read, (matchWord_eq_some_iff.mp hread).1.symm⟩

/-! ## Texts without tags -/

/-- Without an opening tag there is no block. -/
theorem dropBlocks_of_not_hasOpen {text : Text} (h : ¬ HasOpen text) : dropBlocks text = text := by
  induction text with
  | nil => rw [dropBlocks]
  | cons c cs ih =>
      rw [HasOpen, occurs_cons_iff, not_or] at h
      have hnone : afterBlock (c :: cs) = none := by
        rw [afterBlock, Option.not_isSome_iff_eq_none.mp h.1]
        rfl
      rw [dropBlocks_of_no_block hnone, ih h.2]

/-- The rest of a text has no tag that the text does not have. -/
theorem Occurs.of_suffix {found : Text → Bool} {s t : Text} (hst : s <:+ t)
    (h : Occurs found s) : Occurs found t := by
  obtain ⟨u, hu, hfound⟩ := h
  exact ⟨u, (List.mem_tails _ _).mpr (((List.mem_tails _ _).mp hu).trans hst), hfound⟩

/-- A block is closed by a closing tag. -/
theorem hasClose_of_findClose {word name text rest : Text}
    (hword : word = "think".toList ∨ word = "thinking".toList)
    (hname : List.Forall₂ (fun p n => ignoreCase p n = true) word name)
    (h : findClose name text = some rest) : HasClose text := by
  induction text with
  | nil => cases h
  | cons c cs ih =>
      apply occurs_cons_iff.mpr
      rcases Option.or_eq_some_iff.mp h with hclose | ⟨-, hlater⟩
      · exact Or.inl (closeAt_of_closeOf hword hname (by rw [hclose]; rfl))
      · exact Or.inr (ih hlater)

/-- Without a closing tag there is no block. -/
theorem dropBlocks_of_not_hasClose {text : Text} (h : ¬ HasClose text) :
    dropBlocks text = text := by
  induction text with
  | nil => rw [dropBlocks]
  | cons c cs ih =>
      have hnone : afterBlock (c :: cs) = none := by
        rw [← Option.not_isSome_iff_eq_none]
        intro hblock
        obtain ⟨rest, hrest⟩ := Option.isSome_iff_exists.mp hblock
        obtain ⟨opened, hopen, hfind⟩ := Option.bind_eq_some_iff.mp hrest
        obtain ⟨word, hword, hname⟩ := name_of_openAt hopen
        exact h ((hasClose_of_findClose hword hname hfind).of_suffix (suffix_of_openAt hopen))
      rw [dropBlocks_of_no_block hnone, ih fun hcs => h (occurs_cons_iff.mpr (Or.inr hcs))]

theorem afterLastClose_of_not_hasClose {text : Text} (h : ¬ HasClose text) :
    afterLastClose text = none := by
  induction text with
  | nil => rfl
  | cons c cs ih =>
      rw [HasClose, occurs_cons_iff, not_or] at h
      rw [afterLastClose, ih h.2, Option.none_or]
      exact Option.not_isSome_iff_eq_none.mp h.1

theorem beforeOpen_of_not_hasOpen {text : Text} (h : ¬ HasOpen text) : beforeOpen text = text := by
  induction text with
  | nil => rfl
  | cons c cs ih =>
      rw [HasOpen, occurs_cons_iff, not_or] at h
      rw [beforeOpen, if_neg h.1, ih h.2]

/-- An answer without tags is read as it stands. -/
theorem stripReasoning_of_clean {text : Text} (hopen : ¬ HasOpen text) (hclose : ¬ HasClose text) :
    stripReasoning text = CharTable.trim isSpace text := by
  rw [stripReasoning, dropBlocks_of_not_hasOpen hopen, afterLastClose_of_not_hasClose hclose,
    Option.getD_none, beforeOpen_of_not_hasOpen hopen]

/-! ## Tags in front of a text -/

/-- Tags begin with `<`, so a word without it moves none. -/
theorem TagLike.occurs_append_of_not_mem {found : Text → Bool} (h : TagLike found)
    {word : Text} (a : Text) (hword : '<' ∉ word) :
    Occurs found (word ++ a) ↔ Occurs found a := by
  induction word with
  | nil => rfl
  | cons c word ih =>
      rw [List.mem_cons, not_or] at hword
      rw [List.cons_append, h.occurs_cons_of_ne (Ne.symm hword.1), ih hword.2]

theorem TagLike.not_occurs_of_not_mem {found : Text → Bool} (h : TagLike found) {text : Text}
    (htext : '<' ∉ text) : ¬ Occurs found text := by
  rw [← List.append_nil text, h.occurs_append_of_not_mem [] htext]
  exact h.not_occurs_nil

theorem openAt_close_append (a : Text) : openAt ("</think>".toList ++ a) = none := rfl

theorem closeAt_open_append (a : Text) : closeAt ("<think>".toList ++ a) = none := rfl

theorem openAt_open_append (a : Text) :
    openAt ("<think>".toList ++ a) = some ("think".toList, a) := rfl

theorem closeAt_close_append (a : Text) : closeAt ("</think>".toList ++ a) = some a := rfl

/-- The first `</think>` closes the block. -/
theorem findClose_close_append {r : Text} (a : Text) (h : ¬ HasThinkClose r) :
    findClose "think".toList (r ++ ("</think>".toList ++ a)) = some a := by
  induction r with
  | nil => rfl
  | cons c r ih =>
      rw [HasThinkClose, occurs_cons_iff, not_or] at h
      have hnone : closeOf "think".toList (c :: r ++ ("</think>".toList ++ a)) = none := by
        rw [← Option.not_isSome_iff_eq_none]
        intro hclose
        exact h.1 (tagLike_closeOf_think.apart (c :: r) _ (by simp) hclose)
      rw [List.cons_append] at hnone
      rw [List.cons_append, findClose, hnone, Option.none_or]
      exact ih h.2

/-- What is behind a closing tag with none behind it is what is behind the last one. -/
theorem afterLastClose_close_append (r : Text) {a : Text} (h : ¬ HasClose a) :
    afterLastClose (r ++ ("</think>".toList ++ a)) = some a := by
  induction r with
  | nil =>
      -- the tag's other letters begin no tag
      have hbehind : ¬ HasClose ("/think>".toList ++ a) :=
        mt (tagLike_closeAt.occurs_append_of_not_mem a (by decide)).mp h
      have hlater := afterLastClose_of_not_hasClose hbehind
      calc afterLastClose ("</think>".toList ++ a)
          = (afterLastClose ("/think>".toList ++ a)).or (closeAt ("</think>".toList ++ a)) := rfl
        _ = some a := by rw [hlater, closeAt_close_append, Option.none_or]
  | cons c r ih => rw [List.cons_append, afterLastClose, ih, Option.some_or]

/-- What stands before the first opening tag. -/
theorem beforeOpen_open_append {a : Text} (r : Text) (h : ¬ HasOpen a) :
    beforeOpen (a ++ ("<think>".toList ++ r)) = a := by
  induction a with
  | nil => rfl
  | cons c a ih =>
      rw [HasOpen, occurs_cons_iff, not_or] at h
      have hnone : ¬ (openAt (c :: a ++ ("<think>".toList ++ r))).isSome := fun hopen =>
        h.1 (tagLike_openAt.apart (c :: a) _ (by simp) hopen)
      rw [List.cons_append] at hnone
      rw [List.cons_append, beforeOpen, if_neg hnone, ih h.2]

/-! ## The three ways of leaving reasoning in an answer -/

theorem not_hasClose_open_append {r : Text} (h : ¬ HasClose r) :
    ¬ HasClose ("<think>".toList ++ r) := by
  intro hclose
  rcases occurs_cons_iff.mp hclose with hfound | hlater
  · have hnone := closeAt_open_append r
    rw [Option.isSome_iff_exists] at hfound
    obtain ⟨rest, hrest⟩ := hfound
    cases hnone.symm.trans hrest
  · exact h ((tagLike_closeAt.occurs_append_of_not_mem r (by decide)).mp hlater)

theorem not_hasOpen_close_append {a : Text} (h : ¬ HasOpen a) :
    ¬ HasOpen ("</think>".toList ++ a) := by
  intro hopen
  rcases occurs_cons_iff.mp hopen with hfound | hlater
  · have hnone := openAt_close_append a
    rw [Option.isSome_iff_exists] at hfound
    obtain ⟨rest, hrest⟩ := hfound
    cases hnone.symm.trans hrest
  · exact h ((tagLike_openAt.occurs_append_of_not_mem a (by decide)).mp hlater)

variable {a r : Text}

/-- A closed block in front. -/
theorem stripReasoning_block_append (hr : ¬ HasThinkClose r) :
    stripReasoning ("<think>".toList ++ r ++ "</think>".toList ++ a) = stripReasoning a := by
  have hblock : afterBlock ("<think>".toList ++ r ++ "</think>".toList ++ a) = some a := by
    rw [List.append_assoc, List.append_assoc, afterBlock, openAt_open_append]
    exact findClose_close_append a hr
  have hdrop : dropBlocks ("<think>".toList ++ r ++ "</think>".toList ++ a) = dropBlocks a :=
    dropBlocks_of_block hblock
  rw [stripReasoning, stripReasoning, hdrop]

/-- A preamble that was never opened. -/
theorem stripReasoning_preamble_append (hopen : ¬ HasOpen a) (hclose : ¬ HasClose a)
    (hr : ¬ HasOpen r) :
    stripReasoning (r ++ "</think>".toList ++ a) = stripReasoning a := by
  have htext : ¬ HasOpen (r ++ "</think>".toList ++ a) := by
    rw [List.append_assoc]
    intro h
    rcases tagLike_openAt.occurs_append h with h | h
    · exact hr h
    · exact not_hasOpen_close_append hopen h
  rw [stripReasoning_of_clean hopen hclose, stripReasoning, dropBlocks_of_not_hasOpen htext,
    List.append_assoc, afterLastClose_close_append r hclose, Option.getD_some,
    beforeOpen_of_not_hasOpen hopen]

/-- A block that was never closed. -/
theorem stripReasoning_append_tail (hopen : ¬ HasOpen a) (hclose : ¬ HasClose a)
    (hr : ¬ HasClose r) :
    stripReasoning (a ++ "<think>".toList ++ r) = stripReasoning a := by
  have htext : ¬ HasClose (a ++ "<think>".toList ++ r) := by
    rw [List.append_assoc]
    intro h
    rcases tagLike_closeAt.occurs_append h with h | h
    · exact hclose h
    · exact not_hasClose_open_append hr h
  rw [stripReasoning_of_clean hopen hclose, stripReasoning, dropBlocks_of_not_hasClose htext,
    afterLastClose_of_not_hasClose htext, Option.getD_none, List.append_assoc,
    beforeOpen_open_append r hopen]

namespace SignalReader

variable {V O S E : Type} (reader : SignalReader V O S E)

theorem parseSignal_congr {raw raw' : Text} (h : stripReasoning raw = stripReasoning raw') :
    reader.parseSignal raw = reader.parseSignal raw' := by
  unfold parseSignal
  rw [h]

/-- **Reasoning never influences the signal**: it is read as if it were not there, whether it stands
in a block, in front of a closing tag or behind an opening one. -/
theorem reasoning_never_read (a r : Text) (hopen : ¬ HasOpen a) (hclose : ¬ HasClose a) :
    (¬ HasThinkClose r →
        reader.parseSignal ("<think>".toList ++ r ++ "</think>".toList ++ a) =
          reader.parseSignal a) ∧
      (¬ HasOpen r →
        reader.parseSignal (r ++ "</think>".toList ++ a) = reader.parseSignal a) ∧
      (¬ HasClose r →
        reader.parseSignal (a ++ "<think>".toList ++ r) = reader.parseSignal a) := by
  refine ⟨fun hr => ?_, fun hr => ?_, fun hr => ?_⟩
  · exact reader.parseSignal_congr (stripReasoning_block_append hr)
  · exact reader.parseSignal_congr (stripReasoning_preamble_append hopen hclose hr)
  · exact reader.parseSignal_congr (stripReasoning_append_tail hopen hclose hr)

end SignalReader

/-! ## Plain signals -/

/-- `TradeSignal(**data)` for fields that need no conversion; the signal is its action. -/
def plainSignal (data : Members) : Except Unit (List ℕ) :=
  match field data "symbol", field data "action", field data "confidence",
    field data "reasoning" with
  | some (.str _), some (.str action), some (.num confidence), some (.str _) =>
      if action ∈ [codes "buy", codes "sell", codes "hold"] ∧
          (confidence ∈ ["0".toList, "1".toList] ∨
            ("0.".toList <+: confidence ∧ (confidence.drop 2).all Char.isDigit))
      then .ok action else .error ()
  | _, _, _, _ => .error ()

/-- The four fields of a signal. -/
def plainFields (action : Text) : Text :=
  "\"symbol\":\"BTC\",".toList ++ "\"action\":\"".toList ++ action ++ "\",".toList ++
    "\"confidence\":0.9,".toList ++ "\"reasoning\":\"r\"".toList

/-- A signal without anything nested. -/
def plainAnswer (action : Text) : Text := '{' :: plainFields action ++ ['}']

/-- A text from a brace to a brace is stripped already. -/
theorem trim_of_braces {text s : Text} (hbrace : text = '{' :: s)
    (hlast : text.getLast? = some '}') : CharTable.trim isSpace text = text := by
  have hfront : text.dropWhile isSpace = text := by
    rw [hbrace]
    rfl
  have hback : text.reverse.dropWhile isSpace = text.reverse := by
    rw [← List.head?_reverse] at hlast
    cases hrev : text.reverse with
    | nil => rfl
    | cons c t =>
        rw [hrev] at hlast
        cases hlast
        rfl
  rw [CharTable.trim, hfront, hback, List.reverse_reverse]

/-- An object without `<` is read as it stands. -/
theorem stripReasoning_of_braces {text : Text} (hbrace : text.head? = some '{')
    (hlast : text.getLast? = some '}') (htext : '<' ∉ text) : stripReasoning text = text := by
  obtain ⟨s, hs⟩ := List.head?_eq_some_iff.mp hbrace
  rw [stripReasoning_of_clean (tagLike_openAt.not_occurs_of_not_mem htext)
    (tagLike_closeAt.not_occurs_of_not_mem htext), trim_of_braces hs hlast]

/-- A draft to sell and an answer to buy. -/
theorem reasoning_never_read_draft :
    let read := (jsonReader plainSignal).parseSignal
    let draft := plainAnswer "sell".toList
    let answer := plainAnswer "buy".toList
    read ("<think>".toList ++ draft ++ "</think>".toList ++ answer) = .ok (codes "buy") ∧
      read (draft ++ "</think>".toList ++ answer) = .ok (codes "buy") ∧
      read (answer ++ "<think>".toList ++ draft) = .ok (codes "buy") := by
  intro read draft answer
  have hanswer : '<' ∉ answer := by decide +kernel
  have hdraft : '<' ∉ draft := by decide +kernel
  have hread : read answer = .ok (codes "buy") := by
    dsimp only [read]
    rw [SignalReader.parseSignal, stripReasoning_of_braces (by decide +kernel) (by decide +kernel)
      hanswer]
    decide +kernel
  obtain ⟨hblock, hpreamble, htail⟩ :=
    SignalReader.reasoning_never_read (jsonReader plainSignal) answer draft
      (tagLike_openAt.not_occurs_of_not_mem hanswer)
      (tagLike_closeAt.not_occurs_of_not_mem hanswer)
  refine ⟨?_, ?_, ?_⟩
  · exact (hblock (tagLike_closeOf_think.not_occurs_of_not_mem hdraft)).trans hread
  · exact (hpreamble (tagLike_openAt.not_occurs_of_not_mem hdraft)).trans hread
  · exact (htail (tagLike_closeAt.not_occurs_of_not_mem hdraft)).trans hread

end SmartyTrader
