import SmartyTrader.Core.Models

set_option autoImplicit false

/-! # Plain text of third parties

Titles that others publish are reduced to a conservative set of characters before anything stores
or shows them.
-/

namespace SmartyTrader

/-- The text with a blank for each `<[^>]*>`. A `<` opens a tag if a `>` follows anywhere; the
flag says that one is open. -/
def dropTags : Bool → List Char → List Char
  | _, [] => []
  | true, c :: cs => if c = '>' then ' ' :: dropTags false cs else dropTags true cs
  | false, c :: cs => if c = '<' ∧ '>' ∈ cs then dropTags true cs else c :: dropTags false cs

/-- `[A-Za-z0-9 /%.,()&+:'\-]` -/
def Safe (c : Char) : Prop := c.isAlphanum ∨ c ∈ " /%.,()&+:'-".toList

instance (c : Char) : Decidable (Safe c) := inferInstanceAs (Decidable (_ ∨ _))

/-- `" ".join(text.split())`, of a text whose only white space is the blank. -/
def collapse (cs : List Char) : List Char :=
  [' '].intercalate ((cs.splitOn ' ').filter (· ≠ []))

/-! ## Collapsing character by character -/

@[simp] theorem collapse_nil : collapse [] = [] := rfl

@[simp] theorem collapse_blank (cs : List Char) : collapse (' ' :: cs) = collapse cs := by
  simp [collapse, List.splitOn_cons_eq_if_modifyHead]

/-- What a text goes on with behind one of its words: a blank only if another word follows. -/
def afterWord : List Char → List Char
  | [] => []
  | c :: cs =>
      if c = ' ' then (if collapse cs = [] then [] else ' ' :: collapse cs) else collapse (c :: cs)

theorem intercalate_eq_nil_iff {ws : List (List Char)} (h : ∀ w ∈ ws, w ≠ []) :
    [' '].intercalate ws = [] ↔ ws = [] := by
  cases ws with
  | nil => simp
  | cons w ws =>
      have hw := h w List.mem_cons_self
      cases ws with
      | nil => simpa using hw
      | cons w' ws => simp

/-- A character that is not a blank stands where it stood. -/
theorem collapse_cons {c : Char} (cs : List Char) (hc : c ≠ ' ') :
    collapse (c :: cs) = c :: afterWord cs := by
  have hsplit : (c :: cs).splitOn ' ' = (cs.splitOn ' ').modifyHead (c :: ·) := by
    simp [List.splitOn_cons_eq_if_modifyHead, hc]
  cases cs with
  | nil => simp [collapse, hsplit, List.splitOn_nil, afterWord]
  | cons d cs =>
      by_cases hd : d = ' '
      · -- the word ends here
        subst hd
        have hwords : ∀ w ∈ (cs.splitOn ' ').filter (· ≠ []), w ≠ [] := fun w hw =>
          of_decide_eq_true (List.mem_filter.mp hw).2
        have hnil : collapse cs = [] ↔ (cs.splitOn ' ').filter (· ≠ []) = [] :=
          intercalate_eq_nil_iff hwords
        have htext : collapse (c :: ' ' :: cs) =
            [' '].intercalate ([c] :: (cs.splitOn ' ').filter (· ≠ [])) := by
          rw [collapse, hsplit]
          simp [List.splitOn_cons_eq_if_modifyHead]
        rw [htext, afterWord, if_pos rfl]
        by_cases hrest : (cs.splitOn ' ').filter (· ≠ []) = []
        · rw [hrest, if_pos (hnil.mpr hrest)]
          rfl
        · rw [List.intercalate_cons_of_ne_nil hrest, if_neg (mt hnil.mp hrest)]
          rfl
      · rw [afterWord, if_neg hd]
        obtain ⟨w, ws, hws⟩ := List.exists_cons_of_ne_nil (List.splitOn_ne_nil ' ' cs)
        have hsplit' : (d :: cs).splitOn ' ' = (d :: w) :: ws := by
          simp [List.splitOn_cons_eq_if_modifyHead, hd, hws]
        rw [collapse, collapse, hsplit, hsplit']
        simp [List.intercalate_cons_cons_left]

/-- `safe_label`. -/
def safeLabel (text : String) (limit : ℕ) : String :=
  let cleaned := (dropTags false text.toList).map (fun c => if Safe c then c else ' ')
  String.ofList ((((collapse cleaned).take limit).reverse.dropWhile (· = ' ')).reverse)

theorem length_safeLabel (text : String) (limit : ℕ) : (safeLabel text limit).length ≤ limit := by
  unfold safeLabel
  rw [String.length_ofList, List.length_reverse]
  refine (List.dropWhile_sublist _).length_le.trans ?_
  rw [List.length_reverse]
  exact List.length_take_le _ _

example : safeLabel "<b>CPI</b>  m/m {x}" 8 = "CPI m/m" := by decide

/-! ## Labels of short texts -/

theorem length_afterWord_le {cs : List Char} (h : ∀ ds, ds.length ≤ cs.length →
    (collapse ds).length ≤ ds.length) : (afterWord cs).length ≤ cs.length := by
  cases cs with
  | nil => exact le_rfl
  | cons c cs =>
      rw [afterWord]
      split_ifs
      · exact Nat.zero_le _
      · exact Nat.succ_le_succ (h cs (Nat.le_succ _))
      · exact h _ le_rfl

theorem length_collapse_le (cs : List Char) : (collapse cs).length ≤ cs.length := by
  induction hn : cs.length using Nat.strong_induction_on generalizing cs with
  | _ n ih =>
      cases cs with
      | nil => exact Nat.zero_le _
      | cons c cs =>
          subst hn
          have hrest : ∀ ds : List Char, ds.length ≤ cs.length → (collapse ds).length ≤ ds.length :=
            fun ds hds => ih ds.length (Nat.lt_succ_of_le hds) ds rfl
          by_cases hc : c = ' '
          · rw [hc, collapse_blank]
            exact (hrest cs le_rfl).trans (Nat.le_succ _)
          · rw [collapse_cons cs hc]
            exact Nat.succ_le_succ (length_afterWord_le hrest)

/-- A collapsed text ends with a word. -/
theorem getLast?_collapse (cs : List Char) : (collapse cs).getLast? ≠ some ' ' := by
  induction cs with
  | nil => simp
  | cons c cs ih =>
      by_cases hc : c = ' '
      · rwa [hc, collapse_blank]
      · rw [collapse_cons cs hc]
        cases cs with
        | nil => simpa [afterWord] using hc
        | cons d cs =>
            rw [afterWord]
            split_ifs with hd hnil
            · simpa using hc
            · rw [hd, collapse_blank] at ih
              rw [List.getLast?_cons_cons, List.getLast?_cons]
              rw [List.getLast?_eq_some_getLast hnil] at ih ⊢
              exact ih
            · rw [List.getLast?_cons]
              cases hlast : (collapse (d :: cs)).getLast? with
              | none => simpa using hc
              | some e =>
                  rw [hlast] at ih
                  exact ih

theorem length_dropTags_le (inTag : Bool) (cs : List Char) :
    (dropTags inTag cs).length ≤ cs.length := by
  induction cs generalizing inTag with
  | nil => simp [dropTags]
  | cons c cs ih =>
      have htrue := ih true
      have hfalse := ih false
      cases inTag <;> simp only [dropTags] <;> split_ifs <;> simp only [List.length_cons] <;> omega

/-- A text without its tags, with a blank for each unusual character. -/
def blanked (cs : List Char) : List Char :=
  (dropTags false cs).map fun c => if Safe c then c else ' '

/-- A label is no longer than its text, so a short text is not cut. -/
theorem toList_safeLabel {text : List Char} {limit : ℕ} (h : text.length ≤ limit) :
    (safeLabel (String.ofList text) limit).toList = collapse (blanked text) := by
  have hlength : (collapse (blanked text)).length ≤ limit := by
    calc (collapse (blanked text)).length ≤ (blanked text).length := length_collapse_le _
      _ = (dropTags false text).length := List.length_map _
      _ ≤ text.length := length_dropTags_le _ _
      _ ≤ limit := h
  have hback : (collapse (blanked text)).reverse.dropWhile (· = ' ') =
      (collapse (blanked text)).reverse := by
    have hlast := getLast?_collapse (blanked text)
    rw [← List.head?_reverse] at hlast
    cases hrev : (collapse (blanked text)).reverse with
    | nil => rfl
    | cons c cs =>
        have hc : c ≠ ' ' := by
          rintro rfl
          rw [hrev] at hlast
          exact hlast rfl
        simp [hc]
  unfold safeLabel
  rw [String.toList_ofList, String.toList_ofList, ← blanked, List.take_of_length_le hlength, hback, List.reverse_reverse]

end SmartyTrader
