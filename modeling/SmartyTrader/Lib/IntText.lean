import Mathlib.Tactic

set_option autoImplicit false

/-! # Integers written as text

Reading integers from text the way a scripting language does: white space on either side, a sign,
and digits with single underscores between them. Which characters are white space and which are
digits is a table, so that nothing depends on a version of it.
-/

namespace Lib

/-- The white space and the decimal digits of a character set. -/
structure CharTable where
  space : Char → Bool
  digit : Char → Option (Fin 10)

namespace CharTable

/-- The characters of seven bits. -/
def ascii : CharTable where
  space c := c = ' ' ∨ (0x09 ≤ c.toNat ∧ c.toNat ≤ 0x0D) ∨ (0x1C ≤ c.toNat ∧ c.toNat ≤ 0x1F)
  digit c := if c.isDigit then some (Fin.ofNat 10 (c.toNat - '0'.toNat)) else none

variable (u : CharTable)

/-- The text without its characters on either side that fit. -/
def trim (p : Char → Bool) (s : List Char) : List Char :=
  ((s.dropWhile p).reverse.dropWhile p).reverse

def strip (s : List Char) : List Char := trim u.space s

/-- The white space around a number: the four separators of files, groups, records and units are
none. -/
def numberSpace (c : Char) : Bool := u.space c ∧ ¬ (0x1C ≤ c.toNat ∧ c.toNat ≤ 0x1F)

/-- Digits, with single underscores between them. -/
def digits : List Char → Option (List (Fin 10))
  | [] => none
  | [c] => (u.digit c).map fun d => [d]
  | c :: '_' :: cs => (u.digit c).bind fun d => (digits cs).map fun ds => d :: ds
  | c :: cs => (u.digit c).bind fun d => (digits cs).map fun ds => d :: ds

/-- The number of some digits, of which there may be 4300. -/
def number (ds : List (Fin 10)) : Option ℤ :=
  if ds.length ≤ 4300 then some (ds.foldl (fun n d => 10 * n + d.val) 0) else none

/-- The integer that a text spells. -/
def readInt (s : List Char) : Option ℤ :=
  match trim u.numberSpace s with
  | '+' :: cs => (u.digits cs).bind number
  | '-' :: cs => ((u.digits cs).bind number).map fun n => -n
  | cs => (u.digits cs).bind number

end CharTable

/-! ## The first separator -/

section Split

variable {α : Type*} [DecidableEq α]

/-- What stands before and after the first separator, if there is one. -/
def splitFirst (sep : α) : List α → Option (List α × List α)
  | [] => none
  | c :: cs => if c = sep then some ([], cs) else (splitFirst sep cs).map fun p => (c :: p.1, p.2)

/-- A split is at a separator that none stands before. -/
theorem splitFirst_eq_some_iff (sep : α) (s before after : List α) :
    splitFirst sep s = some (before, after) ↔ s = before ++ sep :: after ∧ sep ∉ before := by
  induction s generalizing before with
  | nil => simp [splitFirst]
  | cons c cs ih =>
      unfold splitFirst
      split_ifs with h
      · subst h
        cases before with
        | nil => simp [eq_comm]
        | cons b bs =>
            simp only [Option.some.injEq, Prod.mk.injEq, List.cons_append, List.cons.injEq,
              List.mem_cons, not_or]
            constructor
            · rintro ⟨hnil, -⟩
              cases hnil
            · rintro ⟨⟨hb, -⟩, hne, -⟩
              exact absurd hb hne
      · cases before with
        | nil => simp [h]
        | cons b bs =>
            rw [Option.map_eq_some_iff]
            constructor
            · rintro ⟨⟨x, y⟩, hsplit, heq⟩
              obtain ⟨hcons, rfl⟩ := Prod.mk.inj heq
              obtain ⟨rfl, rfl⟩ := List.cons.inj hcons
              obtain ⟨rfl, hnot⟩ := (ih _).mp hsplit
              exact ⟨rfl, by simp [hnot, Ne.symm h]⟩
            · rintro ⟨heq, hnot⟩
              obtain ⟨rfl, rfl⟩ := List.cons.inj heq
              exact ⟨(bs, after), (ih bs).mpr ⟨rfl, fun hmem =>
                hnot (List.mem_cons_of_mem _ hmem)⟩, rfl⟩

theorem splitFirst_isSome_iff (sep : α) (s : List α) :
    (∃ p, splitFirst sep s = some p) ↔ sep ∈ s := by
  induction s with
  | nil => simp [splitFirst]
  | cons c cs ih =>
      unfold splitFirst
      split_ifs with h
      · simp [h]
      · simp only [Option.map_eq_some_iff, List.mem_cons, Ne.symm h, false_or, ← ih]
        constructor
        · rintro ⟨-, p, hp, -⟩
          exact ⟨p, hp⟩
        · rintro ⟨p, hp⟩
          exact ⟨_, p, hp, rfl⟩

end Split

end Lib
