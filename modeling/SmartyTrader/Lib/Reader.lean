import Mathlib.Data.List.TakeWhile
import Mathlib.Tactic

set_option autoImplicit false

/-! # Readers that look no further than they read

A reader takes a value off the front of a text. It is *local* when what it has read it reads again
in front of every other rest: from a text that was cut behind the value, and from one that goes on
differently. Some readers take as much as they can, a number for one; they are local for the rests
that offer them no more (`ok`).

A recursive reader gets fuel. `LocalAt` says in addition how much of it a value needs, so that the
readers of nested values compose as the others do.
-/

namespace Lib

/-- A value off the front of a text, and what is left. -/
abbrev Reader (α β : Type) := List α → Option (β × List α)

namespace Reader

variable {α β γ : Type}

/-- Reads nothing. -/
def pure (v : β) : Reader α β := fun text => some (v, text)

def fail : Reader α β := fun _ => none

def next : Reader α α
  | [] => none
  | c :: text => some (c, text)

def bind (f : Reader α β) (g : β → Reader α γ) : Reader α γ :=
  fun text => (f text).bind fun read => g read.1 read.2

def map (k : β → γ) (f : Reader α β) : Reader α γ :=
  fun text => (f text).map fun read => (k read.1, read.2)

/-- Skips what `p` holds of. -/
def spaced (p : α → Bool) (f : Reader α β) : Reader α β := fun text => f (text.dropWhile p)

/-- A certain word. -/
def word [DecidableEq α] (w : List α) (v : β) : Reader α β :=
  fun text => if w <+: text then some (v, text.drop w.length) else none

/-- As many as `p` holds of. -/
def many (p : α → Bool) : Reader α (List α) :=
  fun text => some (text.takeWhile p, text.dropWhile p)

/-- The empty list where there is nothing to read. -/
def opt (f : Reader α (List β)) : Reader α (List β) :=
  fun text => (f text).or (some ([], text))

/-- The second reader where the first one fails. -/
def or (f g : Reader α β) : Reader α β := fun text => (f text).or (g text)

theorem bind_eq_some_iff {f : Reader α β} {g : β → Reader α γ} {text rest : List α} {v : γ} :
    f.bind g text = some (v, rest) ↔
      ∃ u mid, f text = some (u, mid) ∧ g u mid = some (v, rest) := by
  simp [bind, Option.bind_eq_some_iff]

theorem map_eq_some_iff {k : β → γ} {f : Reader α β} {text rest : List α} {v : γ} :
    f.map k text = some (v, rest) ↔ ∃ u, f text = some (u, rest) ∧ k u = v := by
  simp [map]

/-! ## Locality -/

/-- Any rest will do. -/
def Anything (_ : List α) : Prop := True

/-- A rest that does not begin with what `p` holds of. -/
def Stops (p : α → Bool) (rest : List α) : Prop := ∀ c ∈ rest.head?, p c = false

/-- A value that was read with fuel `n` is read in front of every rest that `ok` allows, with any
fuel that is at most `k` short of the length of what was read. -/
def LocalAt (k : ℕ) (ok : List α → Prop) (f : ℕ → Reader α β) (n : ℕ) : Prop :=
  ∀ text v rest, f n text = some (v, rest) → ∃ lex, text = lex ++ rest ∧
    ∀ m rest', lex.length ≤ m + k → ok rest' → f m (lex ++ rest') = some (v, rest')

/-- Reads something. -/
def Takes (f : Reader α β) : Prop :=
  ∀ text v rest, f text = some (v, rest) → rest.length < text.length

/-- A reader without fuel. -/
def Local (ok : List α → Prop) (f : Reader α β) : Prop :=
  ∀ text v rest, f text = some (v, rest) → ∃ lex, text = lex ++ rest ∧
    ∀ rest', ok rest' → f (lex ++ rest') = some (v, rest')

theorem Stops.mono {p q : α → Bool} {rest : List α} (h : Stops p rest)
    (himp : ∀ c, q c = true → p c = true) : Stops q rest := by
  intro c hc
  by_contra hq
  rw [Bool.not_eq_false] at hq
  have hp := h c hc
  rw [himp c hq] at hp
  cases hp

theorem stops_of_cons {p : α → Bool} {rest : List α} (h : ∀ c s, rest = c :: s → p c = false) :
    Stops p rest := by
  intro c hc
  cases rest with
  | nil => cases hc
  | cons d s =>
      cases hc
      exact h _ s rfl

variable {k n : ℕ} {ok ok' : List α → Prop}

theorem Local.at {f : Reader α β} (h : Local ok f) (k n : ℕ) : LocalAt k ok (fun _ => f) n := by
  intro text v rest hread
  obtain ⟨lex, htext, hlex⟩ := h text v rest hread
  exact ⟨lex, htext, fun _ rest' _ hok => hlex rest' hok⟩

theorem LocalAt.weaken {f : ℕ → Reader α β} (h : LocalAt k ok f n) : LocalAt 0 ok f n := by
  intro text v rest hread
  obtain ⟨lex, htext, hlex⟩ := h text v rest hread
  exact ⟨lex, htext, fun m rest' hm hok => hlex m rest' (by omega) hok⟩

theorem LocalAt.mono {f : ℕ → Reader α β} (h : LocalAt k ok f n) (himp : ∀ rest, ok' rest → ok rest) :
    LocalAt k ok' f n := by
  intro text v rest hread
  obtain ⟨lex, htext, hlex⟩ := h text v rest hread
  exact ⟨lex, htext, fun m rest' hm hok => hlex m rest' hm (himp rest' hok)⟩

theorem Local.mono {f : Reader α β} (h : Local ok f) (himp : ∀ rest, ok' rest → ok rest) :
    Local ok' f := by
  intro text v rest hread
  obtain ⟨lex, htext, hlex⟩ := h text v rest hread
  exact ⟨lex, htext, fun rest' hok => hlex rest' (himp rest' hok)⟩

theorem local_pure (v : β) : Local ok (pure v : Reader α β) := by
  intro text u rest hread
  cases hread
  exact ⟨[], rfl, fun _ _ => rfl⟩

theorem local_fail : Local ok (fail : Reader α β) := by
  intro text v rest hread
  cases hread

theorem local_next : Local ok (next : Reader α α) := by
  intro text v rest hread
  cases text with
  | nil => cases hread
  | cons c text =>
      obtain ⟨rfl, rfl⟩ : c = v ∧ text = rest := by simpa [next] using hread
      exact ⟨[c], rfl, fun _ _ => rfl⟩

theorem takes_next : Takes (next : Reader α α) := by
  intro text v rest hread
  cases text with
  | nil => cases hread
  | cons c text =>
      cases hread
      exact Nat.lt_succ_self _

theorem local_word [DecidableEq α] (w : List α) (v : β) : Local ok (word w v) := by
  intro text u rest hread
  by_cases hw : w <+: text
  · obtain ⟨tail, rfl⟩ := hw
    simp only [word, List.prefix_append, if_true, List.drop_left, Option.some.injEq,
      Prod.mk.injEq] at hread
    obtain ⟨rfl, rfl⟩ := hread
    refine ⟨w, rfl, fun rest' _ => ?_⟩
    simp [word]
  · rw [word, if_neg hw] at hread
    cases hread

theorem local_many (p : α → Bool) : Local (Stops p) (many p) := by
  intro text v rest hread
  obtain ⟨rfl, rfl⟩ : text.takeWhile p = v ∧ text.dropWhile p = rest := by simpa [many] using hread
  refine ⟨text.takeWhile p, (List.takeWhile_append_dropWhile).symm, fun rest' hrest => ?_⟩
  have hall : ∀ c ∈ text.takeWhile p, p c = true := fun c hc => List.mem_takeWhile_imp hc
  have hstop : rest'.takeWhile p = [] ∧ rest'.dropWhile p = rest' := by
    cases rest' with
    | nil => exact ⟨rfl, rfl⟩
    | cons c rest' =>
        have hc : p c = false := hrest c rfl
        simp [hc]
  simp only [many, List.takeWhile_append_of_pos hall, List.dropWhile_append_of_pos hall, hstop.1,
    hstop.2, List.append_nil]

theorem Local.opt {f : Reader α (List β)} (h : Local ok f)
    (hnone : ∀ rest, ok rest → f rest = none) : Local ok (opt f) := by
  intro text v rest hread
  rcases Option.or_eq_some_iff.mp hread with hread | ⟨-, hread⟩
  · obtain ⟨lex, htext, hlex⟩ := h text v rest hread
    refine ⟨lex, htext, fun rest' hok => ?_⟩
    rw [Reader.opt, hlex rest' hok, Option.some_or]
  · cases hread
    refine ⟨[], rfl, fun rest' hok => ?_⟩
    rw [Reader.opt, List.nil_append, hnone rest' hok, Option.none_or]

/-! ## One reader behind another -/

/-- The second reader starts only where the first one has ended, and both need their share of the
fuel. -/
theorem LocalAt.bind {f : ℕ → Reader α β} {g : ℕ → β → Reader α γ} (hf : LocalAt 0 ok' f n)
    (hftakes : Takes (f n)) (hg : ∀ u, LocalAt 0 ok (fun m => g m u) n)
    (hgtakes : ∀ u, Takes (g n u))
    (hok : ∀ m u text v rest, g m u text = some (v, rest) → ok rest → ok' text) :
    LocalAt 1 ok (fun m => (f m).bind (g m)) n := by
  intro text v rest hread
  obtain ⟨u, mid, hfirst, hsecond⟩ := bind_eq_some_iff.mp hread
  have hlf := hftakes _ _ _ hfirst
  have hlg := hgtakes _ _ _ _ hsecond
  obtain ⟨lexf, rfl, hlexf⟩ := hf _ _ _ hfirst
  obtain ⟨lexg, rfl, hlexg⟩ := hg u _ _ _ hsecond
  simp only [List.length_append] at hlf hlg
  refine ⟨lexf ++ lexg, (List.append_assoc _ _ _).symm, fun m rest' hm hrest => ?_⟩
  rw [List.length_append] at hm
  have hagain := hlexg m rest' (by omega) hrest
  rw [List.append_assoc]
  exact bind_eq_some_iff.mpr
    ⟨u, _, hlexf m _ (by omega) (hok m u _ _ _ hagain hrest), hagain⟩

/-- A first reader without fuel. -/
theorem LocalAt.bind_local {f : Reader α β} {g : ℕ → β → Reader α γ} (hf : Local Anything f)
    (hftakes : Takes f) (hg : ∀ u, LocalAt 0 ok (fun m => g m u) n) :
    LocalAt 1 ok (fun m => f.bind (g m)) n := by
  intro text v rest hread
  obtain ⟨u, mid, hfirst, hsecond⟩ := bind_eq_some_iff.mp hread
  have hlf := hftakes _ _ _ hfirst
  obtain ⟨lexf, rfl, hlexf⟩ := hf _ _ _ hfirst
  obtain ⟨lexg, rfl, hlexg⟩ := hg u _ _ _ hsecond
  simp only [List.length_append] at hlf
  refine ⟨lexf ++ lexg, (List.append_assoc _ _ _).symm, fun m rest' hm hrest => ?_⟩
  rw [List.length_append] at hm
  have hagain := hlexg m rest' (by omega) hrest
  rw [List.append_assoc]
  exact bind_eq_some_iff.mpr ⟨u, _, hlexf _ trivial, hagain⟩

/-- A first reader that may read nothing. -/
theorem LocalAt.after {f : Reader α β} {g : ℕ → β → Reader α γ} (hf : Local Anything f)
    (hg : ∀ u, LocalAt k ok (fun m => g m u) n) :
    LocalAt k ok (fun m => f.bind (g m)) n := by
  intro text v rest hread
  obtain ⟨u, mid, hfirst, hsecond⟩ := bind_eq_some_iff.mp hread
  obtain ⟨lexf, rfl, hlexf⟩ := hf _ _ _ hfirst
  obtain ⟨lexg, rfl, hlexg⟩ := hg u _ _ _ hsecond
  refine ⟨lexf ++ lexg, (List.append_assoc _ _ _).symm, fun m rest' hm hrest => ?_⟩
  rw [List.length_append] at hm
  have hagain := hlexg m rest' (by omega) hrest
  rw [List.append_assoc]
  exact bind_eq_some_iff.mpr ⟨u, _, hlexf _ trivial, hagain⟩

theorem Local.bind {f : Reader α β} {g : β → Reader α γ} (hf : Local ok' f)
    (hg : ∀ u, Local ok (g u))
    (hok : ∀ u text v rest, g u text = some (v, rest) → ok rest → ok' text) :
    Local ok (f.bind g) := by
  intro text v rest hread
  obtain ⟨u, mid, hfirst, hsecond⟩ := bind_eq_some_iff.mp hread
  obtain ⟨lexf, rfl, hlexf⟩ := hf _ _ _ hfirst
  obtain ⟨lexg, rfl, hlexg⟩ := hg u _ _ _ hsecond
  refine ⟨lexf ++ lexg, (List.append_assoc _ _ _).symm, fun rest' hrest => ?_⟩
  have hagain := hlexg rest' hrest
  rw [List.append_assoc]
  exact bind_eq_some_iff.mpr ⟨u, _, hlexf _ (hok u _ _ _ hagain hrest), hagain⟩

/-- A first reader that any rest will do for. -/
theorem Local.andThen {f : Reader α β} {g : β → Reader α γ} (hf : Local Anything f)
    (hg : ∀ u, Local ok (g u)) : Local ok (f.bind g) :=
  hf.bind hg fun _ _ _ _ _ _ => trivial

theorem LocalAt.map {f : ℕ → Reader α β} (h : LocalAt k ok f n) (j : β → γ) :
    LocalAt k ok (fun m => (f m).map j) n := by
  intro text v rest hread
  obtain ⟨u, hinner, rfl⟩ := map_eq_some_iff.mp hread
  obtain ⟨lex, htext, hlex⟩ := h _ _ _ hinner
  exact ⟨lex, htext, fun m rest' hm hok => map_eq_some_iff.mpr ⟨u, hlex m rest' hm hok, rfl⟩⟩

theorem Local.map {f : Reader α β} (h : Local ok f) (j : β → γ) : Local ok (f.map j) := by
  intro text v rest hread
  obtain ⟨u, hinner, rfl⟩ := map_eq_some_iff.mp hread
  obtain ⟨lex, htext, hlex⟩ := h _ _ _ hinner
  exact ⟨lex, htext, fun rest' hok => map_eq_some_iff.mpr ⟨u, hlex rest' hok, rfl⟩⟩

theorem Takes.map {f : Reader α β} (h : Takes f) (j : β → γ) : Takes (f.map j) := by
  intro text v rest hread
  obtain ⟨u, hread, -⟩ := map_eq_some_iff.mp hread
  exact h _ _ _ hread

/-- A reader that goes on from what another has left. -/
theorem Takes.bind {f : Reader α β} {g : β → Reader α γ} (hf : Takes f)
    (hg : ∀ u text v rest, g u text = some (v, rest) → rest.length ≤ text.length) :
    Takes (f.bind g) := by
  intro text v rest hread
  obtain ⟨u, mid, hfirst, hsecond⟩ := bind_eq_some_iff.mp hread
  exact (hg u _ _ _ hsecond).trans_lt (hf _ _ _ hfirst)

theorem LocalAt.suffix {f : ℕ → Reader α β} (h : LocalAt k ok f n) {text rest : List α} {v : β}
    (hread : f n text = some (v, rest)) : rest <:+ text := by
  obtain ⟨lex, rfl, -⟩ := h _ _ _ hread
  exact List.suffix_append _ _

theorem Local.ite {p : Prop} [Decidable p] {f g : Reader α β} (hf : p → Local ok f)
    (hg : ¬ p → Local ok g) : Local ok (if p then f else g) := by
  by_cases hp : p
  · rw [if_pos hp]
    exact hf hp
  · rw [if_neg hp]
    exact hg hp

theorem LocalAt.ite {p : Prop} [Decidable p] {f g : ℕ → Reader α β}
    (hf : p → LocalAt k ok f n) (hg : ¬ p → LocalAt k ok g n) :
    LocalAt k ok (fun m => if p then f m else g m) n := by
  by_cases hp : p
  · simp only [if_pos hp]
    exact hf hp
  · simp only [if_neg hp]
    exact hg hp

theorem LocalAt.fail : LocalAt k ok (fun _ => (Reader.fail : Reader α β)) n :=
  local_fail.at k n

theorem LocalAt.pure (v : β) : LocalAt k ok (fun _ => (Reader.pure v : Reader α β)) n :=
  (local_pure v).at k n

/-- Two readers of which one always fails. -/
theorem LocalAt.or {f g : ℕ → Reader α β} (hf : LocalAt k ok f n) (hg : LocalAt k ok g n)
    (hapart : ∀ m text read, g m text = some read → f m text = none) :
    LocalAt k ok (fun m => (f m).or (g m)) n := by
  intro text v rest hread
  rcases Option.or_eq_some_iff.mp hread with hread | ⟨-, hread⟩
  · obtain ⟨lex, htext, hlex⟩ := hf _ _ _ hread
    refine ⟨lex, htext, fun m rest' hm hok => ?_⟩
    dsimp only [Reader.or]
    rw [hlex m rest' hm hok, Option.some_or]
  · obtain ⟨lex, htext, hlex⟩ := hg _ _ _ hread
    refine ⟨lex, htext, fun m rest' hm hok => ?_⟩
    have hagain := hlex m rest' hm hok
    dsimp only [Reader.or]
    rw [hapart m _ _ hagain, Option.none_or, hagain]

theorem LocalAt.length_le {f : ℕ → Reader α β} (h : LocalAt k ok f n) {text rest : List α} {v : β}
    (hread : f n text = some (v, rest)) : rest.length ≤ text.length := by
  exact (h.suffix hread).length_le

/-- Skipping what a value does not begin with. -/
theorem LocalAt.spaced {f : ℕ → Reader α β} (h : LocalAt k ok f n) (htakes : Takes (f n))
    (p : α → Bool) : LocalAt k ok (fun m => (f m).spaced p) n := by
  intro text v rest hread
  have hread : f n (text.dropWhile p) = some (v, rest) := hread
  have hlength := htakes _ _ _ hread
  obtain ⟨lex, htext, hlex⟩ := h _ _ _ hread
  refine ⟨text.takeWhile p ++ lex, ?_, fun m rest' hm hok => ?_⟩
  · rw [List.append_assoc, ← htext, List.takeWhile_append_dropWhile]
  · have hall : ∀ c ∈ text.takeWhile p, p c = true := fun c hc => List.mem_takeWhile_imp hc
    have hstop : (lex ++ rest').dropWhile p = lex ++ rest' := by
      cases lex with
      | nil =>
          rw [htext, List.nil_append] at hlength
          omega
      | cons c lex =>
          have hc : p c = false := by
            have hhead := List.head?_dropWhile_not p text
            rw [htext] at hhead
            simpa using hhead
          simp [hc]
    rw [List.length_append] at hm
    calc f m ((text.takeWhile p ++ lex ++ rest').dropWhile p)
        = f m (lex ++ rest') := by
          rw [List.append_assoc, List.dropWhile_append_of_pos hall, hstop]
      _ = some (v, rest') := hlex m rest' (by omega) hok

theorem Takes.spaced {f : Reader α β} (h : Takes f) (p : α → Bool) : Takes (f.spaced p) := by
  intro text v rest hread
  exact (h _ _ _ hread).trans_le (List.dropWhile_sublist _).length_le

theorem Local.spaced {f : Reader α β} (h : Local ok f) (htakes : Takes f) (p : α → Bool) :
    Local ok (f.spaced p) := by
  intro text v rest hread
  obtain ⟨lex, htext, hlex⟩ := (h.at 0 0).spaced htakes p text v rest hread
  exact ⟨lex, htext, fun rest' hok => hlex lex.length rest' (by omega) hok⟩

/-- One round of a reader that spends fuel. -/
theorem LocalAt.step {f : ℕ → Reader α β} {g : ℕ → Reader α β} (hsucc : ∀ m, f (m + 1) = g m)
    (h : LocalAt 1 ok g n) (htakes : Takes (g n)) : LocalAt 0 ok f (n + 1) := by
  intro text v rest hread
  rw [hsucc] at hread
  have hlength := htakes _ _ _ hread
  obtain ⟨lex, rfl, hlex⟩ := h _ _ _ hread
  rw [List.length_append] at hlength
  refine ⟨lex, rfl, fun m rest' hm hok => ?_⟩
  obtain ⟨m, rfl⟩ := Nat.exists_eq_succ_of_ne_zero (show m ≠ 0 by omega)
  rw [Nat.succ_eq_add_one, hsucc]
  exact hlex m rest' (by omega) hok

/-- One round that begins with a reader without fuel. -/
theorem LocalAt.round {f : ℕ → Reader α γ} {first : Reader α β} {g : ℕ → β → Reader α γ}
    (hsucc : ∀ m, f (m + 1) = first.bind (g m)) (hfirst : Local Anything first)
    (htakes : Takes first) (hg : ∀ u, LocalAt 0 ok (fun m => g m u) n) :
    LocalAt 0 ok f (n + 1) ∧ Takes (f (n + 1)) := by
  have htakes' : Takes (first.bind (g n)) :=
    htakes.bind fun u text v rest hread => (hg u).length_le hread
  refine ⟨LocalAt.step hsucc (LocalAt.bind_local hfirst htakes hg) htakes', ?_⟩
  rw [hsucc]
  exact htakes'

/-- One round that begins with a nested value. -/
theorem LocalAt.round_nested {f : ℕ → Reader α γ} {first : ℕ → Reader α β}
    {g : ℕ → β → Reader α γ} (hsucc : ∀ m, f (m + 1) = (first m).bind (g m))
    (hfirst : LocalAt 0 ok' first n) (htakes : Takes (first n))
    (hg : ∀ u, LocalAt 0 ok (fun m => g m u) n) (hgtakes : ∀ u, Takes (g n u))
    (hok : ∀ m u text v rest, g m u text = some (v, rest) → ok rest → ok' text) :
    LocalAt 0 ok f (n + 1) ∧ Takes (f (n + 1)) := by
  have htakes' : Takes ((first n).bind (g n)) :=
    htakes.bind fun u text v rest hread => (hg u).length_le hread
  refine ⟨LocalAt.step hsucc (LocalAt.bind hfirst htakes hg hgtakes hok) htakes', ?_⟩
  rw [hsucc]
  exact htakes'

/-- Enough fuel for a text is enough for what is read off it. -/
theorem Local.of_fuel {f : ℕ → Reader α β} (h : ∀ n, LocalAt 0 ok f n) :
    Local ok fun text => f (text.length + 1) text := by
  intro text v rest hread
  obtain ⟨lex, htext, hlex⟩ := h _ _ _ _ hread
  refine ⟨lex, htext, fun rest' hok => hlex _ _ ?_ hok⟩
  rw [List.length_append]
  omega

end Reader

end Lib
