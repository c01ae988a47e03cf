import Mathlib.Tactic

set_option autoImplicit false

/-! # Histories

A history is the list of the events so far, the newest first. `Justified` says that each event met
a guard over the events before it, `Latest` that the newest event that matters met one; both are
read off a split of the history into what came later, the event and what came before.
-/

namespace Lib

variable {ε : Type*}

/-- Each event meets a guard over the events before it. -/
def Justified (guard : ε → List ε → Prop) : List ε → Prop
  | [] => True
  | e :: older => guard e older ∧ Justified guard older

theorem Justified.split {guard : ε → List ε → Prop} {newer older : List ε} {e : ε}
    (h : Justified guard (newer ++ e :: older)) : guard e older := by
  induction newer with
  | nil => exact h.1
  | cons _ newer ih => exact ih h.2

theorem justified_iff {guard : ε → List ε → Prop} (history : List ε) :
    Justified guard history ↔
      ∀ newer e older, history = newer ++ e :: older → guard e older := by
  constructor
  · intro h newer e older hsplit
    rw [hsplit] at h
    exact h.split
  · intro h
    induction history with
    | nil => trivial
    | cons e older ih =>
        refine ⟨h [] e older rfl, ih ?_⟩
        intro newer e' older' hsplit
        exact h (e :: newer) e' older' (by rw [hsplit, List.cons_append])

/-- The newest event that matters meets `p`, which looks at the events before it. -/
def Latest (matters : ε → Bool) (p : ε → List ε → Prop) : List ε → Prop
  | [] => False
  | e :: older => if matters e then p e older else Latest matters p older

section Latest

variable {matters : ε → Bool} {p q : ε → List ε → Prop} {e : ε} {older : List ε}

@[simp] theorem latest_nil : ¬ Latest matters p [] := fun h => h

theorem latest_cons : Latest matters p (e :: older) ↔
    if matters e then p e older else Latest matters p older := Iff.rfl

theorem Latest.mono (hpq : ∀ e older, p e older → q e older) {history : List ε}
    (h : Latest matters p history) : Latest matters q history := by
  induction history with
  | nil => exact h
  | cons e older ih =>
      rw [latest_cons] at h ⊢
      by_cases he : matters e
      · rw [if_pos he] at h ⊢
        exact hpq e older h
      · rw [if_neg he] at h ⊢
        exact ih h

end Latest

end Lib
