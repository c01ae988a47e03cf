import Mathlib.Tactic

set_option autoImplicit false

/-! # Runs of a deterministic step

A step takes an input and a state to a state. `run` is the state after a list of inputs,
`EachStep` a condition on every step of a run, and `run_preserves` the induction over a run.
-/

namespace Lib

variable {σ ι : Type*}

/-- The state after a list of inputs. -/
def run (step : ι → σ → σ) (inputs : List ι) (s : σ) : σ := inputs.foldl (fun s i => step i s) s

@[simp] theorem run_nil (step : ι → σ → σ) (s : σ) : run step [] s = s := rfl

@[simp] theorem run_cons (step : ι → σ → σ) (i : ι) (inputs : List ι) (s : σ) :
    run step (i :: inputs) s = run step inputs (step i s) := rfl

theorem run_append (step : ι → σ → σ) (xs ys : List ι) (s : σ) :
    run step (xs ++ ys) s = run step ys (run step xs s) :=
  List.foldl_append

/-- What every step preserves, a run preserves. -/
theorem run_invariant {step : ι → σ → σ} {I : σ → Prop} (hstep : ∀ i s, I s → I (step i s))
    (inputs : List ι) {s : σ} (hs : I s) : I (run step inputs s) := by
  induction inputs generalizing s with
  | nil => exact hs
  | cons i rest ih => exact ih (hstep i s hs)

/-- Two runs over the same inputs stay related when each pair of steps keeps the relation. -/
theorem run_related {τ : Type*} {step : ι → σ → σ} {step' : ι → τ → τ} {R : σ → τ → Prop}
    (hstep : ∀ i s t, R s t → R (step i s) (step' i t)) (inputs : List ι) {s : σ} {t : τ}
    (h : R s t) : R (run step inputs s) (run step' inputs t) := by
  induction inputs generalizing s t with
  | nil => exact h
  | cons i rest ih => exact ih (hstep i s t h)

/-- Two runs over the same inputs as one run of pairs. -/
theorem run_pair {τ : Type*} (step : ι → σ → σ) (step' : ι → τ → τ) (inputs : List ι) (s : σ)
    (t : τ) : run (fun i (p : σ × τ) => (step i p.1, step' i p.2)) inputs (s, t)
      = (run step inputs s, run step' inputs t) := by
  induction inputs generalizing s t with
  | nil => rfl
  | cons i rest ih => exact ih (step i s) (step' i t)

/-- Every step of a run meets `P`, which may look at the input and the state before it. -/
def EachStep (step : ι → σ → σ) (P : ι → σ → Prop) : List ι → σ → Prop
  | [], _ => True
  | i :: rest, s => P i s ∧ EachStep step P rest (step i s)

section EachStep

variable {step : ι → σ → σ} {P Q : ι → σ → Prop} {s : σ}

theorem EachStep.left {xs ys : List ι} (h : EachStep step P (xs ++ ys) s) :
    EachStep step P xs s := by
  induction xs generalizing s with
  | nil => trivial
  | cons i rest ih => exact ⟨h.1, ih h.2⟩

theorem EachStep.right {xs ys : List ι} (h : EachStep step P (xs ++ ys) s) :
    EachStep step P ys (run step xs s) := by
  induction xs generalizing s with
  | nil => exact h
  | cons i rest ih => exact ih h.2

theorem EachStep.append {xs ys : List ι} (hx : EachStep step P xs s)
    (hy : EachStep step P ys (run step xs s)) : EachStep step P (xs ++ ys) s := by
  induction xs generalizing s with
  | nil => exact hy
  | cons i rest ih => exact ⟨hx.1, ih hx.2 hy⟩

theorem EachStep.and {inputs : List ι} (hp : EachStep step P inputs s)
    (hq : EachStep step Q inputs s) : EachStep step (fun i s => P i s ∧ Q i s) inputs s := by
  induction inputs generalizing s with
  | nil => trivial
  | cons i rest ih => exact ⟨⟨hp.1, hq.1⟩, ih hp.2 hq.2⟩

/-- A condition that every step meets in every state. -/
theorem EachStep.of_forall (h : ∀ i s, P i s) (inputs : List ι) (s : σ) :
    EachStep step P inputs s := by
  induction inputs generalizing s with
  | nil => trivial
  | cons i rest ih => exact ⟨h i s, ih (step i s)⟩

/-- A condition under an assumption that does not depend on the step. -/
theorem EachStep.of_imp {p : Prop} {inputs : List ι} (h : p → EachStep step P inputs s) :
    EachStep step (fun i s => p → P i s) inputs s := by
  induction inputs generalizing s with
  | nil => trivial
  | cons i rest ih => exact ⟨fun hp => (h hp).1, ih fun hp => (h hp).2⟩

/-- What every step preserves under a condition, a run of steps that meet it preserves. -/
theorem run_preserves {I : σ → Prop} (hstep : ∀ i s, P i s → I s → I (step i s))
    (inputs : List ι) (hall : EachStep step P inputs s) (hs : I s) : I (run step inputs s) := by
  induction inputs generalizing s with
  | nil => exact hs
  | cons i rest ih => exact ih hall.2 (hstep i s hall.1 hs)

/-- If under `I` and `J` a step keeps `J` exactly where it meets `Q`, then `J` holds at every point
of a run exactly when every step meets `Q`. -/
theorem forall_prefix_iff {I J : σ → Prop} (hI : ∀ i s, P i s → I s → I (step i s))
    (hJ : ∀ i s, P i s → I s → J s → (J (step i s) ↔ Q i s)) (inputs : List ι)
    (hall : EachStep step P inputs s) (hi : I s) (hj : J s) :
    (∀ before after, inputs = before ++ after → J (run step before s)) ↔
      EachStep step Q inputs s := by
  induction inputs generalizing s with
  | nil =>
      refine ⟨fun _ => trivial, ?_⟩
      intro _ before after hnil
      obtain ⟨rfl, rfl⟩ := List.append_eq_nil_iff.mp hnil.symm
      exact hj
  | cons i rest ih =>
      have hstep := hJ i s hall.1 hi hj
      constructor
      · intro h
        have hnext : J (step i s) := h [i] rest rfl
        refine ⟨hstep.mp hnext, (ih hall.2 (hI i s hall.1 hi) hnext).mp ?_⟩
        intro before after hsplit
        exact h (i :: before) after (by rw [hsplit, List.cons_append])
      · rintro ⟨hq, hrest⟩ before after hsplit
        cases before with
        | nil => exact hj
        | cons j before =>
            obtain ⟨rfl, hrest'⟩ := List.cons.inj hsplit
            exact (ih hall.2 (hI i s hall.1 hi) (hstep.mpr hq)).mpr hrest before after hrest'

end EachStep

end Lib
