import SmartyTrader.Lib.Runs

set_option autoImplicit false

/-! # Two-phase hand-over of results

A component works on items under keys. An item is resolved once, with a result; from then on
the component offers the result until its client confirms the key, and a confirmed key never
comes back. A `Snapshot` is what can be seen of all keys at one time. `Advances` and `Confirms`
are the two kinds of steps, `Protocol` says that a component makes no others, and `HandsOver`
is what then holds of all its runs: a result stays the same until its confirmation, no item is
lost, and the effect of an item happens at most once.
-/

namespace Lib.TwoPhase

variable {σ ι κ ρ : Type*}

/-! ## Snapshots -/

/-- Where a key stands. -/
inductive Stage (ρ : Type*) where
  | untracked
  | working
  | resolved (result : ρ)

/-- The stage of each key, the keys that cannot be tracked any more, and how often the effect
of each key happened. -/
structure Snapshot (κ ρ : Type*) where
  stage : κ → Stage ρ
  spent : κ → Prop
  effects : κ → ℕ

/-- A step that confirms nothing. -/
structure Advances (a b : Snapshot κ ρ) : Prop where
  working : ∀ k, a.stage k = .working → b.stage k ≠ .untracked
  resolved : ∀ k r, a.stage k = .resolved r → b.stage k = .resolved r
  spent : ∀ k, a.spent k → b.spent k
  effects : ∀ k, b.effects k = a.effects k ∨
    (b.effects k = a.effects k + 1 ∧ ¬ a.spent k ∧ (∀ r, a.stage k ≠ .resolved r) ∧
      ∃ r, b.stage k = .resolved r)

/-- The confirmation of one key: it forgets the key if that is resolved, and nothing else. -/
structure Confirms (k : κ) (a b : Snapshot κ ρ) : Prop where
  confirmed : ∀ r, a.stage k = .resolved r → b.spent k
  unresolved : (∀ r, a.stage k ≠ .resolved r) → b.stage k = a.stage k
  other : ∀ j, k ≠ j → b.stage j = a.stage j
  spent : ∀ j, a.spent j → b.spent j
  effects : ∀ j, b.effects j = a.effects j

/-- Nothing changed that can be seen. -/
theorem advances_of_same {a b : Snapshot κ ρ} (hs : ∀ k, b.stage k = a.stage k)
    (hspent : ∀ k, a.spent k → b.spent k) (he : ∀ k, b.effects k = a.effects k) :
    Advances a b where
  working k hk := by
    rw [hs k, hk]
    exact fun hn => by cases hn
  resolved k r hk := by rw [hs k, hk]
  spent := hspent
  effects k := Or.inl (he k)

theorem Advances.refl (a : Snapshot κ ρ) : Advances a a :=
  advances_of_same (fun _ => rfl) (fun _ h => h) (fun _ => rfl)

theorem Advances.trans {a b c : Snapshot κ ρ} (h : Advances a b) (h' : Advances b c) :
    Advances a c where
  working k ha := by
    cases hb : b.stage k with
    | untracked => exact absurd hb (h.working k ha)
    | working => exact h'.working k hb
    | resolved r =>
        rw [h'.resolved k r hb]
        exact fun hn => by cases hn
  resolved k r ha := h'.resolved k r (h.resolved k r ha)
  spent k ha := h'.spent k (h.spent k ha)
  effects k := by
    rcases h.effects k with h1 | ⟨h1, hspent, hres, r, hr⟩
    · rcases h'.effects k with h2 | ⟨h2, hspent', hres', r, hr⟩
      · exact Or.inl (h2.trans h1)
      · refine Or.inr ⟨by rw [h2, h1], fun hs => hspent' (h.spent k hs), fun r' hr' => ?_, r, hr⟩
        exact hres' r' (h.resolved k r' hr')
    · -- The effect of the first part resolved the key, so the second part has none.
      rcases h'.effects k with h2 | ⟨-, -, hres', -⟩
      · exact Or.inr ⟨by rw [h2, h1], hspent, hres, r, h'.resolved k r hr⟩
      · exact absurd hr (hres' r)

/-- One key resolves, perhaps with its effect. -/
theorem advances_of_resolves {a b : Snapshot κ ρ} {k : κ} {r : ρ}
    (hk : ∀ r, a.stage k ≠ .resolved r) (hns : ¬ a.spent k) (hb : b.stage k = .resolved r)
    (hother : ∀ j, k ≠ j → b.stage j = a.stage j) (hspent : ∀ j, a.spent j → b.spent j)
    (he : ∀ j, b.effects j = a.effects j ∨ (k = j ∧ b.effects j = a.effects j + 1)) :
    Advances a b where
  working j hj := by
    by_cases hkj : k = j
    · subst hkj
      rw [hb]
      exact fun hn => by cases hn
    · rw [hother j hkj, hj]
      exact fun hn => by cases hn
  resolved j r' hj := by
    have hkj : k ≠ j := by
      rintro rfl
      exact hk r' hj
    rw [hother j hkj, hj]
  spent := hspent
  effects j := by
    rcases he j with h | ⟨rfl, h⟩
    · exact Or.inl h
    · exact Or.inr ⟨h, hns, hk, r, hb⟩

/-! ## Components and their runs -/

/-- What can be observed of a component: its snapshots, which inputs confirm a key, which ask for
results, where an ask is answered, and what it returns then. -/
structure Component (σ ι κ ρ : Type*) where
  step : ι → σ → σ
  snapshot : σ → Snapshot κ ρ
  confirms : ι → Option κ
  asks : ι → Prop
  answers : ι → σ → Prop
  returned : ι → σ → Option (List ρ)
  key : ρ → κ

namespace Component

variable (C : Component σ ι κ ρ)

/-- The stage of a key in a state. -/
def stage (s : σ) (k : κ) : Stage ρ := (C.snapshot s).stage k

end Component

/-- **Two-phase hand-over**, over all runs from a state. -/
structure HandsOver (C : Component σ ι κ ρ) (s : σ) : Prop where
  /-- The effect of a key happens at most once. -/
  once : ∀ inputs k,
    (C.snapshot (run C.step inputs s)).effects k ≤ (C.snapshot s).effects k + 1
  /-- A resolved key is returned by every later ask before its confirmation that is answered,
  always with the same result. -/
  returned : ∀ before between ask k r, C.stage (run C.step before s) k = .resolved r →
    (∀ i ∈ between, C.confirms i ≠ some k) → C.asks ask →
    C.answers ask (run C.step (before ++ between) s) →
    ∃ rs, C.returned ask (run C.step (before ++ between) s) = some rs ∧
      r ∈ rs ∧ ∀ r' ∈ rs, C.key r' = k → r' = r
  /-- An ask that is not answered returns nothing. -/
  unanswered : ∀ before ask, ¬ C.answers ask (run C.step before s) →
    C.returned ask (run C.step before s) = none
  /-- No ask returns a key twice. -/
  distinct : ∀ before ask rs, C.returned ask (run C.step before s) = some rs →
    (rs.map C.key).Nodup
  /-- After its confirmation it is never returned again. -/
  silent : ∀ before between confirm ask rs k r, C.stage (run C.step before s) k = .resolved r →
    C.confirms confirm = some k →
    C.returned ask (run C.step (before ++ confirm :: between) s) = some rs →
    ∀ r' ∈ rs, C.key r' ≠ k
  /-- A tracked key stays tracked, or was confirmed after it resolved. -/
  kept : ∀ before between k, C.stage (run C.step before s) k ≠ .untracked →
    C.stage (run C.step (before ++ between) s) k ≠ .untracked ∨
      ∃ mid i rest, between = mid ++ i :: rest ∧ C.confirms i = some k ∧
        ∃ r, C.stage (run C.step (before ++ mid) s) k = .resolved r

/-- A component whose steps advance or confirm, and which returns what is resolved. -/
structure Protocol (C : Component σ ι κ ρ) where
  Inv : σ → Prop
  inv_step : ∀ {s : σ} (i : ι), Inv s → Inv (C.step i s)
  spent_untracked : ∀ {s : σ} {k : κ}, Inv s → (C.snapshot s).spent k → C.stage s k = .untracked
  advance_step : ∀ {s : σ} (i : ι), Inv s → C.confirms i = none →
    Advances (C.snapshot s) (C.snapshot (C.step i s))
  confirm_step : ∀ {s : σ} {k : κ} (i : ι), Inv s → C.confirms i = some k →
    Confirms k (C.snapshot s) (C.snapshot (C.step i s))
  returned_answers : ∀ {s : σ} (i : ι), Inv s →
    ((C.returned i s).isSome ↔ C.asks i ∧ C.answers i s)
  returned_complete : ∀ {s : σ} {k : κ} {r : ρ} {rs : List ρ} (i : ι), Inv s →
    C.returned i s = some rs → C.stage s k = .resolved r → r ∈ rs
  returned_sound : ∀ {s : σ} {r : ρ} {rs : List ρ} (i : ι), Inv s →
    C.returned i s = some rs → r ∈ rs → C.stage (C.step i s) (C.key r) = .resolved r
  returned_nodup : ∀ {s : σ} {rs : List ρ} (i : ι), Inv s → C.returned i s = some rs →
    (rs.map C.key).Nodup
  returned_confirms : ∀ {s : σ} (i : ι), (C.returned i s).isSome → C.confirms i = none

namespace Protocol

variable {C : Component σ ι κ ρ} (P : Protocol C) {s : σ} {k : κ} {r : ρ}

theorem inv_run (inputs : List ι) (h : P.Inv s) : P.Inv (run C.step inputs s) := by
  induction inputs generalizing s with
  | nil => exact h
  | cons i is ih => exact ih (P.inv_step i h)

theorem spent_step (i : ι) (h : P.Inv s) (hk : (C.snapshot s).spent k) :
    (C.snapshot (C.step i s)).spent k := by
  cases hc : C.confirms i with
  | none => exact (P.advance_step i h hc).spent k hk
  | some j => exact (P.confirm_step i h hc).spent k hk

theorem spent_run (inputs : List ι) (h : P.Inv s) (hk : (C.snapshot s).spent k) :
    (C.snapshot (run C.step inputs s)).spent k := by
  induction inputs generalizing s with
  | nil => exact hk
  | cons i is ih => exact ih (P.inv_step i h) (P.spent_step i h hk)

/-- A result stays what it is in a step that does not confirm it. -/
theorem resolved_step (i : ι) (h : P.Inv s) (hk : C.stage s k = .resolved r)
    (hc : C.confirms i ≠ some k) : C.stage (C.step i s) k = .resolved r := by
  cases hi : C.confirms i with
  | none => exact (P.advance_step i h hi).resolved k r hk
  | some j =>
      have hj : j ≠ k := fun hj => hc (hj ▸ hi)
      exact ((P.confirm_step i h hi).other k hj).trans hk

/-- A result stays what it is until it is confirmed. -/
theorem resolved_run (inputs : List ι) (h : P.Inv s) (hk : C.stage s k = .resolved r)
    (hc : ∀ i ∈ inputs, C.confirms i ≠ some k) :
    C.stage (run C.step inputs s) k = .resolved r := by
  induction inputs generalizing s with
  | nil => exact hk
  | cons i is ih =>
      have hi := P.resolved_step i h hk (hc i List.mem_cons_self)
      exact ih (P.inv_step i h) hi (fun j hj => hc j (List.mem_cons_of_mem _ hj))

/-- A tracked key stays tracked in a step, or is confirmed by it. -/
theorem tracked_step (i : ι) (h : P.Inv s) (hk : C.stage s k ≠ .untracked) :
    C.stage (C.step i s) k ≠ .untracked ∨
      (C.confirms i = some k ∧ ∃ r, C.stage s k = .resolved r) := by
  cases hs : C.stage s k with
  | untracked => exact absurd hs hk
  | working =>
      left
      cases hi : C.confirms i with
      | none => exact (P.advance_step i h hi).working k hs
      | some j =>
          have hc := P.confirm_step i h hi
          have hkeep : C.stage (C.step i s) k = C.stage s k := by
            by_cases hj : j = k
            · subst hj
              refine hc.unresolved fun r hr => ?_
              rw [show (C.snapshot s).stage j = .working from hs] at hr
              cases hr
            · exact hc.other k hj
          rw [hkeep, hs]
          exact fun hn => by cases hn
  | resolved r =>
      by_cases hi : C.confirms i = some k
      · exact Or.inr ⟨hi, r, rfl⟩
      · left
        rw [P.resolved_step i h hs hi]
        exact fun hn => by cases hn

theorem tracked_run (inputs : List ι) (h : P.Inv s) (hk : C.stage s k ≠ .untracked) :
    C.stage (run C.step inputs s) k ≠ .untracked ∨
      ∃ before i after, inputs = before ++ i :: after ∧ C.confirms i = some k ∧
        ∃ r, C.stage (run C.step before s) k = .resolved r := by
  induction inputs generalizing s with
  | nil => exact Or.inl hk
  | cons i is ih =>
      rcases P.tracked_step i h hk with hnext | ⟨hc, hr⟩
      · rcases ih (P.inv_step i h) hnext with hrun | ⟨before, j, after, rfl, hj, hr⟩
        · exact Or.inl hrun
        · exact Or.inr ⟨i :: before, j, after, rfl, hj, hr⟩
      · exact Or.inr ⟨[], i, is, rfl, hc, hr⟩

/-- The key is past its effect: resolved, or spent. -/
def Done (C : Component σ ι κ ρ) (s : σ) (k : κ) : Prop :=
  (∃ r, C.stage s k = .resolved r) ∨ (C.snapshot s).spent k

theorem done_step (i : ι) (h : P.Inv s) (hk : Done C s k) : Done C (C.step i s) k := by
  rcases hk with ⟨r, hr⟩ | hspent
  · by_cases hc : C.confirms i = some k
    · exact Or.inr ((P.confirm_step i h hc).confirmed r hr)
    · exact Or.inl ⟨r, P.resolved_step i h hr hc⟩
  · exact Or.inr (P.spent_step i h hspent)

/-- What one step does to the effects of a key. -/
theorem effects_step (i : ι) (h : P.Inv s) :
    (C.snapshot (C.step i s)).effects k = (C.snapshot s).effects k ∨
      ((C.snapshot (C.step i s)).effects k = (C.snapshot s).effects k + 1 ∧ ¬ Done C s k ∧
        Done C (C.step i s) k) := by
  cases hi : C.confirms i with
  | none =>
      rcases (P.advance_step i h hi).effects k with he | ⟨he, hspent, hres, hr⟩
      · exact Or.inl he
      · exact Or.inr ⟨he, fun hd => hd.elim (fun ⟨r, hr⟩ => hres r hr) hspent, Or.inl hr⟩
  | some j => exact Or.inl ((P.confirm_step i h hi).effects k)

/-- Past its effect, a key has no further effect. -/
theorem effects_of_done (inputs : List ι) (h : P.Inv s) (hk : Done C s k) :
    (C.snapshot (run C.step inputs s)).effects k = (C.snapshot s).effects k := by
  induction inputs generalizing s with
  | nil => rfl
  | cons i is ih =>
      rw [run_cons, ih (P.inv_step i h) (P.done_step i h hk)]
      rcases P.effects_step i h with he | ⟨-, hn, -⟩
      · exact he
      · exact absurd hk hn

theorem effects_run (inputs : List ι) (h : P.Inv s) :
    (C.snapshot (run C.step inputs s)).effects k ≤ (C.snapshot s).effects k + 1 := by
  induction inputs generalizing s with
  | nil => exact Nat.le_succ _
  | cons i is ih =>
      rw [run_cons]
      rcases P.effects_step (k := k) i h with he | ⟨he, -, hd⟩
      · rw [← he]
        exact ih (P.inv_step i h)
      · -- The one effect: from here on the key is done.
        rw [P.effects_of_done is (P.inv_step i h) hd, he]

/-- **The hand-over.** A component that follows the protocol hands its results over in two
phases. -/
theorem handsOver (h : P.Inv s) : HandsOver C s where
  once inputs k := P.effects_run inputs h
  returned before between ask k r hk hc hasks hanswers := by
    have h1 := P.inv_run before h
    have h2 := P.inv_run between h1
    rw [run_append] at hanswers ⊢
    have hres := P.resolved_run between h1 hk hc
    obtain ⟨rs, hask⟩ := Option.isSome_iff_exists.mp
      ((P.returned_answers ask h2).mpr ⟨hasks, hanswers⟩)
    refine ⟨rs, hask, P.returned_complete ask h2 hask hres, fun r' hr' hkey => ?_⟩
    -- Both are the result of the key after the ask.
    have hnone : C.confirms ask ≠ some k := by
      rw [P.returned_confirms ask (by rw [hask]; rfl)]
      exact fun hn => by cases hn
    have hafter := P.returned_sound ask h2 hask hr'
    rw [hkey, P.resolved_step ask h2 hres hnone] at hafter
    exact (Stage.resolved.inj hafter).symm
  unanswered before ask hanswers := by
    by_contra hsome
    have hask := (P.returned_answers ask (P.inv_run before h)).mp
      (Option.isSome_iff_ne_none.mpr hsome)
    exact hanswers hask.2
  distinct before ask rs hask := P.returned_nodup ask (P.inv_run before h) hask
  silent before between confirm ask rs k r hk hc hask r' hr' hkey := by
    have h1 := P.inv_run before h
    have hspent := (P.confirm_step confirm h1 hc).confirmed r hk
    have h2 := P.inv_step confirm h1
    have h3 := P.inv_run between h2
    rw [run_append, run_cons] at hask
    have hafter := P.returned_sound ask h3 hask hr'
    have hgone := P.spent_step ask h3 (P.spent_run between h2 hspent)
    rw [hkey, P.spent_untracked (P.inv_step ask h3) hgone] at hafter
    cases hafter
  kept before between k hk := by
    rcases P.tracked_run between (P.inv_run before h) hk with hrun | ⟨mid, i, rest, rfl, hi, hr⟩
    · rw [run_append]
      exact Or.inl hrun
    · refine Or.inr ⟨mid, i, rest, rfl, hi, ?_⟩
      rw [run_append]
      exact hr

end Protocol

end Lib.TwoPhase
