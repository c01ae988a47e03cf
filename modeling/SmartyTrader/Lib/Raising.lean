import SmartyTrader.Lib.Runs

set_option autoImplicit false

/-! # Computations that may raise

What a sequence of raising steps that came to its end says about each of them, and the first hit
of a raising search. Then calls over a state that may raise and leave a state behind: their
sequence `andThen`, loops of them, and `RaisesUnless`, which says that a call does what a call
without errors does where a condition holds, and raises elsewhere.
-/

namespace Lib

variable {α β ε : Type}

/-- A sequence ends without an error when both of its parts do. -/
theorem bind_eq_ok_iff (x : Except ε α) (f : α → Except ε β) (b : β) :
    x >>= f = .ok b ↔ ∃ a, x = .ok a ∧ f a = .ok b := by
  cases x with
  | error e => exact ⟨fun h => (nomatch h), fun ⟨_, h, _⟩ => (nomatch h)⟩
  | ok a => exact ⟨fun h => ⟨a, rfl, h⟩, fun ⟨_, ha, h⟩ => Except.ok.inj ha ▸ h⟩

section Search

variable (f : α → Except ε (Option β))

/-- A search finds nothing exactly when it raises nowhere and hits nowhere. -/
theorem findSomeM?_eq_none_iff (l : List α) :
    l.findSomeM? f = .ok none ↔ ∀ a ∈ l, f a = .ok none := by
  induction l with
  | nil => exact ⟨fun _ => by simp, fun _ => rfl⟩
  | cons a l ih =>
      rw [List.findSomeM?_cons, bind_eq_ok_iff, List.forall_mem_cons, ← ih]
      constructor
      · rintro ⟨hit, ha, hrest⟩
        cases hit with
        | none => exact ⟨ha, hrest⟩
        | some b => cases hrest
      · exact fun ⟨ha, hrest⟩ => ⟨none, ha, hrest⟩

/-- A search that comes to its end finds what it would find if nothing raised. -/
theorem findSome?_of_findSomeM? (g : α → Option β) {l : List α} {r : Option β}
    (hval : ∀ a r, f a = .ok r → g a = r) (h : l.findSomeM? f = .ok r) : l.findSome? g = r := by
  induction l with
  | nil => exact Except.ok.inj h
  | cons a l ih =>
      rw [List.findSomeM?_cons, bind_eq_ok_iff] at h
      obtain ⟨hit, ha, hrest⟩ := h
      rw [List.findSome?_cons, hval a hit ha]
      cases hit with
      | none => exact ih hrest
      | some b => exact Except.ok.inj hrest

end Search

/-! ## Calls over a state -/

section Calls

variable {σ : Type}

/-- One call after another; an error ends both. -/
def andThen (x : Except ε α × σ) (k : α → σ → Except ε β × σ) : Except ε β × σ :=
  match x with
  | (.error err, s) => (.error err, s)
  | (.ok a, s) => k a s

@[simp] theorem andThen_ok (a : α) (s : σ) (k : α → σ → Except ε β × σ) :
    andThen (.ok a, s) k = k a s := rfl

@[simp] theorem andThen_error (err : ε) (s : σ) (k : α → σ → Except ε β × σ) :
    andThen (.error err, s) k = (.error err, s) := rfl

/-- What the first call leaves behind and the second one keeps. -/
theorem andThen_state {I : σ → Prop} {x : Except ε α × σ} {k : α → σ → Except ε β × σ}
    (hx : I x.2) (hk : ∀ a, x.1 = .ok a → I (k a x.2).2) : I (andThen x k).2 := by
  obtain ⟨r, s⟩ := x
  cases r with
  | error err => exact hx
  | ok a => exact hk a rfl

/-- A loop of calls. -/
def forEach (call : α → σ → Except ε Unit × σ) : List α → σ → Except ε Unit × σ
  | [], s => (.ok (), s)
  | a :: rest, s => andThen (call a s) fun _ s => forEach call rest s

/-- What every call keeps, the loop keeps. -/
theorem forEach_state {I : σ → Prop} {call : α → σ → Except ε Unit × σ} {l : List α}
    (h : ∀ a ∈ l, ∀ s, I s → I (call a s).2) {s : σ} (hs : I s) :
    I (forEach call l s).2 := by
  induction l generalizing s with
  | nil => exact hs
  | cons a rest ih =>
      have hnext := h a List.mem_cons_self s hs
      exact andThen_state hnext fun _ _ => ih (fun b hb => h b (List.mem_cons_of_mem _ hb)) hnext

/-- The call does what `y` does where `P` holds; elsewhere it raises, and leaves a state of `H`
behind. -/
structure RaisesUnless (P : Prop) (H : σ → Prop) (x : Except ε α × σ) (y : α × σ) : Prop where
  done : P → x = (.ok y.1, y.2)
  raised : ¬P → (∃ err, x.1 = .error err) ∧ H x.2

theorem raisesUnless_ok {P : Prop} {H : σ → Prop} (hp : P) (y : α × σ) :
    RaisesUnless P H ((.ok y.1, y.2) : Except ε α × σ) y :=
  ⟨fun _ => rfl, fun h => absurd hp h⟩

/-- Where it returns, it did what `y` does. -/
theorem RaisesUnless.eq_of_ok {P : Prop} {H : σ → Prop} {x : Except ε α × σ} {y : α × σ}
    (h : RaisesUnless P H x y) {a : α} (ha : x.1 = .ok a) : P ∧ x = (.ok y.1, y.2) := by
  by_cases hp : P
  · exact ⟨hp, h.done hp⟩
  · obtain ⟨⟨err, herr⟩, -⟩ := h.raised hp
    rw [ha] at herr
    cases herr

/-- The same under a condition that says the same. -/
theorem RaisesUnless.of_iff {P Q : Prop} {H : σ → Prop} {x : Except ε α × σ} {y : α × σ}
    (h : RaisesUnless P H x y) (hpq : Q ↔ P) : RaisesUnless Q H x y :=
  ⟨fun hq => h.done (hpq.mp hq), fun hq => h.raised (mt hpq.mpr hq)⟩

/-- It returns exactly where the condition holds. -/
theorem RaisesUnless.isOk_iff {P : Prop} {H : σ → Prop} {x : Except ε α × σ} {y : α × σ}
    (h : RaisesUnless P H x y) : (∃ a, x.1 = .ok a) ↔ P := by
  constructor
  · rintro ⟨a, ha⟩
    exact (h.eq_of_ok ha).1
  · intro hp
    exact ⟨y.1, by rw [h.done hp]⟩

/-- A sequence raises where one of its parts does. -/
theorem RaisesUnless.andThen {P Q : Prop} {H : σ → Prop} {x : Except ε α × σ} {y : α × σ}
    {k : α → σ → Except ε β × σ} {z : β × σ} (hx : RaisesUnless P H x y)
    (hk : P → RaisesUnless Q H (k y.1 y.2) z) : RaisesUnless (P ∧ Q) H (andThen x k) z := by
  constructor
  · rintro ⟨hp, hq⟩
    rw [hx.done hp, andThen_ok]
    exact (hk hp).done hq
  · intro hn
    by_cases hp : P
    · rw [hx.done hp, andThen_ok]
      exact (hk hp).raised fun hq => hn ⟨hp, hq⟩
    · obtain ⟨⟨err, herr⟩, hleft⟩ := hx.raised hp
      obtain ⟨r, s⟩ := x
      obtain rfl : r = .error err := herr
      exact ⟨⟨err, rfl⟩, hleft⟩

/-- A loop does what the loop without errors does where every step of that meets the condition. -/
theorem raisesUnless_forEach {P : α → σ → Prop} {H : σ → Prop} {I : σ → Prop}
    {call : α → σ → Except ε Unit × σ} {step : α → σ → σ} {l : List α}
    (h : ∀ a ∈ l, ∀ s, I s → RaisesUnless (P a s) H (call a s) ((), step a s) ∧ I (step a s))
    {s : σ} (hs : I s) :
    RaisesUnless (EachStep step P l s) H (forEach call l s) ((), run step l s) := by
  induction l generalizing s with
  | nil => exact raisesUnless_ok trivial ((), s)
  | cons a rest ih =>
      obtain ⟨hcall, hnext⟩ := h a List.mem_cons_self s hs
      exact hcall.andThen fun _ => ih (fun b hb => h b (List.mem_cons_of_mem _ hb)) hnext

/-- What is left behind after an error may be said more weakly. -/
theorem RaisesUnless.imp {P : Prop} {H H' : σ → Prop} {x : Except ε α × σ} {y : α × σ}
    (h : RaisesUnless P H x y) (hH : ∀ s, H s → H' s) : RaisesUnless P H' x y :=
  ⟨h.done, fun hp => ⟨(h.raised hp).1, hH _ (h.raised hp).2⟩⟩

end Calls

end Lib
