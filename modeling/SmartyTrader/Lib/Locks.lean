import SmartyTrader.Lib.Dict

set_option autoImplicit false

/-! # Exclusive locks of parties that may die

A table names the holder of each lock that is taken, and each party knows the lock it holds. The
two agree (`Agree`) as long as a lock is only taken when it is free and a party that ends gives its
lock back. A lock then has one holder, and a lock that is taken has a holder that is alive.
-/

namespace Lib.Locks

variable {κ π : Type*} [DecidableEq κ] [DecidableEq π]

/-- Take a free lock; `none` when it is taken, by whomever. -/
def tryLock (locks : Dict κ π) (l : κ) (p : π) : Option (Dict κ π) :=
  match locks.get? l with
  | some _ => none
  | none => some (locks.set l p)

/-- Give a lock back, if there is one. -/
def unlock (locks : Dict κ π) : Option κ → Dict κ π
  | none => locks
  | some l => locks.erase l

/-- The table and what the parties hold say the same. -/
def Agree (locks : Dict κ π) (held : π → Option κ) : Prop :=
  ∀ l p, locks.get? l = some p ↔ held p = some l

section Agree

variable {locks locks' : Dict κ π} {held : π → Option κ}

omit [DecidableEq π] in
theorem agree_empty : Agree (Dict.empty : Dict κ π) fun _ => none :=
  fun _ _ => ⟨fun h => by simp at h, fun h => by simp at h⟩

omit [DecidableEq π] in
/-- **A lock has one holder.** -/
theorem Agree.exclusive (h : Agree locks held) {l : κ} {p q : π} (hp : held p = some l)
    (hq : held q = some l) : p = q := by
  have hboth : some p = some q := ((h l p).mpr hp).symm.trans ((h l q).mpr hq)
  exact Option.some.inj hboth

theorem Agree.tryLock (h : Agree locks held) {l : κ} {p : π} (hp : held p = none)
    (hlock : tryLock locks l p = some locks') :
    Agree locks' (Function.update held p (some l)) := by
  unfold Locks.tryLock at hlock
  split at hlock
  · cases hlock
  next hfree =>
    cases hlock
    intro j q
    rw [Dict.get?_set, Function.update_apply]
    by_cases hj : l = j
    · subst hj
      rw [if_pos rfl]
      by_cases hq : q = p
      · simp [hq]
      · -- nobody else held the lock, since it was free
        have hother : held q ≠ some l := by
          rw [Ne, ← h l q, hfree]
          exact fun hn => by cases hn
        rw [if_neg hq]
        simp [hother, Ne.symm hq]
    · rw [if_neg hj, h j q]
      by_cases hq : q = p
      · subst hq
        simp [hp, hj]
      · rw [if_neg hq]

theorem Agree.unlock (h : Agree locks held) (p : π) :
    Agree (unlock locks (held p)) (Function.update held p none) := by
  intro j q
  rw [Function.update_apply]
  cases hl : held p with
  | none =>
      rw [Locks.unlock, h j q]
      by_cases hq : q = p
      · rw [if_pos hq, hq, hl]
      · rw [if_neg hq]
  | some l =>
      rw [Locks.unlock, Dict.get?_erase]
      by_cases hj : l = j
      · subst hj
        rw [if_pos rfl]
        by_cases hq : q = p
        · rw [if_pos hq]
          simp
        · rw [if_neg hq]
          constructor
          · intro hn
            cases hn
          · intro hheld
            exact absurd (h.exclusive hheld hl) hq
      · rw [if_neg hj, h j q]
        by_cases hq : q = p
        · rw [if_pos hq, hq, hl]
          simp [hj]
        · rw [if_neg hq]

end Agree

end Lib.Locks
