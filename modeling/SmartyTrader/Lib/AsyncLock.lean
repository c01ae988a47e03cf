import Mathlib.Tactic

set_option autoImplicit false

/-! # The lock of an event loop

A flag and a queue of waiters with a future each, as `asyncio.Lock` has them. A release gives nobody
the lock: it completes the future of the first waiter, whose task takes the lock when it goes on;
until then the lock looks free. A task that is cancelled in between passes the wake-up on.

`Guards` says that the lock is taken when somebody holds it, that only one does, and that wake-ups
are neither doubled nor lost. Each operation keeps it.
-/

namespace Lib

/-- The future of a waiter: not done, done, cancelled before it was done, or done with the task
cancelled before it went on. -/
inductive WaiterFuture where
  | pending
  | done
  | cancelled
  | revoked
  deriving DecidableEq

structure AsyncLock (τ : Type*) where
  locked : Bool
  waiters : List (τ × WaiterFuture)

namespace AsyncLock

variable {τ : Type*} [DecidableEq τ]

/-! ## Operations -/

def free : AsyncLock τ := ⟨false, []⟩

/-- `_wake_up_first`: complete the future of the first waiter, if it is not done. -/
def wakeUpFirst (l : AsyncLock τ) : AsyncLock τ :=
  match l.waiters with
  | (t, .pending) :: rest => { l with waiters := (t, .done) :: rest }
  | _ => l

/-- `acquire` up to its first suspension, and whether the task has the lock already: it has when the
lock is free and all waiters are cancelled. -/
def acquire (l : AsyncLock τ) (t : τ) : Bool × AsyncLock τ :=
  if l.locked = false ∧ l.waiters.all (fun w => w.2 = .cancelled) then
    (true, { l with locked := true })
  else (false, { l with waiters := l.waiters ++ [(t, .pending)] })

/-- The future that a task waits for. -/
def future (l : AsyncLock τ) (t : τ) : Option WaiterFuture :=
  (l.waiters.find? fun w => w.1 = t).map Prod.snd

def remove (l : AsyncLock τ) (t : τ) : AsyncLock τ :=
  { l with waiters := l.waiters.filter fun w => w.1 ≠ t }

/-- The end of `acquire` for a task that was woken. -/
def take (l : AsyncLock τ) (t : τ) : AsyncLock τ := { l.remove t with locked := true }

/-- The end of `acquire` for a task that was cancelled. -/
def leave (l : AsyncLock τ) (t : τ) : AsyncLock τ :=
  if l.locked then l.remove t else (l.remove t).wakeUpFirst

def release (l : AsyncLock τ) : AsyncLock τ := { l with locked := false }.wakeUpFirst

/-- What the cancellation of a waiting task does to its future. -/
def WaiterFuture.cancel : WaiterFuture → WaiterFuture
  | .pending => .cancelled
  | .done => .revoked
  | f => f

/-- A waiting task is cancelled. -/
def cancel (l : AsyncLock τ) (t : τ) : AsyncLock τ :=
  { l with waiters := l.waiters.map fun w => if w.1 = t then (w.1, WaiterFuture.cancel w.2) else w }

theorem mem_of_future {l : AsyncLock τ} {t : τ} {f : WaiterFuture} (h : l.future t = some f) :
    (t, f) ∈ l.waiters := by
  obtain ⟨w, hfind, rfl⟩ := Option.map_eq_some_iff.mp h
  obtain rfl : w.1 = t := by simpa using List.find?_some hfind
  exact List.mem_of_find?_eq_some hfind

/-! ## Who holds the lock -/

/-- The lock has these holders, at most one, and it is taken when it has one. A waiter that is woken
is the first, and the lock is free for it; the first waiter of a free lock is not left asleep. -/
structure Guards (l : AsyncLock τ) (holders : Set τ) : Prop where
  alone : holders.Subsingleton
  taken : l.locked = true ↔ holders.Nonempty
  distinct : (l.waiters.map Prod.fst).Nodup
  woken : ∀ t, (t, .done) ∈ l.waiters → l.locked = false ∧ l.waiters.head? = some (t, .done)
  awake : l.locked = false → ∀ t, l.waiters.head? ≠ some (t, .pending)

variable {l : AsyncLock τ} {holders : Set τ} {t : τ}

omit [DecidableEq τ] in
theorem guards_free : (free : AsyncLock τ).Guards ∅ where
  alone := Set.subsingleton_empty
  taken := by simp [free]
  distinct := List.nodup_nil
  woken := by simp [free]
  awake := by simp [free]

omit [DecidableEq τ] in
theorem Guards.nobody (h : l.Guards holders) (hfree : l.locked = false) : holders = ∅ := by
  rw [← Set.not_nonempty_iff_eq_empty, ← h.taken, hfree]
  exact Bool.false_ne_true

omit [DecidableEq τ] in
/-- In a taken lock nobody is woken. -/
theorem Guards.asleep (h : l.Guards holders) (htaken : l.locked = true) :
    (t, .done) ∉ l.waiters := by
  intro hdone
  rw [(h.woken t hdone).1] at htaken
  cases htaken

omit [DecidableEq τ] in
/-- Waking the first waiter of a free lock, where at most that one is woken already. -/
theorem guards_wakeUpFirst (hfree : l.locked = false) (hdistinct : (l.waiters.map Prod.fst).Nodup)
    (hwoken : ∀ t, (t, .done) ∈ l.waiters → l.waiters.head? = some (t, .done)) :
    l.wakeUpFirst.Guards ∅ := by
  obtain ⟨locked, waiters⟩ := l
  subst hfree
  rcases waiters with _ | ⟨⟨first, future⟩, rest⟩
  · exact guards_free
  · cases future with
    | pending =>
        have hnone : ∀ t, (t, .done) ∉ rest := by
          intro t ht
          have hhead := hwoken t (List.mem_cons_of_mem _ ht)
          simp at hhead
        refine ⟨Set.subsingleton_empty, by simp [wakeUpFirst], hdistinct, ?_, by simp [wakeUpFirst]⟩
        intro t ht
        rcases List.mem_cons.mp ht with heq | ht
        · exact ⟨rfl, congrArg some heq.symm⟩
        · exact absurd ht (hnone t)
    | done => exact ⟨Set.subsingleton_empty, by simp [wakeUpFirst], hdistinct,
        fun t ht => ⟨rfl, hwoken t ht⟩, by simp [wakeUpFirst]⟩
    | cancelled => exact ⟨Set.subsingleton_empty, by simp [wakeUpFirst], hdistinct,
        fun t ht => ⟨rfl, hwoken t ht⟩, by simp [wakeUpFirst]⟩
    | revoked => exact ⟨Set.subsingleton_empty, by simp [wakeUpFirst], hdistinct,
        fun t ht => ⟨rfl, hwoken t ht⟩, by simp [wakeUpFirst]⟩

/-! ## Each operation keeps the guard -/

omit [DecidableEq τ] in
/-- A task that has the lock at once found it free. -/
theorem Guards.acquire_now (h : l.Guards holders) (hgot : (l.acquire t).1 = true) :
    holders = ∅ ∧ (l.acquire t).2.Guards {t} := by
  unfold acquire at hgot ⊢
  split_ifs at hgot ⊢ with hfree
  refine ⟨h.nobody hfree.1, Set.subsingleton_singleton, by simp, h.distinct, fun s hs => ?_,
    by simp⟩
  have hcancelled := List.all_eq_true.mp hfree.2 _ hs
  simp at hcancelled

omit [DecidableEq τ] in
theorem waiters_acquire (hgot : (l.acquire t).1 = true) : (l.acquire t).2.waiters = l.waiters := by
  unfold acquire at hgot ⊢
  split_ifs at hgot ⊢
  rfl

omit [DecidableEq τ] in
/-- A task that is not in the queue joins it at the end. -/
theorem Guards.acquire_later (h : l.Guards holders) (hwait : (l.acquire t).1 = false)
    (ht : t ∉ l.waiters.map Prod.fst) :
    (l.acquire t).2.Guards holders ∧
      (l.acquire t).2.waiters = l.waiters ++ [(t, .pending)] := by
  unfold acquire at hwait ⊢
  split_ifs at hwait ⊢ with hfree
  refine ⟨⟨h.alone, h.taken, ?_, ?_, ?_⟩, rfl⟩
  · rw [List.map_append, List.nodup_append]
    refine ⟨h.distinct, List.nodup_singleton _, fun s hs s' hs' => ?_⟩
    obtain rfl : s' = t := by simpa using hs'
    exact fun heq => ht (heq ▸ hs)
  · intro s hs
    obtain hs | hs := List.mem_append.mp hs
    · obtain ⟨hunlocked, hhead⟩ := h.woken s hs
      exact ⟨hunlocked, by rw [List.head?_append, hhead, Option.some_or]⟩
    · simp at hs
  · intro hunlocked s
    show (l.waiters ++ [(t, WaiterFuture.pending)]).head? ≠ _
    rw [List.head?_append]
    cases hhead : l.waiters.head? with
    | none =>
        -- an empty queue would have given the task the lock
        have hnil : l.waiters = [] := List.head?_eq_none_iff.mp hhead
        exact absurd ⟨hunlocked, by simp [hnil]⟩ hfree
    | some w =>
        rw [Option.some_or, ← hhead]
        exact h.awake hunlocked s

theorem mem_remove {w : τ × WaiterFuture} : w ∈ (l.remove t).waiters ↔ w ∈ l.waiters ∧ w.1 ≠ t := by
  simp [remove]

theorem distinct_remove (h : l.Guards holders) : ((l.remove t).waiters.map Prod.fst).Nodup :=
  h.distinct.sublist (List.filter_sublist.map Prod.fst)

/-- A woken task finds the lock free and takes it. -/
theorem Guards.take (h : l.Guards holders) (hdone : (t, .done) ∈ l.waiters) :
    holders = ∅ ∧ (l.take t).Guards {t} := by
  obtain ⟨hfree, hhead⟩ := h.woken t hdone
  refine ⟨h.nobody hfree, Set.subsingleton_singleton, by simp [AsyncLock.take], distinct_remove h,
    fun s hs => ?_, by simp [AsyncLock.take]⟩
  -- only the first waiter is woken, and that one has left the queue
  obtain ⟨hs, hne⟩ := mem_remove.mp hs
  have hsame : some (s, WaiterFuture.done) = some (t, .done) :=
    (h.woken s hs).2.symm.trans hhead
  simp only [Option.some.injEq, Prod.mk.injEq, and_true] at hsame
  exact absurd hsame hne

/-- A cancelled task leaves the queue; the wake-up that it may have had is passed on. -/
theorem Guards.leave (h : l.Guards holders) : (l.leave t).Guards holders := by
  unfold AsyncLock.leave
  split_ifs with htaken
  · refine ⟨h.alone, h.taken, distinct_remove h, fun s hs => ?_, fun hfree => ?_⟩
    · exact absurd (mem_remove.mp hs).1 (h.asleep htaken)
    · exact absurd htaken (by simpa [remove] using hfree)
  · have hfree : l.locked = false := by simpa using htaken
    rw [h.nobody hfree]
    refine guards_wakeUpFirst hfree (distinct_remove h) fun s hs => ?_
    obtain ⟨hs, hne⟩ := mem_remove.mp hs
    have hhead := (h.woken s hs).2
    obtain ⟨rest, hrest⟩ := List.head?_eq_some_iff.mp hhead
    show (l.waiters.filter _).head? = _
    rw [hrest, List.filter_cons_of_pos (by simpa using hne), List.head?_cons]

omit [DecidableEq τ] in
theorem map_fst_wakeUpFirst : l.wakeUpFirst.waiters.map Prod.fst = l.waiters.map Prod.fst := by
  obtain ⟨locked, waiters⟩ := l
  rcases waiters with _ | ⟨⟨first, future⟩, rest⟩
  · rfl
  · cases future <;> rfl

omit [DecidableEq τ] in
theorem map_fst_release : l.release.waiters.map Prod.fst = l.waiters.map Prod.fst :=
  map_fst_wakeUpFirst

theorem mem_take {s : τ} :
    s ∈ (l.take t).waiters.map Prod.fst ↔ s ∈ l.waiters.map Prod.fst ∧ s ≠ t := by
  simp only [take, remove, List.mem_map, List.mem_filter]
  constructor
  · rintro ⟨w, ⟨hw, hne⟩, rfl⟩
    exact ⟨⟨w, hw, rfl⟩, of_decide_eq_true hne⟩
  · rintro ⟨⟨w, hw, rfl⟩, hne⟩
    exact ⟨w, ⟨hw, decide_eq_true hne⟩, rfl⟩

theorem mem_leave {s : τ} :
    s ∈ (l.leave t).waiters.map Prod.fst ↔ s ∈ l.waiters.map Prod.fst ∧ s ≠ t := by
  rw [← mem_take (t := t)]
  unfold leave
  split_ifs
  · exact Iff.rfl
  · rw [map_fst_wakeUpFirst]
    exact Iff.rfl

omit [DecidableEq τ] in
theorem Guards.release (h : l.Guards holders) : l.release.Guards ∅ :=
  guards_wakeUpFirst rfl h.distinct fun s hs => (h.woken s hs).2

theorem map_fst_cancel : (l.cancel t).waiters.map Prod.fst = l.waiters.map Prod.fst := by
  unfold cancel
  rw [List.map_map]
  refine List.map_congr_left fun w _ => ?_
  show (if w.1 = t then (w.1, WaiterFuture.cancel w.2) else w).1 = w.1
  split_ifs <;> rfl

theorem Guards.cancel (h : l.Guards holders) : (l.cancel t).Guards holders := by
  have hhead : ∀ s f, (l.cancel t).waiters.head? = some (s, f) → f = .done ∨ f = .pending →
      l.waiters.head? = some (s, f) := by
    intro s f hs hf
    rw [AsyncLock.cancel, List.head?_map] at hs
    obtain ⟨w, hw, heq⟩ := Option.map_eq_some_iff.mp hs
    rw [hw]
    split_ifs at heq with hwt
    · obtain ⟨s', f'⟩ := w
      cases f' <;> cases heq <;> simp [WaiterFuture.cancel] at hf
    · rw [heq]
  refine ⟨h.alone, h.taken, ?_, fun s hs => ?_, fun hfree s hs => ?_⟩
  · rw [map_fst_cancel]
    exact h.distinct
  · obtain ⟨w, hw, heq⟩ := List.mem_map.mp hs
    split_ifs at heq with hwt
    · obtain ⟨s', f'⟩ := w
      cases f' <;> cases heq
    · subst heq
      obtain ⟨hfree, hfirst⟩ := h.woken s hw
      refine ⟨hfree, ?_⟩
      rw [AsyncLock.cancel, List.head?_map, hfirst, Option.map_some, if_neg hwt]
  · exact h.awake hfree s (hhead s .pending hs (.inr rfl))

/-- **Nobody waits in vain.** Where tasks wait, somebody holds the lock or the first of them can go
on. -/
theorem Guards.prompt (h : l.Guards holders) (hwait : l.waiters ≠ []) :
    holders.Nonempty ∨ ∃ t f, l.future t = some f ∧ f ≠ .pending := by
  cases hlocked : l.locked with
  | true => exact .inl (h.taken.mp hlocked)
  | false =>
      obtain ⟨⟨t, f⟩, rest, heq⟩ := List.exists_cons_of_ne_nil hwait
      refine .inr ⟨t, f, by simp [future, heq], fun hpending => h.awake hlocked t ?_⟩
      rw [heq, List.head?_cons, hpending]

end AsyncLock

end Lib
