import SmartyTrader.Lib.AsyncLock
import SmartyTrader.Lib.Dict
import SmartyTrader.Lib.Runs

set_option autoImplicit false

/-! # One cycle at a time

The schedule, the first cycle of the runner and manual ticks all call `run_cycle`, each in a task of
its own, and the event loop switches between the tasks wherever one of them awaits. A call returns
at once when the agent is stopping or the lock is taken, and else runs its cycle under the lock.
`shutdown` stops the agent, lets the LLM client cancel what it is generating and waits for the lock
before it closes the client.

`cycles_exclusive` is about all orders in which the tasks go on, end, and are cancelled.
-/

namespace SmartyTrader

open Lib

/-! ## Tasks -/

/-- Where a task is that has called `run_cycle` or `shutdown`. -/
inductive TaskStage where
  /-- A cycle that waits for the lock. -/
  | cycleWaits
  /-- In `_run_cycle`. -/
  | cycles
  /-- A shutdown at `cancel_inflight`. -/
  | cancels
  /-- It has seen the lock taken, and its `acquire` has not begun. -/
  | asks
  | waits
  /-- It has got the lock and has not given it back. -/
  | holds
  /-- It closes the client; `gaveUp` when the wait for the lock ended without it. -/
  | closes (gaveUp : Bool)
  | ended
  deriving DecidableEq

namespace TaskStage

/-- The tasks that have the lock. -/
def hasLock (stage : TaskStage) : Bool := stage = .cycles ∨ stage = .holds

/-- The stages of `shutdown`, once it has stopped the agent. -/
def ofShutdown : TaskStage → Bool
  | cancels => true
  | asks => true
  | waits => true
  | holds => true
  | closes _ => true
  | _ => false

end TaskStage

/-- The agent's `_stopping` and `_cycle_lock`, and the tasks. -/
structure CycleTasks where
  stopping : Bool
  lock : AsyncLock ℕ
  tasks : Dict ℕ TaskStage

/-- What the event loop does next. -/
inductive LoopStep where
  /-- A new task calls `run_cycle`. -/
  | runCycle (task : ℕ)
  /-- `_run_cycle` returns or raises, and the lock is given back. -/
  | endCycle (task : ℕ)
  | stop
  /-- A new task calls `shutdown`. -/
  | shutdown (task : ℕ)
  /-- `cancel_inflight` returns, and the shutdown looks at the lock. -/
  | inflightCancelled (task : ℕ)
  | acquire (task : ℕ)
  /-- The wait of a task is cancelled, by the end of its grace or from elsewhere. -/
  | cancel (task : ℕ)
  /-- A task goes on whose future is done or cancelled. -/
  | goOn (task : ℕ)
  | release (task : ℕ)
  /-- `shutdown` ends, with the client closed or with an exception. -/
  | endShutdown (task : ℕ)

namespace CycleTasks

/-- The agent at its start. -/
def start : CycleTasks := ⟨false, AsyncLock.free, Dict.empty⟩

def At (w : CycleTasks) (task : ℕ) (stage : TaskStage) : Prop := w.tasks.get? task = some stage

instance (w : CycleTasks) (task : ℕ) (stage : TaskStage) : Decidable (w.At task stage) :=
  inferInstanceAs (Decidable (_ = _))

/-- The tasks that have the lock. -/
def holders (w : CycleTasks) : Set ℕ := {task | ∃ stage, w.At task stage ∧ stage.hasLock}

def move (w : CycleTasks) (task : ℕ) (stage : TaskStage) : CycleTasks :=
  { w with tasks := w.tasks.set task stage }

/-- A task begins to acquire the lock, and is at `now` if it gets it at once and at `later` if it
has to wait. -/
def acquireFor (w : CycleTasks) (task : ℕ) (now later : TaskStage) : CycleTasks :=
  let r := w.lock.acquire task
  { w.move task (if r.1 then now else later) with lock := r.2 }

/-- Give the lock back. -/
def releaseFor (w : CycleTasks) (task : ℕ) (next : TaskStage) : CycleTasks :=
  { w.move task next with lock := w.lock.release }

/-- A task that waits goes on: with the lock if it was woken, without if it was cancelled. -/
def goOn (w : CycleTasks) (task : ℕ) (woken left : TaskStage) : CycleTasks :=
  match w.lock.future task with
  | some .done => { w.move task woken with lock := w.lock.take task }
  | some .cancelled => { w.move task left with lock := w.lock.leave task }
  | some .revoked => { w.move task left with lock := w.lock.leave task }
  | _ => w

def step : LoopStep → CycleTasks → CycleTasks
  | .runCycle task, w =>
      if w.tasks.contains task then w
      else if w.stopping ∨ w.lock.locked then w.move task .ended
      else w.acquireFor task .cycles .cycleWaits
  | .endCycle task, w => if w.At task .cycles then w.releaseFor task .ended else w
  | .stop, w => { w with stopping := true }
  | .shutdown task, w =>
      if w.tasks.contains task then w else { w.move task .cancels with stopping := true }
  | .inflightCancelled task, w =>
      if w.At task .cancels then w.move task (if w.lock.locked then .asks else .closes false)
      else w
  | .acquire task, w => if w.At task .asks then w.acquireFor task .holds .waits else w
  | .cancel task, w =>
      if w.At task .asks then w.move task (.closes true)
      else { w with lock := w.lock.cancel task }
  | .goOn task, w =>
      if w.At task .cycleWaits then w.goOn task .cycles .ended
      else if w.At task .waits then w.goOn task .holds (.closes true)
      else w
  | .release task, w => if w.At task .holds then w.releaseFor task (.closes false) else w
  | .endShutdown task, w =>
      if w.At task .cancels ∨ w.At task (.closes true) ∨ w.At task (.closes false) then
        w.move task .ended
      else w

/-! ## The invariant -/

/-- The lock has the tasks that are in a cycle or about to give it back as its holders, the waiting
shutdowns are its queue, no cycle waits, and no cycle runs when a shutdown closes the client unless
it gave up. -/
structure Exclusive (w : CycleTasks) : Prop where
  guards : w.lock.Guards w.holders
  queue : ∀ task, task ∈ w.lock.waiters.map Prod.fst ↔ w.At task .waits
  noneWaits : ∀ task, ¬ w.At task .cycleWaits
  stopped : ∀ task stage, w.At task stage → stage.ofShutdown = true → w.stopping = true
  closed : ∀ task, w.At task (.closes false) → ∀ other, ¬ w.At other .cycles

theorem exclusive_start : Exclusive start where
  guards := by
    have hnone : start.holders = ∅ := by
      ext task
      simp [holders, At, start]
    rw [hnone]
    exact AsyncLock.guards_free
  queue := by simp [start, At, AsyncLock.free]
  noneWaits := by simp [start, At]
  stopped := by simp [start, At]
  closed := by simp [start, At]

variable {w : CycleTasks} {task : ℕ}

theorem at_move {next stage : TaskStage} {other : ℕ} :
    (w.move task next).At other stage ↔
      if task = other then next = stage else w.At other stage := by
  unfold At move
  rw [Dict.get?_set]
  split_ifs <;> simp

theorem at_unique {stage stage' : TaskStage} (h : w.At task stage) (h' : w.At task stage') :
    stage = stage' :=
  Option.some.inj (h.symm.trans h')

/-- A task that neither had the lock nor gets it leaves the holders as they are. -/
theorem holders_move (next : TaskStage) (hnext : next.hasLock = false) (hnot : task ∉ w.holders) :
    (w.move task next).holders = w.holders := by
  ext other
  constructor
  · rintro ⟨stage, hat, hlock⟩
    rw [at_move] at hat
    split_ifs at hat with heq
    · rw [← hat, hnext] at hlock
      cases hlock
    · exact ⟨stage, hat, hlock⟩
  · rintro ⟨stage, hat, hlock⟩
    have hne : task ≠ other := fun heq => hnot (heq ▸ ⟨stage, hat, hlock⟩)
    exact ⟨stage, at_move.mpr (by rwa [if_neg hne]), hlock⟩

/-- A task that gets the lock when nobody has it is its only holder. -/
theorem holders_move_lock (next : TaskStage) (hnext : next.hasLock = true)
    (hnone : w.holders = ∅) : (w.move task next).holders = {task} := by
  ext other
  rw [Set.mem_singleton_iff]
  constructor
  · rintro ⟨stage, hat, hlock⟩
    by_contra hne
    rw [at_move, if_neg (Ne.symm hne)] at hat
    have hmem : other ∈ w.holders := ⟨stage, hat, hlock⟩
    rw [hnone] at hmem
    exact hmem
  · rintro rfl
    exact ⟨next, at_move.mpr (by rw [if_pos rfl]), hnext⟩

/-- When the holder gives the lock back, nobody has it. -/
theorem holders_move_release (next : TaskStage) (hnext : next.hasLock = false)
    (halone : w.holders.Subsingleton) (hmine : task ∈ w.holders) :
    (w.move task next).holders = ∅ := by
  rw [Set.eq_empty_iff_forall_notMem]
  rintro other ⟨stage, hat, hlock⟩
  rw [at_move] at hat
  split_ifs at hat with heq
  · rw [← hat, hnext] at hlock
    cases hlock
  · exact heq (halone hmine ⟨stage, hat, hlock⟩)

/-- The next world is as it should be, and no cycle has begun in it if the agent was stopping. -/
structure Next (w w' : CycleTasks) : Prop extends Exclusive w' where
  stays : w.stopping = true → w'.stopping = true
  noneBegins : w.stopping = true → ∀ other, w'.At other .cycles → w.At other .cycles

theorem Exclusive.same (h : w.Exclusive) : Next w w := ⟨h, id, fun _ _ => id⟩

/-- A task moves on, and the lock and the flag change with it. -/
theorem Exclusive.moved (h : w.Exclusive) (task : ℕ) {next : TaskStage} {lock : AsyncLock ℕ}
    {stopping : Bool} (hguards : lock.Guards (w.move task next).holders)
    (hqueue : ∀ other, other ∈ lock.waiters.map Prod.fst ↔ (w.move task next).At other .waits)
    (hnext : next ≠ .cycleWaits) (hkeeps : w.stopping = true → stopping = true)
    (hstops : next.ofShutdown = true → stopping = true)
    (hcloses : next = .closes false → ∀ other, task ≠ other → ¬ w.At other .cycles)
    (hcycles : next = .cycles → w.stopping = false) :
    Next w { w.move task next with lock := lock, stopping := stopping } where
  guards := hguards
  queue := hqueue
  noneWaits := by
    intro other hat
    have hat' := at_move.mp hat
    split_ifs at hat' with heq
    · exact hnext hat'
    · exact h.noneWaits other hat'
  stopped := by
    intro other stage hat hstage
    have hat' := at_move.mp hat
    split_ifs at hat' with heq
    · exact hstops (hat' ▸ hstage)
    · exact hkeeps (h.stopped other stage hat' hstage)
  closed := by
    intro other hat third hthird
    have hat' := at_move.mp hat
    have hthird' := at_move.mp hthird
    split_ifs at hat' hthird' with heq heq' heq'
    · rw [hat'] at hthird'
      cases hthird'
    · exact hcloses hat' third heq' hthird'
    · -- a cycle has begun, so the agent was not stopping and nobody was closing
      have hstop := h.stopped other _ hat' rfl
      rw [hcycles hthird'] at hstop
      cases hstop
    · exact h.closed other hat' third hthird'
  stays := hkeeps
  noneBegins := by
    intro hstop other hat
    have hat' := at_move.mp hat
    split_ifs at hat' with heq
    · rw [hcycles hat'] at hstop
      cases hstop
    · exact hat'

/-- The queue is the same when a task moves on that neither waited nor waits now. -/
theorem Exclusive.queue_move (h : w.Exclusive) {next : TaskStage} (hnext : next ≠ .waits)
    (hnot : ¬ w.At task .waits) (other : ℕ) :
    other ∈ w.lock.waiters.map Prod.fst ↔ (w.move task next).At other .waits := by
  rw [h.queue, at_move]
  split_ifs with heq
  · exact ⟨fun hat => absurd (heq ▸ hat) hnot, fun heq' => absurd heq' hnext⟩
  · exact Iff.rfl

/-- A task that has nothing to do with the lock. -/
def Idle (w : CycleTasks) (task : ℕ) : Prop := task ∉ w.holders ∧ ¬ w.At task .waits

theorem idle_of_at {stage : TaskStage} (hat : w.At task stage) (hstage : stage.hasLock = false)
    (hwaits : stage ≠ .waits) : w.Idle task := by
  refine ⟨?_, fun hat' => hwaits (at_unique hat hat')⟩
  rintro ⟨stage', hat', hlock⟩
  rw [at_unique hat' hat, hstage] at hlock
  cases hlock

theorem idle_of_new (hnew : w.tasks.contains task = false) : w.Idle task := by
  have hnone : ∀ stage, ¬ w.At task stage := by
    intro stage hat
    rw [Dict.contains, show w.tasks.get? task = some stage from hat] at hnew
    cases hnew
  exact ⟨fun ⟨stage, hat, _⟩ => hnone stage hat, hnone _⟩

theorem mem_holders_of_cycles (hat : w.At task .cycles) : task ∈ w.holders := ⟨_, hat, rfl⟩

theorem at_of_mem_holders (h : task ∈ w.holders) : w.At task .cycles ∨ w.At task .holds := by
  obtain ⟨stage, hat, hlock⟩ := h
  rcases of_decide_eq_true hlock with rfl | rfl
  · exact .inl hat
  · exact .inr hat

theorem Exclusive.aside (h : w.Exclusive) (hidle : w.Idle task) {next : TaskStage}
    (hnext : next.hasLock = false) (hwaits : next ≠ .waits) (hcycle : next ≠ .cycleWaits)
    {stopping : Bool} (hkeeps : w.stopping = true → stopping = true)
    (hstops : next.ofShutdown = true → stopping = true)
    (hcloses : next = .closes false → w.lock.locked = false) :
    Next w { w.move task next with stopping := stopping } := by
  refine h.moved task ?_ (h.queue_move hwaits hidle.2) hcycle hkeeps hstops
    (fun heq other _ hother => ?_) fun heq => ?_
  · rw [holders_move next hnext hidle.1]
    exact h.guards
  · have hmem : other ∈ w.holders := mem_holders_of_cycles hother
    rw [h.guards.nobody (hcloses heq)] at hmem
    exact hmem
  · rw [heq] at hnext
    cases hnext

/-- A holder gives the lock back. -/
theorem Exclusive.released (h : w.Exclusive) {stage next : TaskStage} (hat : w.At task stage)
    (hstage : stage.hasLock = true) (hnext : next.hasLock = false) (hwaits : next ≠ .waits)
    (hcycle : next ≠ .cycleWaits) (hstops : next.ofShutdown = true → w.stopping = true) :
    Next w (w.releaseFor task next) := by
  have hmine : task ∈ w.holders := ⟨stage, hat, hstage⟩
  refine h.moved task ?_ (fun other => ?_) hcycle id hstops (fun _ other hne hother => ?_)
    fun heq => ?_
  · rw [holders_move_release next hnext h.guards.alone hmine]
    exact h.guards.release
  · have hnot : ¬ w.At task .waits := by
      intro hat'
      rw [at_unique hat hat'] at hstage
      cases hstage
    rw [AsyncLock.map_fst_release]
    exact h.queue_move hwaits hnot other
  · exact hne (h.guards.alone hmine (mem_holders_of_cycles hother))
  · rw [heq] at hnext
    cases hnext

/-! ## Each step keeps it -/

/-- An agent that is not stopping has no shutdown, so nobody waits for the lock. -/
theorem Exclusive.nobodyWaits (h : w.Exclusive) (hgo : w.stopping = false) :
    w.lock.waiters = [] := by
  rw [← List.map_eq_nil_iff (f := Prod.fst), List.eq_nil_iff_forall_not_mem]
  intro other hmem
  have hstop := h.stopped other _ ((h.queue other).mp hmem) rfl
  rw [hgo] at hstop
  cases hstop

/-- A call of `run_cycle` that is not skipped has the lock at once. -/
theorem Exclusive.acquires (h : w.Exclusive) (hgo : w.stopping = false)
    (hfree : w.lock.locked = false) :
    w.lock.acquire task = (true, { w.lock with locked := true }) := by
  unfold AsyncLock.acquire
  rw [if_pos ⟨hfree, by rw [h.nobodyWaits hgo]; rfl⟩]

theorem acquireFor_now {now later : TaskStage} (hgot : (w.lock.acquire task).1 = true) :
    w.acquireFor task now later = { w.move task now with lock := (w.lock.acquire task).2 } := by
  unfold acquireFor
  simp only [hgot, if_true]

theorem acquireFor_later {now later : TaskStage} (hwait : (w.lock.acquire task).1 = false) :
    w.acquireFor task now later = { w.move task later with lock := (w.lock.acquire task).2 } := by
  unfold acquireFor
  simp only [hwait, Bool.false_eq_true, if_false]

theorem Exclusive.runCycle (h : w.Exclusive) (task : ℕ) : Next w (w.step (.runCycle task)) := by
  unfold step
  dsimp only
  split_ifs with hold hskip
  · exact h.same
  · exact h.aside (idle_of_new (by simpa using hold)) rfl (by decide) (by decide) id nofun nofun
  · obtain ⟨hgo, hfree⟩ : w.stopping = false ∧ w.lock.locked = false := by simpa using hskip
    have hidle : w.Idle task := idle_of_new (by simpa using hold)
    have hgot : (w.lock.acquire task).1 = true := by rw [h.acquires hgo hfree]
    obtain ⟨hnone, hguards⟩ := h.guards.acquire_now hgot
    rw [acquireFor_now hgot]
    refine h.moved task ?_ (fun other => ?_) (by decide) id nofun nofun fun _ => hgo
    · rw [holders_move_lock .cycles rfl hnone]
      exact hguards
    · rw [h.acquires hgo hfree]
      exact h.queue_move (by decide) hidle.2 other

theorem Exclusive.acquireStep (h : w.Exclusive) (hat : w.At task .asks) :
    Next w (w.acquireFor task .holds .waits) := by
  have hidle : w.Idle task := idle_of_at hat rfl (by decide)
  have hstop : w.stopping = true := h.stopped task _ hat rfl
  cases hgot : (w.lock.acquire task).1 with
  | true =>
      obtain ⟨hnone, hguards⟩ := h.guards.acquire_now hgot
      rw [acquireFor_now hgot]
      refine h.moved task ?_ (fun other => ?_) (by decide) id (fun _ => hstop) nofun nofun
      · rw [holders_move_lock .holds rfl hnone]
        exact hguards
      · rw [AsyncLock.waiters_acquire hgot]
        exact h.queue_move (by decide) hidle.2 other
  | false =>
      obtain ⟨hguards, hjoined⟩ := h.guards.acquire_later hgot fun hmem =>
        hidle.2 ((h.queue task).mp hmem)
      rw [acquireFor_later hgot]
      refine h.moved task ?_ (fun other => ?_) (by decide) id (fun _ => hstop) nofun nofun
      · rw [holders_move .waits rfl hidle.1]
        exact hguards
      · rw [hjoined, List.map_append, List.mem_append, h.queue, at_move]
        split_ifs with heq
        · simp [heq]
        · simp [Ne.symm heq]

/-- A waiting task leaves the queue, and the lock is guarded with the task in its next stage. -/
theorem Exclusive.left (h : w.Exclusive) (hat : w.At task .waits) {next : TaskStage}
    {lock : AsyncLock ℕ} (hguards : lock.Guards (w.move task next).holders)
    (hgone : ∀ other, other ∈ lock.waiters.map Prod.fst ↔
      other ∈ w.lock.waiters.map Prod.fst ∧ other ≠ task)
    (hnext : next = .holds ∨ next = .closes true) :
    Next w { w.move task next with lock := lock } := by
  have hstop : w.stopping = true := h.stopped task _ hat rfl
  refine h.moved task hguards (fun other => ?_) ?_ id (fun _ => hstop) ?_ ?_
  · rw [hgone, h.queue, at_move]
    split_ifs with heq
    · rcases hnext with rfl | rfl <;> simp [heq]
    · simp [Ne.symm heq]
  · rcases hnext with rfl | rfl <;> decide
  · rcases hnext with rfl | rfl <;> simp
  · rcases hnext with rfl | rfl <;> simp

theorem Exclusive.goOnStep (h : w.Exclusive) (hat : w.At task .waits) :
    Next w (w.goOn task .holds (.closes true)) := by
  have hidle : task ∉ w.holders := by
    rintro ⟨stage, hat', hlock⟩
    rw [at_unique hat' hat] at hlock
    cases hlock
  have hleft : Next w { w.move task (.closes true) with lock := w.lock.leave task } := by
    refine h.left hat ?_ (fun other => AsyncLock.mem_leave) (.inr rfl)
    rw [holders_move (.closes true) rfl hidle]
    exact h.guards.leave
  unfold goOn
  split
  next hdone =>
    obtain ⟨hnone, hguards⟩ := h.guards.take (AsyncLock.mem_of_future hdone)
    refine h.left hat ?_ (fun other => AsyncLock.mem_take) (.inl rfl)
    rw [holders_move_lock .holds rfl hnone]
    exact hguards
  · exact hleft
  · exact hleft
  · exact h.same

theorem Exclusive.step (h : w.Exclusive) (i : LoopStep) : Next w (w.step i) := by
  cases i with
  | runCycle task => exact h.runCycle task
  | endCycle task =>
      unfold CycleTasks.step
      dsimp only
      split_ifs with hat
      · exact h.released hat rfl rfl (by decide) (by decide) nofun
      · exact h.same
  | stop =>
      exact ⟨⟨h.guards, h.queue, h.noneWaits, fun _ _ _ _ => rfl, h.closed⟩, fun _ => rfl,
        fun _ _ => id⟩
  | shutdown task =>
      unfold CycleTasks.step
      dsimp only
      split_ifs with hold
      · exact h.same
      · exact h.aside (idle_of_new (by simpa using hold)) rfl (by decide) (by decide) (fun _ => rfl)
          (fun _ => rfl) nofun
  | inflightCancelled task =>
      unfold CycleTasks.step
      dsimp only
      split_ifs with hat hlocked
      · exact h.aside (idle_of_at hat rfl (by decide)) rfl (by decide) (by decide) id
          (fun _ => h.stopped task _ hat rfl) nofun
      · exact h.aside (idle_of_at hat rfl (by decide)) rfl (by decide) (by decide) id
          (fun _ => h.stopped task _ hat rfl) (fun _ => by simpa using hlocked)
      · exact h.same
  | acquire task =>
      unfold CycleTasks.step
      dsimp only
      split_ifs with hat
      · exact h.acquireStep hat
      · exact h.same
  | cancel task =>
      unfold CycleTasks.step
      dsimp only
      split_ifs with hat
      · exact h.aside (idle_of_at hat rfl (by decide)) rfl (by decide) (by decide) id
          (fun _ => h.stopped task _ hat rfl) nofun
      · refine ⟨⟨h.guards.cancel, fun other => ?_, h.noneWaits, h.stopped, h.closed⟩, id,
          fun _ _ => id⟩
        rw [AsyncLock.map_fst_cancel]
        exact h.queue other
  | goOn task =>
      unfold CycleTasks.step
      dsimp only
      split_ifs with hcycle hat
      · exact absurd hcycle (h.noneWaits task)
      · exact h.goOnStep hat
      · exact h.same
  | release task =>
      unfold CycleTasks.step
      dsimp only
      split_ifs with hat
      · exact h.released hat rfl rfl (by decide) (by decide) (fun _ => h.stopped task _ hat rfl)
      · exact h.same
  | endShutdown task =>
      unfold CycleTasks.step
      dsimp only
      split_ifs with hat
      · have hidle : w.Idle task := by
          rcases hat with hat | hat | hat <;> exact idle_of_at hat rfl (by decide)
        exact h.aside hidle rfl (by decide) (by decide) id nofun nofun
      · exact h.same

/-! ## Runs -/

theorem exclusive_run (inputs : List LoopStep) : (Lib.run step inputs start).Exclusive :=
  run_invariant (fun i _ h => (h.step i).toExclusive) inputs exclusive_start

/-- In a run of an agent that is stopping no cycle begins. -/
theorem Exclusive.noneBegins_run (h : w.Exclusive) (hstop : w.stopping = true)
    (inputs : List LoopStep) {other : ℕ}
    (hat : (Lib.run CycleTasks.step inputs w).At other .cycles) :
    w.At other .cycles := by
  induction inputs generalizing w with
  | nil => exact hat
  | cons i rest ih =>
      have hnext := h.step i
      exact hnext.noneBegins hstop other (ih hnext.toExclusive (hnext.stays hstop) hat)

/-- A shutdown finds a cycle running and waits; it closes the client when that cycle has ended, and
the calls of `run_cycle` in between are skipped. -/
example :
    let w := Lib.run step [.runCycle 1, .runCycle 2, .shutdown 3, .inflightCancelled 3, .acquire 3,
      .endCycle 1, .runCycle 4, .goOn 3, .release 3] start
    w.At 2 .ended ∧ w.At 4 .ended ∧ w.At 3 (.closes false) := by
  decide +kernel

end CycleTasks

end SmartyTrader
