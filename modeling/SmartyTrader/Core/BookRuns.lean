import SmartyTrader.Core.Books
import SmartyTrader.Lib.Locks
import SmartyTrader.Lib.Runs

set_option autoImplicit false

/-! # Processes over the book files

Runners, the demo round trip and the re-baseline tool share a data directory, start and end at any
time and may die at any step. A runner checks its venue, takes the lock of its book, creates the
file if there is none, compares the recorded identity and records its own on a new file, and only
then writes. The steps of different processes interleave in any order, and files that no process
has open may be copied or removed by hand. Old orders go in the retention passes of the runners and
of the maintenance script.

`Sound` holds of every world that is reached. From it follow that a book has one runner
(`one_runner_per_book`), that a runner is only turned away for another one that lives
(`turned_away_iff`), and that the rows of a file all belong to its identity and are lost to
retention alone (`rows_belong`).
-/

namespace SmartyTrader

open Lib

/-! ## Files -/

inductive RowKind where
  | order
  | snapshot
  | reset
  deriving DecidableEq

/-- The stamps of a row; a profile is kept as the tag of the strategy. -/
structure BookRow where
  kind : RowKind
  agent : String
  venue : Option String
  profile : Option String
  createdAt : Time
  deriving DecidableEq

/-- A database file: its `db_identity` row and what is written into it, in time order. -/
structure BookFile where
  identity : Option (String × BookMode)
  rows : List BookRow
  deriving DecidableEq

/-- What a storage stamps on its rows: a runner the agent it is bound to and the venue of its
executor, the re-baseline tool the agent and venue it was asked for. -/
inductive BookStamp where
  | runner (agent : String) (venue profile : Option String)
  | reset (agent : String) (venue : Option String)
  deriving DecidableEq

/-- The venue of the agent's latest portfolio snapshot. -/
def newestVenue (agent : String) (rows : List BookRow) : Option String :=
  (rows.filter fun r => r.kind = .snapshot ∧ r.agent = agent).getLast?.bind BookRow.venue

/-- The row that is written next; a runner writes orders and snapshots. -/
def BookStamp.row (stamp : BookStamp) (snapshot : Bool) (rows : List BookRow) (now : Time) :
    BookRow :=
  match stamp with
  | .runner agent venue profile =>
      ⟨if snapshot then .snapshot else .order, agent, venue, profile, now⟩
  | .reset agent venue => ⟨.reset, agent, venue.orElse fun _ => newestVenue agent rows, none, now⟩

/-- A retention pass over a book of this mode deletes the row: only orders, and none of a book with
real money. -/
def BookRow.Expired (settings : StorageSettings) (mode : BookMode) (now : Time) (r : BookRow) :
    Prop :=
  r.kind = .order ∧ mode ≠ .real ∧ 0 < settings.historyRetentionDays ∧
    r.createdAt < now - days settings.historyRetentionDays

instance (settings : StorageSettings) (mode : BookMode) (now : Time) (r : BookRow) :
    Decidable (r.Expired settings mode now) :=
  inferInstanceAs (Decidable (r.kind = .order ∧ mode ≠ .real ∧
    0 < settings.historyRetentionDays ∧ r.createdAt < now - days settings.historyRetentionDays))

/-- `prune_storage`, on these rows. -/
def BookFile.prune (settings : StorageSettings) (mode : BookMode) (now : Time) (f : BookFile) :
    BookFile :=
  { f with rows := f.rows.filter fun r => ¬ r.Expired settings mode now }

/-! ## Programs -/

section

variable {δ : Type}

/-- A storage with the identity that its file must have. -/
structure BookStorage (δ : Type) where
  path : FilePath δ
  identity : String × BookMode
  stamp : BookStamp
  deriving DecidableEq

/-- What a process does: the lock it takes first, and the storage it opens then. -/
structure BookTask (δ : Type) where
  lock : Option (FilePath δ)
  storage : Option (BookStorage δ)
  deriving DecidableEq

structure RunnerSettings (δ : Type) where
  component : String
  agentEnabled : Bool
  /-- The working directory of the process. -/
  cwd : δ
  dataDir : δ
  inMemory : Bool
  profile : Option String
  expectedMode : Option BookMode
  /-- The venue label of the executor that is built. -/
  executorLabel : Option String
  storage : StorageSettings

inductive StartError where
  | unknownVenue (venue : Option String)
  | modeMismatch (expected mode : BookMode)
  | profileOnReal (profile : String)
  deriving DecidableEq

/-- `run_agent` up to the lock, `none` for a disabled agent. An in-memory database takes no lock;
its path is resolved like any other, to a file in the working directory. -/
def runAgent (s : RunnerSettings δ) : Except StartError (Option (BookTask δ)) :=
  if s.agentEnabled = false then .ok none
  else
    let venue := executorVenue s.executorLabel
    match venueMode venue with
    | .error v => .error (.unknownVenue v)
    | .ok mode =>
        match s.expectedMode.filter (· ≠ mode), s.profile.filter fun _ => mode = .real with
        | some expected, _ => .error (.modeMismatch expected mode)
        | none, some profile => .error (.profileOnReal profile)
        | none, none =>
            .ok (some {
              lock := if s.inMemory then none else some (lockPath s.dataDir mode s.component)
              storage := some {
                path := if s.inMemory then ⟨s.cwd, ":memory:"⟩
                  else dbPath s.dataDir mode s.component
                identity := (s.component, mode)
                stamp := .runner s.component venue s.profile } })

/-- The programs that take a runner lock or open a book with its identity. -/
inductive BookProgram (δ : Type) where
  | runner (s : RunnerSettings δ)
  /-- `demo_round_trip`: it trades the demo account of the crypto agent. -/
  | roundTrip (dataDir : δ)
  /-- `rebaseline_drawdown --yes`. -/
  | rebaseline (dataDir : δ) (agent : String) (mode : BookMode) (venue : Option String)

def BookProgram.task : BookProgram δ → Except StartError (Option (BookTask δ))
  | .runner s => runAgent s
  | .roundTrip dataDir => .ok (some ⟨some (lockPath dataDir .demo "crypto"), none⟩)
  | .rebaseline dataDir agent mode venue =>
      .ok (some ⟨none, some ⟨dbPath dataDir mode agent, (agent, mode), .reset agent venue⟩⟩)

/-! ## Processes -/

/-- What a process does next. -/
inductive StartStage where
  | locking
  | creating
  | checking
  | stamping
  | running
  deriving DecidableEq

/-- A process that has started. -/
structure BookProc (δ : Type) where
  program : BookProgram δ
  task : BookTask δ
  starts : program.task = .ok (some task)
  held : Option (FilePath δ)
  stage : StartStage

/-- The stage behind the lock. -/
def BookTask.unlocked (task : BookTask δ) : StartStage :=
  if task.storage.isSome then .creating else .running

structure BookWorld (δ : Type) where
  files : Dict (FilePath δ) BookFile
  locks : Dict (FilePath δ) ℕ
  procs : Dict ℕ (BookProc δ)

inductive BookEvent (δ : Type) where
  | launch (pid : ℕ) (program : BookProgram δ)
  /-- The next step of a process on its way to `running`. -/
  | advance (pid : ℕ)
  | write (pid : ℕ) (snapshot : Bool) (now : Time)
  /-- The retention pass of a runner, at its start and on its schedule. -/
  | retain (pid : ℕ) (now : Time)
  /-- `scripts.prune_storage` over one book, with `--agent` and `--mode`. -/
  | pruneBook (dataDir : δ) (mode : BookMode) (agent : String) (settings : StorageSettings)
      (now : Time)
  /-- `scripts.prune_storage` over a file that it found. -/
  | pruneFound (path : FilePath δ) (settings : StorageSettings) (now : Time)
  /-- An exit, also a crash: the operating system releases the lock. -/
  | stop (pid : ℕ)
  | copy (source target : FilePath δ)
  | remove (path : FilePath δ)

/-- A retention pass. -/
def BookEvent.Retains (event : BookEvent δ) : Prop :=
  match event with
  | .retain .. => True
  | .pruneBook .. => True
  | .pruneFound .. => True
  | _ => False

namespace BookWorld

def empty : BookWorld δ := ⟨Dict.empty, Dict.empty, Dict.empty⟩

def put (w : BookWorld δ) (pid : ℕ) (p : BookProc δ) : BookWorld δ :=
  { w with procs := w.procs.set pid p }

/-- Some process has the file open, or is about to. -/
def Opened [DecidableEq δ] (w : BookWorld δ) (path : FilePath δ) : Prop :=
  ∃ p ∈ w.procs.values, ∃ s ∈ p.task.storage, s.path = path

variable [DecidableEq δ]

instance (w : BookWorld δ) (path : FilePath δ) : Decidable (w.Opened path) :=
  inferInstanceAs (Decidable (∃ p ∈ w.procs.values, ∃ s ∈ p.task.storage, s.path = path))

def exit (w : BookWorld δ) (pid : ℕ) (p : BookProc δ) : BookWorld δ :=
  { w with locks := Locks.unlock w.locks p.held, procs := w.procs.erase pid }

def launch (w : BookWorld δ) (pid : ℕ) (program : BookProgram δ) : BookWorld δ :=
  match h : program.task with
  | .ok (some task) =>
      if (w.procs.get? pid).isSome then w else w.put pid ⟨program, task, h, none, .locking⟩
  | _ => w

/-- `RunnerLock.acquire`; without the lock the process ends. -/
def acquire (w : BookWorld δ) (pid : ℕ) (p : BookProc δ) : BookWorld δ :=
  match p.task.lock with
  | none => w.put pid { p with stage := p.task.unlocked }
  | some l =>
      match Locks.tryLock w.locks l pid with
      | none => w.exit pid p
      | some locks =>
          { w with locks := locks }.put pid { p with held := some l, stage := p.task.unlocked }

/-- `create_all`: an existing file is left as it is. -/
def create (w : BookWorld δ) (pid : ℕ) (p : BookProc δ) (s : BookStorage δ) : BookWorld δ :=
  { w with files := w.files.setDefault s.path ⟨none, []⟩ }.put pid { p with stage := .checking }

/-- `_check_identity`, its query: a foreign book ends the process. -/
def check (w : BookWorld δ) (pid : ℕ) (p : BookProc δ) (s : BookStorage δ) : BookWorld δ :=
  match (w.files.get? s.path).map BookFile.identity with
  | none => w.exit pid p
  | some none => w.put pid { p with stage := .stamping }
  | some (some identity) =>
      if identity = s.identity then w.put pid { p with stage := .running } else w.exit pid p

/-- `_check_identity`, its insert: it fails where there is a row by now. -/
def stamp (w : BookWorld δ) (pid : ℕ) (p : BookProc δ) (s : BookStorage δ) : BookWorld δ :=
  match w.files.get? s.path with
  | some ⟨none, rows⟩ =>
      { w with files := w.files.set s.path ⟨some s.identity, rows⟩ }.put pid
        { p with stage := .running }
  | _ => w.exit pid p

def advance (w : BookWorld δ) (pid : ℕ) (p : BookProc δ) : BookWorld δ :=
  match p.stage, p.task.storage with
  | .locking, _ => w.acquire pid p
  | .creating, some s => w.create pid p s
  | .checking, some s => w.check pid p s
  | .stamping, some s => w.stamp pid p s
  | _, _ => w

def write (w : BookWorld δ) (p : BookProc δ) (snapshot : Bool) (now : Time) : BookWorld δ :=
  match p.stage, p.task.storage with
  | .running, some s =>
      match w.files.get? s.path with
      | some f =>
          let row := s.stamp.row snapshot f.rows now
          { w with files := w.files.set s.path { f with rows := f.rows ++ [row] } }
      | none => w
  | _, _ => w

def prune (w : BookWorld δ) (path : FilePath δ) (settings : StorageSettings) (mode : BookMode)
    (now : Time) : BookWorld δ :=
  match w.files.get? path with
  | some f => { w with files := w.files.set path (f.prune settings mode now) }
  | none => w

def retain (w : BookWorld δ) (p : BookProc δ) (now : Time) : BookWorld δ :=
  match p.program, p.stage, p.task.storage with
  | .runner settings, .running, some s => w.prune s.path settings.storage s.identity.2 now
  | _, _, _ => w

/-- The script opens the book without an identity, and creates it if there is none. -/
def pruneBook (w : BookWorld δ) (path : FilePath δ) (settings : StorageSettings) (mode : BookMode)
    (now : Time) : BookWorld δ :=
  prune { w with files := w.files.setDefault path ⟨none, []⟩ } path settings mode now

def step (event : BookEvent δ) (w : BookWorld δ) : BookWorld δ :=
  match event with
  | .launch pid program => w.launch pid program
  | .advance pid => ((w.procs.get? pid).map (w.advance pid)).getD w
  | .write pid snapshot now => ((w.procs.get? pid).map fun p => w.write p snapshot now).getD w
  | .retain pid now => ((w.procs.get? pid).map fun p => w.retain p now).getD w
  | .pruneBook dataDir mode agent settings now =>
      w.pruneBook (dbPath dataDir mode agent) settings mode now
  | .pruneFound path settings now =>
      match fileMatch path.name with
      | some (mode, _) => w.prune path settings mode now
      | none => w
  | .stop pid => ((w.procs.get? pid).map (w.exit pid)).getD w
  | .copy source target =>
      match w.files.get? source with
      | some f => if w.Opened target then w else { w with files := w.files.set target f }
      | none => w
  | .remove path => if w.Opened path then w else { w with files := w.files.erase path }

end BookWorld

/-- The settings of a runner of the paper book. -/
def paperRunner : RunnerSettings String where
  component := "crypto"
  agentEnabled := true
  cwd := "home"
  dataDir := "data"
  inMemory := false
  profile := none
  expectedMode := some .paper
  executorLabel := none
  storage := ⟨30, 90⟩

/-- One runner gets to write, and a second one of the same book is launched. -/
def twoRunners : List (BookEvent String) :=
  [.launch 1 (.runner paperRunner), .advance 1, .advance 1, .launch 2 (.runner paperRunner),
    .advance 1, .advance 1, .write 1 true 0]

/-! ## What a row says -/

/-- The row is one of the book: of its agent, and what a runner wrote is of a venue of its mode and,
on a real account, of no profile. -/
def BookRow.Of (r : BookRow) (identity : String × BookMode) : Prop :=
  r.agent = identity.1 ∧ (r.kind ≠ .reset →
    venueMode r.venue = .ok identity.2 ∧ (identity.2 = .real → r.profile = none))

/-- A file without an identity has no rows yet, and the others only rows of their identity. -/
def BookFile.Belongs (f : BookFile) : Prop :=
  match f.identity with
  | none => f.rows = []
  | some identity => ∀ r ∈ f.rows, r.Of identity

theorem runAgent_ok {s : RunnerSettings δ} {task : BookTask δ}
    (h : runAgent s = .ok (some task)) :
    ∃ mode, venueMode (executorVenue s.executorLabel) = .ok mode ∧
      (∀ expected ∈ s.expectedMode, expected = mode) ∧ (mode = .real → s.profile = none) ∧
      task.lock = (if s.inMemory then none else some (lockPath s.dataDir mode s.component)) ∧
      task.storage = some {
        path := if s.inMemory then ⟨s.cwd, ":memory:"⟩ else dbPath s.dataDir mode s.component
        identity := (s.component, mode)
        stamp := .runner s.component (executorVenue s.executorLabel) s.profile } := by
  unfold runAgent at h
  split at h
  · cases h
  · dsimp only at h
    split at h
    · cases h
    next mode hmode =>
      split at h
      · cases h
      · cases h
      next hexpected hprofile =>
        cases h
        refine ⟨mode, hmode, ?_, ?_, rfl, rfl⟩
        · intro expected hmem
          by_contra hne
          rw [Option.mem_def.mp hmem] at hexpected
          simp [hne] at hexpected
        · intro hreal
          cases hp : s.profile with
          | none => rfl
          | some profile =>
              rw [hp] at hprofile
              simp [hreal] at hprofile

/-- Every program stamps rows of the identity that it opens the file with. -/
theorem row_of_identity {program : BookProgram δ} {task : BookTask δ} {s : BookStorage δ}
    (h : program.task = .ok (some task)) (hs : task.storage = some s) (snapshot : Bool)
    (rows : List BookRow) (now : Time) : (s.stamp.row snapshot rows now).Of s.identity := by
  cases program with
  | runner settings =>
      obtain ⟨mode, hmode, -, hprofile, -, hstorage⟩ := runAgent_ok h
      cases hs.symm.trans hstorage
      exact ⟨rfl, fun _ => ⟨hmode, hprofile⟩⟩
  | roundTrip dataDir =>
      cases h
      cases hs
  | rebaseline dataDir agent mode venue =>
      cases h
      cases hs
      exact ⟨rfl, fun hkind => absurd rfl hkind⟩

theorem BookFile.Belongs.append {rows : List BookRow} {identity : String × BookMode}
    (h : BookFile.Belongs ⟨some identity, rows⟩) {r : BookRow} (hr : r.Of identity) :
    BookFile.Belongs ⟨some identity, rows ++ [r]⟩ := by
  intro x hx
  rcases List.mem_append.mp hx with hx | hx
  · exact h x hx
  · rw [List.mem_singleton.mp hx]
    exact hr

theorem BookFile.Belongs.prune {f : BookFile} (h : f.Belongs) (settings : StorageSettings)
    (mode : BookMode) (now : Time) : (f.prune settings mode now).Belongs := by
  obtain ⟨identity, rows⟩ := f
  cases identity with
  | none =>
      show rows.filter _ = []
      rw [show rows = [] from h, List.filter_nil]
  | some identity => exact fun r hr => h r (List.mem_filter.mp hr).1

/-- A book with real money loses nothing. -/
theorem BookFile.prune_real (f : BookFile) (settings : StorageSettings) (now : Time) :
    f.prune settings .real now = f := by
  have hkeep : ∀ r ∈ f.rows, decide (¬ r.Expired settings .real now) = true :=
    fun r _ => decide_eq_true fun h => h.2.1 rfl
  unfold BookFile.prune
  rw [List.filter_eq_self.mpr hkeep]

/-! ## What holds of every world -/

namespace BookWorld

variable [DecidableEq δ]

/-- The lock that a process holds. -/
def held (w : BookWorld δ) (pid : ℕ) : Option (FilePath δ) :=
  (w.procs.get? pid).bind BookProc.held

/-- The lock that a process must hold at its stage. -/
def due (p : BookProc δ) : Option (FilePath δ) :=
  if p.stage = .locking then none else p.task.lock

/-- The file of a running process is there and has its identity. -/
def Ready (files : Dict (FilePath δ) BookFile) (p : BookProc δ) : Prop :=
  p.stage = .running → ∀ s ∈ p.task.storage, ∃ f, files.get? s.path = some f ∧
    f.identity = some s.identity

structure Sound (w : BookWorld δ) : Prop where
  locks : Locks.Agree w.locks w.held
  due : ∀ pid p, w.procs.get? pid = some p → p.held = due p
  ready : ∀ pid p, w.procs.get? pid = some p → Ready w.files p
  rows : ∀ path f, w.files.get? path = some f → f.Belongs

theorem sound_empty : Sound (empty : BookWorld δ) where
  locks := Locks.agree_empty
  due := by
    intro pid p h
    cases h
  ready := by
    intro pid p h
    cases h
  rows := by
    intro path f h
    cases h

omit [DecidableEq δ] in
theorem held_of_get {w : BookWorld δ} {pid : ℕ} {p : BookProc δ}
    (h : w.procs.get? pid = some p) : w.held pid = p.held := by
  rw [held, h, Option.bind_some]

omit [DecidableEq δ] in
theorem held_put (w : BookWorld δ) (pid : ℕ) (p : BookProc δ) :
    (w.put pid p).held = Function.update w.held pid p.held := by
  funext q
  rw [Function.update_apply]
  show ((w.procs.set pid p).get? q).bind BookProc.held = _
  rw [Dict.get?_set]
  by_cases hq : q = pid
  · rw [if_pos hq.symm, if_pos hq, Option.bind_some]
  · rw [if_neg (Ne.symm hq), if_neg hq]
    rfl

theorem held_exit (w : BookWorld δ) (pid : ℕ) (p : BookProc δ) :
    (w.exit pid p).held = Function.update w.held pid none := by
  funext q
  rw [Function.update_apply]
  show ((w.procs.erase pid).get? q).bind BookProc.held = _
  rw [Dict.get?_erase]
  by_cases hq : q = pid
  · rw [if_pos hq.symm, if_pos hq, Option.bind_none]
  · rw [if_neg (Ne.symm hq), if_neg hq]
    rfl

/-- A process moves on without a change to what it holds. -/
theorem Sound.put {w : BookWorld δ} (h : w.Sound) {pid : ℕ} {p : BookProc δ}
    (hheld : w.held pid = p.held) (hdue : p.held = BookWorld.due p) (hready : Ready w.files p) :
    (w.put pid p).Sound where
  locks := by
    rw [held_put, ← hheld, Function.update_eq_self]
    exact h.locks
  due := by
    intro q r hr
    rw [BookWorld.put, Dict.get?_set] at hr
    split at hr
    · cases hr
      exact hdue
    · exact h.due q r hr
  ready := by
    intro q r hr
    rw [BookWorld.put, Dict.get?_set] at hr
    split at hr
    · cases hr
      exact hready
    · exact h.ready q r hr
  rows := h.rows

theorem Sound.move {w : BookWorld δ} (h : w.Sound) {pid : ℕ} {p : BookProc δ}
    (hp : w.procs.get? pid = some p) {stage : StartStage}
    (hdue : p.held = BookWorld.due { p with stage := stage })
    (hready : Ready w.files { p with stage := stage }) :
    (w.put pid { p with stage := stage }).Sound := by
  have hheld : w.held pid = p.held := held_of_get hp
  exact h.put hheld hdue hready

theorem Sound.exit {w : BookWorld δ} (h : w.Sound) {pid : ℕ} {p : BookProc δ}
    (hp : w.procs.get? pid = some p) : (w.exit pid p).Sound where
  locks := by
    rw [held_exit]
    show Locks.Agree (Locks.unlock w.locks p.held) _
    rw [← held_of_get hp]
    exact h.locks.unlock pid
  due := by
    intro q r hr
    rw [BookWorld.exit, Dict.get?_erase] at hr
    split at hr
    · cases hr
    · exact h.due q r hr
  ready := by
    intro q r hr
    rw [BookWorld.exit, Dict.get?_erase] at hr
    split at hr
    · cases hr
    · exact h.ready q r hr
  rows := h.rows

/-- The files change, but no file that a running process has open loses its identity. -/
theorem Sound.files {w : BookWorld δ} (h : w.Sound) {files : Dict (FilePath δ) BookFile}
    (hready : ∀ pid p, w.procs.get? pid = some p → Ready files p)
    (hrows : ∀ path f, files.get? path = some f → f.Belongs) :
    Sound { w with files := files } where
  locks := h.locks
  due := h.due
  ready := hready
  rows := hrows

omit [DecidableEq δ] in
theorem unlocked_ne (task : BookTask δ) : task.unlocked ≠ .locking := by
  unfold BookTask.unlocked
  split <;> decide

theorem ready_unlocked (files : Dict (FilePath δ) BookFile) {p : BookProc δ}
    (hstage : p.stage = p.task.unlocked) : Ready files p := by
  intro hrun s hs
  rw [hstage, BookTask.unlocked, Option.mem_def.mp hs] at hrun
  cases hrun

theorem ready_of_stage (files : Dict (FilePath δ) BookFile) {p : BookProc δ}
    (hstage : p.stage ≠ .running) : Ready files p :=
  fun hrun => absurd hrun hstage

theorem Sound.launch {w : BookWorld δ} (h : w.Sound) (pid : ℕ) (program : BookProgram δ) :
    (w.launch pid program).Sound := by
  unfold BookWorld.launch
  split
  · split
    · exact h
    next hfree =>
      have hnone : w.procs.get? pid = none := by simpa using hfree
      refine h.put ?_ rfl (ready_of_stage _ (by simp))
      rw [held, hnone, Option.bind_none]
  · exact h

theorem Sound.acquire {w : BookWorld δ} (h : w.Sound) {pid : ℕ} {p : BookProc δ}
    (hp : w.procs.get? pid = some p) (hstage : p.stage = .locking) : (w.acquire pid p).Sound := by
  have hnone : p.held = none := by
    rw [h.due pid p hp, BookWorld.due, if_pos hstage]
  have hheld : w.held pid = none := (held_of_get hp).trans hnone
  unfold BookWorld.acquire
  split
  next hlock =>
    refine h.move hp ?_ (ready_unlocked _ rfl)
    rw [BookWorld.due, if_neg (unlocked_ne _)]
    exact hnone.trans hlock.symm
  next l hlock =>
    split
    · exact h.exit hp
    next locks htake =>
      refine ⟨?_, ?_, ?_, h.rows⟩
      · rw [held_put]
        exact h.locks.tryLock hheld htake
      · intro q r hr
        rw [BookWorld.put, Dict.get?_set] at hr
        split at hr
        · cases hr
          rw [BookWorld.due, if_neg (unlocked_ne _)]
          exact hlock.symm
        · exact h.due q r hr
      · intro q r hr
        rw [BookWorld.put, Dict.get?_set] at hr
        split at hr
        · cases hr
          exact ready_unlocked _ rfl
        · exact h.ready q r hr

/-- What a process holds behind the lock does not change any more. -/
theorem Sound.due_of_past {w : BookWorld δ} (h : w.Sound) {pid : ℕ} {p : BookProc δ}
    (hp : w.procs.get? pid = some p) (hstage : p.stage ≠ .locking) {stage : StartStage}
    (hnext : stage ≠ .locking) :
    p.held = BookWorld.due { p with stage := stage } := by
  rw [h.due pid p hp, BookWorld.due, BookWorld.due, if_neg hstage, if_neg hnext]

/-- `create_all` leaves a file that is there as it is, and a new one is empty. -/
theorem Sound.createAll {w : BookWorld δ} (h : w.Sound) (target : FilePath δ) :
    Sound { w with files := w.files.setDefault target ⟨none, []⟩ } := by
  refine h.files ?_ ?_
  · intro q r hr hrun t ht
    obtain ⟨f, hf, hid⟩ := h.ready q r hr hrun t ht
    refine ⟨f, ?_, hid⟩
    rw [Dict.get?_setDefault]
    split
    next heq => rw [heq, hf, Option.getD_some]
    · exact hf
  · intro path f hf
    rw [Dict.get?_setDefault] at hf
    split at hf
    · cases hf
      cases hold : w.files.get? target with
      | none => exact rfl
      | some f => exact h.rows _ _ hold
    · exact h.rows path f hf

theorem Sound.create {w : BookWorld δ} (h : w.Sound) {pid : ℕ} {p : BookProc δ}
    (hp : w.procs.get? pid = some p) (hstage : p.stage = .creating) (s : BookStorage δ) :
    (w.create pid p s).Sound :=
  (h.createAll s.path).move hp (h.due_of_past hp (by simp [hstage]) (by decide))
    (ready_of_stage _ (by simp))

theorem Sound.check {w : BookWorld δ} (h : w.Sound) {pid : ℕ} {p : BookProc δ}
    (hp : w.procs.get? pid = some p) (hstage : p.stage = .checking) {s : BookStorage δ}
    (hs : p.task.storage = some s) : (w.check pid p s).Sound := by
  have hpast : p.stage ≠ .locking := by simp [hstage]
  unfold BookWorld.check
  split
  · exact h.exit hp
  · -- nobody has stamped the file yet
    exact h.move hp (h.due_of_past hp hpast (by decide))
      (ready_of_stage _ (by simp))
  next identity hid =>
    split
    next hsame =>
      refine h.move hp (h.due_of_past hp hpast (by decide)) ?_
      intro _ t ht
      cases hs.symm.trans ht
      obtain ⟨f, hf, hfid⟩ := Option.map_eq_some_iff.mp hid
      exact ⟨f, hf, hsame ▸ hfid⟩
    · exact h.exit hp

theorem Sound.stamp {w : BookWorld δ} (h : w.Sound) {pid : ℕ} {p : BookProc δ}
    (hp : w.procs.get? pid = some p) (hstage : p.stage = .stamping) {s : BookStorage δ}
    (hs : p.task.storage = some s) : (w.stamp pid p s).Sound := by
  have hpast : p.stage ≠ .locking := by simp [hstage]
  unfold BookWorld.stamp
  split
  next rows hfile =>
    have hempty : rows = [] := h.rows _ _ hfile
    have hfiles : Sound { w with files := w.files.set s.path ⟨some s.identity, rows⟩ } := by
      refine h.files ?_ ?_
      · intro q r hr hrun t ht
        obtain ⟨f, hf, hid⟩ := h.ready q r hr hrun t ht
        -- a file that a running process has open is stamped already
        have hother : s.path ≠ t.path := by
          intro heq
          rw [← heq, hfile] at hf
          cases hf
          cases hid
        exact ⟨f, by rw [Dict.get?_set_ne _ _ hother, hf], hid⟩
      · intro path f hf
        rw [Dict.get?_set] at hf
        split at hf
        · cases hf
          rw [hempty]
          intro r hr
          cases hr
        · exact h.rows path f hf
    refine hfiles.move hp (h.due_of_past hp hpast (by decide)) ?_
    intro _ t ht
    cases hs.symm.trans ht
    exact ⟨_, Dict.get?_set_self _ _ _, rfl⟩
  · exact h.exit hp

theorem Sound.advance {w : BookWorld δ} (h : w.Sound) {pid : ℕ} {p : BookProc δ}
    (hp : w.procs.get? pid = some p) : (w.advance pid p).Sound := by
  unfold BookWorld.advance
  split
  next hstage => exact h.acquire hp hstage
  next s hstage _ => exact h.create hp hstage s
  next s hstage hs => exact h.check hp hstage hs
  next s hstage hs => exact h.stamp hp hstage hs
  · exact h

/-- A file that is there gets other rows of its identity. -/
theorem Sound.rewrite {w : BookWorld δ} (h : w.Sound) {target : FilePath δ} {f : BookFile}
    (hf : w.files.get? target = some f) {rows : List BookRow}
    (hrows : BookFile.Belongs ⟨f.identity, rows⟩) :
    Sound { w with files := w.files.set target { f with rows := rows } } := by
  refine h.files ?_ ?_
  · intro q r hr hrun t ht
    obtain ⟨g, hg, hgid⟩ := h.ready q r hr hrun t ht
    by_cases heq : target = t.path
    · -- both have the file open, and the rows leave its identity alone
      rw [← heq] at hg ⊢
      cases hf.symm.trans hg
      exact ⟨_, Dict.get?_set_self _ _ _, hgid⟩
    · exact ⟨g, by rw [Dict.get?_set_ne _ _ heq, hg], hgid⟩
  · intro path g hg
    rw [Dict.get?_set] at hg
    split at hg
    · cases hg
      exact hrows
    · exact h.rows path g hg

theorem Sound.write {w : BookWorld δ} (h : w.Sound) {pid : ℕ} {p : BookProc δ}
    (hp : w.procs.get? pid = some p) (snapshot : Bool) (now : Time) :
    (w.write p snapshot now).Sound := by
  unfold BookWorld.write
  split
  next s hstage hs =>
    obtain ⟨f, hf, hid⟩ := h.ready pid p hp hstage s hs
    rw [hf]
    refine h.rewrite hf ?_
    have hbelongs : BookFile.Belongs ⟨some s.identity, f.rows⟩ := hid ▸ h.rows _ _ hf
    rw [hid]
    exact hbelongs.append (row_of_identity p.starts hs snapshot f.rows now)
  · exact h

theorem Sound.prune {w : BookWorld δ} (h : w.Sound) (path : FilePath δ)
    (settings : StorageSettings) (mode : BookMode) (now : Time) :
    (w.prune path settings mode now).Sound := by
  unfold BookWorld.prune
  split
  next f hf => exact h.rewrite hf ((h.rows path f hf).prune settings mode now)
  · exact h

theorem Sound.retain {w : BookWorld δ} (h : w.Sound) (p : BookProc δ) (now : Time) :
    (w.retain p now).Sound := by
  unfold BookWorld.retain
  split
  · exact h.prune _ _ _ now
  · exact h

theorem Sound.copy {w : BookWorld δ} (h : w.Sound) {source target : FilePath δ} {f : BookFile}
    (hf : w.files.get? source = some f) (hopen : ¬ w.Opened target) :
    Sound { w with files := w.files.set target f } := by
  refine h.files ?_ ?_
  · intro q r hr hrun t ht
    obtain ⟨g, hg, hid⟩ := h.ready q r hr hrun t ht
    have hother : target ≠ t.path := by
      rintro rfl
      exact hopen ⟨r, (Dict.mem_values_iff _ _).mpr ⟨q, hr⟩, t, ht, rfl⟩
    exact ⟨g, by rw [Dict.get?_set_ne _ _ hother, hg], hid⟩
  · intro path g hg
    rw [Dict.get?_set] at hg
    split at hg
    · cases hg
      exact h.rows _ _ hf
    · exact h.rows path g hg

theorem Sound.remove {w : BookWorld δ} (h : w.Sound) {path : FilePath δ}
    (hopen : ¬ w.Opened path) : Sound { w with files := w.files.erase path } := by
  refine h.files ?_ ?_
  · intro q r hr hrun t ht
    obtain ⟨g, hg, hid⟩ := h.ready q r hr hrun t ht
    have hother : path ≠ t.path := by
      rintro rfl
      exact hopen ⟨r, (Dict.mem_values_iff _ _).mpr ⟨q, hr⟩, t, ht, rfl⟩
    exact ⟨g, by rw [Dict.get?_erase_ne _ hother, hg], hid⟩
  · intro j g hg
    rw [Dict.get?_erase] at hg
    split at hg
    · cases hg
    · exact h.rows j g hg

/-- **Every step keeps a world sound.** -/
theorem Sound.step {w : BookWorld δ} (h : w.Sound) (event : BookEvent δ) :
    (BookWorld.step event w).Sound := by
  cases event with
  | launch pid program => exact h.launch pid program
  | advance pid =>
      show ((w.procs.get? pid).map (w.advance pid)).getD w |>.Sound
      cases hp : w.procs.get? pid with
      | none => exact h
      | some p => exact h.advance hp
  | write pid snapshot now =>
      show ((w.procs.get? pid).map fun p => w.write p snapshot now).getD w |>.Sound
      cases hp : w.procs.get? pid with
      | none => exact h
      | some p => exact h.write hp snapshot now
  | retain pid now =>
      show ((w.procs.get? pid).map fun p => w.retain p now).getD w |>.Sound
      cases w.procs.get? pid with
      | none => exact h
      | some p => exact h.retain p now
  | pruneBook dataDir mode agent settings now => exact (h.createAll _).prune _ settings mode now
  | pruneFound path settings now =>
      unfold BookWorld.step
      dsimp only
      split
      · exact h.prune path settings _ now
      · exact h
  | stop pid =>
      show ((w.procs.get? pid).map (w.exit pid)).getD w |>.Sound
      cases hp : w.procs.get? pid with
      | none => exact h
      | some p => exact h.exit hp
  | copy source target =>
      unfold BookWorld.step
      dsimp only
      split
      next f hf =>
        split
        · exact h
        next hopen => exact h.copy hf hopen
      · exact h
  | remove path =>
      unfold BookWorld.step
      dsimp only
      split
      · exact h
      next hopen => exact h.remove hopen

theorem sound_run (events : List (BookEvent δ)) : (Lib.run BookWorld.step events empty).Sound :=
  run_invariant (fun event _ h => h.step event) events sound_empty

/-! ## One runner per book -/

/-- A runner has the file open, or is behind its lock on the way to it. -/
def RunnerOn (w : BookWorld δ) (path : FilePath δ) (pid : ℕ) : Prop :=
  ∃ p settings, w.procs.get? pid = some p ∧ p.program = .runner settings ∧ p.stage ≠ .locking ∧
    ∃ s ∈ p.task.storage, s.path = path

/-- A process behind its lock that trades the demo account of the crypto agent: the round trip, or
a runner with a database of its own. -/
def TradesDemo (w : BookWorld δ) (dataDir : δ) (pid : ℕ) : Prop :=
  ∃ p, w.procs.get? pid = some p ∧ p.stage ≠ .locking ∧
    (p.program = .roundTrip dataDir ∨ ∃ settings, p.program = .runner settings ∧
      settings.inMemory = false ∧ settings.dataDir = dataDir ∧ settings.component = "crypto" ∧
      venueMode (executorVenue settings.executorLabel) = .ok .demo)

/-- The processes behind a lock are those that hold it. -/
theorem Sound.held_iff {w : BookWorld δ} (h : w.Sound) (pid : ℕ) (l : FilePath δ) :
    w.held pid = some l ↔
      ∃ p, w.procs.get? pid = some p ∧ p.stage ≠ .locking ∧ p.task.lock = some l := by
  rw [held, Option.bind_eq_some_iff]
  refine exists_congr fun p => and_congr_right fun hp => ?_
  rw [h.due pid p hp, BookWorld.due]
  by_cases hlocking : p.stage = .locking <;> simp [hlocking]

theorem Sound.exclusive {w : BookWorld δ} (h : w.Sound) {pid qid : ℕ} {p q : BookProc δ}
    (hp : w.procs.get? pid = some p) (hq : w.procs.get? qid = some q) {l : FilePath δ}
    (hpl : p.stage ≠ .locking ∧ p.task.lock = some l)
    (hql : q.stage ≠ .locking ∧ q.task.lock = some l) : pid = qid := by
  have hpid : w.held pid = some l := (h.held_iff pid l).mpr ⟨p, hp, hpl⟩
  have hqid : w.held qid = some l := (h.held_iff qid l).mpr ⟨q, hq, hql⟩
  exact h.locks.exclusive hpid hqid

omit [DecidableEq δ] in
/-- The lock of a runner that has a file of its own is named like the file. -/
theorem lock_of_runner {settings : RunnerSettings δ} {task : BookTask δ}
    (h : runAgent settings = .ok (some task)) {s : BookStorage δ} (hs : task.storage = some s)
    (hname : s.path.name ≠ ":memory:") : ∃ mode,
      s.path = dbPath settings.dataDir mode settings.component ∧
        task.lock = some (lockPath settings.dataDir mode settings.component) := by
  obtain ⟨mode, -, -, -, hlock, hstorage⟩ := runAgent_ok h
  cases hs.symm.trans hstorage
  cases hmem : settings.inMemory with
  | true =>
      refine absurd ?_ hname
      rw [hmem, if_pos rfl]
  | false =>
      rw [hmem] at hlock
      exact ⟨mode, rfl, hlock⟩

omit [DecidableEq δ] in
theorem lock_of_demo {w : BookWorld δ} {dataDir : δ} {pid : ℕ} (h : w.TradesDemo dataDir pid) :
    ∃ p, w.procs.get? pid = some p ∧ p.stage ≠ .locking ∧
      p.task.lock = some (lockPath dataDir .demo "crypto") := by
  obtain ⟨p, hp, hstage, hprogram⟩ := h
  refine ⟨p, hp, hstage, ?_⟩
  have hstarts := p.starts
  rcases hprogram with hprogram | ⟨settings, hprogram, hmem, rfl, hcrypto, hdemo⟩
  · rw [hprogram] at hstarts
    rw [← Option.some.inj (Except.ok.inj hstarts)]
  · rw [hprogram] at hstarts
    obtain ⟨mode, hmode, -, -, hlock, -⟩ := runAgent_ok hstarts
    cases hmode.symm.trans hdemo
    rw [hlock, hmem, hcrypto]
    rfl

/-- **A book has one runner at a time**, from before its file is opened until the runner ends, and
the demo account of the crypto agent is not traded by a runner and a round trip at once. Only the
file of the in-memory setting has no lock. -/
theorem one_runner_per_book (events : List (BookEvent δ)) :
    (∀ path : FilePath δ, path.name ≠ ":memory:" →
      {pid | (Lib.run BookWorld.step events empty).RunnerOn path pid}.Subsingleton) ∧
    ∀ dataDir : δ, {pid | (Lib.run BookWorld.step events empty).TradesDemo dataDir pid}.Subsingleton
    := by
  have hsound := sound_run events
  constructor
  · rintro path hname pid ⟨p, settings, hp, hprogram, hstage, s, hs, hpath⟩ qid
      ⟨q, settings', hq, hprogram', hstage', s', hs', hpath'⟩
    have hpstarts : runAgent settings = .ok (some p.task) := by
      have hstarts := p.starts
      rwa [hprogram] at hstarts
    have hqstarts : runAgent settings' = .ok (some q.task) := by
      have hstarts := q.starts
      rwa [hprogram'] at hstarts
    obtain ⟨mode, hfile, hlock⟩ := lock_of_runner hpstarts hs (hpath ▸ hname)
    obtain ⟨mode', hfile', hlock'⟩ := lock_of_runner hqstarts hs' (hpath' ▸ hname)
    obtain ⟨hdir, hmode, hagent⟩ :=
      dbPath_injective (hfile.symm.trans (hpath.trans (hpath'.symm.trans hfile')))
    rw [← hdir, ← hmode, ← hagent] at hlock'
    exact hsound.exclusive hp hq ⟨hstage, hlock⟩ ⟨hstage', hlock'⟩
  · intro dataDir pid hpid qid hqid
    obtain ⟨p, hp, hstage, hlock⟩ := lock_of_demo hpid
    obtain ⟨q, hq, hstage', hlock'⟩ := lock_of_demo hqid
    exact hsound.exclusive hp hq ⟨hstage, hlock⟩ ⟨hstage', hlock'⟩

/-- **No stale locks.** A process at the lock is turned away exactly if another one that lives is
behind the same lock. -/
theorem turned_away_iff (events : List (BookEvent δ)) {pid : ℕ} {p : BookProc δ}
    (hp : (Lib.run BookWorld.step events empty).procs.get? pid = some p)
    (hstage : p.stage = .locking) {l : FilePath δ} (hlock : p.task.lock = some l) :
    (Lib.run BookWorld.step (events ++ [.advance pid]) empty).procs.get? pid = none ↔
      ∃ qid q, (Lib.run BookWorld.step events empty).procs.get? qid = some q ∧
        q.stage ≠ .locking ∧ q.task.lock = some l := by
  have hsound := sound_run events
  rw [run_append]
  generalize Lib.run BookWorld.step events empty = w at hp hsound ⊢
  have hstep : Lib.run BookWorld.step [.advance pid] w = w.acquire pid p := by
    show ((w.procs.get? pid).map (w.advance pid)).getD w = _
    rw [hp, Option.map_some, Option.getD_some, BookWorld.advance, hstage]
  rw [hstep]
  have hholder : (∃ qid, w.locks.get? l = some qid) ↔ ∃ qid q, w.procs.get? qid = some q ∧
      q.stage ≠ .locking ∧ q.task.lock = some l := by
    refine exists_congr fun qid => ?_
    rw [hsound.locks l qid, hsound.held_iff qid l]
  rw [← hholder]
  cases hfree : w.locks.get? l with
  | some qid =>
      have htry : Locks.tryLock w.locks l pid = none := by rw [Locks.tryLock, hfree]
      have haway : w.acquire pid p = w.exit pid p := by
        simp only [BookWorld.acquire, hlock, htry]
      rw [haway]
      simp [BookWorld.exit]
  | none =>
      have htry : Locks.tryLock w.locks l pid = some (w.locks.set l pid) := by
        rw [Locks.tryLock, hfree]
      have hgot : ((w.acquire pid p).procs.get? pid).isSome := by
        simp [BookWorld.acquire, hlock, htry, BookWorld.put]
      constructor
      · intro hnone
        rw [hnone] at hgot
        cases hgot
      · rintro ⟨qid, hq⟩
        cases hq

theorem turned_away_second :
    (Lib.run BookWorld.step (twoRunners ++ [.advance 2]) empty).procs.get? 2 = none ↔
      ∃ qid q, (Lib.run BookWorld.step twoRunners empty).procs.get? qid = some q ∧
        q.stage ≠ .locking ∧ q.task.lock = some (lockPath "data" .paper "crypto") := by
  obtain ⟨p, hp, hstage, hlock⟩ : ∃ p,
      (Lib.run BookWorld.step twoRunners empty).procs.get? 2 = some p ∧ p.stage = .locking ∧
        p.task.lock = some (lockPath "data" .paper "crypto") := ⟨_, rfl, rfl, rfl⟩
  exact turned_away_iff twoRunners hp hstage hlock

/-! ## What becomes of a file -/

/-- Some program opens the file with this identity. -/
def OpensAs (path : FilePath δ) (identity : String × BookMode) : Prop :=
  ∃ program task s, BookProgram.task program = .ok (some task) ∧ task.storage = some s ∧
    s.path = path ∧ s.identity = identity

omit [DecidableEq δ] in
theorem opensAs_name {path : FilePath δ} {identity : String × BookMode}
    (h : OpensAs path identity) :
    path.name = ":memory:" ∨ path = dbPath path.dir identity.2 identity.1 := by
  obtain ⟨program, task, s, htask, hs, rfl, rfl⟩ := h
  cases program with
  | runner settings =>
      obtain ⟨mode, -, -, -, -, hstorage⟩ := runAgent_ok htask
      cases hs.symm.trans hstorage
      cases settings.inMemory with
      | true => exact .inl rfl
      | false => exact .inr rfl
  | roundTrip dataDir =>
      cases htask
      cases hs
  | rebaseline dataDir agent mode venue =>
      cases htask
      cases hs
      exact .inr rfl

omit [DecidableEq δ] in
/-- No book is called like the file of the in-memory setting. -/
theorem dbPath_ne_memory (dir : δ) (mode : BookMode) (agent : String) :
    (dbPath dir mode agent).name ≠ ":memory:" := by
  intro hname
  have hkey : (bookKey mode agent ++ ".db").toList = ":memory:".toList :=
    congrArg String.toList hname
  rw [String.toList_append, bookKey_toList] at hkey
  cases mode <;> simp [BookMode.name] at hkey

/-- The path of a book with real money. -/
def RealBook (path : FilePath δ) : Prop := ∃ agent, path = dbPath path.dir .real agent

omit [DecidableEq δ] in
theorem RealBook.of_opensAs {path : FilePath δ} (h : RealBook path)
    {identity : String × BookMode} (hopens : OpensAs path identity) : identity.2 = .real := by
  obtain ⟨agent, hpath⟩ := h
  rcases opensAs_name hopens with hname | hname
  · rw [hpath] at hname
    exact absurd hname (dbPath_ne_memory _ _ _)
  · exact (dbPath_injective (hname.symm.trans hpath)).2.1

omit [DecidableEq δ] in
theorem RealBook.of_fileMatch {path : FilePath δ} (h : RealBook path) {mode : BookMode}
    {agent : String} (hmatch : fileMatch path.name = some (mode, agent)) : mode = .real := by
  obtain ⟨agent', hpath⟩ := h
  obtain ⟨-, tail, -, hname⟩ := (fileMatch_iff _ _ _).mp hmatch
  rw [hpath] at hname
  have hkeys : BookMode.real.name.toList ++ '_' :: (agent'.toList ++ ".db".toList) =
      mode.name.toList ++ '_' :: (agent.toList ++ tail) := by
    simpa [dbPath, bookKey_toList] using hname
  exact (name_mode_cases hkeys).1.symm

/-- What one step does to the file at a path. -/
inductive FileStep (event : BookEvent δ) (path : FilePath δ) :
    Option BookFile → Option BookFile → Prop
  | same (f : Option BookFile) : FileStep event path f f
  | created (identity : String × BookMode) :
      OpensAs path identity → FileStep event path none (some ⟨none, []⟩)
  | stamped (identity : String × BookMode) (rows : List BookRow) :
      OpensAs path identity →
        FileStep event path (some ⟨none, rows⟩) (some ⟨some identity, rows⟩)
  | written (f : BookFile) (r : BookRow) :
      FileStep event path (some f) (some { f with rows := f.rows ++ [r] })
  | pruned (settings : StorageSettings) (mode : BookMode) (now : Time) (f : BookFile) :
      event.Retains → ¬ RealBook path →
        FileStep event path (some f) (some (f.prune settings mode now))
  | copied (source : FilePath δ) (f : Option BookFile) (g : BookFile) :
      event = .copy source path → FileStep event path f (some g)
  | removed (f : Option BookFile) : event = .remove path → FileStep event path f none

theorem fileStep_set {event : BookEvent δ} {files : Dict (FilePath δ) BookFile}
    {target : FilePath δ} {f : BookFile}
    (h : FileStep event target (files.get? target) (some f)) (path : FilePath δ) :
    FileStep event path (files.get? path) ((files.set target f).get? path) := by
  rw [Dict.get?_set]
  split
  next heq =>
    rw [← heq]
    exact h
  · exact .same _

omit [DecidableEq δ] in
theorem fileStep_pruned {event : BookEvent δ} (hevent : event.Retains) {path : FilePath δ}
    {mode : BookMode} (hmode : RealBook path → mode = .real) (settings : StorageSettings)
    (now : Time) (f : BookFile) :
    FileStep event path (some f) (some (f.prune settings mode now)) := by
  by_cases hreal : RealBook path
  · rw [hmode hreal, BookFile.prune_real]
    exact .same _
  · exact .pruned settings mode now f hevent hreal

theorem files_prune (w : BookWorld δ) (target path : FilePath δ) (settings : StorageSettings)
    (mode : BookMode) (now : Time) :
    (w.prune target settings mode now).files.get? path =
      if target = path then (w.files.get? path).map (BookFile.prune settings mode now)
      else w.files.get? path := by
  unfold BookWorld.prune
  split
  next f hf =>
    rw [Dict.get?_set]
    split
    next heq => rw [← heq, hf, Option.map_some]
    · rfl
  next hf =>
    split
    next heq => rw [← heq, hf, Option.map_none]
    · rfl

theorem fileStep_prune {event : BookEvent δ} (hevent : event.Retains) (w : BookWorld δ)
    {target : FilePath δ} {mode : BookMode} (hmode : RealBook target → mode = .real)
    (settings : StorageSettings) (now : Time) (path : FilePath δ) :
    FileStep event path (w.files.get? path)
      ((w.prune target settings mode now).files.get? path) := by
  rw [files_prune]
  split
  next heq =>
    rw [← heq]
    cases w.files.get? target with
    | none => exact .same _
    | some f => exact fileStep_pruned hevent hmode settings now f
  · exact .same _

omit [DecidableEq δ] in
theorem opensAs_dbPath (dataDir : δ) (mode : BookMode) (agent : String) :
    OpensAs (dbPath dataDir mode agent) (agent, mode) :=
  ⟨.rebaseline dataDir agent mode none, _, _, rfl, rfl, rfl, rfl⟩

theorem fileStep_pruneBook {event : BookEvent δ} (hevent : event.Retains) (w : BookWorld δ)
    (dataDir : δ) (mode : BookMode) (agent : String) (settings : StorageSettings) (now : Time)
    (path : FilePath δ) : FileStep event path (w.files.get? path)
      ((w.pruneBook (dbPath dataDir mode agent) settings mode now).files.get? path) := by
  have hopens := opensAs_dbPath dataDir mode agent
  rw [BookWorld.pruneBook, files_prune, Dict.get?_setDefault]
  split
  next heq =>
    rw [← heq]
    cases w.files.get? (dbPath dataDir mode agent) with
    | none => exact .created _ hopens
    | some f => exact fileStep_pruned hevent (fun h => h.of_opensAs hopens) settings now f
  · exact .same _

theorem fileStep_advance (w : BookWorld δ) {pid : ℕ} (p : BookProc δ) (path : FilePath δ) :
    FileStep (.advance pid) path (w.files.get? path) ((w.advance pid p).files.get? path) := by
  unfold BookWorld.advance
  split
  · unfold BookWorld.acquire
    split
    · exact .same _
    · split <;> exact .same _
  next s _ hs =>
    show FileStep _ _ _ ((w.files.setDefault s.path ⟨none, []⟩).get? path)
    rw [Dict.get?_setDefault]
    split
    next heq =>
      rw [← heq]
      cases hf : w.files.get? s.path with
      | none => exact .created s.identity ⟨p.program, p.task, s, p.starts, hs, rfl, rfl⟩
      | some f => exact .same _
    · exact .same _
  · unfold BookWorld.check
    split
    · exact .same _
    · exact .same _
    · split <;> exact .same _
  next s _ hs =>
    unfold BookWorld.stamp
    split
    next rows hf =>
      refine fileStep_set ?_ path
      rw [hf]
      exact .stamped s.identity rows ⟨p.program, p.task, s, p.starts, hs, rfl, rfl⟩
    · exact .same _
  · exact .same _

theorem fileStep (event : BookEvent δ) (w : BookWorld δ) (path : FilePath δ) :
    FileStep event path (w.files.get? path) ((BookWorld.step event w).files.get? path) := by
  cases event with
  | launch pid program =>
      show FileStep _ _ _ ((w.launch pid program).files.get? path)
      unfold BookWorld.launch
      split
      · split <;> exact .same _
      · exact .same _
  | advance pid =>
      show FileStep _ _ _ ((((w.procs.get? pid).map (w.advance pid)).getD w).files.get? path)
      cases w.procs.get? pid with
      | none => exact .same _
      | some p => exact fileStep_advance w p path
  | write pid snapshot now =>
      show FileStep _ _ _
        ((((w.procs.get? pid).map fun p => w.write p snapshot now).getD w).files.get? path)
      cases w.procs.get? pid with
      | none => exact .same _
      | some p =>
          show FileStep _ _ _ ((w.write p snapshot now).files.get? path)
          unfold BookWorld.write
          split
          next s _ _ =>
            split
            next f hf =>
              refine fileStep_set ?_ path
              rw [hf]
              exact .written f _
            · exact .same _
          · exact .same _
  | retain pid now =>
      show FileStep _ _ _
        ((((w.procs.get? pid).map fun p => w.retain p now).getD w).files.get? path)
      cases w.procs.get? pid with
      | none => exact .same _
      | some p =>
          show FileStep _ _ _ ((w.retain p now).files.get? path)
          unfold BookWorld.retain
          split
          next s _ _ hs =>
            -- a runner prunes in the mode that its file is opened with
            have hopens : OpensAs s.path s.identity :=
              ⟨p.program, p.task, s, p.starts, hs, rfl, rfl⟩
            have hevent : BookEvent.Retains (.retain pid now : BookEvent δ) := trivial
            exact fileStep_prune hevent w (fun h => h.of_opensAs hopens) _ now path
          · exact .same _
  | pruneBook dataDir mode agent settings now =>
      have hevent : BookEvent.Retains (.pruneBook dataDir mode agent settings now) := trivial
      exact fileStep_pruneBook hevent w dataDir mode agent settings now path
  | pruneFound target settings now =>
      unfold BookWorld.step
      dsimp only
      split
      next mode agent hmatch =>
        have hevent : BookEvent.Retains (.pruneFound target settings now) := trivial
        exact fileStep_prune hevent w (fun h => h.of_fileMatch hmatch) settings now path
      · exact .same _
  | stop pid =>
      show FileStep _ _ _ ((((w.procs.get? pid).map (w.exit pid)).getD w).files.get? path)
      cases w.procs.get? pid with
      | none => exact .same _
      | some p => exact .same _
  | copy source target =>
      unfold BookWorld.step
      dsimp only
      split
      · split
        · exact .same _
        · exact fileStep_set (.copied source _ _ rfl) path
      · exact .same _
  | remove target =>
      unfold BookWorld.step
      dsimp only
      split
      · exact .same _
      · rw [Dict.get?_erase]
        split
        next heq => exact .removed _ (by rw [heq])
        · exact .same _

/-- Nothing in the list of events replaces or removes the file at a path by hand. -/
def Untouched (path : FilePath δ) (events : List (BookEvent δ)) : Prop :=
  ∀ event ∈ events, event ≠ .remove path ∧ ∀ source, event ≠ .copy source path

/-- The rows that no retention pass takes. -/
def lasting (f : BookFile) : List BookRow := f.rows.filter fun r => r.kind ≠ .order

/-- A file lives on: it keeps its rows, possibly up to orders, and its identity once it has one. -/
structure LivesOn (pruned : Prop) (f g : BookFile) : Prop where
  lasting : lasting f <+: lasting g
  rows : ¬ pruned → f.rows <+: g.rows
  identity : ∀ identity, f.identity = some identity → g.identity = some identity

/-- A retention pass among the events may take orders from the file. -/
def Pruned (path : FilePath δ) (events : List (BookEvent δ)) : Prop :=
  ¬ RealBook path ∧ ∃ event ∈ events, event.Retains

theorem LivesOn.refl (pruned : Prop) (f : BookFile) : LivesOn pruned f f :=
  ⟨List.prefix_rfl, fun _ => List.prefix_rfl, fun _ => id⟩

theorem LivesOn.trans {first second both : Prop} (hfirst : first → both) (hsecond : second → both)
    {f g k : BookFile} (h : LivesOn first f g) (h' : LivesOn second g k) : LivesOn both f k where
  lasting := h.lasting.trans h'.lasting
  rows := fun hnot =>
    (h.rows fun hf => hnot (hfirst hf)).trans (h'.rows fun hs => hnot (hsecond hs))
  identity := fun identity hid => h'.identity identity (h.identity identity hid)

theorem lasting_prune (settings : StorageSettings) (mode : BookMode) (now : Time) (f : BookFile) :
    lasting (f.prune settings mode now) = lasting f := by
  unfold lasting BookFile.prune
  rw [List.filter_filter]
  refine List.filter_congr fun r _ => ?_
  rw [Bool.and_eq_left_iff_imp]
  intro hkind
  exact decide_eq_true fun hexpired => of_decide_eq_true hkind hexpired.1

omit [DecidableEq δ] in
theorem livesOn_step {event : BookEvent δ} {path : FilePath δ} (h : Untouched path [event])
    {f : BookFile} {after : Option BookFile} (hstep : FileStep event path (some f) after) :
    ∃ g, after = some g ∧ LivesOn (Pruned path [event]) f g := by
  obtain ⟨hremove, hcopy⟩ := h event List.mem_cons_self
  cases hstep with
  | same => exact ⟨f, rfl, .refl _ f⟩
  | stamped identity rows =>
      refine ⟨_, rfl, List.prefix_rfl, fun _ => List.prefix_rfl, fun identity h => ?_⟩
      cases h
  | written _ r =>
      refine ⟨_, rfl, ?_, fun _ => List.prefix_append _ _, fun _ => id⟩
      rw [lasting, lasting, List.filter_append]
      exact List.prefix_append _ _
  | pruned settings mode now _ hevent hreal =>
      refine ⟨_, rfl, ?_, fun hnot => ?_, fun _ => id⟩
      · rw [lasting_prune]
      · exact absurd ⟨hreal, event, List.mem_cons_self, hevent⟩ hnot
  | copied source _ g heq => exact absurd heq (hcopy source)
  | removed _ heq => exact absurd heq hremove

theorem livesOn_run {path : FilePath δ} {w : BookWorld δ} {f : BookFile}
    (h : w.files.get? path = some f) {events : List (BookEvent δ)}
    (huntouched : Untouched path events) :
    ∃ g, (Lib.run BookWorld.step events w).files.get? path = some g ∧
      LivesOn (Pruned path events) f g := by
  induction events generalizing w f with
  | nil => exact ⟨f, h, .refl _ f⟩
  | cons event rest ih =>
      have hstep := fileStep event w path
      rw [h] at hstep
      have hfirst : Untouched path [event] :=
        fun e he => huntouched e (by simp [List.mem_singleton.mp he])
      obtain ⟨f', hf', hfirst⟩ := livesOn_step hfirst hstep
      obtain ⟨g, hg, hrest⟩ := ih hf' fun e he => huntouched e (List.mem_cons_of_mem _ he)
      refine ⟨g, hg, hfirst.trans ?_ ?_ hrest⟩
      · rintro ⟨hreal, e, he, hevent⟩
        exact ⟨hreal, e, by simp [List.mem_singleton.mp he], hevent⟩
      · rintro ⟨hreal, e, he, hevent⟩
        exact ⟨hreal, e, List.mem_cons_of_mem _ he, hevent⟩

/-- The directory as the dashboard lists it. -/
def listing (w : BookWorld δ) (dir : δ) : List DirEntry :=
  (w.files.keys.filter fun path => path.dir = dir).map fun path => ⟨path.name, true⟩

/-- A file that was not copied by hand: the in-memory one, or a book under its own name. -/
def OwnName (path : FilePath δ) (f : BookFile) : Prop :=
  path.name = ":memory:" ∨ ∃ mode agent, path = dbPath path.dir mode agent ∧
    ∀ identity ∈ f.identity, identity = (agent, mode)

theorem ownName_step {event : BookEvent δ} (hcopy : ∀ source target, event ≠ .copy source target)
    {w : BookWorld δ} (h : ∀ path f, w.files.get? path = some f → OwnName path f)
    (path : FilePath δ) (g : BookFile)
    (hg : (BookWorld.step event w).files.get? path = some g) : OwnName path g := by
  have hstep := fileStep event w path
  rw [hg] at hstep
  generalize hbefore : w.files.get? path = before at hstep
  cases hstep with
  | same => exact h path g hbefore
  | created identity hopens =>
      refine (opensAs_name hopens).imp_right fun hpath => ⟨identity.2, identity.1, hpath, ?_⟩
      intro identity hid
      cases hid
  | stamped identity rows hopens =>
      refine (opensAs_name hopens).imp_right fun hpath => ⟨identity.2, identity.1, hpath, ?_⟩
      intro identity' hid
      cases hid
      rfl
  | written f r => exact h path f hbefore
  | pruned settings mode now f => exact h path f hbefore
  | copied source _ _ heq => exact absurd heq (hcopy source path)

theorem ownName_run {events : List (BookEvent δ)}
    (hcopy : ∀ source target, BookEvent.copy source target ∉ events) (path : FilePath δ)
    (f : BookFile) (hf : (Lib.run BookWorld.step events empty).files.get? path = some f) :
    OwnName path f := by
  induction events using List.reverseRecOn generalizing path f with
  | nil => cases hf
  | append_singleton events event ih =>
      rw [run_append] at hf
      refine ownName_step ?_ (ih fun source target hmem => hcopy source target
        (List.mem_append_left _ hmem)) path f hf
      rintro source target rfl
      exact hcopy source target (by simp)

theorem clean_listing {events : List (BookEvent δ)}
    (hcopy : ∀ source target, BookEvent.copy source target ∉ events) (dir : δ) :
    CleanNames ((Lib.run BookWorld.step events empty).listing dir) := by
  intro e he
  obtain ⟨path, hpath, rfl⟩ := List.mem_map.mp he
  obtain ⟨f, hf⟩ := (Dict.mem_keys_iff _ _).mp (List.mem_filter.mp hpath).1
  rcases ownName_run hcopy path f hf with hname | ⟨mode, agent, hname, -⟩
  · simp [hname]
  · rw [hname]
    simp [dbPath]

theorem mem_listing (w : BookWorld δ) (dir : δ) (name : String) :
    ⟨name, true⟩ ∈ w.listing dir ↔ ∃ f, w.files.get? ⟨dir, name⟩ = some f := by
  rw [listing, List.mem_map, ← Dict.mem_keys_iff]
  constructor
  · rintro ⟨path, hpath, heq⟩
    obtain ⟨hkey, hdir⟩ := List.mem_filter.mp hpath
    have hsame : path = ⟨dir, name⟩ := by
      rw [← of_decide_eq_true hdir, ← (DirEntry.mk.inj heq).1]
    exact hsame ▸ hkey
  · intro hkey
    exact ⟨_, List.mem_filter.mpr ⟨hkey, decide_eq_true rfl⟩, rfl⟩

/-- **The dashboard serves every book under its key.** Where no file was copied by hand, the book of
a configured agent in a mode is found exactly if its file is there, and all it shows are rows of
that agent in that mode. -/
theorem served_books {events : List (BookEvent δ)}
    (hcopy : ∀ source target, BookEvent.copy source target ∉ events) {agents : List String}
    {agent : String} (hmem : agent ∈ agents) (hagent : AgentName agent) (dir : δ)
    (mode : BookMode) :
    let w := Lib.run BookWorld.step events empty
    let found := findBook (openBooks agents (some (w.listing dir))) (some (bookKey mode agent))
    match w.files.get? (dbPath dir mode agent) with
    | none => found = none
    | some f => found = some ⟨bookKey mode agent, mode, agent, bookKey mode agent ++ ".db"⟩ ∧
        ∀ r ∈ f.rows, r.Of (agent, mode) := by
  have hclean := clean_listing hcopy dir
  have hrows := (sound_run events).rows
  have hnames := ownName_run hcopy
  dsimp only
  generalize Lib.run BookWorld.step events empty = w at hclean hrows hnames ⊢
  cases hfile : w.files.get? (dbPath dir mode agent) with
  | none =>
      rw [Option.eq_none_iff_forall_ne_some]
      intro b hb
      obtain ⟨-, -, -, hentry, -⟩ := (find_book_iff hclean _ b).mp hb
      obtain ⟨f, hf⟩ := (mem_listing w dir _).mp hentry
      rw [show w.files.get? ⟨dir, bookKey mode agent ++ ".db"⟩ = none from hfile] at hf
      cases hf
  | some f =>
      refine ⟨(find_book_iff hclean _ _).mpr
        ⟨hmem, hagent, rfl, (mem_listing w dir _).mpr ⟨f, hfile⟩, rfl, rfl⟩, ?_⟩
      have hbelongs := hrows _ f hfile
      unfold BookFile.Belongs at hbelongs
      cases hid : f.identity with
      | none =>
          rw [hid] at hbelongs
          rw [show f.rows = [] from hbelongs]
          intro r hr
          cases hr
      | some identity =>
          rw [hid] at hbelongs
          rcases hnames _ f hfile with hname | ⟨mode', agent', hname, hsame⟩
          · exact absurd hname (dbPath_ne_memory dir mode agent)
          · obtain ⟨-, rfl, rfl⟩ := dbPath_injective hname
            rw [← hsame identity (Option.mem_def.mpr hid)]
            exact hbelongs

theorem served_books_paper :
    let w := Lib.run BookWorld.step twoRunners empty
    let found := findBook (openBooks ["crypto"] (some (w.listing "data")))
      (some (bookKey .paper "crypto"))
    match w.files.get? (dbPath "data" .paper "crypto") with
    | none => found = none
    | some f => found = some ⟨bookKey .paper "crypto", .paper, "crypto",
          bookKey .paper "crypto" ++ ".db"⟩ ∧ ∀ r ∈ f.rows, r.Of ("crypto", .paper) := by
  have hcopy : ∀ source target, BookEvent.copy source target ∉ twoRunners := by simp [twoRunners]
  have hagent : AgentName "crypto" := by decide +kernel
  exact served_books hcopy List.mem_cons_self hagent "data" .paper

end BookWorld

end

end SmartyTrader
