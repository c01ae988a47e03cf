import SmartyTrader.Core.Books
import SmartyTrader.Lib.Runs

set_option autoImplicit false

/-! # The dashboard's process launcher

The dashboard starts and stops runners by the key of their book. It keeps a handle for each process
it has started and the process id in a file, so that it finds its runners again after a restart. In
between processes end, ids are used again by others, and requests wait for processes to start and
to stop while further requests come in.

`signals_own_book` says that a signal only ever reaches a runner of the book it was asked for, or a
process that took over the id after the check, and `readopted` that a runner which was recorded and
still runs is managed, whatever the dashboard does for other books and however often it restarts.

The command line behind an id is read in one step and the signal is sent in a later one. The call
that signals a child by its handle looks at its return code itself, and an id is free only after the
child was reaped; that is one step.
-/

namespace SmartyTrader

open Lib

/-! ## Commands -/

section

-- `sys.executable`
variable (executable : String)

/-- The module of an agent's runner. -/
def runnerModule (agent : String) : String := "scripts.run_" ++ agent ++ "_agent"

/-- `default_command`, `none` for what is not the key of a book. -/
def defaultCommand (key : String) : Option (List String) :=
  (parseBookKey key).map fun (mode, agent) =>
    [executable, "-m", runnerModule agent, "--mode", mode.name]

/-- `"--mode"` with this mode behind it. -/
def hasMode (mode : BookMode) : List String → Bool
  | [] => false
  | arg :: rest => (arg = "--mode" && rest.head? = some mode.name) || hasMode mode rest

/-- `_cmdline_matches`, on the arguments of a process. -/
def cmdlineMatches (argv : List String) (key : String) : Bool :=
  match parseBookKey key with
  | none => false
  | some (mode, agent) =>
      argv.any (fun arg => (runnerModule agent).toList <:+: arg.toList) && hasMode mode argv

/-! ## The world of the launcher -/

/-- A process of the operating system; `birth` tells processes with the same id apart. -/
structure OsProcess where
  birth : ℕ
  argv : List String
  deriving DecidableEq

/-- The handle of a child. -/
structure ChildProcess where
  pid : ℕ
  birth : ℕ
  deriving DecidableEq

/-- A signal that is still to be sent. The command line behind the id was read when `births`
processes had come up. -/
structure PendingSignal where
  key : String
  pid : ℕ
  births : ℕ
  kill : Bool
  deriving DecidableEq

/-- A stop that waits for its process, by handle or by process id, or is about to signal an id. -/
inductive Stopping where
  | waiting (key : String) (child : ChildProcess)
  | sending (s : PendingSignal)
  | polling (key : String) (pid : ℕ)
  deriving DecidableEq

/-- The book that is stopped. -/
def Stopping.key : Stopping → String
  | .waiting key _ => key
  | .sending s => s.key
  | .polling key _ => key

/-- A signal that reached a process, sent for the book `key`, by a handle or by an id that was
checked when `births` processes had come up. -/
structure SentSignal where
  key : String
  handle : Bool
  births : ℕ
  process : OsProcess
  kill : Bool
  deriving DecidableEq

/-- The process is a runner of the book, or it took over an id that had been checked. -/
def SentSignal.Fair (s : SentSignal) : Prop :=
  cmdlineMatches s.process.argv s.key = true ∨ s.handle = false ∧ s.births ≤ s.process.birth

structure LauncherWorld where
  processes : Dict ℕ OsProcess
  births : ℕ
  children : Dict String ChildProcess
  /-- The pid files, by book. -/
  pidfiles : Dict String ℕ
  /-- Starts that are past their check, with the child once it is there. -/
  starting : Dict ℕ (String × Option ChildProcess)
  stopping : Dict ℕ Stopping
  signals : List SentSignal

namespace LauncherWorld

def empty : LauncherWorld :=
  ⟨Dict.empty, 0, Dict.empty, Dict.empty, Dict.empty, Dict.empty, []⟩

/-- The return code of a child is not there yet. -/
def Running (w : LauncherWorld) (c : ChildProcess) : Prop :=
  ∃ p ∈ w.processes.get? c.pid, p.birth = c.birth

instance (w : LauncherWorld) (c : ChildProcess) : Decidable (w.Running c) :=
  inferInstanceAs (Decidable (∃ p ∈ w.processes.get? c.pid, p.birth = c.birth))

/-- The process with this id is a runner of the book. -/
def RunsBook (w : LauncherWorld) (pid : ℕ) (key : String) : Prop :=
  ∃ p ∈ w.processes.get? pid, cmdlineMatches p.argv key = true

instance (w : LauncherWorld) (pid : ℕ) (key : String) : Decidable (w.RunsBook pid key) :=
  inferInstanceAs (Decidable (∃ p ∈ w.processes.get? pid, cmdlineMatches p.argv key = true))

/-- `_forget`. -/
def forget (w : LauncherWorld) (key : String) : LauncherWorld :=
  { w with children := w.children.erase key, pidfiles := w.pidfiles.erase key }

/-- `_adopted_pid`: a file that misleads is removed. -/
def adoptedPid (w : LauncherWorld) (key : String) : Option ℕ × LauncherWorld :=
  match w.pidfiles.get? key with
  | none => (none, w)
  | some pid =>
      if w.RunsBook pid key then (some pid, w)
      else (none, { w with pidfiles := w.pidfiles.erase key })

/-- `managed_pid`. -/
def managedPid (w : LauncherWorld) (key : String) : Option ℕ × LauncherWorld :=
  match w.children.get? key with
  | none => w.adoptedPid key
  | some c => if w.Running c then (some c.pid, w) else (w.forget key).adoptedPid key

/-- `os.kill`; without a process nobody gets the signal. -/
def signal (w : LauncherWorld) (handle : Bool) (s : PendingSignal) : LauncherWorld :=
  match w.processes.get? s.pid with
  | none => w
  | some p => { w with signals := w.signals ++ [⟨s.key, handle, s.births, p, s.kill⟩] }

/-- `Process.terminate` and `Process.kill`: nothing happens once the child has its return code. -/
def signalChild (w : LauncherWorld) (key : String) (c : ChildProcess) (kill : Bool) :
    LauncherWorld :=
  if w.Running c then w.signal true ⟨key, c.pid, w.births, kill⟩ else w

/-! ## Requests -/

/-- `start`, up to the spawn. -/
def startRequest (w : LauncherWorld) (op : ℕ) (key : String) : LauncherWorld :=
  match w.managedPid key with
  | (some _, w') => w'
  | (none, w') =>
      if (defaultCommand executable key).isSome then
        { w' with starting := w'.starting.set op (key, none) }
      else w'

/-- The operating system makes a process, under an id that is free. -/
def spawn (w : LauncherWorld) (pid : ℕ) (argv : List String) : LauncherWorld :=
  { w with processes := w.processes.set pid ⟨w.births, argv⟩, births := w.births + 1 }

/-- The process of a start comes up. -/
def spawned (w : LauncherWorld) (op pid : ℕ) : LauncherWorld :=
  match w.starting.get? op, w.processes.get? pid with
  | some (key, none), none =>
      match defaultCommand executable key with
      | some argv =>
          { w.spawn pid argv with
            starting := w.starting.set op (key, some ⟨pid, w.births⟩) }
      | none => w
  | _, _ => w

/-- `start`, behind the spawn. -/
def recorded (w : LauncherWorld) (op : ℕ) : LauncherWorld :=
  match w.starting.get? op with
  | some (key, some c) =>
      { w with
        children := w.children.set key c
        pidfiles := w.pidfiles.set key c.pid
        starting := w.starting.erase op }
  | _ => w

/-- A stop leaves the book to others. -/
def endStop (w : LauncherWorld) (op : ℕ) (key : String) : LauncherWorld :=
  { w.forget key with stopping := w.stopping.erase op }

/-- `stop`, up to its first wait or to the signal to an adopted id. -/
def stopRequest (w : LauncherWorld) (op : ℕ) (key : String) : LauncherWorld :=
  match w.managedPid key with
  | (none, w') => w'
  | (some pid, w') =>
      match (w'.children.get? key).filter fun c => w'.Running c with
      | some c =>
          let w'' := w'.signalChild key c false
          { w'' with stopping := w''.stopping.set op (.waiting key c) }
      | none => { w' with stopping := w'.stopping.set op (.sending ⟨key, pid, w'.births, false⟩) }

/-- `stop`, its `os.kill`; `ProcessLookupError` ends the stop, and so does a kill. -/
def stopSends (w : LauncherWorld) (op : ℕ) : LauncherWorld :=
  match w.stopping.get? op with
  | some (.sending s) =>
      let w' := w.signal false s
      if s.kill ∨ (w.processes.get? s.pid).isNone then w'.endStop op s.key
      else { w' with stopping := w'.stopping.set op (.polling s.key s.pid) }
  | _ => w

/-- `stop`, once its process has ended. -/
def stopEnds (w : LauncherWorld) (op : ℕ) : LauncherWorld :=
  match w.stopping.get? op with
  | some (.waiting key c) => if w.Running c then w else w.endStop op key
  | some (.polling key pid) =>
      -- whoever has the id keeps the loop waiting
      if (w.processes.get? pid).isSome then w else w.endStop op key
  | _ => w

/-- `stop`, when it has waited long enough. -/
def stopForces (w : LauncherWorld) (op : ℕ) : LauncherWorld :=
  match w.stopping.get? op with
  | some (.waiting key c) => (w.signalChild key c true).endStop op key
  | some (.polling key pid) =>
      -- the id may be somebody else's by now, so the command line is read again
      if w.RunsBook pid key then
        { w with stopping := w.stopping.set op (.sending ⟨key, pid, w.births, true⟩) }
      else w.endStop op key
  | _ => w

end LauncherWorld

/-- What happens; each request has a number of its own. -/
inductive LauncherEvent where
  | look (key : String)
  | startRequest (op : ℕ) (key : String)
  | spawned (op pid : ℕ)
  | recorded (op : ℕ)
  | stopRequest (op : ℕ) (key : String)
  | stopSends (op : ℕ)
  | stopEnds (op : ℕ)
  | stopForces (op : ℕ)
  /-- Somebody else starts a process. -/
  | foreign (pid : ℕ) (argv : List String)
  | exits (pid : ℕ)
  /-- The dashboard ends and starts again; its children live on. -/
  | restart

namespace LauncherWorld

def step (event : LauncherEvent) (w : LauncherWorld) : LauncherWorld :=
  match event with
  | .look key => (w.managedPid key).2
  | .startRequest op key =>
      if (w.starting.get? op).isSome then w else w.startRequest executable op key
  | .spawned op pid => w.spawned executable op pid
  | .recorded op => w.recorded op
  | .stopRequest op key => if (w.stopping.get? op).isSome then w else w.stopRequest op key
  | .stopSends op => w.stopSends op
  | .stopEnds op => w.stopEnds op
  | .stopForces op => w.stopForces op
  | .foreign pid argv => if (w.processes.get? pid).isSome then w else w.spawn pid argv
  | .exits pid => { w with processes := w.processes.erase pid }
  | .restart => { w with children := Dict.empty, starting := Dict.empty, stopping := Dict.empty }

end LauncherWorld

/-! ## Commands tell the books apart -/

/-- The interpreter's path is no runner module and no option. -/
def PlainExecutable : Prop :=
  ¬ "scripts.run_".toList <:+: executable.toList ∧ executable ≠ "--mode"

instance : Decidable (PlainExecutable executable) :=
  inferInstanceAs (Decidable (¬ _ ∧ _))

variable {executable}

theorem parseBookKey_iff (key : String) (mode : BookMode) (agent : String) :
    parseBookKey key = some (mode, agent) ↔ AgentName agent ∧ key = bookKey mode agent := by
  have hclean : (key ++ ".db").toList.getLast? ≠ some '\n' := by simp
  rw [parseBookKey, fileMatch_clean hclean]
  simp

theorem defaultCommand_iff (key : String) (argv : List String) :
    defaultCommand executable key = some argv ↔ ∃ mode agent, AgentName agent ∧
      key = bookKey mode agent ∧
        argv = [executable, "-m", runnerModule agent, "--mode", mode.name] := by
  rw [defaultCommand, Option.map_eq_some_iff]
  constructor
  · rintro ⟨⟨mode, agent⟩, hparse, rfl⟩
    obtain ⟨hagent, hkey⟩ := (parseBookKey_iff key mode agent).mp hparse
    exact ⟨mode, agent, hagent, hkey, rfl⟩
  · rintro ⟨mode, agent, hagent, hkey, rfl⟩
    exact ⟨(mode, agent), (parseBookKey_iff key mode agent).mpr ⟨hagent, hkey⟩, rfl⟩

/-- What the launcher starts for a book it takes for a runner of the book. -/
theorem cmdlineMatches_defaultCommand {key : String} {argv : List String}
    (h : defaultCommand executable key = some argv) : cmdlineMatches argv key = true := by
  obtain ⟨mode, agent, hagent, rfl, rfl⟩ := (defaultCommand_iff key argv).mp h
  rw [cmdlineMatches, (parseBookKey_iff _ mode agent).mpr ⟨hagent, rfl⟩]
  simp [hasMode]

theorem not_mem_agentName {agent : String} (h : AgentName agent) {c : Char}
    (hc : isAgentChar c = false) : c ∉ agent.toList := by
  intro hmem
  rw [h.2 c hmem] at hc
  cases hc

theorem runnerModule_toList (agent : String) :
    (runnerModule agent).toList
      = "scripts".toList ++ '.' :: ("run".toList ++ '_' :: (agent.toList ++ '_' :: "agent".toList))
    := by
  simp [runnerModule]

/-- A runner module is part of another one only if it is the same. -/
theorem eq_of_runnerModule {agent agent' : String} (h' : AgentName agent')
    (hin : (runnerModule agent).toList <:+: (runnerModule agent').toList) : agent = agent' := by
  obtain ⟨before, after, hsplit⟩ := hin
  rw [runnerModule_toList, runnerModule_toList] at hsplit
  have hdot : '.' ∉ agent'.toList := not_mem_agentName h' (by decide)
  have hline : '_' ∉ agent'.toList := not_mem_agentName h' (by decide)
  -- cut both sides at the dot, and what follows at the underscores
  have hcut : (before ++ "scripts".toList) ++ '.' ::
      (("run".toList ++ '_' :: (agent.toList ++ '_' :: "agent".toList)) ++ after)
        = "scripts".toList ++ '.' :: ("run".toList ++ '_' ::
          (agent'.toList ++ '_' :: "agent".toList)) := by
    simpa using hsplit
  have htail := ((List.append_cons_inj_of_notMem (by decide)
    (by simp [hdot])).mp hcut.symm).2.2
  have hname : agent'.toList ++ '_' :: "agent".toList
      = agent.toList ++ '_' :: ("agent".toList ++ after) := by
    simpa using htail
  have hsame := ((List.append_cons_inj_of_notMem hline (by decide)).mp hname).1
  exact (String.toList_inj.mp hsame).symm

theorem name_ne_option (mode : BookMode) : mode.name ≠ "--mode" := by
  cases mode <;> decide

theorem name_injective {mode mode' : BookMode} (h : mode.name = mode'.name) : mode = mode' := by
  cases mode <;> cases mode' <;> simp_all [BookMode.name]

theorem runnerModule_ne_option (agent : String) : runnerModule agent ≠ "--mode" := by
  intro h
  have hlist := congrArg String.toList h
  rw [runnerModule_toList] at hlist
  simp at hlist

/-- A short text holds no runner module. -/
theorem not_infix_of_length {agent : String} {arg : Text} (h : arg.length < 12) :
    ¬ (runnerModule agent).toList <:+: arg := by
  intro hin
  have hlen := hin.length_le
  rw [runnerModule_toList] at hlen
  simp at hlen
  omega

/-- **A runner of one book is not taken for the runner of another.** -/
theorem key_of_cmdlineMatches (hplain : PlainExecutable executable) {key key' : String}
    {argv : List String} (h : cmdlineMatches argv key = true)
    (h' : defaultCommand executable key' = some argv) : key' = key := by
  obtain ⟨mode', agent', hagent', rfl, rfl⟩ := (defaultCommand_iff key' argv).mp h'
  unfold cmdlineMatches at h
  split at h
  · cases h
  next mode agent hparse =>
    obtain ⟨hagent, rfl⟩ := (parseBookKey_iff key mode agent).mp hparse
    rw [Bool.and_eq_true] at h
    obtain ⟨hmodule, hmode⟩ := h
    have hsameAgent : agent = agent' := by
      have hexecutable : ¬ (runnerModule agent).toList <:+: executable.toList := by
        intro hin
        refine hplain.1 (List.IsInfix.trans ?_ hin)
        refine (List.IsPrefix.isInfix ⟨agent.toList ++ "_agent".toList, ?_⟩)
        simp [runnerModule]
      have hshort : ∀ arg : String, arg.toList.length < 12 →
          ¬ (runnerModule agent).toList <:+: arg.toList :=
        fun arg hlen => not_infix_of_length hlen
      have hname : mode'.name.toList.length < 12 := by cases mode' <;> decide
      simp only [List.any_cons, List.any_nil, Bool.or_false, Bool.or_eq_true,
        decide_eq_true_eq] at hmodule
      rcases hmodule with hin | hin | hin | hin | hin
      · exact absurd hin hexecutable
      · exact absurd hin (hshort "-m" (by decide))
      · exact eq_of_runnerModule hagent' hin
      · exact absurd hin (hshort "--mode" (by decide))
      · exact absurd hin (hshort _ hname)
    have hsameMode : mode' = mode := by
      have hm : "-m" ≠ "--mode" := by decide
      simp [hasMode, hplain.2, hm, runnerModule_ne_option, name_ne_option] at hmode
      exact name_injective hmode
    rw [hsameAgent, hsameMode]

/-! ## What holds of every world -/

namespace LauncherWorld

/-- The launcher has the handle in hand for a book. -/
def Holds (w : LauncherWorld) (key : String) (c : ChildProcess) : Prop :=
  w.children.get? key = some c ∨ (∃ op, w.starting.get? op = some (key, some c)) ∨
    ∃ op, w.stopping.get? op = some (.waiting key c)

/-- Whoever has the id is a runner of the book, or came up after the check. -/
structure Checked (w : LauncherWorld) (s : PendingSignal) : Prop where
  births : s.births ≤ w.births
  runs : ∀ p, w.processes.get? s.pid = some p →
    cmdlineMatches p.argv s.key = true ∨ s.births ≤ p.birth

/-- A process under a handle was started for the book, an id that is to be signalled was checked,
and every signal reached a runner of its book or a process that came up after the check. -/
structure Sound (executable : String) (w : LauncherWorld) : Prop where
  births : ∀ pid p, w.processes.get? pid = some p → p.birth < w.births
  old : ∀ key c, w.Holds key c → c.birth < w.births
  own : ∀ key c, w.Holds key c → ∀ p, w.processes.get? c.pid = some p → p.birth = c.birth →
    defaultCommand executable key = some p.argv
  sending : ∀ op s, w.stopping.get? op = some (.sending s) → w.Checked s
  signals : ∀ s ∈ w.signals, SentSignal.Fair s

theorem sound_empty : Sound executable empty where
  births := by
    intro pid p h
    cases h
  old := by
    rintro key c (h | ⟨op, h⟩ | ⟨op, h⟩) <;> cases h
  own := by
    rintro key c (h | ⟨op, h⟩ | ⟨op, h⟩) <;> cases h
  sending := by
    intro op s h
    cases h
  signals := by
    intro s h
    cases h

/-- Nothing comes up between the worlds: no process, no handle, and no signal but good ones. -/
structure Quiet (w w' : LauncherWorld) : Prop where
  processes : ∀ pid p, w'.processes.get? pid = some p → w.processes.get? pid = some p
  births : w'.births = w.births
  holds : ∀ key c, w'.Holds key c → w.Holds key c
  sending : ∀ op s, w'.stopping.get? op = some (.sending s) →
    w.stopping.get? op = some (.sending s) ∨ w'.Checked s
  signals : ∀ s ∈ w'.signals, s ∈ w.signals ∨ SentSignal.Fair s

theorem Checked.later {w w' : LauncherWorld} {s : PendingSignal} (h : w.Checked s)
    (hprocesses : ∀ p, w'.processes.get? s.pid = some p →
      w.processes.get? s.pid = some p ∨ w.births ≤ p.birth)
    (hbirths : w.births ≤ w'.births) : w'.Checked s where
  births := h.births.trans hbirths
  runs p hp := (hprocesses p hp).elim (h.runs p) fun hnew => .inr (h.births.trans hnew)

theorem Checked.quiet {w w' : LauncherWorld} {s : PendingSignal} (h : w.Checked s)
    (hq : Quiet w w') : w'.Checked s :=
  h.later (fun p hp => .inl (hq.processes _ p hp)) hq.births.ge

theorem Quiet.refl (w : LauncherWorld) : Quiet w w :=
  ⟨fun _ _ => id, rfl, fun _ _ => id, fun _ _ => .inl, fun _ h => .inl h⟩

theorem Quiet.trans {w w' w'' : LauncherWorld} (h : Quiet w w') (h' : Quiet w' w'') :
    Quiet w w'' where
  processes pid p hp := h.processes pid p (h'.processes pid p hp)
  births := h'.births.trans h.births
  holds key c hc := h.holds key c (h'.holds key c hc)
  sending op s hs := (h'.sending op s hs).elim
    (fun hs' => (h.sending op s hs').imp_right fun hc => hc.quiet h') .inr
  signals s hs := (h'.signals s hs).elim (h.signals s) .inr

theorem Sound.quiet {w w' : LauncherWorld} (h : Sound executable w) (hq : Quiet w w') :
    Sound executable w' where
  births pid p hp := hq.births ▸ h.births pid p (hq.processes pid p hp)
  old key c hc := hq.births ▸ h.old key c (hq.holds key c hc)
  own key c hc p hp := h.own key c (hq.holds key c hc) p (hq.processes _ p hp)
  sending op s hs := (hq.sending op s hs).elim (fun hs' => (h.sending op s hs').quiet hq) id
  signals s hs := (hq.signals s hs).elim (h.signals s) id

theorem get?_of_erase {κ ν : Type} [DecidableEq κ] {d : Dict κ ν} {k j : κ} {v : ν}
    (h : (d.erase k).get? j = some v) : d.get? j = some v := by
  rw [Dict.get?_erase] at h
  split at h
  · cases h
  · exact h

theorem quiet_forget (w : LauncherWorld) (key : String) : Quiet w (w.forget key) where
  processes _ _ := id
  births := rfl
  holds _ _ := Or.imp_left get?_of_erase
  sending _ _ := .inl
  signals _ h := .inl h

theorem quiet_adoptedPid (w : LauncherWorld) (key : String) : Quiet w (w.adoptedPid key).2 := by
  unfold adoptedPid
  split
  · exact .refl w
  · split
    · exact .refl w
    · exact ⟨fun _ _ => id, rfl, fun _ _ => id, fun _ _ => .inl, fun _ h => .inl h⟩

theorem quiet_managedPid (w : LauncherWorld) (key : String) : Quiet w (w.managedPid key).2 := by
  unfold managedPid
  split
  · exact quiet_adoptedPid w key
  · split
    · exact .refl w
    · exact (quiet_forget w key).trans (quiet_adoptedPid _ key)

theorem filed_signal (w : LauncherWorld) (handle : Bool) (s : PendingSignal) :
    (w.signal handle s).children = w.children ∧ (w.signal handle s).pidfiles = w.pidfiles := by
  unfold signal
  split <;> exact ⟨rfl, rfl⟩

theorem filed_signalChild (w : LauncherWorld) (key : String) (c : ChildProcess) (kill : Bool) :
    (w.signalChild key c kill).children = w.children ∧
      (w.signalChild key c kill).pidfiles = w.pidfiles := by
  unfold signalChild
  split
  · exact filed_signal w true _
  · exact ⟨rfl, rfl⟩

theorem quiet_signal {w : LauncherWorld} {handle : Bool} {s : PendingSignal}
    (h : ∀ p, w.processes.get? s.pid = some p →
      SentSignal.Fair ⟨s.key, handle, s.births, p, s.kill⟩) :
    Quiet w (w.signal handle s) := by
  unfold signal
  split
  · exact .refl w
  next p hp =>
    refine ⟨fun _ _ => id, rfl, fun _ _ => id, fun _ _ => .inl, ?_⟩
    intro t ht
    rcases List.mem_append.mp ht with ht | ht
    · exact .inl ht
    · rw [List.mem_singleton.mp ht]
      exact .inr (h p hp)

/-- A request goes over to another stage. -/
theorem quiet_stopping {w : LauncherWorld} (op : ℕ) {stop : Stopping}
    (hwaiting : ∀ key c, stop = .waiting key c → w.Holds key c)
    (hsending : ∀ s, stop = .sending s → w.Checked s) :
    Quiet w { w with stopping := w.stopping.set op stop } where
  processes _ _ := id
  births := rfl
  holds := by
    rintro key c (hc | hc | ⟨o, hc⟩)
    · exact .inl hc
    · exact .inr (.inl hc)
    · rw [Dict.get?_set] at hc
      split at hc
      · exact hwaiting key c (Option.some.inj hc)
      · exact .inr (.inr ⟨o, hc⟩)
  sending := by
    intro o s hs
    rw [Dict.get?_set] at hs
    split at hs
    · obtain ⟨hbirths, hruns⟩ := hsending s (Option.some.inj hs)
      exact .inr ⟨hbirths, hruns⟩
    · exact .inl hs
  signals _ h := .inl h

/-- The command line was read just now. -/
theorem checked_of_runsBook {w : LauncherWorld} {key : String} {pid : ℕ} (h : w.RunsBook pid key)
    (kill : Bool) : w.Checked ⟨key, pid, w.births, kill⟩ := by
  refine ⟨le_rfl, fun p hp => ?_⟩
  obtain ⟨q, hq, hmatch⟩ := h
  cases hp.symm.trans hq
  exact .inl hmatch

theorem Sound.runsBook {w : LauncherWorld} (h : Sound executable w) {key : String}
    {c : ChildProcess} (hc : w.Holds key c) (hrun : w.Running c) : w.RunsBook c.pid key := by
  obtain ⟨p, hp, hbirth⟩ := hrun
  exact ⟨p, hp, cmdlineMatches_defaultCommand (h.own key c hc p hp hbirth)⟩

theorem Sound.quiet_signalChild {w : LauncherWorld} (h : Sound executable w) {key : String}
    {c : ChildProcess} (hc : w.Holds key c) (kill : Bool) :
    Quiet w (w.signalChild key c kill) := by
  unfold signalChild
  split
  next hrun =>
    refine quiet_signal fun p hp => ?_
    obtain ⟨q, hq, hmatch⟩ := h.runsBook hc hrun
    cases hp.symm.trans hq
    exact .inl hmatch
  · exact .refl w

/-- A process id that is managed is the child's, or it was checked. -/
theorem managedPid_some {w : LauncherWorld} {key : String} {pid : ℕ}
    (h : (w.managedPid key).1 = some pid) :
    (w.managedPid key).2 = w ∧
      ((∃ c, w.children.get? key = some c ∧ w.Running c) ∨ w.RunsBook pid key) := by
  have hadopted : ∀ v : LauncherWorld, (v.adoptedPid key).1 = some pid →
      (v.adoptedPid key).2 = v ∧ v.RunsBook pid key := by
    intro v hv
    unfold adoptedPid at hv ⊢
    split at hv
    · cases hv
    · split at hv
      next hruns =>
        cases hv
        rw [if_pos hruns]
        exact ⟨rfl, hruns⟩
      · cases hv
  unfold managedPid at h ⊢
  split at h
  next hnone =>
    obtain ⟨hsame, hruns⟩ := hadopted w h
    exact ⟨hsame, .inr hruns⟩
  next c hc =>
    split at h
    next hrun =>
      rw [if_pos hrun]
      exact ⟨rfl, .inl ⟨c, hc, hrun⟩⟩
    · -- what was forgotten is not adopted
      have hgone : ((w.forget key).adoptedPid key).1 = none := by
        simp [adoptedPid, forget]
      rw [hgone] at h
      cases h

theorem Sound.startRequest {w : LauncherWorld} (h : Sound executable w) (op : ℕ) (key : String) :
    Sound executable (w.startRequest executable op key) := by
  have hquiet := quiet_managedPid w key
  unfold LauncherWorld.startRequest
  split
  next pid w' hmanaged =>
    rw [hmanaged] at hquiet
    exact h.quiet hquiet
  next w' hmanaged =>
    rw [hmanaged] at hquiet
    split
    · refine h.quiet (hquiet.trans ⟨fun _ _ => id, rfl, ?_, fun _ _ => .inl, fun _ h => .inl h⟩)
      rintro k c (hc | ⟨o, hc⟩ | hc)
      · exact .inl hc
      · rw [Dict.get?_set] at hc
        split at hc
        · cases hc
        · exact .inr (.inl ⟨o, hc⟩)
      · exact .inr (.inr hc)
    · exact h.quiet hquiet

/-- A process under a free id is not one that the launcher has a handle of. -/
theorem Sound.spawn {w : LauncherWorld} (h : Sound executable w) (pid : ℕ) (argv : List String) :
    Sound executable (w.spawn pid argv) where
  births := by
    intro j p hp
    have hsucc : w.births < (w.spawn pid argv).births := Nat.lt_succ_self _
    rw [LauncherWorld.spawn, Dict.get?_set] at hp
    split at hp
    · cases hp
      exact hsucc
    · exact (h.births j p hp).trans hsucc
  old key c hc := Nat.lt_succ_of_lt (h.old key c hc)
  own := by
    intro key c hc p hp hbirth
    rw [LauncherWorld.spawn, Dict.get?_set] at hp
    split at hp
    · -- the new process is younger than every handle
      cases hp
      have hold := h.old key c hc
      rw [← hbirth] at hold
      exact absurd hold (lt_irrefl _)
    · exact h.own key c hc p hp hbirth
  sending := by
    intro op s hs
    refine (h.sending op s hs).later (fun p hp => ?_) (Nat.le_succ _)
    rw [LauncherWorld.spawn, Dict.get?_set] at hp
    split at hp
    · -- the new process came up after every check
      cases hp
      exact .inr le_rfl
    · exact .inl hp
  signals := h.signals

theorem Sound.spawned {w : LauncherWorld} (h : Sound executable w) (op pid : ℕ) :
    Sound executable (w.spawned executable op pid) := by
  unfold LauncherWorld.spawned
  split
  next key hstart hfree =>
    split
    next argv hcommand =>
      have hspawn := h.spawn pid argv
      refine ⟨hspawn.births, ?_, ?_, ?_, hspawn.signals⟩
      · rintro k c (hc | ⟨o, hc⟩ | hc)
        · exact hspawn.old k c (.inl hc)
        · rw [Dict.get?_set] at hc
          split at hc
          · cases hc
            exact Nat.lt_succ_self _
          · exact hspawn.old k c (.inr (.inl ⟨o, hc⟩))
        · exact hspawn.old k c (.inr (.inr hc))
      · rintro k c (hc | ⟨o, hc⟩ | hc)
        · exact hspawn.own k c (.inl hc)
        · rw [Dict.get?_set] at hc
          split at hc
          · cases hc
            intro p hp _
            rw [LauncherWorld.spawn, Dict.get?_set_self] at hp
            cases hp
            exact hcommand
          · exact hspawn.own k c (.inr (.inl ⟨o, hc⟩))
        · exact hspawn.own k c (.inr (.inr hc))
      · intro o s hs
        obtain ⟨hbirths, hruns⟩ := hspawn.sending o s hs
        exact ⟨hbirths, hruns⟩
    · exact h
  · exact h

theorem Sound.recorded {w : LauncherWorld} (h : Sound executable w) (op : ℕ) :
    Sound executable (w.recorded op) := by
  unfold LauncherWorld.recorded
  split
  next key c hstart =>
    refine h.quiet ⟨fun _ _ => id, rfl, ?_, fun _ _ => .inl, fun _ h => .inl h⟩
    rintro k d (hd | ⟨o, hd⟩ | hd)
    · rw [Dict.get?_set] at hd
      split at hd
      next heq =>
        cases hd
        exact .inr (.inl ⟨op, heq ▸ hstart⟩)
      · exact .inl hd
    · exact .inr (.inl ⟨o, get?_of_erase hd⟩)
    · exact .inr (.inr hd)
  · exact h

theorem Sound.stopRequest {w : LauncherWorld} (h : Sound executable w) (op : ℕ) (key : String) :
    Sound executable (w.stopRequest op key) := by
  have hquiet := quiet_managedPid w key
  unfold LauncherWorld.stopRequest
  split
  next w' hmanaged =>
    rw [hmanaged] at hquiet
    exact h.quiet hquiet
  next pid w' hmanaged =>
    have hpid : (w.managedPid key).1 = some pid := by rw [hmanaged]
    obtain ⟨hsame, hcase⟩ := managedPid_some hpid
    rw [hmanaged] at hsame
    have hw : w = w' := hsame.symm
    subst hw
    split
    next c hc =>
      obtain ⟨hchild, -⟩ := Option.filter_eq_some_iff.mp hc
      have hsignal := h.quiet_signalChild (.inl hchild) false
      refine (h.quiet hsignal).quiet (quiet_stopping op ?_ ?_)
      · intro k d hd
        cases hd
        refine .inl ?_
        rw [(filed_signalChild w key c false).1]
        exact hchild
      · intro s hs
        cases hs
    next hnone =>
      -- no child runs, so the id is from the file and was checked
      have hruns : w.RunsBook pid key := by
        refine hcase.resolve_left ?_
        rintro ⟨c, hc, hrun⟩
        simp [hc, hrun] at hnone
      refine h.quiet (quiet_stopping op ?_ ?_)
      · intro k d hd
        cases hd
      · intro s hs
        cases hs
        exact checked_of_runsBook hruns false

/-- The end of a stop forgets the book. -/
theorem quiet_endStop (w : LauncherWorld) (op : ℕ) (key : String) : Quiet w (w.endStop op key) where
  processes _ _ := id
  births := rfl
  holds := by
    rintro k c (hc | hc | ⟨o, hc⟩)
    · exact .inl (get?_of_erase hc)
    · exact .inr (.inl hc)
    · exact .inr (.inr ⟨o, get?_of_erase hc⟩)
  sending _ _ hs := .inl (get?_of_erase hs)
  signals _ h := .inl h

theorem Sound.stopSends {w : LauncherWorld} (h : Sound executable w) (op : ℕ) :
    Sound executable (w.stopSends op) := by
  unfold LauncherWorld.stopSends
  split
  next s hstop =>
    have hsignal : Quiet w (w.signal false s) :=
      quiet_signal fun p hp => ((h.sending op s hstop).runs p hp).imp_right fun hnew => ⟨rfl, hnew⟩
    dsimp only
    split
    · exact h.quiet (hsignal.trans (quiet_endStop _ op s.key))
    · refine h.quiet (hsignal.trans (quiet_stopping op ?_ ?_))
      · intro k d hd
        cases hd
      · intro t ht
        cases ht
  · exact h

theorem Sound.stopEnds {w : LauncherWorld} (h : Sound executable w) (op : ℕ) :
    Sound executable (w.stopEnds op) := by
  unfold LauncherWorld.stopEnds
  split
  · split
    · exact h
    · exact h.quiet (quiet_endStop w op _)
  · split
    · exact h
    · exact h.quiet (quiet_endStop w op _)
  · exact h

theorem Sound.stopForces {w : LauncherWorld} (h : Sound executable w) (op : ℕ) :
    Sound executable (w.stopForces op) := by
  unfold LauncherWorld.stopForces
  split
  next key c hstop =>
    have hsignal := h.quiet_signalChild (.inr (.inr ⟨op, hstop⟩)) true
    exact h.quiet (hsignal.trans (quiet_endStop _ op key))
  next key pid hstop =>
    split
    next hruns =>
      refine h.quiet (quiet_stopping op ?_ ?_)
      · intro k d hd
        cases hd
      · intro s hs
        cases hs
        exact checked_of_runsBook hruns true
    · exact h.quiet (quiet_endStop w op key)
  · exact h

theorem quiet_exits (w : LauncherWorld) (pid : ℕ) :
    Quiet w { w with processes := w.processes.erase pid } where
  processes _ _ := get?_of_erase
  births := rfl
  holds _ _ := id
  sending _ _ := .inl
  signals _ h := .inl h

theorem quiet_restart (w : LauncherWorld) : Quiet w
    { w with children := Dict.empty, starting := Dict.empty, stopping := Dict.empty } where
  processes _ _ := id
  births := rfl
  holds := by
    rintro key c (h | ⟨op, h⟩ | ⟨op, h⟩) <;> cases h
  sending := by
    intro op s h
    cases h
  signals _ h := .inl h

theorem Sound.step {w : LauncherWorld} (h : Sound executable w) (event : LauncherEvent) :
    Sound executable (LauncherWorld.step executable event w) := by
  cases event with
  | look key => exact h.quiet (quiet_managedPid w key)
  | startRequest op key =>
      show Sound executable
        (if (w.starting.get? op).isSome then w else w.startRequest executable op key)
      split
      · exact h
      · exact h.startRequest op key
  | spawned op pid => exact h.spawned op pid
  | recorded op => exact h.recorded op
  | stopRequest op key =>
      show Sound executable (if (w.stopping.get? op).isSome then w else w.stopRequest op key)
      split
      · exact h
      · exact h.stopRequest op key
  | stopSends op => exact h.stopSends op
  | stopEnds op => exact h.stopEnds op
  | stopForces op => exact h.stopForces op
  | foreign pid argv =>
      show Sound executable (if (w.processes.get? pid).isSome then w else w.spawn pid argv)
      split
      · exact h
      · exact h.spawn pid argv
  | exits pid => exact h.quiet (quiet_exits w pid)
  | restart => exact h.quiet (quiet_restart w)

theorem sound_run (executable : String) (events : List LauncherEvent) :
    Sound executable (Lib.run (LauncherWorld.step executable) events empty) :=
  run_invariant (fun event _ h => h.step event) events sound_empty

/-- **A stop only reaches the runner of its book.** In every run, however requests, restarts of the
dashboard, exits and processes under old ids interleave, each signal reached a runner of the book
that it was sent for, and not one that was started for another book; the exception is a process that
took over an adopted id after the command line behind it was read. -/
theorem signals_own_book {executable : String} (hplain : PlainExecutable executable)
    (events : List LauncherEvent) :
    ∀ s ∈ (Lib.run (LauncherWorld.step executable) events empty).signals,
      (cmdlineMatches s.process.argv s.key = true ∧
        ∀ key, defaultCommand executable key = some s.process.argv → key = s.key) ∨
      s.handle = false ∧ s.births ≤ s.process.birth := by
  intro s hs
  refine ((sound_run executable events).signals s hs).imp_left fun hmatch => ?_
  exact ⟨hmatch, fun key hkey => key_of_cmdlineMatches hplain hmatch hkey⟩

/-- A runner is launched, the dashboard starts again, and the runner is stopped; another one is
killed by the handle. -/
def twoStops : List LauncherEvent :=
  [.startRequest 1 "paper_crypto", .spawned 1 100, .recorded 1, .restart,
    .stopRequest 2 "paper_crypto", .stopSends 2, .startRequest 3 "demo_crypto", .spawned 3 101,
    .recorded 3, .stopRequest 4 "demo_crypto", .stopForces 4]

theorem signals_own_book_stop :
    (Lib.run (LauncherWorld.step "/usr/bin/python3") twoStops empty).signals.length = 3 ∧
      ∀ s ∈ (Lib.run (LauncherWorld.step "/usr/bin/python3") twoStops empty).signals,
        (cmdlineMatches s.process.argv s.key = true ∧
          ∀ key, defaultCommand "/usr/bin/python3" key = some s.process.argv → key = s.key) ∨
        s.handle = false ∧ s.births ≤ s.process.birth :=
  ⟨by decide +kernel, signals_own_book (by decide) twoStops⟩

-- between the check and the signal the runner ends and somebody else gets its id
example : (Lib.run (LauncherWorld.step "/usr/bin/python3")
    [.startRequest 1 "paper_crypto", .spawned 1 100, .recorded 1, .restart,
      .stopRequest 2 "paper_crypto", .exits 100, .foreign 100 ["bash"], .stopSends 2] empty).signals
    = [⟨"paper_crypto", false, 1, ⟨1, ["bash"]⟩, false⟩] := by
  decide +kernel

/-! ## Runners are found again -/

/-- A child that is recorded has its pid file. -/
def Filed (w : LauncherWorld) : Prop :=
  ∀ key c, w.children.get? key = some c → w.pidfiles.get? key = some c.pid

theorem Filed.forget {w : LauncherWorld} (h : w.Filed) (key : String) : (w.forget key).Filed := by
  intro k c hc
  rw [LauncherWorld.forget, Dict.get?_erase] at hc
  rw [LauncherWorld.forget, Dict.get?_erase]
  split at hc
  · cases hc
  next hk =>
    rw [if_neg hk]
    exact h k c hc

theorem Filed.adoptedPid {w : LauncherWorld} (h : w.Filed) {key : String}
    (hnone : w.children.get? key = none) : (w.adoptedPid key).2.Filed := by
  unfold LauncherWorld.adoptedPid
  split
  · exact h
  · split
    · exact h
    · intro k c hc
      have hk : key ≠ k := by
        rintro rfl
        cases hnone.symm.trans hc
      rw [Dict.get?_erase_ne _ hk]
      exact h k c hc

theorem Filed.managedPid {w : LauncherWorld} (h : w.Filed) (key : String) :
    (w.managedPid key).2.Filed := by
  unfold LauncherWorld.managedPid
  split
  next hnone => exact h.adoptedPid hnone
  · split
    · exact h
    · exact (h.forget key).adoptedPid (by simp [LauncherWorld.forget])

/-- Only the children and the pid files matter. -/
theorem Filed.congr {w w' : LauncherWorld} (h : w.Filed)
    (hsame : w'.children = w.children ∧ w'.pidfiles = w.pidfiles) : w'.Filed := by
  intro key c hc
  rw [hsame.1] at hc
  rw [hsame.2]
  exact h key c hc

theorem Filed.endStop {w : LauncherWorld} (h : w.Filed) (op : ℕ) (key : String) :
    (w.endStop op key).Filed :=
  (h.forget key).congr ⟨rfl, rfl⟩

theorem Filed.step {w : LauncherWorld} (h : w.Filed) (event : LauncherEvent) :
    (LauncherWorld.step executable event w).Filed := by
  cases event with
  | look key => exact h.managedPid key
  | startRequest op key =>
      have hmanaged := h.managedPid key
      show (if (w.starting.get? op).isSome then w else w.startRequest executable op key).Filed
      split
      · exact h
      · unfold LauncherWorld.startRequest
        split
        next hm =>
          rw [hm] at hmanaged
          exact hmanaged
        next hm =>
          rw [hm] at hmanaged
          split
          · exact hmanaged.congr ⟨rfl, rfl⟩
          · exact hmanaged
  | spawned op pid =>
      show (w.spawned executable op pid).Filed
      unfold LauncherWorld.spawned
      split
      · split
        · exact h.congr ⟨rfl, rfl⟩
        · exact h
      · exact h
  | recorded op =>
      show (w.recorded op).Filed
      unfold LauncherWorld.recorded
      split
      next key c _ =>
        intro k d hd
        rw [Dict.get?_set] at hd
        rw [Dict.get?_set]
        split at hd
        next hk =>
          cases hd
          rw [if_pos hk]
        next hk =>
          rw [if_neg hk]
          exact h k d hd
      · exact h
  | stopRequest op key =>
      have hmanaged := h.managedPid key
      show (if (w.stopping.get? op).isSome then w else w.stopRequest op key).Filed
      split
      · exact h
      · unfold LauncherWorld.stopRequest
        split
        next hm =>
          rw [hm] at hmanaged
          exact hmanaged
        next hm =>
          rw [hm] at hmanaged
          split
          · exact hmanaged.congr (filed_signalChild _ _ _ _)
          · exact hmanaged.congr ⟨rfl, rfl⟩
  | stopSends op =>
      show (w.stopSends op).Filed
      unfold LauncherWorld.stopSends
      split
      next s _ =>
        have hsignal := h.congr (filed_signal w false s)
        dsimp only
        split
        · exact hsignal.endStop op s.key
        · exact hsignal.congr ⟨rfl, rfl⟩
      · exact h
  | stopEnds op =>
      show (w.stopEnds op).Filed
      unfold LauncherWorld.stopEnds
      split
      · split
        · exact h
        · exact h.endStop op _
      · split
        · exact h
        · exact h.endStop op _
      · exact h
  | stopForces op =>
      show (w.stopForces op).Filed
      unfold LauncherWorld.stopForces
      split
      · exact (h.congr (filed_signalChild _ _ _ _)).endStop op _
      · split
        · exact h.congr ⟨rfl, rfl⟩
        · exact h.endStop op _
      · exact h
  | foreign pid argv =>
      show (if (w.processes.get? pid).isSome then w else w.spawn pid argv).Filed
      split
      · exact h
      · exact h.congr ⟨rfl, rfl⟩
  | exits pid => exact h.congr ⟨rfl, rfl⟩
  | restart =>
      intro key c hc
      cases hc

/-- No request for the book is under way. -/
def Idle (w : LauncherWorld) (key : String) : Prop :=
  (∀ op c, w.starting.get? op ≠ some (key, c)) ∧
    ∀ op stop, w.stopping.get? op = some stop → stop.key ≠ key

/-- The launcher will find the process again as long as that runs. -/
structure Tracked (w : LauncherWorld) (key : String) (c : ChildProcess) : Prop where
  old : c.birth < w.births
  own : ∀ p, w.processes.get? c.pid = some p → p.birth = c.birth →
    cmdlineMatches p.argv key = true
  idle : w.Idle key
  kept : w.Running c → w.pidfiles.get? key = some c.pid ∧
    ∀ d, w.children.get? key = some d → d = c

theorem Tracked.managed {w : LauncherWorld} {key : String} {c : ChildProcess}
    (h : w.Tracked key c) (hrun : w.Running c) : w.managedPid key = (some c.pid, w) := by
  obtain ⟨hfile, hchild⟩ := h.kept hrun
  unfold LauncherWorld.managedPid
  split
  · have hruns : w.RunsBook c.pid key := by
      obtain ⟨p, hp, hbirth⟩ := hrun
      exact ⟨p, hp, h.own p hp hbirth⟩
    simp [LauncherWorld.adoptedPid, hfile, hruns]
  next d hd =>
    cases hchild d hd
    rw [if_pos hrun]

/-- What the launcher does for other books leaves a book alone. -/
theorem managedPid_other (w : LauncherWorld) {k key : String} (hk : k ≠ key) :
    (w.managedPid k).2.children.get? key = w.children.get? key ∧
      (w.managedPid k).2.pidfiles.get? key = w.pidfiles.get? key := by
  have hadopted : ∀ v : LauncherWorld, (v.adoptedPid k).2.children = v.children ∧
      (v.adoptedPid k).2.pidfiles.get? key = v.pidfiles.get? key := by
    intro v
    unfold LauncherWorld.adoptedPid
    split
    · exact ⟨rfl, rfl⟩
    · split
      · exact ⟨rfl, rfl⟩
      · exact ⟨rfl, Dict.get?_erase_ne _ hk⟩
  unfold LauncherWorld.managedPid
  split
  · rw [(hadopted w).1]
    exact ⟨rfl, (hadopted w).2⟩
  · split
    · exact ⟨rfl, rfl⟩
    · rw [(hadopted _).1, (hadopted _).2]
      exact ⟨Dict.get?_erase_ne _ hk, Dict.get?_erase_ne _ hk⟩

theorem managedPid_same (w : LauncherWorld) (key : String) :
    (w.managedPid key).2.processes = w.processes ∧ (w.managedPid key).2.births = w.births ∧
      (w.managedPid key).2.starting = w.starting ∧
        (w.managedPid key).2.stopping = w.stopping := by
  unfold LauncherWorld.managedPid LauncherWorld.adoptedPid
  split
  · split
    · exact ⟨rfl, rfl, rfl, rfl⟩
    · split <;> exact ⟨rfl, rfl, rfl, rfl⟩
  · split
    · exact ⟨rfl, rfl, rfl, rfl⟩
    · split
      · exact ⟨rfl, rfl, rfl, rfl⟩
      · split <;> exact ⟨rfl, rfl, rfl, rfl⟩

/-- The book keeps its file, and its child or none, and no new process is the tracked one. -/
theorem Tracked.apart {w w' : LauncherWorld} {key : String} {c : ChildProcess}
    (h : w.Tracked key c)
    (hprocesses : ∀ p, w'.processes.get? c.pid = some p → p.birth = c.birth →
      w.processes.get? c.pid = some p)
    (hbirths : w.births ≤ w'.births) (hidle : w'.Idle key)
    (hfile : w'.pidfiles.get? key = w.pidfiles.get? key)
    (hchild : ∀ d, w'.children.get? key = some d → w.children.get? key = some d) :
    w'.Tracked key c where
  old := lt_of_lt_of_le h.old hbirths
  own p hp hbirth := h.own p (hprocesses p hp hbirth) hbirth
  idle := hidle
  kept := by
    rintro ⟨p, hp, hbirth⟩
    obtain ⟨hkept, hsame⟩ := h.kept ⟨p, hprocesses p hp hbirth, hbirth⟩
    rw [hfile]
    exact ⟨hkept, fun d hd => hsame d (hchild d hd)⟩

theorem Tracked.look {w : LauncherWorld} {key : String} {c : ChildProcess} (h : w.Tracked key c)
    (k : String) : (w.managedPid k).2.Tracked key c := by
  obtain ⟨hprocesses, hbirths, hstarting, hstopping⟩ := managedPid_same w k
  have hidle : (w.managedPid k).2.Idle key := by
    rw [Idle, hstarting, hstopping]
    exact h.idle
  by_cases hk : k = key
  · subst hk
    by_cases hrun : w.Running c
    · rw [h.managed hrun]
      exact h
    · -- the process has ended, and its file may go
      refine ⟨hbirths ▸ h.old, ?_, hidle, ?_⟩
      · rw [hprocesses]
        exact h.own
      · rintro ⟨p, hp, hbirth⟩
        rw [hprocesses] at hp
        exact absurd ⟨p, hp, hbirth⟩ hrun
  · obtain ⟨hchildren, hpidfiles⟩ := managedPid_other w hk
    refine h.apart ?_ hbirths.ge hidle hpidfiles ?_
    · rw [hprocesses]
      exact fun p hp _ => hp
    · rw [hchildren]
      exact fun d hd => hd

theorem Tracked.spawn {w : LauncherWorld} {key : String} {c : ChildProcess} (h : w.Tracked key c)
    (pid : ℕ) (argv : List String) : (w.spawn pid argv).Tracked key c := by
  refine h.apart ?_ (Nat.le_succ _) h.idle rfl fun d hd => hd
  intro p hp hbirth
  rw [LauncherWorld.spawn, Dict.get?_set] at hp
  split at hp
  · cases hp
    exact absurd (hbirth ▸ h.old) (lt_irrefl _)
  · exact hp

theorem Tracked.endStop {w : LauncherWorld} {key : String} {c : ChildProcess}
    (h : w.Tracked key c) (op : ℕ) {k : String} (hk : k ≠ key) :
    (w.endStop op k).Tracked key c := by
  refine h.apart (fun p hp _ => hp) le_rfl ⟨h.idle.1, ?_⟩ (Dict.get?_erase_ne _ hk) ?_
  · exact fun o stop hstop => h.idle.2 o stop (get?_of_erase hstop)
  · exact fun d hd => get?_of_erase hd

theorem Tracked.signal {w : LauncherWorld} {key : String} {c : ChildProcess} (h : w.Tracked key c)
    (handle : Bool) (s : PendingSignal) : (w.signal handle s).Tracked key c := by
  unfold LauncherWorld.signal
  split
  · exact h
  · exact h.apart (fun p hp _ => hp) le_rfl h.idle rfl fun d hd => hd

theorem Tracked.signalChild {w : LauncherWorld} {key : String} {c : ChildProcess}
    (h : w.Tracked key c) (k : String) (d : ChildProcess) (kill : Bool) :
    (w.signalChild k d kill).Tracked key c := by
  unfold LauncherWorld.signalChild
  split
  · exact h.signal true _
  · exact h

/-- A request for another book comes in or goes on. -/
theorem Tracked.stopping {w : LauncherWorld} {key : String} {c : ChildProcess}
    (h : w.Tracked key c) (op : ℕ) {stop : Stopping} (hstop : stop.key ≠ key) :
    Tracked { w with stopping := w.stopping.set op stop } key c := by
  refine h.apart (fun p hp _ => hp) le_rfl ⟨h.idle.1, ?_⟩ rfl fun d hd => hd
  intro o other hother
  rw [Dict.get?_set] at hother
  split at hother
  · cases hother
    exact hstop
  · exact h.idle.2 o other hother

theorem Tracked.starting {w : LauncherWorld} {key : String} {c : ChildProcess}
    (h : w.Tracked key c) (op : ℕ) {k : String} (hk : k ≠ key) (d : Option ChildProcess) :
    Tracked { w with starting := w.starting.set op (k, d) } key c := by
  refine h.apart (fun p hp _ => hp) le_rfl ⟨?_, h.idle.2⟩ rfl fun d hd => hd
  intro o d hd
  rw [Dict.get?_set] at hd
  split at hd
  · cases hd
    exact hk rfl
  · exact h.idle.1 o d hd

end LauncherWorld

/-- The event is no request to start or stop the book. -/
def LauncherEvent.Elsewhere (key : String) : LauncherEvent → Prop
  | .startRequest _ k => k ≠ key
  | .stopRequest _ k => k ≠ key
  | _ => True

namespace LauncherWorld

theorem Tracked.step {w : LauncherWorld} {key : String} {c : ChildProcess} (h : w.Tracked key c)
    {event : LauncherEvent} (helse : event.Elsewhere key) :
    (LauncherWorld.step executable event w).Tracked key c := by
  cases event with
  | look k => exact h.look k
  | startRequest op k =>
      have hlook := h.look k
      show (if (w.starting.get? op).isSome then w else w.startRequest executable op k).Tracked key c
      split
      · exact h
      · unfold LauncherWorld.startRequest
        split
        next hm =>
          rw [hm] at hlook
          exact hlook
        next hm =>
          rw [hm] at hlook
          split
          · exact hlook.starting op helse none
          · exact hlook
  | spawned op pid =>
      show (w.spawned executable op pid).Tracked key c
      unfold LauncherWorld.spawned
      split
      next k hstart _ =>
        split
        · -- a start that is open is one of another book
          refine (h.spawn pid _).starting op ?_ _
          rintro rfl
          exact h.idle.1 op none hstart
        · exact h
      · exact h
  | recorded op =>
      show (w.recorded op).Tracked key c
      unfold LauncherWorld.recorded
      split
      next k d hstart =>
        have hk : k ≠ key := by
          rintro rfl
          exact h.idle.1 op (some d) hstart
        refine h.apart (fun p hp _ => hp) le_rfl ⟨?_, h.idle.2⟩ (Dict.get?_set_ne _ _ hk) ?_
        · exact fun o e he => h.idle.1 o e (get?_of_erase he)
        · intro e he
          rwa [Dict.get?_set_ne _ _ hk] at he
      · exact h
  | stopRequest op k =>
      have hlook := h.look k
      show (if (w.stopping.get? op).isSome then w else w.stopRequest op k).Tracked key c
      split
      · exact h
      · unfold LauncherWorld.stopRequest
        split
        next hm =>
          rw [hm] at hlook
          exact hlook
        next hm =>
          rw [hm] at hlook
          split
          · exact (hlook.signalChild k _ false).stopping op helse
          · exact hlook.stopping op helse
  | stopSends op =>
      show (w.stopSends op).Tracked key c
      unfold LauncherWorld.stopSends
      split
      next s hstop =>
        -- a stop that is open is one of another book
        have hk : s.key ≠ key := h.idle.2 op _ hstop
        dsimp only
        split
        · exact (h.signal false s).endStop op hk
        · exact (h.signal false s).stopping op hk
      · exact h
  | stopEnds op =>
      show (w.stopEnds op).Tracked key c
      unfold LauncherWorld.stopEnds
      split
      next hstop =>
        split
        · exact h
        · exact h.endStop op (h.idle.2 op _ hstop)
      next hstop =>
        split
        · exact h
        · exact h.endStop op (h.idle.2 op _ hstop)
      · exact h
  | stopForces op =>
      show (w.stopForces op).Tracked key c
      unfold LauncherWorld.stopForces
      split
      next k d hstop => exact (h.signalChild k d true).endStop op (h.idle.2 op _ hstop)
      next k pid hstop =>
        have hk : k ≠ key := h.idle.2 op _ hstop
        split
        · exact h.stopping op hk
        · exact h.endStop op hk
      · exact h
  | foreign pid argv =>
      show (if (w.processes.get? pid).isSome then w else w.spawn pid argv).Tracked key c
      split
      · exact h
      · exact h.spawn pid argv
  | exits pid => exact h.apart (fun p hp _ => get?_of_erase hp) le_rfl h.idle rfl fun d hd => hd
  | restart =>
      refine h.apart (fun p hp _ => hp) le_rfl ⟨?_, ?_⟩ rfl ?_
      · rintro op d hd
        cases hd
      · rintro op stop hstop
        cases hstop
      · rintro d hd
        cases hd

theorem Tracked.run {key : String} {c : ChildProcess} {more : List LauncherEvent}
    (helse : ∀ event ∈ more, event.Elsewhere key) {w : LauncherWorld} (h : w.Tracked key c) :
    (Lib.run (LauncherWorld.step executable) more w).Tracked key c := by
  induction more generalizing w with
  | nil => exact h
  | cons event rest ih =>
      have hrest : ∀ e ∈ rest, e.Elsewhere key := fun e he => helse e (List.mem_cons_of_mem _ he)
      exact ih hrest (h.step (helse event List.mem_cons_self))

/-- **Runners are found again.** A runner that is recorded for a book without open requests stays
under management as long as it runs and nobody asks to start or stop that book: through requests
for other books, processes that come and go, and restarts of the dashboard. -/
theorem readopted (executable : String) (events more : List LauncherEvent) {key : String}
    {c : ChildProcess}
    (hc : (Lib.run (LauncherWorld.step executable) events empty).children.get? key = some c)
    (hidle : (Lib.run (LauncherWorld.step executable) events empty).Idle key)
    (helse : ∀ event ∈ more, event.Elsewhere key)
    (hrun : (Lib.run (LauncherWorld.step executable) (events ++ more) empty).Running c) :
    ((Lib.run (LauncherWorld.step executable) (events ++ more) empty).managedPid key).1
      = some c.pid := by
  have hsound := sound_run executable events
  have hfiled : (Lib.run (LauncherWorld.step executable) events empty).Filed := by
    refine run_invariant (I := Filed) (fun event _ h => h.step event) events ?_
    intro k d hd
    cases hd
  rw [run_append] at hrun ⊢
  generalize Lib.run (LauncherWorld.step executable) events empty = w at *
  have hstart : w.Tracked key c := by
    refine ⟨hsound.old key c (.inl hc), ?_, hidle, fun _ => ⟨hfiled key c hc, ?_⟩⟩
    · intro p hp hbirth
      exact cmdlineMatches_defaultCommand (hsound.own key c (.inl hc) p hp hbirth)
    · exact fun d hd => Option.some.inj (hd.symm.trans hc)
  rw [(hstart.run helse).managed hrun]

/-- A runner of the paper book is launched and recorded. -/
def oneLaunch : List LauncherEvent :=
  [.startRequest 1 "paper_crypto", .spawned 1 100, .recorded 1]

theorem readopted_after_restart :
    ((Lib.run (LauncherWorld.step "python3")
      (oneLaunch ++ [.restart, .look "demo_crypto", .foreign 7 ["bash"]]) empty).managedPid
        "paper_crypto").1 = some 100 := by
  have hc : (Lib.run (LauncherWorld.step "python3") oneLaunch empty).children.get? "paper_crypto"
      = some ⟨100, 0⟩ := by decide +kernel
  have hstarting : (Lib.run (LauncherWorld.step "python3") oneLaunch empty).starting = Dict.empty :=
    Dict.ext (List.isEmpty_iff.mp (by decide +kernel))
  have hstopping : (Lib.run (LauncherWorld.step "python3") oneLaunch empty).stopping = Dict.empty :=
    Dict.ext (List.isEmpty_iff.mp (by decide +kernel))
  refine readopted "python3" oneLaunch [.restart, .look "demo_crypto", .foreign 7 ["bash"]] hc
    ?_ ?_ ?_
  · simp [Idle, hstarting, hstopping]
  · simp [LauncherEvent.Elsewhere]
  · decide +kernel

end LauncherWorld

end

end SmartyTrader
