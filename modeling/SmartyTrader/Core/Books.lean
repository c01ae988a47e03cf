import Mathlib
import SmartyTrader.Core.Models
import SmartyTrader.Core.Retention
import SmartyTrader.Lib.Lines
import SmartyTrader.Lib.StableSort

set_option autoImplicit false

/-! # One database file per agent and trading mode

The venue tag of an executor says its trading mode, and the mode and the agent name the file. The
names are read back by a pattern: `fileMatch_iff` says which names it takes, and `find_book_iff`
what the dashboard finds under a key. Agents are named by a small letter and then small letters and
digits; a runner of another agent writes a file that the dashboard does not see.
-/

namespace SmartyTrader

open Lib

/-! ## Trading modes -/

def BookMode.name : BookMode → String
  | .paper => "paper"
  | .demo => "demo"
  | .real => "real"

/-- `MODES`. -/
def BookMode.all : List BookMode := [.paper, .demo, .real]

/-- `MODES.index`. -/
def BookMode.index : BookMode → ℕ
  | .paper => 0
  | .demo => 1
  | .real => 2

def demoVenues : List String := ["saxo-sim", "xtb-demo"]

def realVenues : List String := ["saxo-live", "xtb-real"]

/-- `str.endswith`. -/
def endsWith (s suffix : String) : Prop := suffix.toList <:+ s.toList

instance (s suffix : String) : Decidable (endsWith s suffix) :=
  inferInstanceAs (Decidable (suffix.toList <:+ s.toList))

/-- `executor_venue`: an executor without a label declares no venue. -/
def executorVenue (venue : Option String) : Option String := venue.filter fun v => v ≠ ""

/-- `venue_mode`: the error names the label. -/
def venueMode : Option String → Except (Option String) BookMode
  | none => .ok .paper
  | some venue =>
      if venue = "paper" then .ok .paper
      else if endsWith (lower venue) "-sandbox" ∨ lower venue ∈ demoVenues then .ok .demo
      else if endsWith (lower venue) "-live" ∨ lower venue ∈ realVenues then .ok .real
      else .error (some venue)

/-! ## Names -/

/-- `book_key`. -/
def bookKey (mode : BookMode) (agent : String) : String := mode.name ++ "_" ++ agent

/-- A file by its directory and its name. -/
structure FilePath (δ : Type) where
  dir : δ
  name : String
  deriving DecidableEq

/-- `db_path`. -/
def dbPath {δ : Type} (dataDir : δ) (mode : BookMode) (agent : String) : FilePath δ :=
  ⟨dataDir, bookKey mode agent ++ ".db"⟩

/-- `lock_path`. -/
def lockPath {δ : Type} (dataDir : δ) (mode : BookMode) (agent : String) : FilePath δ :=
  ⟨dataDir, bookKey mode agent ++ ".runner.lock"⟩

def isSmall (c : Char) : Bool := 'a' ≤ c && c ≤ 'z'

def isAgentChar (c : Char) : Bool := isSmall c || ('0' ≤ c && c ≤ '9')

/-- `[a-z][a-z0-9]*`. -/
def AgentName (agent : String) : Prop :=
  (agent.toList.head?.any isSmall) = true ∧ ∀ c ∈ agent.toList, isAgentChar c = true

instance (agent : String) : Decidable (AgentName agent) :=
  decidable_of_iff ((agent.toList.head?.any isSmall && agent.toList.all isAgentChar) = true)
    (by simp [AgentName])

/-- What may stand behind the agent: `\.db$`, which lets a line break pass. -/
def fileEnds : List Text := [".db".toList, ".db\n".toList]

/-- `([a-z][a-z0-9]*)\.db$`. -/
def matchAgent (rest : Text) : Option String :=
  let agent := String.ofList (rest.takeWhile isAgentChar)
  if AgentName agent ∧ fileEnds.contains (rest.dropWhile isAgentChar) = true then some agent
  else none

/-- `_FILE_RE.match`. -/
def fileMatch (name : String) : Option (BookMode × String) :=
  BookMode.all.findSome? fun mode =>
    (name.toList.dropPrefix? (mode.name ++ "_").toList).bind fun rest =>
      (matchAgent rest).map fun agent => (mode, agent)

/-- `parse_book_key`. -/
def parseBookKey (key : String) : Option (BookMode × String) := fileMatch (key ++ ".db")

/-! ## Discovery -/

/-- An entry of a directory. -/
structure DirEntry where
  name : String
  isFile : Bool

/-- A book file that was found. -/
structure FoundBook where
  mode : BookMode
  agent : String
  name : String
  deriving DecidableEq

/-- By agent, then by mode. -/
def FoundBook.rank (b : FoundBook) : String ×ₗ ℕ := toLex (b.agent, b.mode.index)

def foundBook (agents : Option (List String)) (entry : DirEntry) : Option FoundBook :=
  if entry.isFile then
    (fileMatch entry.name).bind fun (mode, agent) =>
      if agents.all fun wanted => agent ∈ wanted then some ⟨mode, agent, entry.name⟩ else none
  else none

/-- `discover`, `none` where there is no such directory. -/
def discover (agents : Option (List String)) (listing : Option (List DirEntry)) : List FoundBook :=
  match listing with
  | none => []
  | some entries => sortBy FoundBook.rank (entries.filterMap (foundBook agents))

/-- A book of the dashboard. -/
structure Book where
  key : String
  mode : BookMode
  agent : String
  file : String
  deriving DecidableEq

/-- `open_books`. -/
def openBooks (agents : List String) (listing : Option (List DirEntry)) : List Book :=
  (discover (some agents) listing).map fun b => ⟨bookKey b.mode b.agent, b.mode, b.agent, b.name⟩

/-- `find_book`. -/
def findBook (books : List Book) : Option String → Option Book
  | some key => books.find? fun b => b.key = key
  | none => books.head?

/-! ## Names are read back -/

theorem name_mode_cases {mode mode' : BookMode} {rest rest' : Text}
    (h : mode.name.toList ++ '_' :: rest = mode'.name.toList ++ '_' :: rest') :
    mode = mode' ∧ rest = rest' := by
  cases mode <;> cases mode' <;> simp_all [BookMode.name]

theorem bookKey_toList (mode : BookMode) (agent : String) :
    (bookKey mode agent).toList = mode.name.toList ++ '_' :: agent.toList := by
  simp [bookKey]

theorem bookKey_injective {mode mode' : BookMode} {agent agent' : String}
    (h : bookKey mode agent = bookKey mode' agent') : mode = mode' ∧ agent = agent' := by
  have hlist := congrArg String.toList h
  rw [bookKey_toList, bookKey_toList] at hlist
  obtain ⟨hmode, hagent⟩ := name_mode_cases hlist
  exact ⟨hmode, String.toList_inj.mp hagent⟩

theorem dbPath_injective {δ : Type} {dir dir' : δ} {mode mode' : BookMode} {agent agent' : String}
    (h : dbPath dir mode agent = dbPath dir' mode' agent') :
    dir = dir' ∧ mode = mode' ∧ agent = agent' := by
  obtain ⟨hdir, hname⟩ := FilePath.mk.inj h
  have hkey : bookKey mode agent = bookKey mode' agent' := by simpa using hname
  exact ⟨hdir, bookKey_injective hkey⟩

theorem dot_not_agentChar {tail : Text} (h : tail ∈ fileEnds) :
    ∃ t, tail = '.' :: t := by
  rcases List.mem_cons.mp h with rfl | h
  · exact ⟨_, rfl⟩
  · rw [List.mem_singleton.mp h]
    exact ⟨_, rfl⟩

theorem matchAgent_iff (rest : Text) (agent : String) :
    matchAgent rest = some agent ↔
      AgentName agent ∧ ∃ tail ∈ fileEnds, rest = agent.toList ++ tail := by
  show (if AgentName (String.ofList (rest.takeWhile isAgentChar)) ∧
      fileEnds.contains (rest.dropWhile isAgentChar) = true
    then some (String.ofList (rest.takeWhile isAgentChar)) else none) = some agent ↔ _
  constructor
  · intro h
    split at h
    next hmatch =>
      cases h
      refine ⟨hmatch.1, _, List.contains_iff_mem.mp hmatch.2, ?_⟩
      simp [List.takeWhile_append_dropWhile]
    · cases h
  · rintro ⟨hagent, tail, htail, rfl⟩
    obtain ⟨t, ht⟩ := dot_not_agentChar htail
    have hstop : isAgentChar '.' = false := by decide
    have htake : (agent.toList ++ tail).takeWhile isAgentChar = agent.toList := by
      rw [List.takeWhile_append_of_pos hagent.2, ht]
      simp [hstop]
    have hdrop : (agent.toList ++ tail).dropWhile isAgentChar = tail := by
      rw [List.dropWhile_append_of_pos hagent.2, ht]
      simp [hstop]
    simp only [htake, hdrop, String.ofList_toList]
    rw [if_pos ⟨hagent, List.contains_iff_mem.mpr htail⟩]

theorem dropPrefix_iff (name p rest : Text) :
    name.dropPrefix? p = some rest ↔ name = p ++ rest := by
  rw [List.dropPrefix?_eq_some_iff]
  constructor
  · rintro ⟨p', rfl, hp⟩
    rw [eq_of_beq hp]
  · rintro rfl
    exact ⟨p, rfl, beq_self_eq_true p⟩

/-- **What the pattern of the file names takes.** -/
theorem fileMatch_iff (name : String) (mode : BookMode) (agent : String) :
    fileMatch name = some (mode, agent) ↔ AgentName agent ∧
      ∃ tail ∈ fileEnds, name.toList = (bookKey mode agent).toList ++ tail := by
  have hone : ∀ m, ((name.toList.dropPrefix? (m.name ++ "_").toList).bind fun rest =>
      (matchAgent rest).map fun agent => (m, agent)) = some (mode, agent) ↔
        m = mode ∧ AgentName agent ∧
          ∃ tail ∈ fileEnds, name.toList = (bookKey mode agent).toList ++ tail := by
    intro m
    rw [Option.bind_eq_some_iff]
    constructor
    · rintro ⟨rest, hrest, hmap⟩
      obtain ⟨found, hfound, heq⟩ := Option.map_eq_some_iff.mp hmap
      cases heq
      obtain ⟨hagent, tail, htail, rfl⟩ := (matchAgent_iff _ _).mp hfound
      refine ⟨rfl, hagent, tail, htail, ?_⟩
      rw [(dropPrefix_iff _ _ _).mp hrest, bookKey_toList]
      simp
    · rintro ⟨rfl, hagent, tail, htail, hname⟩
      refine ⟨agent.toList ++ tail, (dropPrefix_iff _ _ _).mpr ?_, ?_⟩
      · rw [hname, bookKey_toList]
        simp
      · rw [(matchAgent_iff _ _).mpr ⟨hagent, tail, htail, rfl⟩]
        rfl
  unfold fileMatch
  constructor
  · intro h
    obtain ⟨m, -, hm⟩ := List.exists_of_findSome?_eq_some h
    exact ((hone m).mp hm).2
  · rintro ⟨hagent, tail, htail, hname⟩
    -- the other modes do not fit the name
    have hother : ∀ m, m ≠ mode → ((name.toList.dropPrefix? (m.name ++ "_").toList).bind fun rest =>
        (matchAgent rest).map fun agent => (m, agent)) = none := by
      intro m hm
      have hdrop : name.toList.dropPrefix? (m.name ++ "_").toList = none := by
        rw [Option.eq_none_iff_forall_ne_some]
        intro rest hrest
        have hsplit := (dropPrefix_iff _ _ _).mp hrest
        rw [hname, bookKey_toList] at hsplit
        have hsame : m.name.toList ++ '_' :: rest =
            mode.name.toList ++ '_' :: (agent.toList ++ tail) := by
          simpa using hsplit.symm
        exact hm (name_mode_cases hsame).1
      rw [hdrop]
      rfl
    have hself := (hone mode).mpr ⟨rfl, hagent, tail, htail, hname⟩
    cases mode with
    | paper => simp only [BookMode.all, List.findSome?_cons, hself]
    | demo => simp only [BookMode.all, List.findSome?_cons, hself, hother .paper (by decide)]
    | real =>
        simp only [BookMode.all, List.findSome?_cons, hself, hother .paper (by decide),
          hother .demo (by decide)]

/-- A book key is read back. -/
theorem parseBookKey_bookKey {agent : String} (h : AgentName agent) (mode : BookMode) :
    parseBookKey (bookKey mode agent) = some (mode, agent) :=
  (fileMatch_iff _ _ _).mpr ⟨h, ".db".toList, List.mem_cons_self, by simp⟩

/-! ## What the dashboard finds -/

/-- No name of the directory ends in a line break. -/
def CleanNames (entries : List DirEntry) : Prop :=
  ∀ e ∈ entries, e.name.toList.getLast? ≠ some '\n'

theorem fileMatch_clean {name : String} (hclean : name.toList.getLast? ≠ some '\n')
    (mode : BookMode) (agent : String) :
    fileMatch name = some (mode, agent) ↔
      AgentName agent ∧ name = bookKey mode agent ++ ".db" := by
  rw [fileMatch_iff]
  refine and_congr_right fun _ => ⟨?_, ?_⟩
  · rintro ⟨tail, htail, hname⟩
    rcases List.mem_cons.mp htail with rfl | htail
    · rw [← String.toList_inj, hname, String.toList_append]
    · rw [List.mem_singleton.mp htail] at hname
      -- a name with the line break is not clean
      refine absurd ?_ hclean
      rw [hname]
      simp
  · rintro rfl
    exact ⟨".db".toList, List.mem_cons_self, String.toList_append⟩

theorem mem_foundBooks {agents : List String} {entries : List DirEntry}
    (hclean : CleanNames entries) (b : FoundBook) :
    b ∈ entries.filterMap (foundBook (some agents)) ↔
      b.agent ∈ agents ∧ AgentName b.agent ∧ b.name = bookKey b.mode b.agent ++ ".db" ∧
        ⟨b.name, true⟩ ∈ entries := by
  rw [List.mem_filterMap]
  constructor
  · rintro ⟨e, he, hfound⟩
    obtain ⟨name, isFile⟩ := e
    unfold foundBook at hfound
    split at hfound
    next hfile =>
      obtain ⟨⟨mode, agent⟩, hmatch, hwanted⟩ := Option.bind_eq_some_iff.mp hfound
      obtain ⟨hagent, hname⟩ := (fileMatch_clean (hclean _ he) mode agent).mp hmatch
      by_cases hmem : agent ∈ agents
      · have hb : b = ⟨mode, agent, name⟩ := by simpa [hmem, eq_comm] using hwanted
        subst hb
        cases hfile
        exact ⟨hmem, hagent, hname, he⟩
      · simp [hmem] at hwanted
    · cases hfound
  · rintro ⟨hmem, hagent, hname, he⟩
    refine ⟨_, he, ?_⟩
    have hmatch := (fileMatch_clean (hclean _ he) b.mode b.agent).mpr ⟨hagent, hname⟩
    simp [foundBook, hmatch, hmem]

/-- The books of a directory do not depend on the order it is listed in. -/
theorem openBooks_perm (agents : List String) {entries entries' : List DirEntry}
    (hclean : CleanNames entries) (h : entries.Perm entries') :
    openBooks agents (some entries) = openBooks agents (some entries') := by
  refine congrArg (List.map _) (sortBy_eq_of_perm FoundBook.rank (h.filterMap _) ?_)
  intro a ha b hb hrank
  obtain ⟨hagent, hindex⟩ := Prod.mk.inj (toLex.injective hrank)
  have hmode : a.mode = b.mode := by
    cases ha : a.mode <;> cases hb : b.mode <;> simp_all [BookMode.index]
  have hname : a.name = b.name := by
    rw [((mem_foundBooks hclean a).mp ha).2.2.1, ((mem_foundBooks hclean b).mp hb).2.2.1, hmode,
      hagent]
  cases a
  cases b
  simp_all

theorem mem_openBooks {agents : List String} {entries : List DirEntry}
    (hclean : CleanNames entries) (b : Book) : b ∈ openBooks agents (some entries) ↔
      b.agent ∈ agents ∧ AgentName b.agent ∧ b.key = bookKey b.mode b.agent ∧
        b.file = b.key ++ ".db" ∧ ⟨b.file, true⟩ ∈ entries := by
  unfold openBooks discover
  rw [List.mem_map]
  constructor
  · rintro ⟨found, hfound, rfl⟩
    obtain ⟨hmem, hagent, hname, he⟩ := (mem_foundBooks hclean found).mp ((mem_sortBy _).mp hfound)
    exact ⟨hmem, hagent, rfl, hname, he⟩
  · rintro ⟨hmem, hagent, hkey, hfile, he⟩
    refine ⟨⟨b.mode, b.agent, b.file⟩, (mem_sortBy _).mpr ((mem_foundBooks hclean _).mpr
      ⟨hmem, hagent, ?_, he⟩), ?_⟩
    · rw [hfile, hkey]
    · cases b
      simp_all

/-- **The dashboard finds a book under its key** exactly if its agent is configured and the file is
there. -/
theorem find_book_iff {agents : List String} {entries : List DirEntry} (hclean : CleanNames entries)
    (key : String) (b : Book) :
    findBook (openBooks agents (some entries)) (some key) = some b ↔
      b.agent ∈ agents ∧ AgentName b.agent ∧ key = bookKey b.mode b.agent ∧
        ⟨key ++ ".db", true⟩ ∈ entries ∧ b.key = key ∧ b.file = key ++ ".db" := by
  constructor
  · intro h
    have hkey : b.key = key := by simpa using List.find?_some (p := fun b : Book => b.key = key) h
    obtain ⟨hmem, hagent, hbook, hfile, he⟩ :=
      (mem_openBooks hclean b).mp (List.mem_of_find?_eq_some h)
    rw [hfile, hkey] at he
    exact ⟨hmem, hagent, hkey ▸ hbook, he, hkey, hkey ▸ hfile⟩
  · rintro ⟨hmem, hagent, hbook, he, hkey, hfile⟩
    have hb : b ∈ openBooks agents (some entries) :=
      (mem_openBooks hclean b).mpr ⟨hmem, hagent, hkey.trans hbook, hkey ▸ hfile, hfile ▸ he⟩
    have hsome : ((openBooks agents (some entries)).find? fun x => x.key = key).isSome := by
      rw [List.find?_isSome]
      exact ⟨b, hb, decide_eq_true hkey⟩
    obtain ⟨found, hfound⟩ := Option.isSome_iff_exists.mp hsome
    -- a book is told by its key
    have hsame : found = b := by
      have hfkey : found.key = key := by simpa using List.find?_some hfound
      obtain ⟨-, -, hfbook, hffile, -⟩ :=
        (mem_openBooks hclean found).mp (List.mem_of_find?_eq_some hfound)
      obtain ⟨hmode, hname⟩ := bookKey_injective ((hfbook.symm.trans hfkey).trans hbook)
      rw [hfkey] at hffile
      cases found
      cases b
      simp_all
    rw [← hsame]
    exact hfound

end SmartyTrader
