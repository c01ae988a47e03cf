import SmartyTrader.Core.OverrideChecks
import SmartyTrader.Lib.IntText

set_option autoImplicit false

/-! # The market-hours guard of the stocks agent

The guard parses its window on every cycle, before anything else of the cycle runs. The window may
come from an override, which is checked to be a string and nothing more. `cycle_runnable_iff` says
which windows the guard can read.
-/

namespace SmartyTrader

open Lib

/-- The wall clock of the exchange. -/
structure LocalTime where
  /-- Monday is 0. -/
  weekday : Fin 7
  date : ℤ
  /-- Microseconds since midnight. -/
  time : ℤ

/-- `time.max` -/
def timeMax : ℤ := 86399999999

section Parse

variable (u : CharTable)

/-- `_parse_time`. -/
def parseTime (value : List Char) : Except PyError ℤ :=
  match splitFirst ':' value with
  | none => .error (.raised "not enough values to unpack (expected 2, got 1)")
  | some (hours, minutes) =>
      match u.readInt hours, u.readInt minutes with
      | some h, some m =>
          if ¬ (0 ≤ h ∧ h < 24) then .error (.raised "hour must be in 0..23")
          else if ¬ (0 ≤ m ∧ m < 60) then .error (.raised "minute must be in 0..59")
          else .ok ((60 * h + m) * 60000000)
      | _, _ => .error (.raised "invalid literal for int() with base 10")

/-- `parse_market_hours`. -/
def parseMarketHours (spec : String) : Except PyError (ℤ × ℤ) :=
  let spec := u.strip spec.toList
  match splitFirst '-' spec with
  | none => .ok (0, timeMax)
  | some (start, stop) => do
      let start ← parseTime u (u.strip start)
      let stop ← parseTime u (u.strip stop)
      return (start, stop)

example : parseMarketHours CharTable.ascii " 09:30 - 16:00" = .ok (34200000000, 57600000000) := rfl

/-- `market_closed_reason`. -/
def marketClosedReason (now : LocalTime) (marketHours : String) (holidays : List ℤ) :
    Except PyError (Option String) := do
  let (start, stop) ← parseMarketHours u marketHours
  if start = 0 ∧ stop = timeMax then return none
  else if 5 ≤ now.weekday.val then return some "weekend"
  else if now.date ∈ holidays then return some "holiday"
  else
    -- A window that starts after it ends goes through midnight.
    let inside :=
      if stop < start then start ≤ now.time ∨ now.time ≤ stop
      else start ≤ now.time ∧ now.time ≤ stop
    return if inside then none else some "outside trading window"

end Parse

/-- `_effective_market_hours`: the live settings first, then what the agent was built with. -/
def effectiveMarketHours (live : Option String) (built : String) : String :=
  match live with
  | none => built
  | some hours => if hours = "" then built else hours

/-! ## Readable windows -/

section Readable

variable (u : CharTable)

/-- A time of day: two numbers around the first colon. -/
def ClockText (s : List Char) : Prop :=
  ∃ hours minutes, s = hours ++ ':' :: minutes ∧ ':' ∉ hours ∧
    (∃ h ∈ u.readInt hours, 0 ≤ h ∧ h < 24) ∧ ∃ m ∈ u.readInt minutes, 0 ≤ m ∧ m < 60

/-- A window: no dash at all, or a time of day on either side of the first one. -/
def HoursText (spec : String) : Prop :=
  '-' ∉ u.strip spec.toList ∨
    ∃ start stop, u.strip spec.toList = start ++ '-' :: stop ∧ '-' ∉ start ∧
      ClockText u (u.strip start) ∧ ClockText u (u.strip stop)

/-- The guard answers at every time, whatever the holidays are. -/
def Runnable (marketHours : String) : Prop :=
  ∀ now holidays, ∃ reason, marketClosedReason u now marketHours holidays = .ok reason

/-- Two numbers make a time of day exactly if they are in range. -/
theorem parseTime_split {value hours minutes : List Char}
    (h : splitFirst ':' value = some (hours, minutes)) :
    (∃ t, parseTime u value = .ok t) ↔
      (∃ h ∈ u.readInt hours, 0 ≤ h ∧ h < 24) ∧ ∃ m ∈ u.readInt minutes, 0 ≤ m ∧ m < 60 := by
  unfold parseTime
  simp only [h]
  cases u.readInt hours with
  | none => simp
  | some h =>
      cases u.readInt minutes with
      | none => simp
      | some m =>
          dsimp only
          split_ifs with hhours hminutes
          · simpa [hhours] using hminutes
          · simpa using fun _ _ => hminutes
          · simpa using fun h0 h24 => absurd ⟨h0, h24⟩ hhours

theorem parseTime_ok_iff (value : List Char) :
    (∃ t, parseTime u value = .ok t) ↔ ClockText u value := by
  constructor
  · intro h
    cases hsplit : splitFirst ':' value with
    | none =>
        unfold parseTime at h
        simp [hsplit] at h
    | some parts =>
        obtain ⟨hours, minutes⟩ := parts
        obtain ⟨hvalue, hnot⟩ := (splitFirst_eq_some_iff _ _ _ _).mp hsplit
        exact ⟨hours, minutes, hvalue, hnot, (parseTime_split u hsplit).mp h⟩
  · rintro ⟨hours, minutes, hvalue, hnot, hranges⟩
    have hsplit := (splitFirst_eq_some_iff _ _ _ _).mpr ⟨hvalue, hnot⟩
    exact (parseTime_split u hsplit).mpr hranges

theorem parseMarketHours_ok_iff (spec : String) :
    (∃ window, parseMarketHours u spec = .ok window) ↔ HoursText u spec := by
  unfold parseMarketHours HoursText
  rw [← splitFirst_isSome_iff]
  simp only [← parseTime_ok_iff]
  cases hsplit : splitFirst '-' (u.strip spec.toList) with
  | none => simp
  | some parts =>
      obtain ⟨start, stop⟩ := parts
      obtain ⟨hspec, hnot⟩ := (splitFirst_eq_some_iff _ _ _ _).mp hsplit
      have hbind : (∃ window : ℤ × ℤ, (do
          let start ← parseTime u (u.strip start)
          let stop ← parseTime u (u.strip stop)
          return (start, stop)) = (Except.ok window : Except PyError (ℤ × ℤ))) ↔
          (∃ t, parseTime u (u.strip start) = .ok t) ∧
            ∃ t, parseTime u (u.strip stop) = .ok t := by
        cases parseTime u (u.strip start) with
        | error err => simp [bind, Except.bind]
        | ok first =>
            cases parseTime u (u.strip stop) with
            | error err => simp [bind, Except.bind]
            | ok second => simp [bind, Except.bind, pure, Except.pure]
      dsimp only
      rw [hbind]
      constructor
      · rintro ⟨hstart, hstop⟩
        exact Or.inr ⟨start, stop, hspec, hnot, hstart, hstop⟩
      · rintro (hnone | ⟨start', stop', hspec', hnot', hstart, hstop⟩)
        · exact absurd ⟨_, rfl⟩ hnone
        · -- The first dash splits the text in one way only.
          have hsame := (splitFirst_eq_some_iff _ _ _ _).mpr ⟨hspec', hnot'⟩
          rw [hsplit] at hsame
          obtain ⟨rfl, rfl⟩ := Prod.mk.inj (Option.some.inj hsame)
          exact ⟨hstart, hstop⟩

/-- Once the window is read, the guard answers. -/
theorem runnable_iff (spec : String) :
    Runnable u spec ↔ ∃ window, parseMarketHours u spec = .ok window := by
  unfold Runnable marketClosedReason
  cases parseMarketHours u spec with
  | error err =>
      constructor
      · intro h
        obtain ⟨reason, hreason⟩ := h ⟨0, 0, 0⟩ []
        cases hreason
      · rintro ⟨window, hwindow⟩
        cases hwindow
  | ok window =>
      refine ⟨fun _ => ⟨window, rfl⟩, fun _ now holidays => ?_⟩
      obtain ⟨start, stop⟩ := window
      show ∃ reason, (if start = 0 ∧ stop = timeMax then pure none
        else if 5 ≤ now.weekday.val then pure (some "weekend")
        else _) = Except.ok reason
      split_ifs <;> exact ⟨_, rfl⟩

/-- The window the guard reads once the overrides are applied. -/
def hoursAfter (o : SafeConfigOverrides) (c : LiveConfig) (built : String) : String :=
  effectiveMarketHours ((o.marketHours.or c.file.agent.marketHours).or c.agent.marketHours) built

/-- **Which overrides keep the cycle runnable.** Exactly those that leave a readable window: their
own, or without one that of the file, of the live settings or of the agent. -/
theorem cycle_runnable_iff (o : SafeConfigOverrides) (c : LiveConfig) (built : String) :
    Runnable u (effectiveMarketHours (applyOverrides (some o) c).agent.marketHours built) ↔
      HoursText u (hoursAfter o c built) := by
  rw [runnable_iff, parseMarketHours_ok_iff]
  rfl

end Readable

/-- Office hours as one writes them in a hurry. -/
def nineToFive : SafeConfigOverrides := { SafeConfigOverrides.none with marketHours := some "9-17" }

/-- The override is accepted, and from the next cycle on the guard raises. -/
theorem nineToFive_breaks :
    validateOverridesPayload (.ok nineToFive) (some RiskSettings.default) (some "EUR")
        = .ok nineToFive ∧
      ¬ Runnable CharTable.ascii (effectiveMarketHours (applyOverrides (some nineToFive)
        (LiveConfig.load shippedFile "stocks" true)).agent.marketHours "09:30-16:00") := by
  refine ⟨rfl, fun h => ?_⟩
  obtain ⟨window, hwindow⟩ := (runnable_iff _ _).mp h
  revert hwindow
  exact fun h => nomatch h

end SmartyTrader
