import SmartyTrader.Core.Models
import SmartyTrader.Lib.Raising

set_option autoImplicit false

/-! # Dates and spans of time

A `datetime` lies in the years 1 to 9999 and a `timedelta` is at most 999999999 days long.
Arithmetic that leaves these ranges raises, with the texts of the interpreter. A setting in hours
is a float that passed `value <= 0`: infinity does, and NaN does.
-/

namespace SmartyTrader

/-- The first microsecond of the year 1. -/
def minDate : Time := -62135596800000000

/-- The last microsecond of the year 9999. -/
def maxDate : Time := 253402300799999999

def IsDate (t : Time) : Prop := minDate ≤ t ∧ t ≤ maxDate

instance (t : Time) : Decidable (IsDate t) := inferInstanceAs (Decidable (_ ∧ _))

theorem IsDate.between {a b t : Time} (ha : IsDate a) (hb : IsDate b) (hat : a ≤ t) (htb : t ≤ b) :
    IsDate t :=
  ⟨le_trans ha.1 hat, le_trans htb hb.2⟩

/-- The span is a `timedelta`. -/
def IsDelta (span : ℤ) : Prop :=
  -999999999 ≤ span / 86400000000 ∧ span / 86400000000 ≤ 999999999

instance (span : ℤ) : Decidable (IsDelta span) := inferInstanceAs (Decidable (_ ∧ _))

/-- A `timedelta` of a number of microseconds. -/
def timedelta (span : ℤ) : Except PyError ℤ :=
  if IsDelta span then .ok span
  else if -2147483648 ≤ span / 86400000000 ∧ span / 86400000000 ≤ 2147483647 then
    .error (.raised
      ("days=" ++ toString (span / 86400000000) ++ "; must have magnitude <= 999999999"))
  else .error (.raised "Python int too large to convert to C int")

/-- A date and a `timedelta`. -/
def dateAdd (t : Time) (span : ℤ) : Except PyError Time :=
  if IsDate (t + span) then .ok (t + span) else .error (.raised "date value out of range")

theorem timedelta_eq_ok_iff (span d : ℤ) : timedelta span = .ok d ↔ IsDelta span ∧ span = d := by
  unfold timedelta
  split_ifs <;> simp [*]

theorem dateAdd_eq_ok_iff (t : Time) (span : ℤ) (s : Time) :
    dateAdd t span = .ok s ↔ IsDate (t + span) ∧ t + span = s := by
  unfold dateAdd
  split_ifs <;> simp [*]

/-- Half to even, as `timedelta` rounds to microseconds. -/
def roundHalfEven (q : ℚ) : ℤ :=
  let below := ⌊q⌋
  if q - below < 1 / 2 then below
  else if q - below > 1 / 2 then below + 1
  else if below % 2 = 0 then below
  else below + 1

/-- `timedelta(hours=h)` in microseconds. -/
def timedeltaHours (h : ℚ) : ℤ := roundHalfEven (h * 3600000000)

theorem floor_le_roundHalfEven (q : ℚ) : ⌊q⌋ ≤ roundHalfEven q := by
  unfold roundHalfEven
  dsimp only
  split_ifs <;> omega

/-- Hours that a validator let pass. -/
inductive Hours where
  | finite (h : ℚ) (pos : 0 < h)
  | infinite
  | nan

namespace Hours

/-- `max(hours, 48.0)`; no number is greater than NaN. -/
def atLeastTwoDays : Hours → Hours
  | .finite h _ => .finite (max h 48) (lt_max_of_lt_right (by norm_num))
  | .infinite => .infinite
  | .nan => .nan

/-- `timedelta(hours=hours)`. -/
def toDelta : Hours → Except PyError ℤ
  | .finite h _ => timedelta (timedeltaHours h)
  | .infinite => .error (.raised "cannot convert float infinity to integer")
  | .nan => .error (.raised "cannot convert float NaN to integer")

/-- Two days at least are two days at least. -/
theorem le_of_toDelta {hours : Hours} {d : ℤ} (h : hours.atLeastTwoDays.toDelta = .ok d) :
    172800000000 ≤ d := by
  cases hours with
  | infinite => cases h
  | nan => cases h
  | finite q pos =>
      obtain ⟨-, rfl⟩ := (timedelta_eq_ok_iff _ _).mp h
      have hhours : (48 : ℚ) ≤ max q 48 := le_max_right _ _
      have hfloor : (172800000000 : ℤ) ≤ ⌊max q 48 * 3600000000⌋ := by
        refine Int.le_floor.mpr ?_
        push_cast
        linarith
      exact le_trans hfloor (floor_le_roundHalfEven _)

end Hours

end SmartyTrader
