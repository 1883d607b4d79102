import LuaReveal.Text.Decimal

/-!
# LuaReveal.Calendar

Times of day and dates of the Gregorian calendar, in universal time.
-/

namespace LuaReveal.Calendar

/-- A date. -/
structure Date where
  year : Nat
  month : Nat
  day : Nat
  deriving DecidableEq

/-- The date that lies a number of days after the first of January 1970. Years
are counted from March on, so that the day of a leap year comes last, and in eras
of 400 years, which all have the same number of days. -/
def Date.ofDays (days : Nat) : Date :=
  let shifted := days + 719468
  let era := shifted / 146097
  let dayOfEra := shifted % 146097
  let yearOfEra :=
    (dayOfEra - dayOfEra / 1460 + dayOfEra / 36524 - dayOfEra / 146096) / 365
  let dayOfYear := dayOfEra - (365 * yearOfEra + yearOfEra / 4 - yearOfEra / 100)
  let monthFromMarch := (5 * dayOfYear + 2) / 153
  let month := if monthFromMarch < 10 then monthFromMarch + 3 else monthFromMarch - 9
  { year := yearOfEra + 400 * era + if month ≤ 2 then 1 else 0
    month
    day := dayOfYear - (153 * monthFromMarch + 2) / 5 + 1 }

/-- A number with at least two digits. -/
def twoDigits (n : Nat) : Text :=
  if n < 10 then '0' :: Text.ofNat n else Text.ofNat n

/-- The time a number of seconds after the start of 1970, as in
`2024-01-31 23:59:59`. -/
def timestamp (seconds : Nat) : Text :=
  let date := Date.ofDays (seconds / 86400)
  let ofDay := seconds % 86400
  Text.ofNat date.year ++ '-' :: twoDigits date.month ++ '-' :: twoDigits date.day ++ ' ' ::
    twoDigits (ofDay / 3600) ++ ':' :: twoDigits (ofDay / 60 % 60) ++ ':' :: twoDigits (ofDay % 60)

end LuaReveal.Calendar
