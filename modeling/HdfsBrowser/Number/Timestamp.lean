import HdfsBrowser.Fault

/-!
# Times

Dates and times of day in the Gregorian calendar, UTC, from milliseconds since
the start of 1970.  The milliseconds become seconds in a binary number of 64
bits, and the seconds are cut to an integer.  The calendar counts years since
1900 in 32 bits.
-/

namespace HdfsBrowser.Timestamp

structure Date where
  year : Int
  month : Nat
  day : Nat
  deriving DecidableEq, Repr

/-- The date of a day counted from 1 January 1970.  Years are taken from March on, in eras of
400 years. -/
def dateOf (day : Int) : Date :=
  let z := day + 719468
  let era := Int.fdiv z 146097
  let dayOfEra := (Int.fmod z 146097).toNat
  let yearOfEra := (dayOfEra - dayOfEra / 1460 + dayOfEra / 36524 - dayOfEra / 146096) / 365
  let dayOfYear := dayOfEra - (365 * yearOfEra + yearOfEra / 4 - yearOfEra / 100)
  let shifted := (5 * dayOfYear + 2) / 153
  let month := if shifted < 10 then shifted + 3 else shifted - 9
  let year := (yearOfEra : Int) + era * 400
  ⟨if month ≤ 2 then year + 1 else year, month, dayOfYear - (153 * shifted + 2) / 5 + 1⟩

def twoDigits (n : Nat) : String := Numeral.padded 2 n

/-- The minute that holds a second, if its year is from 1 to 9999. -/
def ofSeconds (seconds : Int) : Except Fault String :=
  let date := dateOf (Int.fdiv seconds 86400)
  let ofDay := (Int.fmod seconds 86400).toNat
  if date.year - 1900 < -(twoTo 31 : Int) ∨ twoTo 31 ≤ date.year - 1900 then .error .calendar
  else if date.year < 1 ∨ 9999 < date.year then
    .error (.year (Int.bmod date.year (twoTo 32)))
  else
    .ok (Numeral.text date.year ++ "-" ++ twoDigits date.month ++ "-" ++ twoDigits date.day ++
      " " ++ twoDigits (ofDay / 3600) ++ ":" ++ twoDigits (ofDay / 60 % 60))

def text (milliseconds : Int) : Except Fault String :=
  if milliseconds = 0 then .ok "-"
  else
    match (Binary64.ofRatio (milliseconds < 0) milliseconds.natAbs 1000).floor? with
    | none => .error .tooLarge
    | some seconds =>
      if seconds < -(twoTo 63 : Int) ∨ twoTo 63 ≤ seconds then .error .tooLarge
      else ofSeconds seconds

end HdfsBrowser.Timestamp
