import WindowAlign.Number.Places

/-!
# Calendar

Times are milliseconds since the start of the year 1970, universal time. A time is
shown as a date of the Gregorian calendar, which is taken to reach back without
end, and a time of the day in whole seconds.
-/

namespace WindowAlign.Calendar

/-- A day of the calendar. The year before 1 is 0. -/
structure Date where
  year : Int
  month : Nat
  day : Nat
  deriving DecidableEq, Repr

/-- Days of 400 years, after which the calendar repeats. -/
def eraDays : Int := 146097

/-- Days from March 1 of the year 0 to January 1 of the year 1970. -/
def epochDays : Int := 719468

/-- The date of a day, counted from the start of 1970. Years are counted from March
on here, so that the leap day is the last of its year. -/
def Date.ofDays (n : Int) : Date :=
  let shifted := n + epochDays
  let era := shifted / eraDays
  let dayOfEra := (shifted % eraDays).toNat
  let yearOfEra := (dayOfEra - dayOfEra / 1460 + dayOfEra / 36524 - dayOfEra / 146096) / 365
  let dayOfYear := dayOfEra - (365 * yearOfEra + yearOfEra / 4 - yearOfEra / 100)
  -- the lengths of the months from March on repeat every five months, 153 days
  let monthFromMarch := (5 * dayOfYear + 2) / 153
  let day := dayOfYear - (153 * monthFromMarch + 2) / 5 + 1
  let month := if monthFromMarch < 10 then monthFromMarch + 3 else monthFromMarch - 9
  let year := era * 400 + yearOfEra
  ⟨if month ≤ 2 then year + 1 else year, month, day⟩

/-- A year in four digits, with a sign where it needs another form. -/
def yearText (year : Int) : String :=
  if 0 ≤ year ∧ year ≤ 9999 then Places.zeroPadded 4 year.toNat
  else (if year < 0 then "-" else "+") ++ Places.zeroPadded 4 year.natAbs

def Date.text (d : Date) : String :=
  yearText d.year ++ "-" ++ Places.zeroPadded 2 d.month ++ "-" ++ Places.zeroPadded 2 d.day

def clockText (second : Nat) : String :=
  let two := Places.zeroPadded 2
  two (second / 3600) ++ ":" ++ two (second / 60 % 60) ++ ":" ++ two (second % 60)

/-- The first time that has a date here, in the year -262143. -/
def earliest : Int := -8334601228800000

/-- The last time that has a date here, in the year 262142. -/
def latest : Int := 8210266876799999

/-- Milliseconds of a day. -/
def dayLength : Int := 86400000

/-- Date and time of the day, where the time has a date here. -/
def text? (t : Int) : Option String :=
  if earliest ≤ t ∧ t ≤ latest then
    some ((Date.ofDays (t / dayLength)).text ++ " " ++ clockText (t % dayLength / 1000).toNat)
  else none

end WindowAlign.Calendar
