import Procedoc.Text.Integer

/-! # The calendar

A day is known by its number: days are counted from the first day of 1970 on, those before it below
zero.

* `dayOf` is the number of a day, and `dateOf` the year, the month and the day that a number means.
* `day?` reads a year, a month and a day with hyphens between them; `anyDay?` also reads a week and
  a day of it, and forms without hyphens.
* `dayText` writes a day.
-/

namespace Procedoc.Text
set_option autoImplicit false

/-! ## Numbers of days -/

/-- Whether a year has a day more than others. -/
def isLongYear (year : Nat) : Bool := (year % 4 = 0 && year % 100 ≠ 0) || year % 400 = 0

def daysOfMonth (year month : Nat) : Nat :=
  if month = 2 then (if isLongYear year then 29 else 28)
  else if [4, 6, 9, 11].contains month then 30
  else 31

/-- The number of a day. -/
def dayOf (year month day : Nat) : Int :=
  let y := if month ≤ 2 then year + 399 else year + 400
  let m := if month ≤ 2 then month + 9 else month - 3
  (365 * y + y / 4 - y / 100 + y / 400 + (153 * m + 2) / 5 + day : Nat) - 865566

/-- The year, the month and the day of a number. -/
def dateOf (n : Int) : Nat × Nat × Nat :=
  let z := (n + 719468).toNat
  let inCycle := z % 146097
  let year := (inCycle - inCycle / 1460 + inCycle / 36524 - inCycle / 146096) / 365
  let inYear := inCycle - (365 * year + year / 4 - year / 100)
  let month := (5 * inYear + 2) / 153
  let day := inYear - (153 * month + 2) / 5 + 1
  let start := year + z / 146097 * 400
  if month < 10 then (start, month + 3, day) else (start + 1, month - 9, day)

/-- The number of the first day of the first week of a year, which is the week of January 4. -/
def firstWeek (year : Nat) : Int :=
  let n := dayOf year 1 4
  n - (n + 3) % 7

def weeksOf (year : Nat) : Int := (firstWeek (year + 1) - firstWeek year) / 7

example : dayOf 1970 1 1 = 0 ∧ dayOf 2000 3 1 = 11017 ∧ dayOf 2024 1 2 = 19724
    ∧ dayOf 1969 12 31 = -1 ∧ dateOf 19782 = (2024, 2, 29)
    ∧ weeksOf 2020 = 53 := by decide +kernel

/-! ## Days in texts -/

/-- The number of a day, if there is such a day. -/
def monthDay? (year month day : Nat) : Option Int :=
  if 1 ≤ month && month ≤ 12 && 1 ≤ day && day ≤ daysOfMonth year month then
    some (dayOf year month day)
  else none

/-- The number of the day at the beginning of a text, and what comes after it. -/
def day? (cs : List Char) : Option (Int × List Char) := do
  let (year, rest) ← digits? 4 cs
  let '-' :: rest := rest | none
  let (month, rest) ← digits? 2 rest
  let '-' :: rest := rest | none
  let (day, rest) ← digits? 2 rest
  return (← monthDay? year month day, rest)

/-- The number of a day of a week; the last days of the last week that counts may be beyond. -/
def weekDay? (year week day : Nat) : Option Int :=
  let n := firstWeek year + 7 * (week - 1) + (day - 1)
  if 1 ≤ week && week ≤ weeksOf year && 1 ≤ day && day ≤ 7 && n ≤ dayOf 9999 12 31 then some n
  else none

/-- The text without a hyphen in front, which there has to be if days are written with hyphens. -/
def afterHyphen? (isHyphened : Bool) (cs : List Char) : Option (List Char) :=
  if isHyphened then (if cs.head? = some '-' then some (cs.drop 1) else none) else some cs

/-- The number of the day that a text of seven, eight or ten octets names, by its month or by its
week.  Without a day of the week its first one is meant, and what comes after the day does not
count. -/
def anyDay? (s : String) : Option Int := do
  guard ([7, 8, 10].contains s.utf8ByteSize)
  let (year, rest) ← digits? 4 s.toList
  guard (1 ≤ year)
  let isHyphened := rest.head? = some '-'
  match (← afterHyphen? isHyphened rest) with
  | 'W' :: rest =>
    let (week, rest) ← digits? 2 rest
    if rest.isEmpty then weekDay? year week 1
    else
      let (day, _) ← digits? 1 (← afterHyphen? isHyphened rest)
      weekDay? year week day
  | rest =>
    let (month, rest) ← digits? 2 rest
    let (day, _) ← digits? 2 (← afterHyphen? isHyphened rest)
    monthDay? year month day

def padded (width n : Nat) : List Char :=
  let ds := Nat.toDigits 10 n
  List.replicate (width - ds.length) '0' ++ ds

/-- The text of a day: its year, its month and its day. -/
def dayText (n : Int) : String :=
  let (year, month, day) := dateOf n
  String.ofList (padded 4 year ++ '-' :: padded 2 month ++ '-' :: padded 2 day)

example : (anyDay? "20240102").map dayText = some "2024-01-02"
    ∧ (anyDay? "2020-W53-7").map dayText = some "2021-01-03" ∧ anyDay? "2024-1-2" = none
    ∧ dayText (-719162) = "0001-01-01" := by decide +kernel

end Procedoc.Text
