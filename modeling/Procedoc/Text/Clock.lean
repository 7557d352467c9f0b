import Procedoc.Text.Calendar

/-! # Days and times

Which texts and numbers name a day, a time of day, or a moment: a day with a time.  A number counts
seconds, from midnight or from the first day of 1970; large ones count thousandths.

* `isDay`, `isTime` and `isMoment` read texts; `isTimeNumber` and `isMomentNumber` check numbers.
-/

namespace Procedoc.Text
set_option autoImplicit false

/-! ## Days -/

/-- The seconds that a number counts, large ones counting thousandths. -/
def secondsOf (n : Int) : Int := if n.natAbs ≤ 20000000000 then n else n / 1000

/-- Whether the number of a moment is one within the years that have four digits. -/
def isMomentNumber (n : Int) : Bool :=
  let s := secondsOf n
  s ≤ 253402300799 && -62167219200 ≤ s

def isDay (s : String) : Bool :=
  (match day? s.toList with
    | some (_, []) => true
    | _ => false)
    || (integer? s.toList).any fun n => isMomentNumber n && secondsOf n % 86400 = 0

/-! ## Times -/

/-- Whether the number of a time of day is one within a day. -/
def isTimeNumber (n : Int) : Bool := 0 ≤ n && n < 86400

/-- What comes after the fraction of a second that a text may begin with. -/
def afterFraction? : List Char → Option (List Char)
  | '.' :: rest | ',' :: rest =>
    if (rest.takeWhile isDigit).isEmpty then none else some (rest.dropWhile isDigit)
  | cs => some cs

/-- What comes after the time of day at the beginning of a text. -/
def afterTime? (cs : List Char) : Option (List Char) := do
  let (hour, rest) ← digits? 2 cs
  let ':' :: rest := rest | none
  let (minute, rest) ← digits? 2 rest
  if hour < 24 && minute < 60 then
    match rest with
    | ':' :: rest =>
      let (second, rest) ← digits? 2 rest
      if second < 60 then afterFraction? rest else none
    | rest => return rest
  else none

/-- Whether a text is the place of a clock on the globe, or empty. -/
def isZone : List Char → Bool
  | [] | ['Z'] | ['z'] => true
  | c :: rest =>
    let ds := rest.filter (· ≠ ':')
    (c = '+' || c = '-') && ds.length = 4 && rest.length ≤ 5
      && (match digits? 2 ds with
        | some (hour, more) => hour < 24 && (digits? 2 more).any fun p => p.1 < 60
        | none => false)

def isTime (s : String) : Bool :=
  (afterTime? s.toList).any isZone || (integer? s.toList).any isTimeNumber

def isMoment (s : String) : Bool :=
  (match day? s.toList with
    | some (_, []) => true
    | some (_, c :: rest) =>
      ['T', 't', ' ', '_'].contains c && (afterTime? rest).any isZone
    | none => false)
  || (integer? s.toList).any isMomentNumber

example : isDay "2024-02-29" = true ∧ isDay "2023-02-29" = false ∧ isDay "x" = false
    ∧ isMoment "2024-02-01T10:20:30.5+01:00" = true ∧ isTime "24:00" = false := by
  decide +kernel

end Procedoc.Text
