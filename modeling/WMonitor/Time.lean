import WMonitor.Ingest

/-!
# Times and durations

`Time.Format` of Go for the layouts the program uses, in UTC, `Time.Sub` and
`time.ParseDuration`. A time is its instant in nanoseconds since the Unix epoch, as everywhere in
the model, and a duration its nanoseconds.
-/

namespace WMonitor

/-- The year, month and day of a day number, in the proleptic Gregorian calendar. The years of
`era` run from March to February, so that a leap day is the last of its year. -/
def civil (day : ℤ) : ℤ × ℤ × ℤ :=
  let z := day + 719468
  let era := z / 146097
  let dayOfEra := z - era * 146097
  let yearOfEra := (dayOfEra - dayOfEra / 1460 + dayOfEra / 36524 - dayOfEra / 146096) / 365
  let dayOfYear := dayOfEra - (365 * yearOfEra + yearOfEra / 4 - yearOfEra / 100)
  let m := (5 * dayOfYear + 2) / 153
  let month := if m < 10 then m + 3 else m - 9
  (yearOfEra + era * 400 + if month ≤ 2 then 1 else 0, month, dayOfYear - (153 * m + 2) / 5 + 1)

example : civil 19782 = (2024, 2, 29) := by decide

/-- `n` in decimal, with zeros up to `width` digits. -/
def padded (width : ℕ) (n : ℤ) : List Char :=
  let digits := Nat.toDigits 10 n.natAbs
  (if n < 0 then ['-'] else []) ++ List.replicate (width - digits.length) '0' ++ digits

/-- `2006-01-02`. -/
def formatDate (t : ℤ) : List Char :=
  let (year, month, day) := civil (utcDay t)
  padded 4 year ++ '-' :: padded 2 month ++ '-' :: padded 2 day

/-- `15:04`. -/
def formatClock (t : ℤ) : List Char :=
  padded 2 (t / hour % 24) ++ ':' :: padded 2 (t / minute % 60)

/-- The layout `2006-01-02 15:04`. -/
def formatMinute (t : ℤ) : String :=
  String.ofList (formatDate t ++ ' ' :: formatClock t)

/-- `.999999999`: the fraction of a second without the zeros at its end. -/
def formatFraction (t : ℤ) : List Char :=
  let digits := ((padded 9 (t % second)).reverse.dropWhile (· = '0')).reverse
  if digits = [] then [] else '.' :: digits

/-- The layout `time.RFC3339Nano`. -/
def formatRFC3339Nano (t : ℤ) : String :=
  String.ofList (formatDate t ++ 'T' :: formatClock t ++ ':' :: padded 2 (t / second % 60)
    ++ formatFraction t ++ ['Z'])

example : formatRFC3339Nano (1767225600 * second + 50) = "2026-01-01T00:00:00.00000005Z" := by
  decide +kernel

/-! ## Durations -/

/-- `Time.Sub`: a difference that a duration cannot hold is the nearest one that it can. -/
def timeSub (t u : ℤ) : ℤ := max (-2 ^ 63) (min (2 ^ 63 - 1) (t - u))

def durationUnit (s : List Char) : Option ℕ :=
  if s = ['n', 's'] then some 1
  else if s = ['u', 's'] ∨ s = ['µ', 's'] ∨ s = ['μ', 's'] then some 1000
  else if s = ['m', 's'] then some 1000000
  else if s = ['s'] then some 1000000000
  else if s = ['m'] then some 60000000000
  else if s = ['h'] then some 3600000000000
  else none

/-- The digits of a fraction as far as 64 bits hold them: their value, its scale and whether there
were more. -/
def leadingFraction (ds : List Char) : ℕ × ℕ × Bool :=
  ds.foldl (fun (x, scale, overflow) c =>
    let y := x * 10 + (c.toNat - '0'.toNat)
    if overflow ∨ x > (2 ^ 63 - 1) / 10 ∨ y > 2 ^ 63 then (x, scale, true)
    else (y, scale * 10, false)) (0, 1, false)

/-- A number with its unit at the head of the text, and the rest. -/
def parseComponent (s : List Char) : Option (ℕ × List Char) :=
  let whole := s.takeWhile Char.isDigit
  let s := s.dropWhile Char.isDigit
  let (fraction, s) := match s with
    | '.' :: s => (s.takeWhile Char.isDigit, s.dropWhile Char.isDigit)
    | s => ([], s)
  let inUnit (c : Char) : Bool := c ≠ '.' && !c.isDigit
  match durationUnit (s.takeWhile inUnit) with
  | none => none
  | some unit =>
    let (f, scale, _) := leadingFraction fraction
    let v := Nat.ofDigitChars 10 whole 0 * unit + f * unit / scale
    if (whole = [] ∧ fraction = []) ∨ v > 2 ^ 63 then none else some (v, s.dropWhile inUnit)

/-- The loop of `time.ParseDuration`, with fuel for each character. -/
def parseComponents : ℕ → ℕ → List Char → Option ℕ
  | _, d, [] => some d
  | 0, _, _ => none
  | fuel + 1, d, s =>
    match parseComponent s with
    | none => none
    | some (v, rest) => if d + v > 2 ^ 63 then none else parseComponents fuel (d + v) rest

/-- `time.ParseDuration`; the fraction of a number is cut to whole nanoseconds. -/
def parseDuration (text : String) : Option ℤ :=
  let (neg, s) := splitSign text.toList
  if s = ['0'] then some 0
  else if s = [] then none
  else match parseComponents s.length 0 s with
    | none => none
    | some d => if neg then some (-d) else if d > 2 ^ 63 - 1 then none else some d

example : parseDuration "1h2.5m" = some (3750 * second) := by decide +kernel

end WMonitor
