/-!
# Moments

A moment is a wall-clock reading, with the offset of its clock from universal time or without
one. The calendar is the Gregorian one, carried back to year 1. Two moments with offsets are
compared by the microseconds between them.
-/

namespace DiceLedger.Time

/-- A wall-clock reading. The offset is in microseconds east of universal time. -/
structure Moment where
  year : Nat
  month : Nat
  day : Nat
  hour : Nat
  minute : Nat
  second : Nat
  microsecond : Nat
  offset : Option Int
  deriving DecidableEq, Repr

def isLeap (year : Nat) : Bool :=
  year % 4 == 0 && (year % 100 != 0 || year % 400 == 0)

def daysInMonth (year month : Nat) : Nat :=
  if month = 2 then if isLeap year then 29 else 28
  else if month = 4 || month = 6 || month = 9 || month = 11 then 30
  else 31

def daysInYear (year : Nat) : Nat := if isLeap year then 366 else 365

def daysBeforeYear (year : Nat) : Nat :=
  let y := year - 1
  365 * y + y / 4 - y / 100 + y / 400

def daysBeforeMonth (year month : Nat) : Nat :=
  (List.range (month - 1)).foldl (fun days m => days + daysInMonth year (m + 1)) 0

def dayNumber (year month day : Nat) : Nat :=
  daysBeforeYear year + daysBeforeMonth year month + (day - 1)

/-- The month and day of the day of a year that is `n` days after its first, searched from
`month` on. -/
def monthDay (year n : Nat) : (months : Nat) → (month : Nat) → Nat × Nat
  | 0, month => (month, n + 1)
  | months + 1, month =>
    if n < daysInMonth year month then (month, n + 1)
    else monthDay year (n - daysInMonth year month) months (month + 1)

def dayBefore (year month day : Nat) : Nat × Nat × Nat :=
  if 1 < day then (year, month, day - 1)
  else if 1 < month then (year, month - 1, daysInMonth year (month - 1))
  else (year - 1, 12, 31)

def dayAfter (year month day : Nat) : Nat × Nat × Nat :=
  if day < daysInMonth year month then (year, month, day + 1)
  else if month < 12 then (year, month + 1, 1)
  else (year + 1, 1, 1)

def dayLength : Int := 86400000000

def Moment.timeOfDay (m : Moment) : Int :=
  ((m.hour * 60 + m.minute) * 60 + m.second) * 1000000 + m.microsecond

def Moment.localTime (m : Moment) : Int :=
  dayNumber m.year m.month m.day * dayLength + m.timeOfDay

/-- The same instant by a clock of universal time. An offset is less than a day, so the date
moves by at most one day. A moment without an offset is taken to be in universal time. -/
def Moment.toUniversal (m : Moment) : Moment :=
  let t := m.timeOfDay - m.offset.getD 0
  let (year, month, day) :=
    if t < 0 then dayBefore m.year m.month m.day
    else if dayLength ≤ t then dayAfter m.year m.month m.day
    else (m.year, m.month, m.day)
  let rest := (t % dayLength).toNat
  { year, month, day
    hour := rest / 3600000000
    minute := rest / 60000000 % 60
    second := rest / 1000000 % 60
    microsecond := rest % 1000000
    offset := some 0 }

/-- The microseconds from `earlier` to `later`. There is no telling when only one of the two
has an offset. -/
def elapsed? (earlier later : Moment) : Option Int :=
  match earlier.offset, later.offset with
  | some e, some l => some ((later.localTime - l) - (earlier.localTime - e))
  | none, none => some (later.localTime - earlier.localTime)
  | _, _ => none

/-- The value nearest to `n / 10 ^ 6` with 53 significant binary digits, an even last digit
deciding a tie, and of that the whole seconds. Spans of many years lose their microseconds in
this way, and a span just short of a full second may be rounded up to it. -/
def roundedSeconds (n : Nat) : Nat :=
  let whole := n / 1000000
  let places := 53 - (Nat.log2 whole + 1)
  let scaled := n * Nat.pow 2 places
  let q := scaled / 1000000
  let r := scaled % 1000000
  let rounded := if 500000 < r || (r == 500000 && q % 2 == 1) then q + 1 else q
  rounded / Nat.pow 2 places

def wholeSeconds (microseconds : Int) : Int :=
  if microseconds < 0 then -(roundedSeconds microseconds.natAbs)
  else roundedSeconds microseconds.natAbs

end DiceLedger.Time
