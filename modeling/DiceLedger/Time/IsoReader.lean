import DiceLedger.Text.Quoted
import DiceLedger.Time.Moment

/-!
# Reading moments

A moment is read in the extended and the basic form, by calendar date or by week, with any one
character between date and time, with hours alone or hours and minutes, with a point or a comma
before a fraction whose digits after the sixth are dropped, and with an offset of the same
shapes or a `Z`. The reader is lenient where an offset follows: one character behind the clock,
and anything behind six digits of a fraction, is passed over.

Positions count bytes of UTF-8, so each character stands for as many units as it has bytes.
-/

namespace DiceLedger.Time

open DiceLedger.Text

inductive IsoFault
  | malformed (text : String)
  | offsetRange (offset : Int)
  | yearRange (year : Nat)
  | monthRange
  | dayRange
  | hourRange
  | minuteRange
  | secondRange
  deriving DecidableEq, Repr

/-- A span of microseconds as days, seconds and microseconds, those that are zero left out;
days alone may be negative. -/
def spanText (microseconds : Int) : String :=
  let days := Int.fdiv microseconds dayLength
  let rest := (Int.fmod microseconds dayLength).toNat
  let part (name : String) (n : Int) :=
    if n = 0 then [] else [name ++ "=" ++ String.ofList (signedDecimal n)]
  let parts := part "days" days ++ part "seconds" (rest / 1000000 : Nat)
    ++ part "microseconds" (rest % 1000000 : Nat)
  "datetime.timedelta(" ++ (if parts.isEmpty then "0" else ", ".intercalate parts) ++ ")"

def IsoFault.message : IsoFault → String
  | .malformed text => "Invalid isoformat string: " ++ quoted text
  | .offsetRange offset =>
    "offset must be a timedelta strictly between -timedelta(hours=24) and timedelta(hours=24), not "
      ++ spanText offset ++ "."
  | .yearRange year => "year " ++ String.ofList (decimal year) ++ " is out of range"
  | .monthRange => "month must be in 1..12"
  | .dayRange => "day is out of range for month"
  | .hourRange => "hour must be in 0..23"
  | .minuteRange => "minute must be in 0..59"
  | .secondRange => "second must be in 0..59"

namespace IsoReader

/-- What is read behind the end of the text. -/
def terminator : Char := '\x00'

/-- The text with each character as often as it has bytes. -/
def units (cs : List Char) : List Char := cs.flatMap fun c => List.replicate c.utf8Size c

def digits? (count : Nat) (cs : List Char) : Option (Nat × List Char) :=
  let run := cs.take count
  if run.length = count && run.all Char.isDigit then some (value run, cs.drop count) else none

/-- Where the date ends. Its fifth, sixth and ninth units tell the form; a week date without
dashes is followed by an even number of digits, so its length is told by theirs. -/
def dateLength (cs : List Char) : Nat :=
  let unit (i : Nat) := (cs[i]?).getD terminator
  if cs.length = 7 then 7
  else if unit 4 = '-' then
    if unit 5 = 'W' then
      if unit 8 = '-' then
        if 10 < cs.length && (unit 10).isDigit then 8 else 10
      else 8
    else 10
  else if unit 4 = 'W' then
    let last := 7 + ((cs.drop 7).takeWhile Char.isDigit).length
    if last < 9 then last else if last % 2 = 0 then 7 else 8
  else 8

/-- A date as read, with its parts not checked; `none` stands for a week of year 0, which lies
before every date. -/
abbrev Date := Option (Nat × Nat × Nat)

/-- How many days after the first of January the first week begins, which is the week of the
year's first Thursday; counted from three days before. -/
def firstWeek (year : Nat) : Nat :=
  -- 0 is Monday
  let weekday := daysBeforeYear year % 7
  if weekday < 4 then 3 - weekday else 10 - weekday

/-- The number of weeks of a year: 53 if it begins on a Thursday, or is a leap year and begins
on a Wednesday. Year 0 has 52. -/
def weeksInYear (year : Nat) : Nat :=
  let weekday := daysBeforeYear year % 7
  if year ≠ 0 && (weekday = 3 || (weekday = 2 && isLeap year)) then 53 else 52

/-- The date of a day of a week. -/
def weekDate? (year week day : Nat) : Option Date :=
  if week = 0 || weeksInYear year < week || day = 0 || 7 < day then none
  else if year = 0 then some none
  else
    let n := firstWeek year + (week - 1) * 7 + (day - 1)
    if n < 3 then
      -- in the last days of the year before
      some (some (year - 1, 12, 29 + n))
    else
      let n := n - 3
      if n < daysInYear year then
        let (month, day) := monthDay year n 11 1
        some (some (year, month, day))
      else some (some (year + 1, 1, n - daysInYear year + 1))

def date? (length : Nat) (cs : List Char) : Option Date := do
  let (year, rest) ← digits? 4 cs
  let dashed := rest.head? = some '-'
  let rest := if dashed then rest.drop 1 else rest
  if rest.head? = some 'W' then
    let (week, rest) ← digits? 2 (rest.drop 1)
    let used := if dashed then 8 else 7
    if used < length then
      if dashed && rest.head? ≠ some '-' then none
      else
        let (day, _) ← digits? 1 (if dashed then rest.drop 1 else rest)
        weekDate? year week day
    else weekDate? year week 1
  else
    let (month, rest) ← digits? 2 rest
    if dashed && rest.head? ≠ some '-' then none
    else
      let (day, _) ← digits? 2 (if dashed then rest.drop 1 else rest)
      some (some (year, month, day))

structure Clock where
  hour : Nat := 0
  minute : Nat := 0
  second : Nat := 0
  microsecond : Nat := 0
  tail : Bool := false

/-- The fraction of a second, and whether something is left over before `next`. Its first six
digits count. -/
def fraction? (next : Char) (cs : List Char) : Option (Nat × Bool) := do
  let (n, rest) ← digits? (min 6 cs.length) cs
  let rest := rest.dropWhile Char.isDigit
  some (n * Nat.pow 10 (6 - min 6 cs.length), rest.head?.getD next ≠ terminator)

inductive Turn
  | done (tail : Bool)
  | component (rest : List Char)
  | fraction (rest : List Char)

/-- Look at the unit behind two digits; `colons` tells whether the parts are separated. A
single unit before `next` ends the reading whatever it is. -/
def turn? (next : Char) (colons : Bool) (cs : List Char) : Option Turn :=
  match cs with
  | [] => some (.done (next ≠ terminator))
  | [c] => some (.done (c ≠ terminator))
  | c :: rest =>
    if colons && c = ':' then some (.component rest)
    else if c = '.' || c = ',' then some (.fraction rest)
    else if colons then none
    else some (.component cs)

/-- A clock reading in `cs`, which is followed by `next`. Behind the seconds a fraction may
also stand without a mark, or behind another colon. -/
def clock? (next : Char) (cs : List Char) : Option Clock := do
  let (hour, rest) ← digits? 2 cs
  let colons := rest.head?.getD next = ':'
  match ← turn? next colons rest with
  | .done tail => some { hour, tail }
  | .fraction rest =>
    let (microsecond, tail) ← fraction? next rest
    some { hour, microsecond, tail }
  | .component rest =>
    let (minute, rest) ← digits? 2 rest
    match ← turn? next colons rest with
    | .done tail => some { hour, minute, tail }
    | .fraction rest =>
      let (microsecond, tail) ← fraction? next rest
      some { hour, minute, microsecond, tail }
    | .component rest =>
      let (second, rest) ← digits? 2 rest
      match ← turn? next colons rest with
      | .done tail => some { hour, minute, second, tail }
      | .fraction rest | .component rest =>
        let (microsecond, tail) ← fraction? next rest
        some { hour, minute, second, microsecond, tail }

def isOffsetMark (c : Char) : Bool := c == '+' || c == '-' || c == 'Z'

/-- An offset in microseconds, after its sign. An offset of no whole seconds is none at all. -/
def offset? (sign : Int) (cs : List Char) : Option Int := do
  let clock ← clock? terminator cs
  if clock.tail then none
  else
    let seconds := (clock.hour * 60 + clock.minute) * 60 + clock.second
    some (if seconds = 0 then 0 else sign * (seconds * 1000000 + clock.microsecond : Nat))

/-- A clock reading and its offset. -/
def time? (cs : List Char) : Option (Clock × Option Int) := do
  let body := cs.takeWhile fun c => !isOffsetMark c
  match cs.drop body.length with
  | [] =>
    let clock ← clock? terminator body
    if clock.tail then none else some (clock, none)
  | mark :: rest =>
    let clock ← clock? mark body
    if mark = 'Z' then
      if rest.head?.getD terminator = terminator then some (clock, some 0) else none
    else
      let offset ← offset? (if mark = '-' then -1 else 1) rest
      some (clock, some offset)

/-- The moment of parts that were read, if they are in range. The offset is looked at first,
then the date, then the clock. -/
def check (date : Date) (clock : Clock) (offset : Option Int) : Except IsoFault Moment := do
  if let some n := offset then
    if n ≤ -dayLength || dayLength ≤ n then throw (.offsetRange n)
  let some (year, month, day) := date | throw .monthRange
  if year = 0 || 9999 < year then throw (.yearRange year)
  if month = 0 || 12 < month then throw .monthRange
  if day = 0 || daysInMonth year month < day then throw .dayRange
  if 23 < clock.hour then throw .hourRange
  if 59 < clock.minute then throw .minuteRange
  if 59 < clock.second then throw .secondRange
  return { year, month, day, offset
           hour := clock.hour, minute := clock.minute, second := clock.second
           microsecond := clock.microsecond }

/-- The parts of a moment. A date may stand alone; a separator may not. -/
def parts? (cs : List Char) : Option (Date × Clock × Option Int) := do
  let length := dateLength cs
  let date ← date? length cs
  match cs.drop length with
  | [] => some (date, {}, none)
  | separator :: rest =>
    let (clock, offset) ← time? (rest.drop (separator.utf8Size - 1))
    some (date, clock, offset)

/-- Read a moment; no moment is shorter than seven characters. -/
def read (text : String) : Except IsoFault Moment :=
  let cs := text.toList
  match if cs.length < 7 then none else parts? (units cs) with
  | none => .error (.malformed text)
  | some (date, clock, offset) => check date clock offset

end IsoReader

end DiceLedger.Time
