import DiceLedger.Text.Digit
import DiceLedger.Time.Moment

/-!
# Writing moments

A moment is written as `YYYY-MM-DDTHH:MM:SS`, then its microseconds if there are any, then
its offset if it has one. The name of a session comes from the same fields, to the second.
-/

namespace DiceLedger.Time

open DiceLedger.Text

/-- A point and six digits, or nothing for zero. -/
def fraction (microseconds : Nat) : List Char :=
  if microseconds = 0 then [] else '.' :: padded 6 microseconds

/-- An offset: a sign, hours and minutes, and what is left below a minute if anything is. -/
def offsetText (offset : Int) : List Char :=
  let n := offset.natAbs
  let seconds := n / 1000000
  let sign := if offset < 0 then '-' else '+'
  let low := if n % 60000000 = 0 then []
    else ':' :: padded 2 (seconds % 60) ++ fraction (n % 1000000)
  sign :: padded 2 (seconds / 3600) ++ ':' :: padded 2 (seconds / 60 % 60) ++ low

def Moment.isoText (m : Moment) : List Char :=
  padded 4 m.year ++ '-' :: padded 2 m.month ++ '-' :: padded 2 m.day
    ++ 'T' :: padded 2 m.hour ++ ':' :: padded 2 m.minute ++ ':' :: padded 2 m.second
    ++ fraction m.microsecond ++ (m.offset.map offsetText).getD []

def Moment.iso (m : Moment) : String := String.ofList m.isoText

/-- The stem of the name of a session that starts at a moment. Years are not filled up. -/
def Moment.stem (m : Moment) : List Char :=
  decimal m.year ++ '-' :: padded 2 m.month ++ '-' :: padded 2 m.day
    ++ '_' :: padded 2 m.hour ++ '-' :: padded 2 m.minute ++ '-' :: padded 2 m.second

end DiceLedger.Time
