import OntoGraph.Number.Reading

/-!
# Timestamps

A timestamp names a second in coordinated universal time, as in `2024-03-01T12:00:00Z`. The date
has to exist in the Gregorian calendar; a sixtieth second is allowed for leap seconds.
-/

namespace OntoGraph.Text

open Number

def isLeapYear (year : Nat) : Bool :=
  (year % 4 == 0 && year % 100 != 0) || year % 400 == 0

def daysInMonth (year month : Nat) : Nat :=
  if month = 2 then (if isLeapYear year then 29 else 28)
  else if month = 4 ∨ month = 6 ∨ month = 9 ∨ month = 11 then 30
  else if 1 ≤ month ∧ month ≤ 12 then 31
  else 0

def isDate (year month day : Nat) : Bool :=
  decide (1 ≤ day) && decide (day ≤ daysInMonth year month)

def isTimeOfDay (hour minute second : Nat) : Bool :=
  decide (hour ≤ 23) && decide (minute ≤ 59) && decide (second ≤ 60)

def isTimestamp (s : String) : Bool :=
  match s.toList with
  | [y1, y2, y3, y4, '-', m1, m2, '-', d1, d2, 'T', h1, h2, ':', n1, n2, ':', s1, s2, 'Z'] =>
    let digits := [y1, y2, y3, y4, m1, m2, d1, d2, h1, h2, n1, n2, s1, s2]
    digits.all isAsciiDigit
      && isDate (ofDigits [y1, y2, y3, y4]) (ofDigits [m1, m2]) (ofDigits [d1, d2])
      && isTimeOfDay (ofDigits [h1, h2]) (ofDigits [n1, n2]) (ofDigits [s1, s2])
  | _ => false

end OntoGraph.Text
