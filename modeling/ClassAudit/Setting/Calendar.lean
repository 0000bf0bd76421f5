/-!
# Calendar dates

Which day numbers a month of a year has, in the Gregorian calendar extended to every
year.
-/

set_option autoImplicit false

namespace ClassAudit

/-- Whether a year has a 29th of February. -/
def isLeapYear (year : Nat) : Bool :=
  year % 4 == 0 && (year % 100 != 0 || year % 400 == 0)

/-- The number of days of a month; zero when there is no such month. -/
def daysInMonth (year month : Nat) : Nat :=
  match month with
  | 2 => if isLeapYear year then 29 else 28
  | 4 | 6 | 9 | 11 => 30
  | 1 | 3 | 5 | 7 | 8 | 10 | 12 => 31
  | _ => 0

/-- Whether a year, a month and a day name a date. -/
def isDate (year month day : Nat) : Bool := 0 < day && day ≤ daysInMonth year month

end ClassAudit
