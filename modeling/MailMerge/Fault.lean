/-!
# Faults

Conditions outside what a merge handles: numbers too long or too large, dates off the calendar.
A fault is no verdict on the template; it ends the operation that meets it.
-/

namespace MailMerge

/-- Why an operation cannot go on. -/
inductive Fault where
  /-- A path step is made of digits, but not all of them decimal. -/
  | oddIndex
  /-- A whole number has too many digits to be read or written. -/
  | longNumeral
  /-- More decimal places are asked for than can be written. -/
  | tooManyPlaces
  /-- The first day of the calendar has no day before it. -/
  | beforeCalendar
  /-- A whole number is too large for a floating-point value. -/
  | largeNumber
  /-- A moment in universal time lies outside the calendar. -/
  | outsideCalendar
  /-- A placeholder stands for no section of its text. -/
  | unknownPlaceholder
deriving DecidableEq, Repr

end MailMerge
