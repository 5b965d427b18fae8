import Parlance.Settings.Toml.Text
import Parlance.Decimal.Parse

/-! Dates and times of day. A moment is written in one way only, whichever way it was given. -/

namespace Parlance.Settings.Toml

structure Date where
  year : Nat
  month : Nat
  day : Nat
  deriving DecidableEq

structure DayTime where
  hour : Nat
  minute : Nat
  second : Nat
  nanosecond : Nat
  deriving DecidableEq

inductive Zone where
  | universal
  | ahead (minutes : Int)
  deriving DecidableEq

inductive Moment where
  | day (date : Date)
  | clock (time : DayTime)
  | both (date : Date) (time : DayTime) (zone : Option Zone)
  deriving DecidableEq

def paddedDigits (width number : Nat) : Text :=
  let digits := Nat.toDigits 10 number
  List.replicate (width - digits.length) '0' ++ digits

def Date.write (date : Date) : Text :=
  paddedDigits 4 date.year ++ '-' :: paddedDigits 2 date.month ++ '-' :: paddedDigits 2 date.day

def writeFraction (nanosecond : Nat) : Text :=
  if nanosecond = 0 then []
  else '.' :: ((paddedDigits 9 nanosecond).reverse.dropWhile (· == '0')).reverse

def writeHours (hour minute : Nat) : Text := paddedDigits 2 hour ++ ':' :: paddedDigits 2 minute

def DayTime.write (time : DayTime) : Text :=
  writeHours time.hour time.minute ++ ':' :: paddedDigits 2 time.second ++
    writeFraction time.nanosecond

/-- No distance from universal time counts as ahead of it. -/
def Zone.write : Zone → Text
  | .universal => ['Z']
  | .ahead minutes =>
      (if minutes < 0 then '-' else '+') ::
        writeHours (minutes.natAbs / 60) (minutes.natAbs % 60)

def Moment.write : Moment → String
  | .day date => String.ofList date.write
  | .clock time => String.ofList time.write
  | .both date time zone =>
      String.ofList (date.write ++ 'T' :: time.write ++ (zone.map Zone.write).getD [])

structure Clock where
  lastHour : Nat
  isDistance : Nat → Nat → Bool

def Clock.strict : Clock := ⟨23, fun hours minutes => hours ≤ 23 && minutes ≤ 59⟩

/-- A clock that shows the end of a day as hour 24. Zones are at most a day away. -/
def Clock.wide : Clock := ⟨24, fun hours minutes => 60 * hours + minutes ≤ 24 * 60⟩

def readDigits? (count : Nat) (text : Text) : Read Nat :=
  let digits := text.take count
  if digits.length = count ∧ digits.all Char.isDigit then
    some (Decimal.digitValue digits, text.drop count)
  else none

def readMark? (mark : Char) : Text → Option Text
  | char :: rest => if char = mark then some rest else none
  | [] => none

def isLeapYear (year : Nat) : Bool := year % 4 == 0 && (year % 100 != 0 || year % 400 == 0)

def daysIn (year month : Nat) : Nat :=
  if month = 2 then if isLeapYear year then 29 else 28
  else if [4, 6, 9, 11].contains month then 30
  else 31

def Date.isInCalendar (date : Date) : Bool :=
  1 ≤ date.month && date.month ≤ 12 && 1 ≤ date.day && date.day ≤ daysIn date.year date.month

def readDate? (text : Text) : Option (Date × Text) := do
  let (year, rest) ← readDigits? 4 text
  let (month, rest) ← readDigits? 2 (← readMark? '-' rest)
  let (day, rest) ← readDigits? 2 (← readMark? '-' rest)
  let date : Date := ⟨year, month, day⟩
  if date.isInCalendar then some (date, rest) else none

/-- A fraction of a second, of which digits after the ninth do not count; a point without digits is
none. -/
def readFraction (text : Text) : Nat × Text :=
  match text with
  | '.' :: rest =>
      let digits := rest.takeWhile Char.isDigit
      if digits.isEmpty then (0, text)
      else
        let counted := digits.take 9 ++ List.replicate (9 - digits.length) '0'
        (Decimal.digitValue counted, rest.dropWhile Char.isDigit)
  | _ => (0, text)

def readTime? (clock : Clock) (text : Text) : Option (DayTime × Text) := do
  let (hour, rest) ← readDigits? 2 text
  let (minute, rest) ← readDigits? 2 (← readMark? ':' rest)
  let (second, rest) ← readDigits? 2 (← readMark? ':' rest)
  let (nanosecond, rest) := readFraction rest
  if hour ≤ clock.lastHour ∧ minute ≤ 59 ∧ second ≤ 60 then
    some (⟨hour, minute, second, nanosecond⟩, rest)
  else none

def readDistance? (clock : Clock) (text : Text) : Option (Nat × Text) := do
  let (hours, rest) ← readDigits? 2 text
  let (minutes, rest) ← readDigits? 2 (← readMark? ':' rest)
  if clock.isDistance hours minutes then some (60 * hours + minutes, rest) else none

def readZone? (clock : Clock) : Text → Read Zone
  | 'Z' :: rest | 'z' :: rest => some (.universal, rest)
  | '+' :: rest => (readDistance? clock rest).map fun (minutes, rest) => (.ahead minutes, rest)
  | '-' :: rest => (readDistance? clock rest).map fun (minutes, rest) => (.ahead (-minutes), rest)
  | _ => none

def readTimeAfter? (clock : Clock) : Text → Read (DayTime × Option Zone)
  | mark :: rest =>
      if mark = 'T' ∨ mark = 't' ∨ mark = ' ' then
        (readTime? clock rest).map fun (time, rest) =>
          match readZone? clock rest with
          | some (zone, rest) => ((time, some zone), rest)
          | none => ((time, none), rest)
      else none
  | [] => none

def Moment.read? (clock : Clock) (text : Text) : Read Moment :=
  match readDate? text with
  | some (date, rest) =>
      match readTimeAfter? clock rest with
      | some ((time, zone), rest) => some (.both date time zone, rest)
      | none => some (.day date, rest)
  | none => (readTime? clock text).map fun (time, rest) => (.clock time, rest)

def Moment.parse? (text : String) : Option Moment :=
  match Moment.read? .wide text.toList with
  | some (moment, []) => some moment
  | _ => none

end Parlance.Settings.Toml
