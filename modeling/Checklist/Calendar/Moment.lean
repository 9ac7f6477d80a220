import Checklist.Calendar.Date
import Checklist.Number.Binary64

/-! # Moments and timestamps

A moment is a day with a time of day to the microsecond. A timestamp counts milliseconds from the
start of 1970, universal time. A moment without an offset is local time, and local time is universal
time here: there are no other zones and no hours that a clock skips or repeats. Whole seconds are
exact; a moment with a fraction of a second goes through binary floating point, and the milliseconds
are what is left of that toward zero. -/

namespace Checklist
set_option autoImplicit false
open Text

def Moment.isReal (hour minute second micro : Nat) : Bool :=
  hour < 24 && minute < 60 && second < 60 && micro < 1000000

/-- A day with a time of day. -/
structure Moment where
  date : Date
  hour : Nat
  minute : Nat
  second : Nat
  micro : Nat
  real : Moment.isReal hour minute second micro = true
  deriving DecidableEq, Repr

namespace Moment

/-- The moment with the given parts, if there is one. -/
def of? (date : Date) (hour minute second micro : Nat) : Option Moment :=
  if h : isReal hour minute second micro = true then
    some ⟨date, hour, minute, second, micro, h⟩ else none

def ofDate (date : Date) : Moment :=
  ⟨date, 0, 0, 0, 0, rfl⟩

/-- The number of the day at which timestamps start. -/
def epochDay : Int := 719162

/-- The seconds from the start of 1970 to a moment, its fraction of a second left out. -/
def seconds (moment : Moment) : Int :=
  ((moment.date.number : Int) - epochDay) * 86400 + moment.hour * 3600 +
    moment.minute * 60 + moment.second

/-- The first second that a clock can tell: the calendar's first day is lost to the look
a day back. -/
def firstSecond : Int := (1 - epochDay) * 86400

def endSecond : Int := (Date.count - epochDay) * 86400

/-- A number of seconds in milliseconds, through binary floating point and toward zero. -/
def milliseconds (x : Binary64) : Int :=
  (((x.scale? 1000).bind Binary64.truncate?).getD 0)

/-- The timestamp of a moment of local time, which is universal time. -/
def timestamp (moment : Moment) : Except Failure Int :=
  if moment.seconds < firstSecond then .error .yearOutOfRange
  else if moment.micro == 0 then .ok (moment.seconds * 1000)
  else .ok (milliseconds
    (((Binary64.ofInt moment.seconds).add? (Binary64.ofQuotient moment.micro 1000000)).getD .zero))

/-- The timestamp of a moment that lies a number of microseconds east of universal time. -/
def timestampAt (moment : Moment) (offset : Int) : Int :=
  milliseconds (Binary64.ofQuotient (moment.seconds * 1000000 + moment.micro - offset) 1000000)

def clockSeconds : Int × Int := (-67768040609740800, 67768036191676799)

/-- Why a timestamp has no moment: no clock holds the seconds, no machine calendar the year, or the
calendar has no such year. -/
def rangeFailure (timestamp : Int) : Failure :=
  match (Binary64.ofQuotient timestamp 1000).ratio? with
  | none => .instantOutOfRange
  | some (num, den) =>
    let seconds := num.fdiv den
    if seconds < -9223372036854775808 || 9223372036854775807 < seconds then .instantOutOfRange
    else if seconds < clockSeconds.1 || clockSeconds.2 < seconds then .clockOutOfRange
    else .yearOutOfRange

/-- The moment, to the second, of a number of seconds within the calendar. -/
def ofSeconds? (seconds : Int) : Option Moment :=
  let time := (seconds.fmod 86400).toNat
  (Date.ofNumber? (seconds.fdiv 86400 + epochDay)).bind fun date =>
    of? date (time / 3600) (time / 60 % 60) (time % 60) 0

/-- The moment of a timestamp, to the second. -/
def ofTimestamp (timestamp : Int) : Except Failure Moment :=
  let seconds := timestamp.fdiv 1000
  if firstSecond ≤ seconds ∧ seconds < endSecond then
    match ofSeconds? seconds with
    | some moment => .ok moment
    | none => .error .yearOutOfRange
  else .error (rangeFailure timestamp)

/-- The notation of a timestamp: the day, then hours and minutes unless it is midnight, then the
seconds unless they are zero. The year is written without leading zeros. -/
def timestampText (timestamp : Int) : Except Failure Text := do
  let moment ← ofTimestamp timestamp
  let day := moment.date.textWith 1
  let time := ' ' :: padNat 2 moment.hour ++ [':'] ++ padNat 2 moment.minute
  return if moment.hour == 0 && moment.minute == 0 && moment.second == 0 then day
    else if moment.second == 0 then day ++ time
    else day ++ time ++ [':'] ++ padNat 2 moment.second

/-! ## Notation with an offset -/

/-- The notation of an offset from universal time; seconds and microseconds only where
there are some. -/
def offsetText (offset : Int) : Text :=
  let micros := offset.natAbs
  let seconds := micros / 1000000
  [if offset < 0 then '-' else '+'] ++ padNat 2 (seconds / 3600) ++ [':'] ++
    padNat 2 (seconds / 60 % 60)
    ++ (if seconds % 60 == 0 && micros % 1000000 == 0 then [] else ':' :: padNat 2 (seconds % 60))
    ++ (if micros % 1000000 == 0 then [] else '.' :: padNat 6 (micros % 1000000))

/-- The notation of a moment, with a mark between day and time. -/
def textWith (mark : Char) (moment : Moment) (offset : Option Int) : Text :=
  moment.date.text ++ [mark] ++ padNat 2 moment.hour ++ [':'] ++ padNat 2 moment.minute ++ [':'] ++
    padNat 2 moment.second
    ++ (if moment.micro == 0 then [] else '.' :: padNat 6 moment.micro)
    ++ (match offset with
      | none => []
      | some offset => offsetText offset)

def readFraction (s : Text) : Nat × Text :=
  match s with
  | '.' :: rest =>
    let digits := rest.takeWhile isDecimal
    (digitsValue ((digits ++ List.replicate 6 '0').take 6), rest.dropWhile isDecimal)
  | _ => (0, s)

/-- Reads hours and minutes, and seconds with a fraction if they follow. -/
def readTime (s : Text) : Option ((Nat × Nat × Nat × Nat) × Text) := do
  let (hour, s) ← Date.digits? 2 s
  let (minute, s) ← Date.digits? 2 (← Date.mark? ':' s)
  match (Date.mark? ':' s).bind (Date.digits? 2) with
  | none => return ((hour, minute, 0, 0), s)
  | some (second, s) =>
    let (micro, s) := readFraction s
    return ((hour, minute, second, micro), s)

/-- Reads an offset: none at the end of the text, zero for `Z`. -/
def readOffset? (s : Text) : Option (Option Int) :=
  match s with
  | [] => some none
  | ['Z'] => some (some 0)
  | sign :: rest =>
    if sign == '+' || sign == '-' then
      match readTime rest with
      | some ((hour, minute, second, micro), []) =>
        let micros : Int := ((hour * 60 + minute) * 60 + second) * 1000000 + micro
        some (some (if sign == '-' then -micros else micros))
      | _ => none
    else none

/-- Reads a moment, with or without an offset, in the notation that `textWith` writes. -/
def read? (s : Text) : Option (Moment × Option Int) := do
  let ((year, month, day), rest) ← Date.scan? s
  let date ← Date.of? year month day
  match rest with
  | [] => return (ofDate date, none)
  | _ :: rest =>
    let ((hour, minute, second, micro), rest) ← readTime rest
    let moment ← of? date hour minute second micro
    return (moment, ← readOffset? rest)

end Moment
end Checklist
