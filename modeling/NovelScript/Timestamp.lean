/-
Points in time as they are written into saved scripts: a date, a time of day to
the microsecond, and an optional distance from universal time.

# Calendar

The calendar is the one that is in use now, for all years from 1 to 9999. Days
are counted from its beginning, so two points in time that say their distances
from universal time are the same if they are the same number of microseconds,
whatever the distances are (`same`).

# Reading

More is read than is written. A date is read from its month and day or from its
week and the day in it, with signs in between or without; any one character may
stand between date and time; a time of day may end behind the hours or the
minutes; and a fraction of a second may have any number of digits, of which six
count. What is written is one of these forms. A point in time that was read has
its parts in their ranges (`isValid`), which is checked at the end and not part
by part.
-/
import NovelScript.Text.Shown

namespace NovelScript

/-- A date and a time of day, with the distance from universal time if it is known. -/
structure Timestamp where
  /-- The year. -/
  year : Nat
  /-- The month, from one on. -/
  month : Nat
  /-- The day, from one on. -/
  day : Nat
  /-- The hour. -/
  hour : Nat := 0
  /-- The minute. -/
  minute : Nat := 0
  /-- The second. -/
  second : Nat := 0
  /-- The microsecond. -/
  microsecond : Nat := 0
  /-- Microseconds ahead of universal time. -/
  offset : Option Int := none
deriving DecidableEq, Repr, Inhabited

namespace Timestamp

-- =========================================================== calendar

/-- Whether a year has a leap day. -/
def isLeap (year : Nat) : Bool := year % 4 = 0 && (year % 100 ≠ 0 || year % 400 = 0)

/-- How many days a month has. -/
def daysInMonth (year month : Nat) : Nat :=
  if month = 2 then if isLeap year then 29 else 28
  else if month = 4 ∨ month = 6 ∨ month = 9 ∨ month = 11 then 30 else 31

/-- The microseconds of a day. -/
def microsecondsInDay : Nat := 86400000000

/-- Whether all parts lie in their ranges. -/
def isValid (t : Timestamp) : Bool :=
  1 ≤ t.year && t.year ≤ 9999 && 1 ≤ t.month && t.month ≤ 12 && 1 ≤ t.day && t.day ≤ daysInMonth t.year t.month &&
    t.hour < 24 && t.minute < 60 && t.second < 60 && t.microsecond < 1000000 &&
    t.offset.all fun o => o.natAbs < microsecondsInDay

/-- The days before the first of a year. -/
def daysBeforeYear (year : Nat) : Nat :=
  let y := year - 1
  y * 365 + y / 4 - y / 100 + y / 400

/-- The days before the first of a month within its year. -/
def daysBeforeMonth (year month : Nat) : Nat :=
  (List.range (month - 1)).foldl (fun days m => days + daysInMonth year (m + 1)) 0

/-- The year and the day in it, from zero on, that come some days after the first of a year; as many
years as `bound` says are passed at most. -/
def yearAfter (year days : Nat) : Nat → Nat × Nat
  | 0 => (year, days)
  | bound + 1 =>
    let size := if isLeap year then 366 else 365
    if days < size then (year, days) else yearAfter (year + 1) (days - size) bound

/-- The month and the day in it, both from one on, that come some days after the first of a month;
as many months as `bound` says are passed at most. -/
def monthAfter (year month days : Nat) : Nat → Nat × Nat
  | 0 => (month, days + 1)
  | bound + 1 =>
    if days < daysInMonth year month then (month, days + 1)
    else monthAfter year (month + 1) (days - daysInMonth year month) bound

/-- The point in universal time that comes some seconds after the beginning of 1970. -/
def ofEpoch (seconds microsecond : Nat) : Timestamp :=
  let days := seconds / 86400
  let (year, rest) := yearAfter 1970 days days
  let (month, day) := monthAfter year 1 rest 11
  { year, month, day, hour := seconds / 3600 % 24, minute := seconds / 60 % 60,
    second := seconds % 60, microsecond, offset := some 0 }

/-- Microseconds since the beginning of the calendar, by the clock's own reading. -/
def reading (t : Timestamp) : Int :=
  let days := daysBeforeYear t.year + daysBeforeMonth t.year t.month + t.day
  (((days * 24 + t.hour) * 60 + t.minute) * 60 + t.second) * 1000000 + t.microsecond

/-- Whether two timestamps name the same point in time. One that says its distance from universal
time never equals one that does not. -/
def same (a b : Timestamp) : Bool :=
  match a.offset, b.offset with
  | none, none => a.reading = b.reading
  | some o, some p => a.reading - o = b.reading - p
  | _, _ => false

/-- A part of a timestamp by its name. -/
def part? (t : Timestamp) : String → Option Nat
  | "year" => some t.year
  | "month" => some t.month
  | "day" => some t.day
  | "hour" => some t.hour
  | "minute" => some t.minute
  | "second" => some t.second
  | "microsecond" => some t.microsecond
  | _ => none

-- ============================================================ writing

/-- A number filled up with zeros to a width. -/
def padded (width n : Nat) : String :=
  let ds := toString n
  String.ofList (List.replicate (width - ds.length) '0') ++ ds

/-- The distance from universal time: sign, hours, minutes, and seconds if there are any. -/
def offsetText (o : Int) : String :=
  let n := o.natAbs / 1000000
  let fraction := o.natAbs % 1000000
  (if o < 0 then "-" else "+") ++ padded 2 (n / 3600) ++ ":" ++ padded 2 (n / 60 % 60) ++
    (if n % 60 = 0 ∧ fraction = 0 then "" else ":" ++ padded 2 (n % 60)) ++
    (if fraction = 0 then "" else "." ++ padded 6 fraction)

/-- The written form, with a separator between date and time. -/
def textWith (separator : String) (t : Timestamp) : String :=
  padded 4 t.year ++ "-" ++ padded 2 t.month ++ "-" ++ padded 2 t.day ++ separator ++
    padded 2 t.hour ++ ":" ++ padded 2 t.minute ++ ":" ++ padded 2 t.second ++
    (if t.microsecond = 0 then "" else "." ++ padded 6 t.microsecond) ++
    (match t.offset with
      | some o => offsetText o
      | none => "")

/-- The written form. -/
def text (t : Timestamp) : String := t.textWith "T"

/-- How a message shows a distance from universal time: in days, seconds and microseconds, of which
only the days may be negative. -/
def shownOffset (o : Int) : String :=
  if o = 0 then "datetime.timezone.utc"
  else
    let rest := (o % microsecondsInDay).toNat
    let part (name : String) (n : Nat) := if n = 0 then [] else [name ++ "=" ++ toString n]
    "datetime.timezone(datetime.timedelta(" ++ String.intercalate ", "
      ((if o < 0 then ["days=-1"] else []) ++ part "seconds" (rest / 1000000) ++
        part "microseconds" (rest % 1000000)) ++ "))"

/-- How a message shows a timestamp. -/
def shown (t : Timestamp) : String :=
  let clock := [t.year, t.month, t.day, t.hour, t.minute] ++
    (if t.second = 0 ∧ t.microsecond = 0 then [] else [t.second]) ++
    (if t.microsecond = 0 then [] else [t.microsecond])
  "datetime.datetime(" ++ String.intercalate ", " (clock.map toString) ++
    (match t.offset with
      | some o => ", tzinfo=" ++ shownOffset o
      | none => "") ++ ")"

-- ============================================================ reading

/-- A row of so many digits at the front, with what follows it. -/
def digits? : Nat → List Char → Option (Nat × List Char)
  | 0, cs => some (0, cs)
  | n + 1, c :: cs =>
    if c.isDigit then (digits? n cs).map fun (v, rest) => ((c.toNat - 48) * Nat.pow 10 n + v, rest)
    else none
  | _ + 1, [] => none

/-- A year, a month and a day. -/
abbrev Date := Nat × Nat × Nat

/-- The day of the week that a year begins with, Monday being zero. -/
def firstWeekday (year : Nat) : Nat := daysBeforeYear year % 7

/-- How many weeks a year has. -/
def weeksInYear (year : Nat) : Nat :=
  if firstWeekday year = 3 ∨ (firstWeekday year = 2 ∧ isLeap year) then 53 else 52

/-- The date of a day of a week. The first week of a year is the one with its first Thursday. -/
def ofWeek? (year week day : Nat) : Option Date :=
  if year = 0 ∨ week = 0 ∨ weeksInYear year < week ∨ day = 0 ∨ 7 < day then none
  else
    let first := firstWeekday year
    let monday := daysBeforeYear year + (if first ≤ 3 then 0 else 7) - first
    let start := max 1 (year - 1)
    let (year, rest) :=
      yearAfter start (monday + (week - 1) * 7 + (day - 1) - daysBeforeYear start) 3
    let (month, day) := monthAfter year 1 rest 11
    some (year, month, day)

/-- A day of a week at the front of a text, behind its year. Behind dashes the day is left out if the
second character after it is a digit; without dashes it is if it would be the first of an odd number
of digits, but more than one. -/
def weekDate? (year : Nat) (dashes : Bool) (cs : List Char) : Option (Date × List Char) := do
  let (week, rest) ← digits? 2 cs
  let day? : Option (List Char) := match dashes, rest with
    | true, '-' :: more => if ((more.drop 1).head?.map Char.isDigit).getD false then none else some more
    | true, _ => none
    | false, more =>
      let count := (more.takeWhile Char.isDigit).length
      if count = 1 ∨ (count ≠ 0 ∧ count % 2 = 0) then some more else none
  match day? with
  | none => (ofWeek? year week 1).map (·, rest)
  | some more => do
    let (day, rest) ← digits? 1 more
    (ofWeek? year week day).map (·, rest)

/-- A date at the front of a text, with what follows it; dashes stand between its parts, or not at
all. -/
def date? (cs : List Char) : Option (Date × List Char) := do
  let (year, rest) ← digits? 4 cs
  match rest with
  | 'W' :: rest => weekDate? year false rest
  | '-' :: 'W' :: rest => weekDate? year true rest
  | '-' :: rest =>
    let (month, rest) ← digits? 2 rest
    match rest with
    | '-' :: rest =>
      let (day, rest) ← digits? 2 rest
      some ((year, month, day), rest)
    | _ => none
  | rest =>
    let (month, rest) ← digits? 2 rest
    let (day, rest) ← digits? 2 rest
    some ((year, month, day), rest)

/-- A time of day: hour, minute, second and microsecond, and whether something is left over. -/
structure Clock where
  /-- Hour, minute and second, as far as they were written. -/
  parts : List Nat
  /-- The microsecond. -/
  microsecond : Nat := 0
  /-- Whether the text goes on. -/
  leftover : Bool := false

/-- The full seconds of a time of day. -/
def Clock.seconds (c : Clock) : Nat :=
  c.parts.getD 0 0 * 3600 + c.parts.getD 1 0 * 60 + c.parts.getD 2 0

/-- Whether a text goes on: where a null character stands it does not. -/
def goesOn (cs : List Char) : Bool := cs.head?.any (· ≠ Char.ofNat 0)

/-- A fraction of a second; digits beyond the sixth are dropped. -/
def fraction? (parts : List Nat) (cs : List Char) : Option Clock := do
  let count := min 6 cs.length
  let (value, rest) ← digits? count cs
  some ⟨parts, value * Nat.pow 10 (6 - count), goesOn (rest.dropWhile Char.isDigit)⟩

/-- The further parts of a time of day: at most `left` of them, with colons between them or not. One
more character may follow, as long as it is one of a single byte. -/
def clockFrom (left : Nat) (colons : Option Bool) (parts : List Nat) (cs : List Char) :
    Option Clock :=
  match left with
  | 0 => fraction? parts cs
  | left + 1 =>
    match digits? 2 cs with
    | none => none
    | some (value, rest) =>
      let parts := parts ++ [value]
      match rest with
      | [] => some ⟨parts, 0, false⟩
      | c :: rest =>
        let separated := colons.getD (c = ':')
        if rest.isEmpty && c.toNat < 128 then some ⟨parts, 0, goesOn [c]⟩
        else if separated && c = ':' then clockFrom left (some separated) parts rest
        else if c = '.' || c = ',' then fraction? parts rest
        else if !separated then clockFrom left (some separated) parts (c :: rest)
        else none

/-- A time of day or a distance from universal time. -/
def clock? (cs : List Char) : Option Clock := clockFrom 3 none [] cs

/-- Whether a character begins a distance from universal time. -/
def beginsOffset (c : Char) : Bool := c = '+' || c = '-' || c = 'Z'

/-- The distance from universal time that a text is; none at all if it is empty. One of less than a
second is none. -/
def offset? : List Char → Option (Option Int)
  | [] => some none
  | 'Z' :: cs => if goesOn cs then none else some (some 0)
  | sign :: cs => do
    let c ← clock? cs
    if c.leftover then none
    else
      let n : Nat := if c.seconds = 0 then 0 else c.seconds * 1000000 + c.microsecond
      some (some (if sign = '-' then -(n : Int) else n))

/-- Reads a timestamp: a date alone, or a date, any one character, and a time. -/
def read? (text : String) : Option Timestamp := do
  let ((year, month, day), rest) ← date? text.toList
  let t : Timestamp ←
    match rest with
    | [] => some { year, month, day }
    | _ :: time => do
      let zone := time.dropWhile fun c => !beginsOffset c
      let c ← clock? (time.takeWhile fun c => !beginsOffset c)
      if zone.isEmpty && c.leftover then none
      else
        let offset ← offset? zone
        some { year, month, day, hour := c.parts.getD 0 0, minute := c.parts.getD 1 0,
               second := c.parts.getD 2 0, microsecond := c.microsecond, offset }
  if t.isValid then some t else none

end Timestamp

end NovelScript
