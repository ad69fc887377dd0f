import FleetWatch.Text.Blank
import FleetWatch.Time.Instant

/-!
# RFC 3339 timestamps

Instants as text. Reading is lenient: month, day, hour, minute and second may have one digit, a year
may have a sign and any number of digits, blanks may stand before every number, before the signs
between the numbers, before the offset and at the end. Writing is strict: universal time, with as
many groups of three fraction digits as needed.

## Main definitions

* `Time.Instant.parse?`: the instant of a text.
* `Time.Instant.print`: the text of an instant.
-/
namespace FleetWatch.Time

open Text

/-- The number of at least one and at most `limit` digits at the front, and the rest of the text. -/
def readDigits (limit : Nat) (cs : List Char) : Option (Nat × List Char) :=
  let ds := (cs.take limit).takeWhile Char.isDigit
  if ds.isEmpty then none
  else some (ds.foldl (fun n c => n * 10 + (c.toNat - 48)) 0, cs.drop ds.length)

/-- A number of at most `limit` digits after blanks. -/
def readNumber (limit : Nat) (cs : List Char) : Option (Nat × List Char) :=
  readDigits limit (trimStart cs)

/-- The year after blanks: up to four digits, or a sign and any number of digits. -/
def readYear (cs : List Char) : Option (Int × List Char) :=
  match trimStart cs with
  | '-' :: rest => (readDigits rest.length rest).map fun (n, rest) => (-(n : Int), rest)
  | '+' :: rest => (readDigits rest.length rest).map fun (n, rest) => ((n : Int), rest)
  | rest => (readDigits 4 rest).map fun (n, rest) => ((n : Int), rest)

/-- The character `c` after blanks. -/
def readSign (c : Char) (cs : List Char) : Option (List Char) :=
  match trimStart cs with
  | d :: rest => if d = c then some rest else none
  | [] => none

/-- The nanoseconds after a point, if there is one; digits beyond the ninth are dropped. -/
def readFraction : List Char → Option (Nat × List Char)
  | '.' :: rest =>
    (readDigits 9 rest).map fun (n, after) =>
      (n * Nat.pow 10 (9 - (rest.length - after.length)), after.dropWhile Char.isDigit)
  | rest => some (0, rest)

def readPair : List Char → Option (Nat × List Char)
  | a :: b :: rest =>
    if a.isDigit && b.isDigit then some ((a.toNat - 48) * 10 + (b.toNat - 48), rest) else none
  | _ => none

/-- The offset from universal time in seconds: `Z`, `UTC`, or hours and minutes after a sign, with
any colons and blanks between them. -/
def readOffset (cs : List Char) : Option (Int × List Char) :=
  match cs with
  | [] => none
  | c :: rest =>
    if (cs.take 3).map Char.toUpper = ['U', 'T', 'C'] then some (0, cs.drop 3)
    else if c = 'Z' || c = 'z' then some (0, rest)
    else if c = '+' || c = '-' || c = '\u2212' then do
      let (hours, rest) ← readPair rest
      let (minutes, rest) ← readPair (rest.dropWhile fun c => c = ':' || isBlank c)
      if minutes < 60 ∧ hours < 24 then
        let seconds : Int := hours * 3600 + minutes * 60
        some (if c = '+' then seconds else -seconds, rest)
      else none
    else none

/-- The instant of a local date and time of day; second 60 is a leap second. -/
def localInstant? (date : Date) (hour minute second nano : Nat) : Option Instant :=
  if date.valid && hour < 24 && minute < 60 && second ≤ 60 then
    let leap := second = 60
    Instant.of? (date.dayNumber * daySeconds + (hour * 3600 + minute * 60 + min second 59 : Nat))
      (if leap then nanosPerSecond + nano else nano)
  else none

def Instant.parse? (s : String) : Option Instant := do
  let (year, cs) ← readYear s.toList
  let cs ← readSign '-' cs
  let (month, cs) ← readNumber 2 cs
  let cs ← readSign '-' cs
  let (day, cs) ← readNumber 2 cs
  let cs ← match cs with
    | c :: cs => if c = 'T' || c = 't' || c = ' ' then some cs else none
    | [] => none
  let (hour, cs) ← readNumber 2 cs
  let cs ← readSign ':' cs
  let (minute, cs) ← readNumber 2 cs
  let cs ← readSign ':' cs
  let (second, cs) ← readNumber 2 cs
  let (nano, cs) ← readFraction cs
  let (offset, cs) ← readOffset (trimStart cs)
  if (trimStart cs).isEmpty then
    let here ← localInstant? ⟨year, month, day⟩ hour minute second nano
    of? (here.second - offset) here.nano
  else none

/-- A number in at least `width` digits. -/
def padded (width n : Nat) : String :=
  let ds := Nat.toDigits 10 n
  String.ofList (List.replicate (width - ds.length) '0' ++ ds)

/-- The year in four digits; outside of these it has a sign. -/
def printYear (y : Int) : String :=
  if 0 ≤ y ∧ y ≤ 9999 then padded 4 y.toNat
  else (if y < 0 then "-" else "+") ++ padded 4 y.natAbs

/-- The fraction in no, three, six or nine digits. -/
def printFraction (nano : Nat) : String :=
  if nano = 0 then ""
  else if nano % 1000000 = 0 then "." ++ padded 3 (nano / 1000000)
  else if nano % 1000 = 0 then "." ++ padded 6 (nano / 1000)
  else "." ++ padded 9 nano

/-- The date and time of day of an instant, in universal time. -/
def Instant.printClock (t : Instant) : String :=
  let date := Date.ofDayNumber (t.second / daySeconds)
  let sod := t.secondOfDay.toNat
  let second := sod % 60 + if t.isLeap then 1 else 0
  printYear date.year ++ "-" ++ padded 2 date.month ++ "-" ++ padded 2 date.day ++ "T"
    ++ padded 2 (sod / 3600) ++ ":" ++ padded 2 (sod / 60 % 60) ++ ":" ++ padded 2 second
    ++ printFraction (t.nano % nanosPerSecond)

def Instant.print (t : Instant) : String := t.printClock ++ "Z"

/-- The text of an instant, with its distance from universal time. -/
def Instant.printWithOffset (t : Instant) : String := t.printClock ++ "+00:00"

end FleetWatch.Time
