import AddressSpace.Instant
import AddressSpace.Text.Blank
import AddressSpace.Text.Numeral
/-!
# The text of an instant

Instants are written by RFC 3339 in UTC, with the shortest of no, three, six or nine digits of fraction that is exact.
Reading is more lenient: blanks may stand in front of every number and separator, numbers may lack leading zeros, a
blank may stand for the T, and the offset may be `UTC`, a Z or a signed offset whose minutes may stand right behind its
hours.
-/

namespace AddressSpace.Instant

open Text

/-! ## Writing -/

/-- Four digits, or a sign and at least four digits outside the years 0 to 9999. -/
def yearChars (year : Int) : List Char :=
  if 0 ≤ year ∧ year ≤ 9999 then paddedDigits 10 4 year.toNat
  else
    let n := year.natAbs
    (if year < 0 then '-' else '+') :: (if n < 10000 then paddedDigits 10 4 n else digits 10 n)

/-- The fraction behind its point, nothing for a whole second. -/
def fractionChars (nanos : Nat) : List Char :=
  if nanos = 0 then []
  else if nanos % 1000000 = 0 then '.' :: paddedDigits 10 3 (nanos / 1000000)
  else if nanos % 1000 = 0 then '.' :: paddedDigits 10 6 (nanos / 1000)
  else '.' :: paddedDigits 10 9 nanos

/-- The date, the time of day and the fraction of the second, in UTC. -/
def chars (t : Instant) : List Char :=
  let leap := if t.nanos < nanosPerSecond then 0 else 1
  yearChars t.date.year ++ '-' :: paddedDigits 10 2 t.date.month ++ '-' :: paddedDigits 10 2 t.date.day ++
    'T' :: paddedDigits 10 2 (t.second / 3600) ++ ':' :: paddedDigits 10 2 (t.second / 60 % 60) ++
    ':' :: paddedDigits 10 2 (t.second % 60 + leap) ++ fractionChars (t.nanos - leap * nanosPerSecond) ++ ['Z']

/-- The text of an instant. -/
def text (t : Instant) : String := String.ofList t.chars

/-! ## Reading

Each reader takes the characters that are left and returns what it read with the characters behind it. -/

/-- Whether the character is a decimal digit. -/
def isDigit (c : Char) : Bool := '0' ≤ c && c ≤ '9'

/-- One or more digits, but no more than `most`. -/
def number? (most : Nat) (cs : List Char) : Option (Nat × List Char) :=
  let ds := (cs.take most).takeWhile isDigit
  (value? 10 ds).map fun n => (n, cs.drop ds.length)

/-- A number behind blanks, from `low` to `high`. -/
def field? (most low high : Nat) (cs : List Char) : Option (Nat × List Char) :=
  (number? most (dropBlanks cs)).filter fun p => low ≤ p.1 && p.1 ≤ high

/-- The separator `c` behind blanks. -/
def mark? (c : Char) (cs : List Char) : Option (List Char) :=
  match dropBlanks cs with
  | d :: rest => if d = c then some rest else none
  | [] => none

/-- A year of up to four digits, or of any number of them behind a sign. The calendar ends at 262143 years before and
262142 years after the year 0. -/
def year? (cs : List Char) : Option (Int × List Char) :=
  let read : Option (Int × List Char) :=
    match dropBlanks cs with
    | '-' :: rest => (number? rest.length rest).map fun p => (-(p.1 : Int), p.2)
    | '+' :: rest => (number? rest.length rest).map fun p => ((p.1 : Int), p.2)
    | cs => (number? 4 cs).map fun p => ((p.1 : Int), p.2)
  read.filter fun p => -262143 ≤ p.1 && p.1 ≤ 262142

/-- A fraction behind a point, of which nine digits count. -/
def fraction? (cs : List Char) : Option (Nat × List Char) :=
  match cs with
  | '.' :: rest =>
    let ds := rest.takeWhile isDigit
    if ds.isEmpty then none
    else (value? 10 ((ds ++ List.replicate 9 '0').take 9)).map fun n => (n, rest.drop ds.length)
  | _ => some (0, cs)

/-- Two digits, the first of them at most `high`. -/
def pair? (high : Nat) (cs : List Char) : Option (Nat × List Char) :=
  match cs with
  | a :: b :: rest =>
    (digitIn? 10 a).bind fun x => (digitIn? 10 b).bind fun y =>
      if x ≤ high then some (x * 10 + y, rest) else none
  | _ => none

/-- A signed offset: hours, any colons and blanks, minutes. -/
def signedOffset? (cs : List Char) : Option ((Bool × Nat × Nat) × List Char) :=
  let signed : Option (Bool × List Char) :=
    match cs with
    | '+' :: rest => some (false, rest)
    | '-' :: rest => some (true, rest)
    | c :: rest => if c.toNat = 0x2212 then some (true, rest) else none
    | [] => none
  signed.bind fun (behind, rest) => (pair? 9 rest).bind fun (hours, rest) =>
    (pair? 5 (rest.dropWhile fun c => c == ':' || isBlank c)).map fun (minutes, rest) =>
      ((behind, hours, minutes), rest)

/-- An offset from UTC: whether the clock is behind, its hours and its minutes. -/
def offset? (cs : List Char) : Option ((Bool × Nat × Nat) × List Char) :=
  let cs := dropBlanks cs
  if (cs.take 3).map Char.toUpper = "UTC".toList then some ((false, 0, 0), cs.drop 3)
  else match cs with
    | 'Z' :: rest => some ((false, 0, 0), rest)
    | 'z' :: rest => some ((false, 0, 0), rest)
    | _ => signedOffset? cs

/-- The clock reading with these numbers, the sixtieth second being a leap second. -/
def ofFields? (year : Int) (month day hour minute second nanos : Nat) : Option Instant :=
  (Date.ofFields? year month day).bind fun date =>
    let leap := if second = 60 then 1 else 0
    let s := (hour * 60 + minute) * 60 + second - leap
    let n := nanos + leap * nanosPerSecond
    if h : s < 86400 ∧ (n < nanosPerSecond ∨ s % 60 = 59 ∧ n < 2 * nanosPerSecond) then some ⟨date, s, n, h.1, h.2⟩ else none

/-- The instant a text stands for. -/
def ofChars? (cs : List Char) : Option Instant := do
  let (year, cs) ← year? cs
  let cs ← mark? '-' cs
  let (month, cs) ← field? 2 1 12 cs
  let cs ← mark? '-' cs
  let (day, cs) ← field? 2 1 31 cs
  let cs ← match cs with
    | 'T' :: rest => some rest
    | 't' :: rest => some rest
    | ' ' :: rest => some rest
    | _ => none
  let (hour, cs) ← field? 2 0 23 cs
  let cs ← mark? ':' cs
  let (minute, cs) ← field? 2 0 59 cs
  let cs ← mark? ':' cs
  let (second, cs) ← field? 2 0 60 cs
  let (nanos, cs) ← fraction? cs
  let ((behind, hours, minutes), cs) ← offset? cs
  if dropBlanks cs ≠ [] then none
  else
    let reading ← ofFields? year month day hour minute second nanos
    (reading.ofLocal? behind hours minutes).filter fun t => -262143 ≤ t.date.year && t.date.year ≤ 262142

/-- The instant a text stands for. -/
def ofText? (s : String) : Option Instant := ofChars? s.toList

end AddressSpace.Instant
