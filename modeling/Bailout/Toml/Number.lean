import Bailout.Toml.Basic

/-!
# TOML scalars without quotes

Booleans, integers, floats, dates and times, each recognised on a whole token.
-/

namespace Bailout.Toml

/-- One or more digits; an underscore stands between two digits. -/
def isRun (digit : Char → Bool) : List Char → Bool
  | [] => false
  | [c] => digit c
  | c :: '_' :: rest => digit c && isRun digit rest
  | c :: rest => digit c && isRun digit rest

def digitValue (c : Char) : Nat :=
  if c.isDigit then c.toNat - '0'.toNat
  else if 'a' ≤ c ∧ c ≤ 'f' then c.toNat - 'a'.toNat + 10
  else c.toNat - 'A'.toNat + 10

/-- The number written by a run of digits. -/
def runValue (base : Nat) (cs : List Char) : Nat :=
  (cs.filter (· ≠ '_')).foldl (fun n c => base * n + digitValue c) 0

def isHexDigit (c : Char) : Bool := c.isDigit || ('a' ≤ c && c ≤ 'f') || ('A' ≤ c && c ≤ 'F')

/-- An optional sign; whether it is a minus. -/
def splitSign : List Char → Bool × List Char
  | '+' :: rest => (false, rest)
  | '-' :: rest => (true, rest)
  | cs => (false, cs)

/-- Decimal digits without a sign and without a leading zero. -/
def isDecimal : List Char → Bool
  | [c] => c.isDigit
  | cs => isRun Char.isDigit cs && cs.head? != some '0'

/-- A signed 64-bit integer. -/
def integer? (cs : List Char) : Option Int :=
  let based (base : Nat) (digit : Char → Bool) (cs : List Char) : Option Int :=
    if isRun digit cs then some (runValue base cs) else none
  let value : Option Int :=
    match cs with
    | '0' :: 'x' :: rest => based 16 isHexDigit rest
    | '0' :: 'o' :: rest => based 8 (fun c => '0' ≤ c && c ≤ '7') rest
    | '0' :: 'b' :: rest => based 2 (fun c => c == '0' || c == '1') rest
    | _ =>
      let (negative, digits) := splitSign cs
      if isDecimal digits then
        let n : Int := runValue 10 digits
        some (if negative then -n else n)
      else none
  value.filter fun v => -0x8000000000000000 ≤ v ∧ v < 0x8000000000000000

/-- `digits * 10 ^ exponent` is too large for a double: it rounds to infinity. -/
def overflowsDouble (digits : Nat) (exponent : Int) : Bool :=
  let magnitude : Int := (Nat.repr digits).length + exponent
  let limit := Nat.pow 2 1024 - Nat.pow 2 970
  if digits = 0 ∨ magnitude < 300 then false
  else if 310 < magnitude then true
  else if 0 ≤ exponent then decide (limit ≤ digits * Nat.pow 10 exponent.toNat)
  else decide (limit * Nat.pow 10 (-exponent).toNat ≤ digits)

/-- The exponent part of a float, with its mark; nothing stands for zero. -/
def exponent? : List Char → Option Int
  | [] => some 0
  | c :: rest =>
    if c = 'e' ∨ c = 'E' then
      let (negative, digits) := splitSign rest
      if isRun Char.isDigit digits then
        let n : Int := runValue 10 digits
        some (if negative then -n else n)
      else none
    else none

/-- A float with a fraction, an exponent or both; positive ones must not overflow. -/
def isFloat (cs : List Char) : Bool :=
  let (negative, rest) := splitSign cs
  if rest = "inf".toList ∨ rest = "nan".toList then true
  else
    let isMark (c : Char) : Bool := c == 'e' || c == 'E'
    let whole := rest.takeWhile fun c => c != '.' && !isMark c
    let tail := rest.dropWhile fun c => c != '.' && !isMark c
    let fraction? : Option (List Char × List Char) :=
      match tail with
      | '.' :: more =>
        let digits := more.takeWhile fun c => !isMark c
        if isRun Char.isDigit digits then some (digits, more.dropWhile fun c => !isMark c) else none
      | _ => if tail.isEmpty then none else some ([], tail)
    match fraction? with
    | none => false
    | some (fraction, mark) =>
      match exponent? mark with
      | none => false
      | some e =>
        let places := (fraction.filter (· ≠ '_')).length
        isDecimal whole && (negative || !overflowsDouble (runValue 10 (whole ++ fraction)) (e - places))

/-! ## Dates and times -/

/-- A number of exactly `n` digits, from `low` to `high`. -/
def field? (n low high : Nat) (cs : List Char) : Option Nat :=
  if cs.length = n ∧ cs.all Char.isDigit then
    let v := runValue 10 cs
    if low ≤ v ∧ v ≤ high then some v else none
  else none

def daysInMonth (year month : Nat) : Nat :=
  if month = 2 then
    if year % 4 = 0 ∧ (year % 100 ≠ 0 ∨ year % 400 = 0) then 29 else 28
  else if month ∈ [4, 6, 9, 11] then 30
  else 31

def isDate : List Char → Bool
  | [a, b, c, d, '-', e, f, '-', g, h] =>
    match field? 4 0 9999 [a, b, c, d], field? 2 1 12 [e, f] with
    | some year, some month => (field? 2 1 (daysInMonth year month) [g, h]).isSome
    | _, _ => false
  | _ => false

/-- A time of day, and what follows it. -/
def splitTime? : List Char → Option (List Char)
  | a :: b :: ':' :: c :: d :: ':' :: e :: f :: rest =>
    if (field? 2 0 23 [a, b]).isSome ∧ (field? 2 0 59 [c, d]).isSome ∧ (field? 2 0 60 [e, f]).isSome then
      match rest with
      | '.' :: more =>
        if (more.takeWhile Char.isDigit).isEmpty then none else some (more.dropWhile Char.isDigit)
      | _ => some rest
    else none
  | _ => none

def isZone : List Char → Bool
  | [] | ['Z'] | ['z'] => true
  | [s, a, b, ':', c, d] =>
    (s == '+' || s == '-') && (field? 2 0 23 [a, b]).isSome && (field? 2 0 59 [c, d]).isSome
  | _ => false

/-- A date, a time, or a date and a time with an optional zone. -/
def isDatetime (cs : List Char) : Bool :=
  isDate cs || splitTime? cs == some [] ||
    (isDate (cs.take 10) &&
      match cs.drop 10 with
      | mark :: rest =>
        (mark == 'T' || mark == 't' || mark == ' ') &&
          match splitTime? rest with
          | some zone => isZone zone
          | none => false
      | [] => false)

/-- The value of a token without quotes. -/
def scalar? (cs : List Char) : Option Toml :=
  if cs = "true".toList then some (.bool true)
  else if cs = "false".toList then some (.bool false)
  else
    match integer? cs with
    | some v => some (.int v)
    | none =>
      if isFloat cs then some (.float (String.ofList cs))
      else if isDatetime cs then some (.datetime (String.ofList cs))
      else none

end Bailout.Toml
