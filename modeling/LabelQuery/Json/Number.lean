import LabelQuery.Json.Basic

/-!
# JSON numbers

A number is read for its form, and refused if it is too large. Which numbers are too large is a
matter of the arithmetic that they are computed in, and nothing else about reading depends on it, so
the readers here take it as a parameter: a `NumberRange` is any such decision.

`NumberRange.binary64` is that of a reader that computes in binary64 while it reads. It keeps the
first digits, as many as fit into 64 bits, and multiplies by a power of ten once, so every number
goes through three roundings and there is no single bound: of two spellings of one number one can be
infinite and the other not.
-/

namespace LabelQuery.Json

/-- The number that decimal digits spell. -/
def decimalValue (digits : List Char) : Nat :=
  digits.foldl (fun value digit => 10 * value + (digit.toNat - '0'.toNat)) 0

/-! ## Ranges -/

/-- A decision which numbers are too large. -/
structure NumberRange where
  /-- Whether the number with these digits before and behind the point, and with this exponent, is
  too large. -/
  excludes : (whole fraction : List Char) → (exponent : Int) → Bool

namespace NumberRange

/-- Takes further digits into a significand for as long as 64 bits hold it, and counts the digits
that are left then. -/
def significandFrom (significand : Nat) : List Char → Nat × Nat
  | [] => (significand, 0)
  | digit :: digits =>
    let longer := 10 * significand + (digit.toNat - '0'.toNat)
    if longer < Nat.pow 2 64 then significandFrom longer digits
    else (significand, digits.length + 1)

/-- The nearest number of 53 binary digits and zeros behind them. Of two that are just as near it is
the one whose last digit of the 53 is even. -/
def nearest (n : Nat) : Nat :=
  let unit := Nat.pow 2 (n.log2 + 1 - 53)
  let count := n / unit
  let twice := 2 * (n % unit)
  if unit < twice || unit == twice && count % 2 == 1 then (count + 1) * unit else count * unit

/-- The numbers that become infinite in binary64.

A digit before the point that the significand does not hold is made up for by the exponent, and one
behind the point is lost. Powers of ten beyond 10^308 are infinite, so there only zero is not; and
what is divided by a power of ten stays finite. -/
def binary64 : NumberRange where
  excludes whole fraction exponent :=
    let (significand, dropped) := significandFrom 0 whole
    let (significand, lost) := significandFrom significand fraction
    let exponent := exponent + dropped - (fraction.length - lost : Nat)
    if exponent < 0 then false
    else if 308 < exponent then significand != 0
    else Nat.pow 2 1024 ≤ nearest (nearest significand * nearest (Nat.pow 10 exponent.toNat))

/-- How a number is written decides as well as what it is: with one digit more the significand is
another one, and the product rounds the other way. -/
example :
    binary64.excludes "1797693134862315708".toList [] 290 = true ∧
      binary64.excludes "1".toList "7976931348623158".toList 308 = true ∧
      binary64.excludes "1".toList "79769313486231581".toList 308 = false := by decide +kernel

end NumberRange

/-! ## The parts of a number -/

/-- Takes the digits before the decimal point: a zero alone, or digits that begin with another. -/
def wholePart : Reader (List Char)
  | [] => .error (.before .unfinishedValue [])
  | c :: rest =>
    if !c.isDigit then .error (.behindByte .invalidNumber (c :: rest))
    else if c != '0' then
      .ok ⟨c :: rest.takeWhile Char.isDigit, rest.dropWhile Char.isDigit,
        (List.dropWhile_suffix _).trans (List.suffix_cons ..)⟩
    else if (rest.head?.any Char.isDigit) then .error (.behindByte .invalidNumber rest)
    else .ok ⟨[c], rest, List.suffix_cons ..⟩

/-- Takes the decimal point and the digits behind it, if there is a point. -/
def fractionPart : Reader (List Char)
  | ['.'] => .error (.before .unfinishedValue [])
  | '.' :: d :: ds =>
    if !d.isDigit then .error (.behindByte .invalidNumber (d :: ds))
    else .ok ⟨d :: ds.takeWhile Char.isDigit, ds.dropWhile Char.isDigit,
      ((List.dropWhile_suffix _).trans (List.suffix_cons ..)).trans (List.suffix_cons ..)⟩
  | cs => .ok ⟨[], cs, List.suffix_rfl⟩

/-- The largest exponent that is counted with. -/
def maxExponent : Nat := 2147483647

/-- What is left behind the first digit that takes the exponent over `maxExponent`, where `value`
has been read of it; none if it stays below. -/
def beyondMaxExponent? (value : Nat) : List Char → Option (List Char)
  | [] => none
  | c :: cs =>
    if !c.isDigit then none
    else
      let value := 10 * value + (c.toNat - '0'.toNat)
      if maxExponent < value then some cs else beyondMaxExponent? value cs

/-- Takes the sign of an exponent, if there is one, and says whether it is negative. -/
def exponentSign (cs : List Char) : Taken Bool cs :=
  match cs with
  | '+' :: rest => ⟨false, rest, List.suffix_cons ..⟩
  | '-' :: rest => ⟨true, rest, List.suffix_cons ..⟩
  | cs => ⟨false, cs, List.suffix_rfl⟩

/-- Takes the mark of an exponent and the exponent, if there is one.

An exponent over `maxExponent` is refused if it makes the number large. Otherwise it makes the
number zero, or leaves it so, whatever the digits; this is the result `none`. -/
def exponentPart (mantissaIsZero : Bool) : Reader (Option Int) := fun cs =>
  match cs with
  | [] => .ok ⟨some 0, [], List.suffix_rfl⟩
  | c :: rest =>
    if c != 'e' && c != 'E' then .ok ⟨some 0, c :: rest, List.suffix_rfl⟩
    else
      match exponentSign rest with
      | ⟨_, [], _⟩ => .error (.before .unfinishedValue [])
      | ⟨negative, d :: ds, h⟩ =>
        if !d.isDigit then .error (.behindByte .invalidNumber (d :: ds))
        else
          let left := (d :: ds).dropWhile Char.isDigit
          have hleft : left <:+ c :: rest :=
            ((List.dropWhile_suffix _).trans h).trans (List.suffix_cons ..)
          match beyondMaxExponent? 0 (d :: ds) with
          | some behind =>
            if !mantissaIsZero && !negative then .error (.before .numberOutOfRange behind)
            else .ok ⟨none, left, hleft⟩
          | none =>
            let magnitude : Int := decimalValue ((d :: ds).takeWhile Char.isDigit)
            .ok ⟨some (if negative then -magnitude else magnitude), left, hleft⟩

/-! ## Numbers -/

/-- Takes a number without its sign. -/
def unsignedNumber (range : NumberRange) : Reader Unit := fun cs => do
  let ⟨whole, rest, h⟩ ← wholePart cs
  let ⟨fraction, rest, h'⟩ ← fractionPart rest
  let ⟨exponent?, rest, h''⟩ ← exponentPart ((whole ++ fraction).all (· == '0')) rest
  if exponent?.any (range.excludes whole fraction) then
    throw (.before .numberOutOfRange rest)
  return ⟨(), rest, (h''.trans h').trans h⟩

/-- Takes a number. -/
def number (range : NumberRange) : Reader Unit
  | '-' :: rest => (unsignedNumber range rest).map (·.widen (List.suffix_cons ..))
  | cs => unsignedNumber range cs

end LabelQuery.Json
