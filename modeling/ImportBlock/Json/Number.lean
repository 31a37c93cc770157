import ImportBlock.Text.Basic

namespace ImportBlock.Json

/-- The significand times ten to the exponent, sign left out. -/
structure Number where
  significand : Nat
  exponent : Int
  deriving DecidableEq, Repr

namespace Number

/-- The nearest number of 53 binary digits, of two equally near the even one. -/
def roundToDouble (n : Nat) : Nat :=
  if n < Nat.pow 2 53 then n
  else
    let unit := Nat.pow 2 (n.log2 - 52)
    let quotient := n / unit
    let rest := n % unit
    if 2 * rest > unit || 2 * rest == unit && quotient % 2 == 1 then (quotient + 1) * unit
    else quotient * unit

def infinityBound : Nat := Nat.pow 2 1024 - Nat.pow 2 970

/-- A product of doubles, the power of ten being one of them, is infinite. -/
def isTooLarge (number : Number) : Bool :=
  number.significand != 0 &&
    (number.exponent > 308 || number.exponent ≥ 0 &&
      infinityBound ≤ roundToDouble number.significand *
        roundToDouble (Nat.pow 10 number.exponent.toNat))

/-- Reads digits on while the value fits into 64 bits, then counts what is left. -/
def addDigits : Nat → List Nat → Nat × Nat
  | value, [] => (value, 0)
  | value, digit :: digits =>
    if value * 10 + digit < Nat.pow 2 64 then addDigits (value * 10 + digit) digits
    else (value, digits.length + 1)

def digitValue (c : Char) : Nat := c.toNat - '0'.toNat

def ofDigits (whole fraction : Text) (exponent : Int) : Number :=
  let (value, skipped) := addDigits 0 (whole.map digitValue)
  let (value, cut) := addDigits value (fraction.map digitValue)
  ⟨value, exponent + skipped - (fraction.length - cut : Nat)⟩

def skipMinus : Text → Text
  | '-' :: rest => rest
  | text => text

def fraction? : Text → Option (Text × Text)
  | '.' :: rest =>
    match rest.takeWhile Char.isDigit with
    | [] => none
    | digits => some (digits, rest.dropWhile Char.isDigit)
  | text => some ([], text)

def exponentValue (negative : Bool) (text : Text) : Option (Int × Text) :=
  match text.takeWhile Char.isDigit with
  | [] => none
  | digits =>
    let size := Nat.ofDigitChars 10 digits 0
    some (if negative then -size else size, text.dropWhile Char.isDigit)

def exponent? : Text → Option (Int × Text)
  | 'e' :: rest | 'E' :: rest =>
    match rest with
    | '+' :: rest => exponentValue false rest
    | '-' :: rest => exponentValue true rest
    | rest => exponentValue false rest
  | text => some (0, text)

def read? (text : Text) : Option (Number × Text) := do
  let text := skipMinus text
  let whole := text.takeWhile Char.isDigit
  if whole.isEmpty || whole.head? == some '0' && whole.length > 1 then none
  let (fraction, text) ← fraction? (text.dropWhile Char.isDigit)
  let (exponent, text) ← exponent? text
  some (ofDigits whole fraction exponent, text)

end Number
end ImportBlock.Json
