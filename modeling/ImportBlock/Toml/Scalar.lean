import ImportBlock.Settings.Value
import ImportBlock.Text.Digits

/-! Keys, strings, numbers and dates of TOML. Readers give what they read and the rest. -/

namespace ImportBlock.Toml

open Text

def isPlain (c : Char) : Bool := c == '\t' || 0x20 ≤ c.toNat && c.toNat != 0x7F

def isBlank (c : Char) : Bool := c == ' ' || c == '\t'

def skipBlanks (text : Text) : Text := text.dropWhile isBlank

def lineBreak? : Text → Option Text
  | [] => some []
  | '\n' :: rest => some rest
  | '\r' :: '\n' :: rest => some rest
  | _ => none

def lineEnd? (text : Text) : Option Text :=
  match skipBlanks text with
  | '#' :: rest => lineBreak? (rest.dropWhile isPlain)
  | rest => lineBreak? rest

def skipLines? : Bool → Text → Option Text
  | _, [] => some []
  | _, '\n' :: rest => skipLines? false rest
  | _, '\r' :: '\n' :: rest => skipLines? false rest
  | true, c :: rest => if isPlain c then skipLines? true rest else none
  | false, c :: rest =>
    if isBlank c then skipLines? false rest
    else if c = '#' then skipLines? true rest
    else some (c :: rest)

/-- Surrogates and values beyond the last code point name no character. -/
def codePoint? (digits : Text) : Option Char := do
  let code ← toNat? 16 digits
  if code.isValidChar then some (Char.ofNat code) else none

def escaped? : Char → Option Char
  | 'b' => some '\x08'
  | 't' => some '\t'
  | 'n' => some '\n'
  | 'f' => some '\x0c'
  | 'r' => some '\r'
  | '"' => some '"'
  | '\\' => some '\\'
  | _ => none

def endsLine (text : Text) : Bool :=
  match skipBlanks text with
  | '\n' :: _ | '\r' :: '\n' :: _ => true
  | _ => false

/-- The text that the body of a string stands for. `joining` passes over white space. -/
def unescape? (joining : Bool) : Text → Option Text
  | [] => some []
  | '\\' :: 'u' :: a :: b :: c :: d :: rest =>
    return (← codePoint? [a, b, c, d]) :: (← unescape? false rest)
  | '\\' :: 'U' :: a :: b :: c :: d :: e :: f :: g :: h :: rest =>
    return (← codePoint? [a, b, c, d, e, f, g, h]) :: (← unescape? false rest)
  | '\\' :: c :: rest =>
    if endsLine (c :: rest) then unescape? true rest
    else return (← escaped? c) :: (← unescape? false rest)
  | c :: rest =>
    if joining && (isBlank c || isBreak c) then unescape? true rest
    else return c :: (← unescape? false rest)

def lineBody? (quote : Char) : Text → Option (Text × Text)
  | [] => none
  | '\\' :: c :: rest =>
    if quote = '"' then do
      let (body, rest) ← lineBody? quote rest
      if isPlain c then some ('\\' :: c :: body, rest) else none
    else do
      let (body, rest) ← lineBody? quote (c :: rest)
      some ('\\' :: body, rest)
  | c :: rest =>
    if c = quote then some ([], rest)
    else do
      let (body, rest) ← lineBody? quote rest
      if isPlain c then some (c :: body, rest) else none

/-- The body of a string over several lines. At most two quotes right before the closing three
belong to it. -/
def blockBody? (quote : Char) : Text → Option (Text × Text)
  | [] => none
  | '\\' :: c :: rest =>
    if quote = '"' then do
      let (body, rest) ← blockBody? quote rest
      if isPlain c || isBreak c then some ('\\' :: c :: body, rest) else none
    else do
      let (body, rest) ← blockBody? quote (c :: rest)
      some ('\\' :: body, rest)
  | '\r' :: rest => do
    let (body, after) ← blockBody? quote rest
    if rest.head? = some '\n' then some (body, after) else none
  | c :: rest =>
    if (c :: rest).take 3 = [quote, quote, quote] then
      let extra := ((rest.drop 2).takeWhile (· == quote)).take 2
      some (extra, rest.drop (2 + extra.length))
    else do
      let (body, rest) ← blockBody? quote rest
      if isPlain c || c = '\n' then some (c :: body, rest) else none

def dropFirstBreak : Text → Text
  | '\n' :: rest => rest
  | '\r' :: '\n' :: rest => rest
  | text => text

def string? : Text → Option (Text × Text)
  | '"' :: '"' :: '"' :: rest => do
    let (body, rest) ← blockBody? '"' (dropFirstBreak rest)
    some (← unescape? false body, rest)
  | '\'' :: '\'' :: '\'' :: rest => blockBody? '\'' (dropFirstBreak rest)
  | '"' :: rest => do
    let (body, rest) ← lineBody? '"' rest
    some (← unescape? false body, rest)
  | '\'' :: rest => lineBody? '\'' rest
  | _ => none

def isBare (c : Char) : Bool := c.isAlphanum || c == '_' || c == '-'

def simpleKey? : Text → Option (Text × Text)
  | '"' :: rest => do
    let (body, rest) ← lineBody? '"' rest
    some (← unescape? false body, rest)
  | '\'' :: rest => lineBody? '\'' rest
  | text =>
    match text.takeWhile isBare with
    | [] => none
    | name => some (name, text.dropWhile isBare)

def key? : Nat → Text → Option (List Text × Text)
  | 0, _ => none
  | more + 1, text => do
    let (name, rest) ← simpleKey? text
    match skipBlanks rest with
    | '.' :: rest => do
      let (names, rest) ← key? more (skipBlanks rest)
      some (name :: names, rest)
    | rest => some ([name], rest)

def digits? (text : Text) : Option Text :=
  let groups := splitOn '_' text
  if groups.any List.isEmpty then none else some groups.flatten

def whole? (text : Text) : Option Text := do
  let digits ← digits? text
  if digits.all Char.isDigit && (text.head? != some '0' || text.length == 1) then some digits
  else none

/-- Signed numbers of 64 bits. Only decimal ones take a sign. -/
def integer? (word : Text) : Option Int := do
  let value ← match word with
    | '0' :: 'x' :: rest => (digits? rest).bind (toNat? 16)
    | '0' :: 'o' :: rest => (digits? rest).bind (toNat? 8)
    | '0' :: 'b' :: rest => (digits? rest).bind (toNat? 2)
    | _ => (whole? (splitSign word).2).bind (toNat? 10)
  let value : Int := if (splitSign word).1 then -value else value
  if -Value.signBit ≤ value && value < Value.signBit then some value else none

def isFinite (digits : Text) (exponent : Int) : Bool :=
  let digits := digits.dropWhile (· == '0')
  let size := exponent + digits.length
  digits.isEmpty || size ≤ 0 || size ≤ 400 &&
    match toNat? 10 digits with
    | none => false
    | some value =>
      value * Nat.pow 10 exponent.toNat <
        (Nat.pow 2 1024 - Nat.pow 2 970) * Nat.pow 10 (-exponent).toNat

def fraction? (text : Text) : Option (Text × Text × Int) := do
  let mantissa := text.takeWhile fun c => c != 'e' && c != 'E'
  let whole := mantissa.takeWhile (· != '.')
  let decimals ← match mantissa.drop whole.length with
    | [] => some []
    | _ :: decimals => digits? decimals
  let exponent ← match text.drop mantissa.length with
    | [] => some 0
    | _ :: rest => do
      let digits ← digits? (splitSign rest).2
      let size ← toNat? 10 digits
      some (if (splitSign rest).1 then -(size : Int) else size)
  if text.length = whole.length || !decimals.all Char.isDigit then none
  else some (← whole? whole, decimals, exponent)

/-- Numbers that overflow upwards are refused. -/
def isFloat (word : Text) : Bool :=
  let (negative, text) := splitSign word
  if text = "inf".toList || text = "nan".toList then true
  else
    match fraction? text with
    | none => false
    | some (whole, decimals, exponent) =>
      negative || isFinite (whole ++ decimals) (exponent - decimals.length)

def isTwoDigits (low high : Nat) (text : Text) : Bool :=
  text.length == 2 && match toNat? 10 text with
    | none => false
    | some value => low ≤ value && value ≤ high

def daysOf (year month : Nat) : Nat :=
  if month = 2 then
    if year % 4 = 0 && (year % 100 != 0 || year % 400 = 0) then 29 else 28
  else if month = 4 || month = 6 || month = 9 || month = 11 then 30 else 31

def isDate (text : Text) : Bool :=
  match splitOn '-' text with
  | [year, month, day] =>
    match toNat? 10 year, toNat? 10 month with
    | some y, some m => year.length == 4 && isTwoDigits 1 12 month && isTwoDigits 1 (daysOf y m) day
    | _, _ => false
  | _ => false

def isSeconds (text : Text) : Bool :=
  match splitOn '.' text with
  | [seconds] => isTwoDigits 0 60 seconds
  | [seconds, part] => isTwoDigits 0 60 seconds && !part.isEmpty && part.all Char.isDigit
  | _ => false

def isTime (text : Text) : Bool :=
  match splitOn ':' text with
  | [hours, minutes, seconds] =>
    isTwoDigits 0 23 hours && isTwoDigits 0 59 minutes && isSeconds seconds
  | _ => false

def isOffset (text : Text) : Bool :=
  match splitOn ':' text with
  | [hours, minutes] => isTwoDigits 0 23 hours && isTwoDigits 0 59 minutes
  | _ => false

def isTimeWithOffset (text : Text) : Bool :=
  let isSign := fun c => c == '+' || c == '-'
  match text.reverse with
  | 'Z' :: rest | 'z' :: rest => isTime rest.reverse
  | _ =>
    let time := text.takeWhile (!isSign ·)
    isTime time && (time.length == text.length || isOffset (text.drop (time.length + 1)))

def isDateTime (word : Text) : Bool :=
  isDate word || isTime word ||
    isDate (word.take 10) && (word[10]? == some 'T' || word[10]? == some 't') &&
      isTimeWithOffset (word.drop 11)

def isWordChar (c : Char) : Bool :=
  c.isAlphanum || c == '+' || c == '-' || c == '_' || c == '.' || c == ':'

/-- A value that is neither a string nor nested. A time may follow its date after a space. -/
def word? (text : Text) : Option (Value × Text) :=
  let word := text.takeWhile isWordChar
  let rest := text.dropWhile isWordChar
  if word = "true".toList then some (.bool true, rest)
  else if word = "false".toList then some (.bool false, rest)
  else
    match integer? word with
    | some value => some (.integer value, rest)
    | none =>
      if isFloat word then some (.other, rest)
      else if isDate word && rest.head? == some ' ' &&
          isTimeWithOffset (rest.tail.takeWhile isWordChar) then
        some (.other, rest.tail.dropWhile isWordChar)
      else if isDateTime word then some (.other, rest)
      else none

end ImportBlock.Toml
