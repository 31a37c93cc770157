import ImportBlock.Json.Number
import ImportBlock.Text.Digits

namespace ImportBlock.Json

open Text

/-- What is no token is `bad`, numbers that overflow included. -/
inductive Token where
  | openArray
  | closeArray
  | openObject
  | closeObject
  | comma
  | colon
  | null
  | bool (value : Bool)
  | number (value : Number)
  | string (value : Text)
  | bad
  deriving DecidableEq, Repr

def isBlank (c : Char) : Bool := c == ' ' || c == '\t' || c == '\n' || c == '\r'

def isHighSurrogate (n : Nat) : Bool := 0xD800 ≤ n && n < 0xDC00

def isLowSurrogate (n : Nat) : Bool := 0xDC00 ≤ n && n < 0xE000

def surrogatePair (high low : Nat) : Char :=
  Char.ofNat (0x10000 + (high - 0xD800) * 0x400 + (low - 0xDC00))

def escaped? : Char → Option Char
  | '"' => some '"'
  | '\\' => some '\\'
  | '/' => some '/'
  | 'b' => some '\x08'
  | 'f' => some '\x0c'
  | 'n' => some '\n'
  | 'r' => some '\r'
  | 't' => some '\t'
  | _ => none

/-- Up to the closing quote and behind it. Surrogates count only in pairs. -/
def readString? : Text → Option (Text × Text)
  | [] => none
  | '"' :: rest => some ([], rest)
  | '\\' :: 'u' :: a :: b :: c :: d :: rest => do
    let unit ← toNat? 16 [a, b, c, d]
    if isHighSurrogate unit then
      match rest with
      | '\\' :: 'u' :: a :: b :: c :: d :: rest =>
        let low ← toNat? 16 [a, b, c, d]
        if isLowSurrogate low then
          let (text, rest) ← readString? rest
          some (surrogatePair unit low :: text, rest)
        else none
      | _ => none
    else if isLowSurrogate unit then none
    else
      let (text, rest) ← readString? rest
      some (Char.ofNat unit :: text, rest)
  | '\\' :: c :: rest => do
    let c ← escaped? c
    let (text, rest) ← readString? rest
    some (c :: text, rest)
  | c :: rest =>
    if c.toNat < 0x20 || c == '\\' then none
    else do
      let (text, rest) ← readString? rest
      some (c :: text, rest)

def number? (text : Text) : Option (Token × Text) := do
  let (number, rest) ← Number.read? text
  if number.isTooLarge then none else some (.number number, rest)

def word? (text : Text) : Option (Token × Text) :=
  ((stripStart "null".toList text).map (.null, ·)).or
    (((stripStart "true".toList text).map (.bool true, ·)).or
      ((stripStart "false".toList text).map (.bool false, ·)))

def token? (c : Char) (rest : Text) : Option (Token × Text) :=
  match c with
  | '[' => some (.openArray, rest)
  | ']' => some (.closeArray, rest)
  | '{' => some (.openObject, rest)
  | '}' => some (.closeObject, rest)
  | ',' => some (.comma, rest)
  | ':' => some (.colon, rest)
  | '"' => (readString? rest).map fun (value, rest) => (.string value, rest)
  | c => if c == '-' || c.isDigit then number? (c :: rest) else word? (c :: rest)

def tokens : Nat → Text → List Token
  | _, [] => []
  | skip + 1, _ :: rest => tokens skip rest
  | 0, c :: rest =>
    if isBlank c then tokens 0 rest
    else
      match token? c rest with
      | none => [.bad]
      | some (token, after) => token :: tokens (rest.length - after.length) rest

end ImportBlock.Json
