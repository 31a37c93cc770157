import ImportBlock.Text.Basic

namespace ImportBlock.Text

def encode (text : Text) : List UInt8 := text.flatMap String.utf8EncodeChar

namespace Utf8

def isTail (b : UInt8) : Bool := 0x80 ≤ b && b ≤ 0xBF

def leadsTwo (a : UInt8) : Bool := 0xC2 ≤ a && a ≤ 0xDF

/-- Shorter forms and surrogates are ruled out by the second byte. -/
def leadThree (a b : UInt8) : Bool :=
  if a == 0xE0 then 0xA0 ≤ b && b ≤ 0xBF
  else if a == 0xED then 0x80 ≤ b && b ≤ 0x9F
  else 0xE1 ≤ a && a ≤ 0xEF && isTail b

/-- Shorter forms and values beyond the last code point are ruled out by the second byte. -/
def leadFour (a b : UInt8) : Bool :=
  if a == 0xF0 then 0x90 ≤ b && b ≤ 0xBF
  else if a == 0xF4 then 0x80 ≤ b && b ≤ 0x8F
  else 0xF1 ≤ a && a ≤ 0xF3 && isTail b

def tailBits (b : UInt8) : Nat := b.toNat % 64

def two (a b : UInt8) : Char := Char.ofNat (a.toNat % 32 * 64 + tailBits b)

def three (a b c : UInt8) : Char :=
  Char.ofNat ((a.toNat % 16 * 64 + tailBits b) * 64 + tailBits c)

def four (a b c d : UInt8) : Char :=
  Char.ofNat (((a.toNat % 8 * 64 + tailBits b) * 64 + tailBits c) * 64 + tailBits d)

/-- How many bytes at the start cannot begin any character, or `none` where more bytes could make
them one. -/
def badLength : List UInt8 → Option Nat
  | [] => none
  | a :: rest =>
    if leadsTwo a then (if rest.isEmpty then none else some 1)
    else if 0xE0 ≤ a && a ≤ 0xEF then
      match rest with
      | [] => none
      | b :: rest =>
        if !leadThree a b then some 1 else if rest.isEmpty then none else some 2
    else if 0xF0 ≤ a && a ≤ 0xF4 then
      match rest with
      | [] => none
      | [b] => if leadFour a b then none else some 1
      | b :: c :: rest =>
        if !leadFour a b then some 1
        else if !isTail c then some 2
        else if rest.isEmpty then none else some 3
    else some 1

end Utf8

open Utf8

/-- The longest text at the start, and the bytes from the first fault on. -/
def decodePart : List UInt8 → Text × List UInt8
  | [] => ([], [])
  | a :: rest =>
    if a < 0x80 then
      let (text, left) := decodePart rest
      (Char.ofNat a.toNat :: text, left)
    else
      match rest with
      | [] => ([], [a])
      | b :: rest =>
        if leadsTwo a && isTail b then
          let (text, left) := decodePart rest
          (two a b :: text, left)
        else
          match rest with
          | [] => ([], [a, b])
          | c :: rest =>
            if leadThree a b && isTail c then
              let (text, left) := decodePart rest
              (three a b c :: text, left)
            else
              match rest with
              | [] => ([], [a, b, c])
              | d :: rest =>
                if leadFour a b && isTail c && isTail d then
                  let (text, left) := decodePart rest
                  (four a b c d :: text, left)
                else ([], a :: b :: c :: d :: rest)

structure Utf8Fault where
  index : Nat
  length : Option Nat
  deriving DecidableEq, Repr

def Utf8Fault.message (fault : Utf8Fault) : String :=
  match fault.length with
  | some length => s!"invalid utf-8 sequence of {length} bytes from index {fault.index}"
  | none => s!"incomplete utf-8 byte sequence from index {fault.index}"

def decode (bytes : List UInt8) : Except Utf8Fault Text :=
  let (text, left) := decodePart bytes
  if left.isEmpty then .ok text
  else .error ⟨bytes.length - left.length, badLength left⟩

end ImportBlock.Text
