import ImportBlock.Text.Basic

/-! String literals of one line, the code ahead of its `//` comment, and the braces in that code. -/

namespace ImportBlock.Line

open Text

@[simp] def backtick : Char := '\x60'

def isQuote (c : Char) : Bool := c == '"' || c == '\'' || c == backtick

/-- The literal that is open after `c`. It ends at the next quote of its kind, there being no
escapes. -/
def quoteAfter : Option Char → Char → Option Char
  | some quote, c => if c = quote then none else some quote
  | none, c => if isQuote c then some c else none

def beforeSlashes : Option Char → Text → Option Text
  | _, [] => none
  | quote, c :: rest =>
    if quote.isNone && c == '/' && rest.head? == some '/' then some []
    else (beforeSlashes (quoteAfter quote c) rest).map (c :: ·)

def codePart (line : Text) : Text :=
  match beforeSlashes none line with
  | some code => trimEnd code
  | none => line

def braceValue (c : Char) : Int := if c = '{' then 1 else if c = '}' then -1 else 0

def braceSum : Option Char → Text → Int
  | _, [] => 0
  | quote, c :: rest =>
    (if quote.isNone then braceValue c else 0) + braceSum (quoteAfter quote c) rest

def braceDelta (line : Text) : Int := braceSum none (codePart line)

/-- Semicolons are optional: a line that ends in its module specifier is a last line too. -/
def closesStatement (depth : Int) (line : Text) : Bool :=
  let code := codePart line
  decide (depth ≤ 0) && (code.contains ';' || code.getLast?.any isQuote)

end ImportBlock.Line
