import ImportBlock.Toml.Scalar
import ImportBlock.Toml.Table

namespace ImportBlock.Toml

open Text

/-- Keys have fewer parts than this, and values nest less deeply. -/
def depthLimit : Nat := 80

def pair? (value? : Text → Option (Value × Text)) (text : Text) :
    Option ((List Text × Value) × Text) := do
  let (key, text) ← key? (depthLimit - 1) text
  match skipBlanks text with
  | '=' :: text => do
    let (value, text) ← value? (skipBlanks text)
    some ((key, value), text)
  | _ => none

def insertPair? (pair : List Text × Value) (entries : Entries) : Option Entries := do
  let name ← pair.1.getLast?
  entries.insert? name pair.2 pair.1.dropLast

def items? (value? : Text → Option (Value × Text)) : Nat → Text → Option (List Value × Text)
  | 0, _ => none
  | more + 1, text => do
    match ← skipLines? false text with
    | ']' :: text => some ([], text)
    | text =>
      let (value, text) ← value? text
      match ← skipLines? false text with
      | ',' :: text => do
        let (values, text) ← items? value? more text
        some (value :: values, text)
      | ']' :: text => some ([value], text)
      | _ => none

def pairs? (value? : Text → Option (Value × Text)) (entries : Entries) :
    Nat → Text → Option (Entries × Text)
  | 0, _ => none
  | more + 1, text => do
    let (pair, text) ← pair? value? (skipBlanks text)
    let entries ← insertPair? pair entries
    match skipBlanks text with
    | ',' :: text => pairs? value? entries more text
    | '}' :: text => some (entries, text)
    | _ => none

def value? : Nat → Text → Option (Value × Text)
  | depth, text =>
    match text with
    | '[' :: rest =>
      match depth with
      | 0 => none
      | depth + 1 => do
        let (values, rest) ← items? (value? depth) text.length rest
        some (.list values, rest)
    | '{' :: rest =>
      match depth with
      | 0 => none
      | depth + 1 =>
        match skipBlanks rest with
        | '}' :: rest => some (.other, rest)
        | rest => do
          let (_, rest) ← pairs? (value? depth) [] text.length rest
          some (.other, rest)
    | '"' :: _ | '\'' :: _ => (string? text).map fun (value, rest) => (.text value, rest)
    | _ => word? text

/-- What has been read, and the table that pairs go to. -/
structure Draft where
  root : Entries
  path : List Text

namespace Draft

def addPair? (draft : Draft) (pair : List Text × Value) : Option Draft := do
  let root ← draft.root.modify? (insertPair? pair) draft.path
  some { draft with root }

def openWith? (draft : Draft) (change? : Text → Entries → Option Entries) (path : List Text) :
    Option Draft := do
  let name ← path.getLast?
  let root ← draft.root.modify? (change? name) path.dropLast
  some ⟨root, path⟩

def header? (draft : Draft) (text : Text) : Option (Draft × Text) := do
  let (change?, close, text) := match text with
    | '[' :: text => (Entries.openElement?, [']', ']'], text)
    | text => (Entries.openTable?, [']'], text)
  let (path, text) ← key? (depthLimit - 1) (skipBlanks text)
  let text ← stripStart close (skipBlanks text)
  some (← draft.openWith? change? path, text)

def expression? (draft : Draft) : Text → Option (Draft × Text)
  | '[' :: text => draft.header? text
  | text => do
    let (pair, text) ← pair? (value? (depthLimit - 1)) text
    some (← draft.addPair? pair, text)

def read? : Nat → Draft → Text → Option Draft
  | 0, _, _ => none
  | more + 1, draft, text => do
    match ← skipLines? false text with
    | [] => some draft
    | text =>
      let (draft, text) ← draft.expression? text
      read? more draft (← lineEnd? text)

end Draft

def read? (text : Text) : Option Layer :=
  let text := match text with
    | '\uFEFF' :: rest => rest
    | text => text
  (Draft.read? (text.length + 1) ⟨[], []⟩ text).map fun draft => draft.root.toLayer

end ImportBlock.Toml
