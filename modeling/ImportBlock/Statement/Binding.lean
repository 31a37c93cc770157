import ImportBlock.Statement.Basic
import ImportBlock.Statement.Specifier

namespace ImportBlock.Statement

open Text

def typeWord : Text := ['t', 'y', 'p', 'e', ' ']

def withoutType (text : Text) : Text := (stripStart typeWord text).getD text

/-- The clause between `import` and the last ` from `. -/
def clause? (normal : Text) : Option Text :=
  (stripStart (Line.importWord ++ [' ']) normal).bind fun rest =>
    (splitLast fromWord (withoutType rest)).map fun sides => trim sides.1

def splitBraces (clause : Text) : Text × Text :=
  match splitFirst ['{'] clause with
  | none => (clause, [])
  | some (before, rest) =>
    match splitLast ['}'] rest with
    | none => (clause, [])
    | some (members, after) => (before ++ after, members)

/-- A default name as it stands, the name after `* as` of a namespace. -/
def headName? : Text → Option Text
  | '*' :: rest => (stripStart ['a', 's', ' '] (trim rest)).map trim
  | name => some name

def memberName (member : Text) : Text :=
  let member := withoutType member
  trim (((splitLast [' ', 'a', 's', ' '] member).map Prod.snd).getD member)

def bindings (normal : Text) : List Text :=
  match clause? normal with
  | none => []
  | some clause =>
    let (head, members) := splitBraces clause
    (items ',' head).filterMap headName? ++ (items ',' members).map memberName

/-- All names are unused, or the one name goes with a module reported as unused. A statement
without names runs for its effect. -/
def isUnused (unused : List Text) (statement : Statement) : Bool :=
  let names := bindings statement.normal
  !names.isEmpty &&
    (names.all unused.contains ||
      names.length == 1 && (specifier? statement.normal).any unused.contains)

def prune (unused : List Text) (statements : List Statement) : List Statement :=
  statements.filter (!·.isUnused unused)

theorem prune_nil (statements : List Statement) : prune [] statements = statements := by
  rw [prune, List.filter_eq_self]
  intro statement _
  rw [Bool.not_eq_true', isUnused]
  cases bindings statement.normal with
  | nil => rfl
  | cons name names => cases specifier? statement.normal <;> simp

end ImportBlock.Statement
