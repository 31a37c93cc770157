import ImportBlock.Block
import ImportBlock.Settings.Basic

/-! The written form of an import block. -/

namespace ImportBlock

open Text

namespace Statement

/-- The first statement of each raw text. -/
def distinct : List Statement → List Statement
  | [] => []
  | statement :: rest =>
    statement :: (distinct rest).filter (·.rawText != statement.rawText)

def repeated (seen : List Text) : List Statement → List Statement
  | [] => []
  | statement :: rest =>
    if seen.contains statement.rawText then statement :: repeated seen rest
    else repeated (statement.rawText :: seen) rest

end Statement

namespace Layout

def indent : Text := [' ', ' ']

def memberLines : List Text → List Text
  | [] => []
  | [member] => [indent ++ member]
  | member :: rest => (indent ++ member ++ [',']) :: memberLines rest

def wrapLine (line : Text) : Option (List Text) :=
  match splitFirst ['{'] line with
  | none => none
  | some (before, rest) =>
    match splitFirst ['}'] rest with
    | none => none
    | some (inside, after) =>
      let members := items ',' inside
      if members.isEmpty then none
      else some ((before ++ ['{']) :: memberLines members ++ ['}' :: trimEnd after])

/-- Only a line that is too long and has one pair of braces is wrapped. -/
def wrap (settings : Settings) (statement : Statement) : Option (List Text) :=
  match statement.lines with
  | [line] =>
    if settings.wrapMultilineImports && settings.maxLineLength < line.length &&
        line.count '{' == 1 && line.count '}' == 1 then
      wrapLine line
    else none
  | _ => none

def statementLines (settings : Settings) (statement : Statement) : List Text :=
  statement.comments ++ (wrap settings statement).getD statement.lines

def headerLines (settings : Settings) (header : List HeaderLine) : List Text :=
  header.filterMap fun
    | .comment text => if settings.preserveLeadingComments then some text else none
    | .code text => some text

def addGroup (settings : Settings) (lines : List Text) (group : List Statement) : List Text :=
  if group.isEmpty then lines
  else
    let gap := if settings.emptyLineBetweenGroups && !lines.isEmpty then [[]] else []
    lines ++ gap ++ (Statement.distinct group).flatMap (statementLines settings)

def blockLines (settings : Settings) (block : Block) (group : Category → List Statement) :
    List Text :=
  let lines := (settings.importOrder.map group).foldl (addGroup settings)
    (headerLines settings block.header)
  match settings.trailingComments with
  | .keep => lines ++ block.trailing
  | .discard => lines

def render (settings : Settings) (block : Block) (group : Category → List Statement) : Text :=
  joinWith ['\n'] (blockLines settings block group)

end Layout
end ImportBlock
