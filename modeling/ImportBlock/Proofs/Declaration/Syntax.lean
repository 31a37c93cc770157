import ImportBlock.Proofs.Text.Trim
import ImportBlock.Statement.Binding

/-! Import declarations as they can be written, each token with the white space around it. -/

namespace ImportBlock

open Text

structure Gap where
  text : Text
  white : ∀ c ∈ text, isWhite c = true

/-- White space that must be there. -/
structure Space extends Gap where
  ne : text ≠ []

def Gap.empty : Gap := ⟨[], List.forall_mem_nil _⟩

def Space.blank : Space := ⟨⟨[' '], white_space⟩, by decide⟩

structure LineGap extends Gap where
  line : '\n' ∉ text

def LineGap.empty : LineGap := ⟨.empty, List.not_mem_nil⟩

def isNameChar (c : Char) : Bool :=
  !isWhite c && !Line.isQuote c && !([',', '{', '}', '*', ';', '/'].contains c)

/-- A name is any word but `type`. -/
structure Name where
  text : Text
  ne : text ≠ []
  plain : ∀ c ∈ text, isNameChar c = true
  notType : text ≠ ['t', 'y', 'p', 'e']

def Name.ofWord (word : String) (ne : word.toList ≠ [] := by decide)
    (plain : word.toList.all (fun c => decide (isNameChar c = true)) = true := by decide)
    (notType : word.toList ≠ ['t', 'y', 'p', 'e'] := by decide) : Name :=
  ⟨word.toList, ne, forall_of_all plain, notType⟩

structure Literal where
  quote : Char
  isQuote : quote = '"' ∨ quote = '\''
  text : Text
  closed : quote ∉ text
  line : '\n' ∉ text
  noFrom : includes Statement.fromWord text = false

structure Member where
  type? : Option Space
  name : Name
  alias? : Option (Space × Space × Name)

/-- What stands between the braces. Nothing need follow the last comma. -/
inductive Members where
  | blank (gap : Gap)
  | last (before : Gap) (member : Member) (after : Gap)
  | more (before : Gap) (member : Member) (after : Gap) (rest : Members)

/-- The names that share one clause: those of a namespace or of members in braces. -/
inductive Bundle where
  | star (gap : Gap) (space : Space) (name : Name)
  | braces (members : Members)

inductive Clause where
  | name (name : Name)
  | bundle (bundle : Bundle)
  | both (name : Name) (before after : Gap) (bundle : Bundle)

structure Front where
  type? : Option Space
  clause : Clause
  before : Space
  after : Space

/-- Without a front the module is imported for its effect. -/
structure Declaration where
  space : Space
  front? : Option Front
  source : Literal
  semicolon? : Option LineGap

def typeText : Option Space → Text
  | none => []
  | some space => ['t', 'y', 'p', 'e'] ++ space.text

namespace Literal

def spelling (literal : Literal) : Text :=
  literal.quote :: (literal.text ++ [literal.quote])

end Literal

namespace Member

def aliasText : Option (Space × Space × Name) → Text
  | none => []
  | some (before, after, name) => before.text ++ ['a', 's'] ++ after.text ++ name.text

def text (member : Member) : Text :=
  typeText member.type? ++ member.name.text ++ aliasText member.alias?

def localName (member : Member) : Text :=
  match member.alias? with
  | none => member.name.text
  | some (_, _, name) => name.text

end Member

namespace Members

def text : Members → Text
  | blank gap => gap.text
  | last before member after => before.text ++ member.text ++ after.text
  | more before member after rest => before.text ++ member.text ++ after.text ++ ',' :: rest.text

def names : Members → List Text
  | blank _ => []
  | last _ member _ => [member.localName]
  | more _ member _ rest => member.localName :: rest.names

end Members

namespace Bundle

def text : Bundle → Text
  | star gap space name => '*' :: (gap.text ++ ['a', 's'] ++ space.text ++ name.text)
  | braces members => '{' :: (members.text ++ ['}'])

def names : Bundle → List Text
  | star _ _ name => [name.text]
  | braces members => members.names

end Bundle

namespace Clause

def text : Clause → Text
  | name word => word.text
  | bundle shared => shared.text
  | both word before after shared =>
    word.text ++ before.text ++ ',' :: (after.text ++ shared.text)

def names : Clause → List Text
  | name word => [word.text]
  | bundle shared => shared.names
  | both word _ _ shared => word.text :: shared.names

end Clause

def Front.text (front : Front) : Text :=
  typeText front.type? ++ front.clause.text ++ front.before.text ++ ['f', 'r', 'o', 'm'] ++
    front.after.text

namespace Declaration

def frontText : Option Front → Text
  | none => []
  | some front => front.text

def semicolonText : Option LineGap → Text
  | none => []
  | some gap => gap.text ++ [';']

def head (declaration : Declaration) : Text :=
  Line.importWord ++ declaration.space.text ++ frontText declaration.front?

def text (declaration : Declaration) : Text :=
  declaration.head ++ declaration.source.spelling ++ semicolonText declaration.semicolon?

def names (declaration : Declaration) : List Text :=
  match declaration.front? with
  | none => []
  | some front => front.clause.names

end Declaration
end ImportBlock
