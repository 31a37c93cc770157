import ImportBlock.Text.Basic

namespace ImportBlock.Path

open Text

def isAbsolute (path : String) : Bool := path.toList.head? == some '/'

def join (folder path : String) : String :=
  if isAbsolute path || folder.isEmpty then path
  else if folder.toList.getLast? == some '/' then folder ++ path
  else folder ++ "/" ++ path

/-- The last component that is neither empty nor `.`. -/
def fileName? (path : String) : Option Text :=
  match (splitOn '/' path.toList).reverse.find? fun part => part != [] && part != ['.'] with
  | some ['.', '.'] => none
  | name => name

/-- What follows the last dot of the file name, unless the name only begins with it. -/
def extension? (path : String) : Option Text :=
  match (fileName? path).bind (splitLast ['.']) with
  | some (_ :: _, extension) => some extension
  | _ => none

def ancestors (folder : String) : List String :=
  let parts := (splitOn '/' folder.toList).filter (!·.isEmpty)
  (List.range (parts.length + 1)).reverse.map fun count =>
    String.ofList ('/' :: joinWith ['/'] (parts.take count))

end ImportBlock.Path
