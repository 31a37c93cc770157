import ImportBlock.Failure

namespace ImportBlock

open Text

inductive Node where
  | folder
  | file (bytes : List UInt8)
  deriving DecidableEq, Repr

/-- Nodes by the names on the way to them. The root is a folder and not listed. -/
structure FileTree where
  nodes : List (List Text × Node)
  deriving DecidableEq, Repr

namespace FileTree

def empty : FileTree := ⟨[]⟩

def get? (tree : FileTree) (place : List Text) : Option Node :=
  if place.isEmpty then some .folder else tree.nodes.lookup place

def put (tree : FileTree) (place : List Text) (node : Node) : FileTree :=
  if (tree.get? place).isSome then
    ⟨tree.nodes.map fun entry => if entry.1 = place then (place, node) else entry⟩
  else ⟨tree.nodes ++ [(place, node)]⟩

def remove (tree : FileTree) (place : List Text) : FileTree :=
  ⟨tree.nodes.filter fun entry => entry.1 != place⟩

def makeFolders (tree : FileTree) (place : List Text) : FileTree :=
  (List.range (place.length + 1)).foldl (fun tree count =>
    let place := place.take count
    if (tree.get? place).isNone then tree.put place .folder else tree) tree

def longestName : Nat := 255

def longestPath : Nat := 4095

def enter (tree : FileTree) (place : List Text) : Except SystemFault Unit :=
  match tree.get? place with
  | some .folder => .ok ()
  | some (.file _) => .error .notFolder
  | none => .error .notFound

/-- The place that a path leads to, seen from another. All but the place itself exists. -/
def walk (tree : FileTree) : List Text → List Text → Except SystemFault (List Text)
  | place, [] => .ok place
  | place, part :: rest => do
    tree.enter place
    if part = [] ∨ part = ['.'] then walk tree place rest
    else if part = ['.', '.'] then walk tree place.dropLast rest
    else if byteLength part > longestName then .error .nameTooLong
    else walk tree (place ++ [part]) rest

def locate (tree : FileTree) (folder : List Text) (path : String) :
    Except SystemFault (List Text) :=
  let text := path.toList
  if text.contains '\x00' then .error .nulInName
  else if text.isEmpty then .error .notFound
  else if byteLength text > longestPath then .error .nameTooLong
  else tree.walk (if text.head? = some '/' then [] else folder) (splitOn '/' text)

def read (tree : FileTree) (place : List Text) : Except SystemFault (List UInt8) :=
  match tree.get? place with
  | some (.file bytes) => .ok bytes
  | some .folder => .error .isFolder
  | none => .error .notFound

def isFile (tree : FileTree) (place : List Text) : Bool :=
  tree.get? place matches some (.file _)

def write (tree : FileTree) (place : List Text) (bytes : List UInt8) :
    Except SystemFault FileTree :=
  match tree.get? place with
  | some .folder => .error .isFolder
  | some (.file _) | none => .ok (tree.put place (.file bytes))

end FileTree
end ImportBlock
