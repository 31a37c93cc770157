import ImportBlock.Host.Basic
import ImportBlock.Host.FileTree

namespace ImportBlock

structure Workspace where
  tree : FileTree
  folder : List Text
  environment : List (String × String) := []
  ran : List (List String) := []
  printed : List String := []
  notes : List Note := []
  deriving DecidableEq, Repr

namespace Workspace

def locate (workspace : Workspace) (path : String) : Except SystemFault (List Text) :=
  workspace.tree.locate workspace.folder path

def folderName (workspace : Workspace) : String :=
  String.ofList ('/' :: Text.joinWith ['/'] workspace.folder)

def read (workspace : Workspace) (path : String) : Except SystemFault (List UInt8) := do
  workspace.tree.read (← workspace.locate path)

def isFile (workspace : Workspace) (path : String) : Bool :=
  match workspace.locate path with
  | .ok place => workspace.tree.isFile place
  | .error _ => false

def write (workspace : Workspace) (path : String) (bytes : List UInt8) :
    Except SystemFault Workspace := do
  let tree ← workspace.tree.write (← workspace.locate path) bytes
  return { workspace with tree }

/-- Programs are left to the given function, and see the workspace as it is. -/
def host (run : Command → StateM Workspace (Except SystemFault Finished)) :
    Host (StateM Workspace) where
  folder := return (← get).folderName
  environment := return (← get).environment
  isFile path := return (← get).isFile path
  read path := return (← get).read path
  write path bytes := do
    match (← get).write path bytes with
    | .ok workspace => set workspace; return .ok ()
    | .error fault => return .error fault
  run := run
  print line := modify fun workspace =>
    { workspace with printed := workspace.printed ++ [line] }
  note note := modify fun workspace => { workspace with notes := workspace.notes ++ [note] }

end Workspace
end ImportBlock
