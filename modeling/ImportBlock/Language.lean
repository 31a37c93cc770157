import ImportBlock.Path

namespace ImportBlock

inductive Language where
  | javaScript
  | javaScriptReact
  | typeScript
  | typeScriptReact
  deriving DecidableEq, Repr

namespace Language

def name : Language → String
  | .javaScript => "javascript"
  | .javaScriptReact => "javascriptreact"
  | .typeScript => "typescript"
  | .typeScriptReact => "typescriptreact"

def extensions : List (Text × Language) :=
  [("js".toList, .javaScript), ("mjs".toList, .javaScript), ("cjs".toList, .javaScript),
    ("jsx".toList, .javaScriptReact), ("ts".toList, .typeScript), ("mts".toList, .typeScript),
    ("cts".toList, .typeScript), ("tsx".toList, .typeScriptReact)]

def ofPath? (path : String) : Option Language :=
  (Path.extension? path).bind fun extension => extensions.lookup extension

def classify (paths : List String) : List (String × Language) :=
  paths.filterMap fun path => (ofPath? path).map (path, ·)

end Language
end ImportBlock
