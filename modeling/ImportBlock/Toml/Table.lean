import ImportBlock.Settings.Value

namespace ImportBlock.Toml

/-- A table has a header of its own, is implied by the header of a table inside it, or comes from a
key with dots. -/
inductive Origin where
  | header
  | implied
  | dotted
  deriving DecidableEq, Repr

inductive Item where
  | value (value : Value)
  | table (origin : Origin) (entries : List (Text × Item))
  | tables (elements : List (List (Text × Item)))

abbrev Entries := List (Text × Item)

namespace Entries

def get? (entries : Entries) (name : Text) : Option Item := entries.lookup name

def put (name : Text) (item : Item) : Entries → Entries
  | [] => [(name, item)]
  | entry :: rest => if entry.1 = name then (name, item) :: rest else entry :: put name item rest

/-- Adds a value under a key whose parts before the last are given first. Only tables without a
header can be added to, and nothing is replaced. -/
def insert? (name : Text) (value : Value) : List Text → Entries → Option Entries
  | [], entries =>
    if (get? entries name).isSome then none else some (entries ++ [(name, .value value)])
  | part :: path, entries =>
    match get? entries part with
    | none => do
      let inner ← insert? name value path []
      some (put part (.table .dotted inner) entries)
    | some (.table .dotted inner) => do
      let inner ← insert? name value path inner
      some (put part (.table .dotted inner) entries)
    | some (.table .implied inner) =>
      if path.isEmpty then none
      else do
        let inner ← insert? name value path inner
        some (put part (.table .implied inner) entries)
    | some (.tables elements) =>
      if path.isEmpty then none
      else do
        let inner ← insert? name value path (elements.getLast?.getD [])
        some (put part (.tables (elements.dropLast ++ [inner])) entries)
    | some (.table .header _) | some (.value _) => none

def modify? (change : Entries → Option Entries) : List Text → Entries → Option Entries
  | [], entries => change entries
  | part :: path, entries =>
    match get? entries part with
    | none => do
      let inner ← modify? change path []
      some (put part (.table .implied inner) entries)
    | some (.table origin inner) => do
      let inner ← modify? change path inner
      some (put part (.table origin inner) entries)
    | some (.tables elements) => do
      let inner ← modify? change path (elements.getLast?.getD [])
      some (put part (.tables (elements.dropLast ++ [inner])) entries)
    | some (.value _) => none

/-- A header makes a new table or takes over an implied one. -/
def openTable? (name : Text) (entries : Entries) : Option Entries :=
  match get? entries name with
  | none => some (entries ++ [(name, .table .header [])])
  | some (.table .implied inner) => some (put name (.table .header inner) entries)
  | some _ => none

def openElement? (name : Text) (entries : Entries) : Option Entries :=
  match get? entries name with
  | none => some (entries ++ [(name, .tables [[]])])
  | some (.tables elements) => some (put name (.tables (elements ++ [[]])) entries)
  | some _ => none

def toLayer (entries : Entries) : Layer :=
  entries.map fun
    | (name, .value value) => (name, value)
    | (name, _) => (name, .other)

end Entries
end ImportBlock.Toml
