import ImportBlock.Host.Workspace

namespace ImportBlock

theorem lookup_map_replace {α β : Type} [BEq α] [LawfulBEq α] [DecidableEq α]
    (nodes : List (α × β)) (place other : α) (node : β) :
    (nodes.map fun entry => if entry.1 = place then (place, node) else entry).lookup other =
      if other = place then (nodes.lookup place).map fun _ => node else nodes.lookup other := by
  induction nodes with
  | nil => simp
  | cons entry nodes ih =>
    rcases entry with ⟨name, old⟩
    by_cases here : name = place
    · subst here
      by_cases same : other = name
      · simp [same]
      · have hother : (other == name) = false := by simpa using same
        simp [List.lookup_cons, same, hother, ih]
    · by_cases same : other = place
      · have hplace : (place == name) = false := by simpa using Ne.symm here
        rw [same] at ih
        simp [List.lookup_cons, same, here, hplace, ih]
      · simp [List.lookup_cons, here, same, ih]

namespace FileTree

variable {tree other : FileTree} {place : List Text} {bytes : List UInt8}

theorem get?_put (file : tree.get? place = some (.file bytes)) (new : List UInt8)
    (elsewhere : List Text) :
    (tree.put place (.file new)).get? elsewhere =
      if elsewhere = place then some (.file new) else tree.get? elsewhere := by
  have hplace : place ≠ [] := by
    rintro rfl
    cases file
  have hlookup : tree.nodes.lookup place = some (.file bytes) := by
    simpa [get?, hplace] using file
  rw [put, if_pos (by simp [file])]
  by_cases root : elsewhere = []
  · simp [get?, root, Ne.symm hplace]
  · simp [get?, root, lookup_map_replace, hlookup]

theorem walk_congr (same : ∀ place, tree.enter place = other.enter place) (parts : List Text)
    (place : List Text) : tree.walk place parts = other.walk place parts := by
  induction parts generalizing place with
  | nil => rw [walk, walk]
  | cons part parts ih => simp only [walk, same, ih]

theorem enter_put (file : tree.get? place = some (.file bytes)) (new : List UInt8)
    (elsewhere : List Text) :
    (tree.put place (.file new)).enter elsewhere = tree.enter elsewhere := by
  rw [enter, enter, get?_put file]
  by_cases here : elsewhere = place
  · rw [if_pos here, here, file]
  · rw [if_neg here]

theorem locate_put (file : tree.get? place = some (.file bytes)) (new : List UInt8)
    (folder : List Text) (path : String) :
    (tree.put place (.file new)).locate folder path = tree.locate folder path := by
  simp only [locate, walk_congr (enter_put file new)]

end FileTree
end ImportBlock
