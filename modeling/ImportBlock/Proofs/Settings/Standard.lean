import ImportBlock.Proofs.Settings.Layers
import ImportBlock.Proofs.Text.Parts

namespace ImportBlock

open Text

namespace Setting

theorem trim_key : ∀ setting ∈ all, trim setting.key = setting.key := by decide

theorem filter_key : ∀ setting ∈ all, setting.key.filter (!isWhite ·) = setting.key := by decide

theorem splitOn_key : ∀ setting ∈ all,
    splitOn '.' setting.key = [setting.key] ∧ setting.key ≠ [] := by decide

end Setting

namespace Value

theorem size?_of_lt {size : Nat} (bounded : size < sizeBound) :
    size? (.integer size) = some size := by
  rw [size?, if_pos ⟨by omega, by exact_mod_cast bounded⟩]
  rfl

theorem choice?_category (category : Category) :
    choice? Category.names (.ofChoice Category.names category) = some category := by
  cases category <;> rfl

theorem choice?_sortBy (sortBy : SortOrder) :
    choice? SortOrder.names (.ofChoice SortOrder.names sortBy) = some sortBy := by
  cases sortBy <;> rfl

theorem choice?_trailing (trailing : TrailingComments) :
    choice? TrailingComments.names (.ofChoice TrailingComments.names trailing) =
      some trailing := by
  cases trailing <;> rfl

theorem order?_map (order : List Category) :
    order? (.list (order.map (.ofChoice Category.names))) = some order := by
  induction order with
  | nil => rfl
  | cons category order ih =>
    rw [order?] at ih ⊢
    rw [List.map_cons, List.mapM_cons, choice?_category, ih]
    rfl

end Value

namespace Layer

theorem settings?_eq_some_iff {layer : Layer} {settings : Settings} :
    settings? layer = some settings ↔
      Setting.Reflects .standard (fun name => layer.lookup name) settings := by
  have htyped : ∀ setting : Setting, typed? layer setting.name (setting.read? .standard)
      (setting.field {}) = setting.settled .standard (layer.lookup setting.key) := fun _ => rfl
  simp only [Setting.Reflects, ← htyped, Setting.all, List.forall_mem_cons, settings?,
    Option.bind_eq_bind, Option.bind_eq_some_iff]
  constructor
  · rintro ⟨_, horder, _, hsortBy, _, hunused, _, hgaps, _, hsize, _, hscope, _, hleading, _,
      hwrapping, _, htrailing, _, hwhole, hall⟩
    cases hall
    exact ⟨horder, hsortBy, hunused, hgaps, hsize, hscope, hleading, hwrapping, htrailing, hwhole,
      List.forall_mem_nil _⟩
  · rintro ⟨horder, hsortBy, hunused, hgaps, hsize, hscope, hleading, hwrapping, htrailing, hwhole,
      -⟩
    exact ⟨_, horder, _, hsortBy, _, hunused, _, hgaps, _, hsize, _, hscope, _, hleading, _,
      hwrapping, _, htrailing, _, hwhole, rfl⟩

theorem exists_lookup_ofSettings {settings : Settings}
    (bounded : settings.maxLineLength < Value.sizeBound) : ∀ setting ∈ Setting.all,
    ∃ value, (ofSettings settings).lookup setting.key = some value ∧
      setting.read? .standard value = some (setting.field settings) := by
  simp only [Setting.all, List.forall_mem_cons]
  refine ⟨?order, ?sortBy, ?_, ?_, ?size, ?_, ?_, ?_, ?trailing, ?_, List.forall_mem_nil _⟩
  case order => exact ⟨_, rfl, Value.order?_map _⟩
  case sortBy => exact ⟨_, rfl, Value.choice?_sortBy _⟩
  case size =>
    refine ⟨_, rfl, ?_⟩
    dsimp only [Reader.standard]
    exact Value.size?_of_lt bounded
  case trailing => exact ⟨_, rfl, Value.choice?_trailing _⟩
  all_goals exact ⟨_, rfl, rfl⟩

end Layer

namespace Environment

variable {environment : List (String × String)} {entry : String × String} {setting : Setting}
  {found : Value}

theorem lowerAscii_variableStart : lowerAscii variableStart = "align_imports_".toList := by decide

theorem setting?_of_names (member : setting ∈ Setting.all) (names : Names entry setting.key) :
    setting? variableStart entry = some (setting.key, value entry.2.toList) := by
  have hname : settingName? variableStart entry.1.toList = some setting.key := by
    rw [settingName?, lowerAscii_variableStart, names, stripStart_append, Option.map_some,
      Setting.trim_key setting member]
  obtain ⟨hparts, hne⟩ := Setting.splitOn_key setting member
  rw [setting?, hname]
  simp [hparts, hne]

theorem exists_append_of_splitOn {separator : Char} {text part : Text} {parts : List Text}
    (split : splitOn separator text = part :: parts) :
    ∃ more, text = part ++ more ∧ (more = [] ∨ more.head? = some separator) := by
  have hjoined := joinWith_splitOn separator text
  rw [split] at hjoined
  cases parts with
  | nil => exact ⟨[], by rw [← hjoined, List.append_nil]; rfl, .inl rfl⟩
  | cons next parts =>
    refine ⟨separator :: joinWith [separator] (next :: parts), ?_, .inr rfl⟩
    rw [← hjoined, joinWith_cons (List.cons_ne_nil _ _), List.append_assoc]
    rfl

theorem exists_splitOn_of_setting?
    (sets : setting? variableStart entry = some (setting.key, found)) :
    ∃ rest parts, lowerAscii entry.1.toList = "align_imports_".toList ++ rest ∧
      splitOn '.' (trim rest) = setting.key :: parts := by
  rw [setting?, Option.bind_eq_bind, Option.bind_eq_some_iff] at sets
  obtain ⟨name, hname, sets⟩ := sets
  obtain ⟨rest, hrest, rfl⟩ := Option.map_eq_some_iff.mp hname
  rw [lowerAscii_variableStart] at hrest
  refine ⟨rest, ?_⟩
  dsimp only at sets
  split at sets
  · cases sets
  · split at sets
    · next hparts => cases sets; exact ⟨_, eq_append_of_stripStart hrest, hparts⟩
    · next hparts => cases sets; exact ⟨_, eq_append_of_stripStart hrest, hparts⟩
    · cases sets

theorem mentions_of_setting? (member : setting ∈ Setting.all)
    (sets : setting? variableStart entry = some (setting.key, found)) :
    Mentions entry setting.key := by
  obtain ⟨rest, parts, hlower, hparts⟩ := exists_splitOn_of_setting? sets
  obtain ⟨more, hmore, hends⟩ := exists_append_of_splitOn hparts
  obtain ⟨above, below, hrest, habove, hbelow⟩ := exists_eq_trim rest
  have hwhite : ∀ white : Text, (∀ c ∈ white, isWhite c = true) → white.filter (!isWhite ·) = [] :=
    fun white h => List.filter_eq_nil_iff.mpr fun c hc => by simp [h c hc]
  refine ⟨more.filter (!isWhite ·), ?_, ?_⟩
  · rcases hends with rfl | hdot
    · exact .inl rfl
    · obtain ⟨tail, rfl⟩ := List.head?_eq_some_iff.mp hdot
      exact .inr rfl
  · rw [hlower, hrest, hmore]
    simp only [List.filter_append, hwhite above habove, hwhite below hbelow,
      Setting.filter_key setting member, List.nil_append, List.append_nil, List.append_assoc]
    rfl

theorem lookup_of_names (given : entry ∈ environment) (member : setting ∈ Setting.all)
    (names : Names entry setting.key) :
    ∃ value, (layer variableStart environment).lookup setting.key = some value := by
  rw [← Option.isSome_iff_exists, Option.isSome_iff_ne_none, ne_eq, List.lookup_eq_none_iff]
  intro absent
  have hmem : (setting.key, value entry.2.toList) ∈ layer variableStart environment :=
    List.mem_reverse.mpr (List.mem_filterMap.mpr ⟨entry, given, setting?_of_names member names⟩)
  simpa using absent _ hmem

theorem exists_of_lookup
    (lookup : (layer variableStart environment).lookup setting.key = some found) :
    ∃ entry ∈ environment, setting? variableStart entry = some (setting.key, found) := by
  obtain ⟨upper, lower, hlayer, -⟩ := List.lookup_eq_some_iff.mp lookup
  refine List.mem_filterMap.mp (List.mem_reverse.mp ?_)
  change _ ∈ layer variableStart environment
  rw [hlayer]
  simp

end Environment

theorem Reader.standard_lawful : Reader.standard.Lawful where
  merge lower upper name := List.lookup_append
  written settings bounded := Layer.exists_lookup_ofSettings bounded
  typed layer settings := Layer.settings?_eq_some_iff
  heeded environment entry given setting member := Environment.lookup_of_names given member
  origin environment setting member found hfound := by
    obtain ⟨entry, given, sets⟩ := Environment.exists_of_lookup hfound
    refine ⟨entry, given, Environment.mentions_of_setting? member sets, fun names => ?_⟩
    have hsame := sets.symm.trans (Environment.setting?_of_names member names)
    exact (Prod.mk.inj (Option.some.inj hsame)).2

end ImportBlock
