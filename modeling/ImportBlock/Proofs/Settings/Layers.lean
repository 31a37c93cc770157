import Mathlib.Data.List.Pairwise
import ImportBlock.CommandLine.Arguments
import ImportBlock.Settings.Reader

/-! Each setting is taken from the strongest layer that has a value for it, whatever the others
have. -/

namespace ImportBlock

open Text

/-- A setting by its name: how a value is read for it, where it is kept, and what the command line
says of it. -/
structure Setting where
  Kind : Type
  name : String
  read? : (reader : Reader) → reader.Value → Option Kind
  field : Settings → Kind
  said : Arguments → Option Kind

namespace Setting

def key (setting : Setting) : Text := setting.name.toList

def turned (given target : Bool) : Option Bool := if given then some target else none

def all : List Setting := [
  ⟨_, "import_order", Reader.order?, Settings.importOrder, Arguments.order⟩,
  ⟨_, "sort_by", Reader.sortBy?, Settings.sortBy, Arguments.sortBy⟩,
  ⟨_, "remove_unused", Reader.bool?, Settings.removeUnused, fun arguments =>
    turned (arguments.removeUnused || arguments.unusedReport.isSome || arguments.unusedCmd.isSome)
      true⟩,
  ⟨_, "empty_line_between_groups", Reader.bool?, Settings.emptyLineBetweenGroups,
    fun arguments => turned arguments.noGroupSpacing false⟩,
  ⟨_, "max_line_length", Reader.size?, Settings.maxLineLength, Arguments.maxLineLength⟩,
  ⟨_, "group_by_scope", Reader.bool?, Settings.groupByScope,
    fun arguments => turned arguments.noScopeGroup false⟩,
  ⟨_, "preserve_leading_comments", Reader.bool?, Settings.preserveLeadingComments,
    fun _ => none⟩,
  ⟨_, "wrap_multiline_imports", Reader.bool?, Settings.wrapMultilineImports,
    fun arguments => turned arguments.noWrap false⟩,
  ⟨_, "trailing_comments", Reader.trailing?, Settings.trailingComments,
    Arguments.trailingComments⟩,
  ⟨_, "whole_document", Reader.bool?, Settings.wholeDocument,
    fun arguments => turned arguments.wholeDocument true⟩]

/-- The value that wins or else the default, but nothing for a value of the wrong type. -/
def settled (setting : Setting) (reader : Reader) (found : Option reader.Value) :
    Option setting.Kind := found.elim (some (setting.field {})) (setting.read? reader)

/-- The settings have the values that win. -/
def Reflects (reader : Reader) (winner : Text → Option reader.Value) (settings : Settings) : Prop :=
  ∀ setting ∈ all, setting.settled reader (winner setting.key) = some (setting.field settings)

theorem eq_of_fields {left right : Settings}
    (same : ∀ setting ∈ all, setting.field left = setting.field right) : left = right := by
  cases left
  cases right
  simp_all [all]

section Reflects

variable {reader : Reader} {winner : Text → Option reader.Value}

theorem exists_reflects
    (typed : ∀ setting ∈ all, (setting.settled reader (winner setting.key)).isSome = true) :
    ∃ settings, Reflects reader winner settings := by
  simp only [all, List.forall_mem_cons, Option.isSome_iff_exists] at typed
  obtain ⟨⟨order, horder⟩, ⟨sortBy, hsortBy⟩, ⟨unused, hunused⟩, ⟨gaps, hgaps⟩, ⟨size, hsize⟩,
    ⟨scope, hscope⟩, ⟨leading, hleading⟩, ⟨wrapping, hwrapping⟩, ⟨trailing, htrailing⟩,
    ⟨whole, hwhole⟩, -⟩ := typed
  refine ⟨⟨order, sortBy, unused, gaps, size, scope, leading, wrapping, trailing, whole⟩, ?_⟩
  simp only [Reflects, all, List.forall_mem_cons]
  exact ⟨horder, hsortBy, hunused, hgaps, hsize, hscope, hleading, hwrapping, htrailing, hwhole,
    List.forall_mem_nil _⟩

theorem Reflects.unique {left right : Settings} (hleft : Reflects reader winner left)
    (hright : Reflects reader winner right) : left = right :=
  eq_of_fields fun setting member =>
    Option.some.inj ((hleft setting member).symm.trans (hright setting member))

end Reflects

end Setting

namespace Environment

variable {environment : List (String × String)} {name : Text}

/-- The variable has the name of the setting behind the prefix, in letters of either case. -/
def Names (entry : String × String) (name : Text) : Prop :=
  lowerAscii entry.1.toList = "align_imports_".toList ++ name

instance (entry : String × String) (name : Text) : Decidable (Names entry name) :=
  inferInstanceAs (Decidable (_ = _))

/-- But for white space the variable has that name, or that and more behind a dot. -/
def Mentions (entry : String × String) (name : Text) : Prop :=
  ∃ more, (more = [] ∨ more.head? = some '.') ∧
    (lowerAscii entry.1.toList).filter (!isWhite ·) = "align_imports_".toList ++ name ++ more

/-- Whatever mentions the setting has its very name. -/
def Plain (environment : List (String × String)) (name : Text) : Prop :=
  ∀ entry ∈ environment, Mentions entry name → Names entry name

/-- No two variables differ in the case of their names only. -/
def Apart (environment : List (String × String)) : Prop :=
  environment.Pairwise fun left right => lowerAscii left.1.toList ≠ lowerAscii right.1.toList

theorem Apart.eq_of_names (apart : Apart environment) {left right : String × String}
    (hleft : left ∈ environment) (hright : right ∈ environment) (namesLeft : Names left name)
    (namesRight : Names right name) : left = right := by
  by_contra hne
  have : Std.Symm fun left right : String × String =>
      lowerAscii left.1.toList ≠ lowerAscii right.1.toList := ⟨fun _ _ h => h.symm⟩
  exact apart.forall hleft hright hne (namesLeft.trans namesRight.symm)

end Environment

namespace Reader

def given? (reader : Reader) (environment : List (String × String)) (name : Text) :
    Option reader.Value :=
  reader.get? (reader.ofVariables Environment.variableStart environment) name

/-- What is known of how values are read. -/
structure Lawful (reader : Reader) : Prop where
  /-- Values replace one another key by key. -/
  merge : ∀ lower upper name, reader.get? (reader.merge lower upper) name =
    (reader.get? upper name).or (reader.get? lower name)
  /-- Settings that are written as values are read back from them. -/
  written : ∀ settings, settings.maxLineLength < Value.sizeBound → ∀ setting ∈ Setting.all,
    ∃ value, reader.get? (reader.ofSettings settings) setting.key = some value ∧
      setting.read? reader value = some (setting.field settings)
  /-- Each setting is typed by itself, and has its default where there is no value. -/
  typed : ∀ layer settings, reader.settings? layer = some settings ↔
    Setting.Reflects reader (reader.get? layer) settings
  /-- There is a value for a setting that a variable has the name of. -/
  heeded : ∀ environment, ∀ entry ∈ environment, ∀ setting ∈ Setting.all,
    Environment.Names entry setting.key →
      ∃ value, reader.given? environment setting.key = some value
  /-- There is one only if a variable mentions the setting. If that has its very name, its text is
  what is read. -/
  origin : ∀ environment, ∀ setting ∈ Setting.all, ∀ value,
    reader.given? environment setting.key = some value →
      ∃ entry ∈ environment, Environment.Mentions entry setting.key ∧
        (Environment.Names entry setting.key → value = reader.value entry.2.toList)

variable (reader : Reader) (environment : List (String × String)) (file : Option reader.Layer)

def stored? (name : Text) : Option reader.Value := file.bind fun layer => reader.get? layer name

/-- The value that a setting is given above its default: that of the environment, or else that of
the file. -/
inductive Wins (name : Text) : Option reader.Value → Prop where
  | environment {entry : String × String} (given : entry ∈ environment)
      (names : Environment.Names entry name) : Wins name (some (reader.value entry.2.toList))
  | file {value : reader.Value} (unset : ∀ entry ∈ environment, ¬ Environment.Names entry name)
      (found : reader.stored? file name = some value) : Wins name (some value)
  | default (unset : ∀ entry ∈ environment, ¬ Environment.Names entry name)
      (absent : reader.stored? file name = none) : Wins name none

def winner (name : Text) : Option reader.Value :=
  (reader.given? environment name).or (reader.stored? file name)

def together : reader.Layer :=
  reader.merge (file.elim (reader.ofSettings {}) (reader.merge (reader.ofSettings {})))
    (reader.ofVariables Environment.variableStart environment)

variable {reader environment file}

namespace Lawful

variable (lawful : reader.Lawful)

include lawful

theorem given?_eq_none_iff {setting : Setting} (member : setting ∈ Setting.all)
    (plain : Environment.Plain environment setting.key) :
    reader.given? environment setting.key = none ↔
      ∀ entry ∈ environment, ¬ Environment.Names entry setting.key := by
  constructor
  · intro none entry given names
    obtain ⟨value, hvalue⟩ := lawful.heeded environment entry given setting member names
    rw [none] at hvalue
    cases hvalue
  · intro unset
    rw [Option.eq_none_iff_forall_ne_some]
    intro value hvalue
    obtain ⟨entry, given, mentions, -⟩ := lawful.origin environment setting member value hvalue
    exact unset entry given (plain entry given mentions)

theorem given?_eq_some_iff (apart : Environment.Apart environment) {setting : Setting}
    (member : setting ∈ Setting.all) (plain : Environment.Plain environment setting.key)
    {value : reader.Value} : reader.given? environment setting.key = some value ↔
      ∃ entry ∈ environment, Environment.Names entry setting.key ∧
        value = reader.value entry.2.toList := by
  have horigin : ∀ found, reader.given? environment setting.key = some found →
      ∃ entry ∈ environment, Environment.Names entry setting.key ∧
        found = reader.value entry.2.toList := by
    intro found hfound
    obtain ⟨entry, given, mentions, hvalue⟩ := lawful.origin environment setting member found hfound
    have names := plain entry given mentions
    exact ⟨entry, given, names, hvalue names⟩
  refine ⟨horigin value, ?_⟩
  rintro ⟨entry, given, names, rfl⟩
  obtain ⟨found, hfound⟩ := lawful.heeded environment entry given setting member names
  obtain ⟨other, hgiven, hnames, rfl⟩ := horigin found hfound
  rw [hfound, apart.eq_of_names given hgiven names hnames]

theorem wins_iff (apart : Environment.Apart environment) {setting : Setting}
    (member : setting ∈ Setting.all) (plain : Environment.Plain environment setting.key)
    {found : Option reader.Value} :
    reader.Wins environment file setting.key found ↔
      found = reader.winner environment file setting.key := by
  have hnone := lawful.given?_eq_none_iff member plain
  constructor
  · intro wins
    rw [winner]
    cases wins with
    | environment given names =>
      rw [(lawful.given?_eq_some_iff apart member plain).mpr ⟨_, given, names, rfl⟩]
      rfl
    | file unset found => rw [hnone.mpr unset, found]; rfl
    | default unset absent => rw [hnone.mpr unset, absent]; rfl
  · rintro rfl
    rw [winner]
    cases hgiven : reader.given? environment setting.key with
    | some value =>
      obtain ⟨entry, given, names, rfl⟩ :=
        (lawful.given?_eq_some_iff apart member plain).mp hgiven
      exact .environment given names
    | none =>
      cases hfile : reader.stored? file setting.key with
      | some value => exact .file (hnone.mp hgiven) hfile
      | none => exact .default (hnone.mp hgiven) hfile

theorem get?_together (name : Text) :
    reader.get? (reader.together environment file) name =
      (reader.winner environment file name).or (reader.get? (reader.ofSettings {}) name) := by
  rw [together, lawful.merge, winner, given?, Option.or_assoc]
  cases file with
  | none => rfl
  | some layer => exact congrArg _ (lawful.merge _ _ _)

/-- The default is written below all else, so a missing value counts the same. -/
theorem settled_together {setting : Setting} (member : setting ∈ Setting.all) :
    setting.settled reader (reader.get? (reader.together environment file) setting.key) =
      setting.settled reader (reader.winner environment file setting.key) := by
  rw [lawful.get?_together]
  cases reader.winner environment file setting.key with
  | some value => rfl
  | none =>
    obtain ⟨value, hvalue, hread⟩ := lawful.written {} (by decide) setting member
    rw [Option.none_or, hvalue]
    exact hread

theorem settings?_together {settings : Settings} :
    reader.settings? (reader.together environment file) = some settings ↔
      Setting.Reflects reader (reader.winner environment file) settings := by
  rw [lawful.typed]
  refine forall₂_congr fun setting member => ?_
  rw [lawful.settled_together member]

end Lawful

end Reader

theorem Settings.checked_eq_ok_iff {settings result : Settings} :
    settings.checked = .ok result ↔ settings = result ∧ settings.validate = .ok () := by
  rw [checked]
  cases settings.validate <;> simp

namespace Reader.Lawful

variable {reader : Reader} {environment : List (String × String)} {file : Option reader.Layer}
  (lawful : reader.Lawful)

include lawful

theorem extract_together_eq_ok_iff {settings : Settings} :
    reader.extract (reader.together environment file) = .ok settings ↔
      Setting.Reflects reader (reader.winner environment file) settings ∧
        settings.validate = .ok () := by
  rw [← lawful.settings?_together, extract]
  cases reader.settings? (reader.together environment file) with
  | none => simp
  | some found =>
    dsimp only
    rw [Settings.checked_eq_ok_iff, Option.some.injEq]
    exact and_congr_right fun same => by rw [same]

/-- Loading fails where a value that wins has the wrong type, or where all that win are invalid. -/
theorem extract_together_eq_error_iff :
    (∃ fault, reader.extract (reader.together environment file) = .error fault) ↔
      (∃ setting ∈ Setting.all,
        setting.settled reader (reader.winner environment file setting.key) = none) ∨
        ∃ settings, Setting.Reflects reader (reader.winner environment file) settings ∧
          settings.validate ≠ .ok () := by
  constructor
  · rintro ⟨fault, hfault⟩
    by_contra hfits
    rw [not_or] at hfits
    obtain ⟨htyped, hvalid⟩ := hfits
    obtain ⟨settings, hreflects⟩ :
        ∃ settings, Setting.Reflects reader (reader.winner environment file) settings := by
      refine Setting.exists_reflects fun setting member => ?_
      rw [Option.isSome_iff_ne_none]
      exact fun hnone => htyped ⟨setting, member, hnone⟩
    have hok : settings.validate = .ok () := by
      by_contra hinvalid
      exact hvalid ⟨settings, hreflects, hinvalid⟩
    rw [lawful.extract_together_eq_ok_iff.mpr ⟨hreflects, hok⟩] at hfault
    cases hfault
  · intro hunfit
    cases hextract : reader.extract (reader.together environment file) with
    | error fault => exact ⟨fault, rfl⟩
    | ok settings =>
      obtain ⟨hreflects, hvalid⟩ := lawful.extract_together_eq_ok_iff.mp hextract
      rcases hunfit with ⟨setting, member, hnone⟩ | ⟨others, hothers, hinvalid⟩
      · rw [hreflects setting member] at hnone
        cases hnone
      · exact absurd (hreflects.unique hothers ▸ hvalid) hinvalid

end Reader.Lawful

theorem Arguments.field_override (arguments : Arguments) (settings : Settings) :
    ∀ setting ∈ Setting.all, setting.field (arguments.override settings) =
      (setting.said arguments).getD (setting.field settings) := by
  have hon : ∀ given value : Bool, (given || value) = (Setting.turned given true).getD value := by
    decide
  have hoff : ∀ given value : Bool,
      (!given && value) = (Setting.turned given false).getD value := by decide
  simp only [Setting.all, List.forall_mem_cons]
  exact ⟨rfl, rfl, hon _ _, hoff _ _, rfl, hoff _ _, rfl, hoff _ _, rfl, hon _ _,
    List.forall_mem_nil _⟩

end ImportBlock
