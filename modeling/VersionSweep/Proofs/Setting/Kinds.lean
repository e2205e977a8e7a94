import VersionSweep.Proofs.Text.Lines
import VersionSweep.Proofs.Text.Trimming
import VersionSweep.Setting.Assignment
import VersionSweep.Setting.Catalog

/-!
# Values of their kinds

What a setting reads from a text is a value of its kind.  The items of a list come out trimmed, not
empty and without commas, and a choice carries the code that the table has for its word.
-/

namespace VersionSweep

def Scalar.Holds : Scalar → SettingValue → Prop
  | .boolean, .bool _ => True
  | .number, .number _ => True
  | .string, .string _ => True
  | _, _ => False

/-- A text that can stand between the commas of a list. -/
structure SettingValue.IsItemText (text : String) : Prop where
  ne_empty : text ≠ ""
  trimmed : Text.trim text.toList = text.toList
  comma : ',' ∉ text.toList

/-- The values of a kind.  An item of a list is of the element's kind and, if it is a text, one that
can stand between commas. -/
def SettingKind.Holds : SettingKind → SettingValue → Prop
  | .scalar element, value => element.Holds value
  | .list element, .list values => ∀ value ∈ values,
      element.Holds value ∧ ∀ text, value = .string text → SettingValue.IsItemText text
  | .choice table, .choice word code => table.get? word = some code ∧ Text.foldCase word = word
  | _, _ => False

namespace Setting

theorem holds_of_readScalar {name raw : String} {element : Scalar} {value : SettingValue}
    (h : readScalar name element raw = .ok value) :
    element.Holds value ∧ ∀ text, value = .string text → text = raw := by
  unfold readScalar at h
  split at h
  · rename_i hread
    obtain rfl := Except.ok.inj h
    cases element with
    | boolean =>
      rw [readScalar?, Option.map_eq_some_iff] at hread
      obtain ⟨truth, -, rfl⟩ := hread
      exact ⟨trivial, fun text htext ↦ by cases htext⟩
    | number =>
      rw [readScalar?, Option.map_eq_some_iff] at hread
      obtain ⟨number, -, rfl⟩ := hread
      exact ⟨trivial, fun text htext ↦ by cases htext⟩
    | string =>
      rw [readScalar?] at hread
      obtain rfl := Option.some.inj hread
      exact ⟨trivial, fun text htext ↦ (SettingValue.string.inj htext).symm⟩
  · cases h

theorem isItemText_of_mem_listItems {raw item : String} (h : item ∈ listItems raw) :
    SettingValue.IsItemText item := by
  obtain ⟨cs, hcs, rfl⟩ := List.mem_map.1 h
  obtain ⟨hmem, hne⟩ := List.mem_filter.1 hcs
  obtain ⟨part, hpart, rfl⟩ := List.mem_map.1 hmem
  have hcomma : ',' ∉ part := (Text.mem_splitOn hpart).1
  constructor
  · intro hempty
    have hnil : Text.trim part = [] := by simpa using congrArg String.toList hempty
    simp [hnil] at hne
  · rw [String.toList_ofList, Text.trim_trim]
  · rw [String.toList_ofList]
    exact fun hmem ↦ hcomma (Text.mem_of_mem_trim hmem)

theorem holds_of_readItems {name : String} {element : Scalar} {items : List String}
    {values : List SettingValue} (h : readItems name element items = .ok values) :
    ∀ value ∈ values, element.Holds value ∧ ∀ text, value = .string text → text ∈ items := by
  induction items generalizing values with
  | nil =>
    obtain rfl := Except.ok.inj h
    exact fun value hvalue ↦ (List.not_mem_nil hvalue).elim
  | cons item rest ih =>
    unfold readItems at h
    split at h
    · cases h
    rename_i first hfirst
    split at h
    · cases h
    rename_i others hothers
    obtain rfl := Except.ok.inj h
    intro value hvalue
    rcases List.mem_cons.1 hvalue with rfl | hvalue
    · obtain ⟨hholds, htext⟩ := holds_of_readScalar hfirst
      exact ⟨hholds, fun text heq ↦ htext text heq ▸ List.mem_cons_self ..⟩
    · obtain ⟨hholds, htext⟩ := ih hothers value hvalue
      exact ⟨hholds, fun text heq ↦ List.mem_cons_of_mem _ (htext text heq)⟩

/-- What a setting reads is a value of its kind. -/
theorem holds_of_read {setting : Setting} {raw : String} {value : SettingValue}
    (h : setting.read raw = .ok value) : setting.kind.Holds value := by
  unfold read at h
  split at h
  · rename_i element hkind
    rw [hkind]
    exact (holds_of_readScalar h).1
  · rename_i element hkind
    rw [hkind]
    cases hitems : readItems setting.name element (listItems raw) with
    | error failure =>
      rw [hitems] at h
      cases h
    | ok values =>
      rw [hitems] at h
      obtain rfl := Except.ok.inj h
      intro item hitem
      obtain ⟨hholds, htext⟩ := holds_of_readItems hitems item hitem
      exact ⟨hholds, fun text heq ↦ isItemText_of_mem_listItems (htext text heq)⟩
  · rename_i table hkind
    rw [hkind]
    split at h
    · rename_i code hcode
      obtain rfl := Except.ok.inj h
      exact ⟨hcode, Text.foldCase_foldCase raw⟩
    · cases h

end Setting

namespace Catalog

def Keyed (catalog : Catalog) : Prop :=
  ∀ entry ∈ catalog.settings.entries, entry.1 = Text.foldCase entry.2.name

theorem keyed_empty : empty.Keyed :=
  fun _ hentry ↦ (List.not_mem_nil hentry).elim

theorem Keyed.declare {catalog : Catalog} (h : catalog.Keyed) (setting : Setting) :
    (catalog.declare setting).Keyed := by
  intro entry hentry
  rcases OrderedMap.eq_or_mem_of_mem_insert hentry with rfl | hentry
  · rfl
  · exact h entry hentry

theorem keyed_ofList (settings : List Setting) : (ofList settings).Keyed :=
  List.foldlRecOn settings _ keyed_empty fun _ hcatalog setting _ ↦ hcatalog.declare setting

theorem Keyed.foldCase_name {catalog : Catalog} (h : catalog.Keyed) {name : String}
    {setting : Setting} (hlookup : catalog.lookup name = some setting) :
    Text.foldCase setting.name = Text.foldCase name :=
  (h _ (OrderedMap.mem_entries_of_get? hlookup)).symm

theorem lookup_congr (catalog : Catalog) {name name' : String}
    (h : Text.foldCase name = Text.foldCase name') :
    catalog.lookup name = catalog.lookup name' := by
  rw [lookup, lookup, h]

theorem mem_values_of_lookup {catalog : Catalog} {name : String} {setting : Setting}
    (h : catalog.lookup name = some setting) : setting ∈ catalog.settings.values :=
  List.mem_map_of_mem (OrderedMap.mem_entries_of_get? h)

end Catalog

end VersionSweep
