import VersionSweep.Config.Basic

/-!
# Fields of a configuration

A configuration text is read by adding one field after the other.  What it sets in the end is read
off the values that stand under the name of each field: there is none if the field is not set, and
just one of the right kind if it is.
-/

namespace VersionSweep

namespace ConfigFields

def given (name : String) (pairs : List (Option String × Json)) : List Json :=
  (pairs.filter fun pair ↦ pair.1 = some name).map Prod.snd

/-- Whether values set a field: none leaves it unset, and just one gives it what is read from it. -/
inductive Sets {α : Type} (read : Json → Option α) : List Json → Option α → Prop where
  | unset : Sets read [] none
  | value {json : Json} {value : α} (h : read json = some value) : Sets read [json] (some value)

structure SetBy (fields : ConfigFields) (pairs : List (Option String × Json)) : Prop where
  named : ∀ pair ∈ pairs, pair.1.isSome = true
  libraryPath : Sets text? (given "lib_dir" pairs) fields.libraryPath
  defaultVersion : Sets text? (given "default_version" pairs) fields.defaultVersion
  defaultFileName : Sets text? (given "default_file_name" pairs) fields.defaultFileName
  shownDiagnostics : Sets count? (given "max_rendered_diagnostics" pairs) fields.shownDiagnostics

def pairs? : Json → Option (List (Option String × Json))
  | .object fields => some fields
  | .array values =>
    if values.length ≤ fieldNames.length then some ((fieldNames.map some).zip values) else none
  | _ => none

section Fills

variable {α : Type} {read : Json → Option α} {old new : Option α} {json : Json}
  {values more : List Json}

/-- Whether values bring a field from one state to another, each of them setting it anew. -/
def Fills (read : Json → Option α) (values : List Json) (old new : Option α) : Prop :=
  old.toList.map some ++ values.map read = new.toList.map some

theorem fills_nil : Fills read [] old new ↔ old = new := by
  cases old <;> cases new <;> simp [Fills]

theorem fills_singleton : Fills read [json] old new ↔ setOnce old (read json) = some new := by
  cases old <;> cases new <;> cases h : read json <;> simp [Fills, setOnce, h]

/-- What a row of values does is done by its parts one after the other. -/
theorem fills_append :
    Fills read (values ++ more) old new ↔
      ∃ middle, Fills read values old middle ∧ Fills read more middle new := by
  constructor
  · intro h
    rw [Fills, List.map_append, ← List.append_assoc] at h
    -- All that is set is set by then, or nothing is.
    have hmiddle : ∃ middle : Option α,
        old.toList.map some ++ values.map read = middle.toList.map some := by
      cases hparts : old.toList.map some ++ values.map read with
      | nil => exact ⟨none, rfl⟩
      | cons first rest =>
        rw [hparts] at h
        cases new with
        | none => cases h
        | some value =>
          obtain ⟨rfl, hrest⟩ := List.cons.inj h
          rw [(List.append_eq_nil_iff.1 hrest).1]
          exact ⟨some value, rfl⟩
    obtain ⟨middle, hmiddle⟩ := hmiddle
    rw [hmiddle] at h
    exact ⟨middle, hmiddle, h⟩
  · rintro ⟨middle, hfirst, hsecond⟩
    rw [Fills, List.map_append, ← List.append_assoc, hfirst, hsecond]

theorem fills_none_iff : Fills read values none new ↔ Sets read values new := by
  constructor
  · intro h
    cases new with
    | none =>
      obtain rfl := List.map_eq_nil_iff.1 h
      exact .unset
    | some value =>
      obtain ⟨json, rest, rfl, hvalue, hrest⟩ := List.map_eq_cons_iff.1 h
      obtain rfl := List.map_eq_nil_iff.1 hrest
      exact .value hvalue
  · rintro (_ | h)
    · rfl
    · simp [Fills, h]

end Fills

structure Extended (pairs : List (Option String × Json)) (old new : ConfigFields) : Prop where
  named : ∀ pair ∈ pairs, pair.1.isSome = true
  libraryPath : Fills text? (given "lib_dir" pairs) old.libraryPath new.libraryPath
  defaultVersion : Fills text? (given "default_version" pairs) old.defaultVersion new.defaultVersion
  defaultFileName :
    Fills text? (given "default_file_name" pairs) old.defaultFileName new.defaultFileName
  shownDiagnostics :
    Fills count? (given "max_rendered_diagnostics" pairs) old.shownDiagnostics new.shownDiagnostics

variable {pairs more : List (Option String × Json)} {fields old new : ConfigFields}
  {name : Option String} {value : Json}

theorem given_append (name : String) (pairs more : List (Option String × Json)) :
    given name (pairs ++ more) = given name pairs ++ given name more := by
  rw [given, given, given, List.filter_append, List.map_append]

theorem given_singleton (field name : String) (value : Json) :
    given field [(some name, value)] = if name = field then [value] else [] := by
  by_cases h : name = field <;> simp [given, h]

theorem extended_singleton {name : String} :
    Extended [(some name, value)] old new ↔
      Fills text? (if name = "lib_dir" then [value] else []) old.libraryPath new.libraryPath ∧
      Fills text? (if name = "default_version" then [value] else [])
        old.defaultVersion new.defaultVersion ∧
      Fills text? (if name = "default_file_name" then [value] else [])
        old.defaultFileName new.defaultFileName ∧
      Fills count? (if name = "max_rendered_diagnostics" then [value] else [])
        old.shownDiagnostics new.shownDiagnostics := by
  simp only [← given_singleton]
  constructor
  · rintro ⟨-, hpath, hversion, hname, hshown⟩
    exact ⟨hpath, hversion, hname, hshown⟩
  · rintro ⟨hpath, hversion, hname, hshown⟩
    exact ⟨by simp, hpath, hversion, hname, hshown⟩

/-- One step: adding a field is what its pair does. -/
theorem addField_eq_some_iff :
    addField old name value = some new ↔ Extended [(name, value)] old new := by
  cases name with
  | none =>
    constructor
    · exact fun h ↦ absurd h.symm (Option.some_ne_none new)
    · exact fun h ↦ absurd (h.named _ List.mem_cons_self) Bool.false_ne_true
  | some name =>
    obtain ⟨path, version, fileName, shown⟩ := old
    obtain ⟨path', version', fileName', shown'⟩ := new
    rw [extended_singleton, addField]
    by_cases hknown : name ∈ fieldNames
    · simp only [fieldNames, List.mem_cons, List.not_mem_nil, or_false] at hknown
      -- The field of the name is set anew, and all others stay as they are.
      obtain rfl | rfl | rfl | rfl := hknown
      all_goals
        simp only [String.reduceEq, reduceIte, Option.map_eq_some_iff, mk.injEq, fills_nil,
          fills_singleton]
        grind
    · simp only [fieldNames, List.mem_cons, List.not_mem_nil, or_false, not_or] at hknown
      obtain ⟨hpath, hversion, hname, hshown⟩ := hknown
      simp only [hpath, hversion, hname, hshown, reduceIte, Option.some.injEq, mk.injEq, fills_nil]

theorem extended_append :
    Extended (pairs ++ more) old new ↔
      ∃ middle, Extended pairs old middle ∧ Extended more middle new := by
  constructor
  · rintro ⟨hnamed, hpath, hversion, hname, hshown⟩
    rw [given_append] at hpath hversion hname hshown
    obtain ⟨path, hpath, hpath'⟩ := fills_append.1 hpath
    obtain ⟨version, hversion, hversion'⟩ := fills_append.1 hversion
    obtain ⟨fileName, hname, hname'⟩ := fills_append.1 hname
    obtain ⟨shown, hshown, hshown'⟩ := fills_append.1 hshown
    obtain ⟨hpairs, hmore⟩ := List.forall_mem_append.1 hnamed
    exact ⟨⟨path, version, fileName, shown⟩, ⟨hpairs, hpath, hversion, hname, hshown⟩,
      ⟨hmore, hpath', hversion', hname', hshown'⟩⟩
  · rintro ⟨middle, hpairs, hmore⟩
    refine ⟨List.forall_mem_append.2 ⟨hpairs.named, hmore.named⟩, ?_, ?_, ?_, ?_⟩
    · rw [given_append]
      exact fills_append.2 ⟨_, hpairs.libraryPath, hmore.libraryPath⟩
    · rw [given_append]
      exact fills_append.2 ⟨_, hpairs.defaultVersion, hmore.defaultVersion⟩
    · rw [given_append]
      exact fills_append.2 ⟨_, hpairs.defaultFileName, hmore.defaultFileName⟩
    · rw [given_append]
      exact fills_append.2 ⟨_, hpairs.shownDiagnostics, hmore.shownDiagnostics⟩

theorem extended_nil : Extended [] old new ↔ old = new := by
  constructor
  · rintro ⟨-, hpath, hversion, hname, hshown⟩
    obtain ⟨path, version, fileName, shown⟩ := old
    obtain rfl := fills_nil.1 hpath
    obtain rfl := fills_nil.1 hversion
    obtain rfl := fills_nil.1 hname
    obtain rfl := fills_nil.1 hshown
    rfl
  · rintro rfl
    exact ⟨List.forall_mem_nil _, fills_nil.2 rfl, fills_nil.2 rfl, fills_nil.2 rfl,
      fills_nil.2 rfl⟩

/-- The whole run, one pair after the other. -/
theorem ofObject_eq_some_iff : ofObject old pairs = some new ↔ Extended pairs old new := by
  induction pairs generalizing old with
  | nil => rw [ofObject, extended_nil, Option.some.injEq]
  | cons pair pairs ih =>
    obtain ⟨name, value⟩ := pair
    rw [ofObject, Option.bind_eq_some_iff, ← List.singleton_append, extended_append]
    exact exists_congr fun middle ↦ and_congr addField_eq_some_iff ih

theorem extended_empty_iff : Extended pairs empty fields ↔ fields.SetBy pairs := by
  constructor
  · rintro ⟨hnamed, hpath, hversion, hname, hshown⟩
    exact ⟨hnamed, fills_none_iff.1 hpath, fills_none_iff.1 hversion, fills_none_iff.1 hname,
      fills_none_iff.1 hshown⟩
  · rintro ⟨hnamed, hpath, hversion, hname, hshown⟩
    exact ⟨hnamed, fills_none_iff.2 hpath, fills_none_iff.2 hversion, fills_none_iff.2 hname,
      fills_none_iff.2 hshown⟩

/-- A text sets fields exactly if it is JSON whose pairs of names and values set them. -/
theorem ofText?_eq_some_iff (text : String) :
    ofText? text = some fields ↔
      ∃ json pairs, Json.parse? text = some json ∧ pairs? json = some pairs ∧
        fields.SetBy pairs := by
  have hpairs : ofText? text =
      ((Json.parse? text).bind pairs?).bind fun pairs ↦ ofObject empty pairs := by
    rw [ofText?]
    cases hjson : Json.parse? text with
    | none => rfl
    | some json =>
      cases json with
      | array values =>
        dsimp only [Option.bind_some, pairs?]
        split
        · rfl
        · rfl
      | _ => rfl
  rw [hpairs]
  simp only [Option.bind_eq_some_iff, ofObject_eq_some_iff, extended_empty_iff]
  constructor
  · rintro ⟨pairs, ⟨json, hjson, hpairs⟩, hset⟩
    exact ⟨json, pairs, hjson, hpairs, hset⟩
  · rintro ⟨json, pairs, hjson, hpairs, hset⟩
    exact ⟨pairs, ⟨json, hjson, hpairs⟩, hset⟩

end ConfigFields

end VersionSweep
