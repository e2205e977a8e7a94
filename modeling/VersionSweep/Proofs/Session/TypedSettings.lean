import VersionSweep.Proofs.Session.Preparation
import VersionSweep.Proofs.Setting.Kinds

/-!
# Settings of a session

Nothing that is done with a session brings in a setting that its compiler does not declare, a value
of another kind or a name that is reserved for the sweep, not even if the compiler declares that
name itself.  This does not hang on what the compilers at hand declare, so it is shown for a session
with any compiler, on any store, of which our sessions are a case.
-/

namespace VersionSweep

/-- Every value stands under the name of a declared setting, in small letters, and is of its
kind. -/
def Assignment.TypedBy (catalog : Catalog) (settings : Assignment) : Prop :=
  ∀ entry ∈ settings.values.entries, ∃ setting ∈ catalog.settings.values,
    entry.1 = Text.foldCase setting.name ∧ catalog.lookup entry.1 = some setting ∧
      setting.kind.Holds entry.2

def Assignment.FreeOfReserved (settings : Assignment) : Prop :=
  ∀ key ∈ settings.values.keys, SweepFlags.reserves key = false

/-- What can be done with a session. -/
inductive Session.Step where
  | prepare (preparation : Preparation)
  | compile

namespace CompilerInterface

variable {σ : Type} (interface : CompilerInterface σ)

def perform (session : Session σ) : VersionSweep.Session.Step → Session σ
  | .prepare preparation => interface.prepare session preparation
  | .compile => (interface.compileOnce session).2

def performAll (session : Session σ) (steps : List VersionSweep.Session.Step) : Session σ :=
  steps.foldl interface.perform session

structure Admits (settings : Assignment) : Prop where
  typed : settings.TypedBy interface.catalog
  free : settings.FreeOfReserved

variable {interface} {session : Session σ}

theorem admits_empty : interface.Admits .empty :=
  ⟨fun _ hentry ↦ (List.not_mem_nil hentry).elim, fun _ hkey ↦ (List.not_mem_nil hkey).elim⟩

theorem Admits.insert {settings : Assignment} (h : interface.Admits settings)
    {name raw : String} {setting : Setting} {value : SettingValue}
    (hname : SweepFlags.reserves name = false)
    (hlookup : interface.catalog.lookup name = some setting)
    (hread : setting.read raw = .ok value) :
    interface.Admits (settings.set setting.name value) := by
  have hfold : Text.foldCase setting.name = Text.foldCase name :=
    (Catalog.keyed_ofList interface.declared).foldCase_name hlookup
  constructor
  · intro entry hentry
    rcases OrderedMap.eq_or_mem_of_mem_insert hentry with rfl | hentry
    · refine ⟨setting, Catalog.mem_values_of_lookup hlookup, rfl, ?_, Setting.holds_of_read hread⟩
      rw [← hlookup]
      exact Catalog.lookup_congr _ (by rw [Text.foldCase_foldCase, hfold])
    · exact h.typed entry hentry
  · intro key hkey
    have hkey : key ∈ (settings.values.insert (Text.foldCase setting.name) value).keys := hkey
    rw [OrderedMap.keys_insert] at hkey
    split at hkey
    · exact h.free key hkey
    rcases List.mem_append.1 hkey with hkey | hkey
    · exact h.free key hkey
    -- A declared name in another case than the given one is reserved no more than that.
    · rw [List.mem_singleton.1 hkey, SweepFlags.reserves, Text.sameFolded, Text.foldCase_foldCase,
        hfold]
      exact hname

theorem Admits.of_set (h : interface.Admits session.settings) {name raw : String}
    {after : Session σ} (hset : interface.set session name raw = .ok after) :
    interface.Admits after.settings := by
  cases hname : SweepFlags.reserves name with
  | true =>
    rw [set, SweepFlags.setReserved?, if_pos hname] at hset
    split at hset
    · obtain rfl := Except.ok.inj hset
      exact h
    · cases hset
    · rename_i hnone
      split at hnone <;> cases hnone
  | false =>
    rw [set, SweepFlags.setReserved?, if_neg (by rw [hname]; decide)] at hset
    dsimp only at hset
    split at hset
    · cases hset
    rename_i setting hlookup
    split at hset
    · cases hset
    rename_i value hread
    obtain rfl := Except.ok.inj hset
    exact h.insert hname hlookup hread

/-- One step keeps what a session's settings are, whether it goes well or not. -/
theorem Admits.perform (h : interface.Admits session.settings) (step : VersionSweep.Session.Step) :
    interface.Admits (interface.perform session step).settings := by
  cases step with
  | compile =>
    rw [CompilerInterface.perform, compileOnce]
    split
    · exact h
    · exact h
  | prepare preparation =>
    exact prepare_keeps (P := fun after ↦ interface.Admits after.settings) (fun _ _ _ h ↦ h)
      (fun _ _ _ h ↦ h) (fun _ _ _ _ hset h ↦ h.of_set hset) h preparation

theorem Admits.performAll (h : interface.Admits session.settings)
    (steps : List VersionSweep.Session.Step) :
    interface.Admits (interface.performAll session steps).settings :=
  List.foldlRecOn (motive := fun state : Session σ ↦ interface.Admits state.settings) steps _ h
    fun _ hstate step _ ↦ hstate.perform step

end CompilerInterface

namespace Session

def perform (session : Session) (step : Step) : Session :=
  { session with state := session.compiler.interface.perform session.state step }

def performAll (session : Session) (steps : List Step) : Session :=
  steps.foldl perform session

/-- A session does what its compiler's interface does, and keeps its label and compiler. -/
theorem performAll_eq (session : Session) (steps : List Step) :
    session.performAll steps =
      ⟨session.compiler.interface.performAll session.state steps, session.label,
        session.compiler⟩ := by
  induction steps generalizing session with
  | nil => rfl
  | cons step rest ih => exact ih (session.perform step)

end Session

namespace CompilerInterface

/-- With a compiler that starts without settings, whatever is done with a session and whether it
goes well or not, each setting stands under the small letters of a declared name with a value of the
declared kind, and no name is reserved for the sweep.  The sessions of a compiler version are a
case. -/
theorem typedBy_and_freeOfReserved_of_performAll {σ : Type} (interface : CompilerInterface σ)
    (h : interface.defaultSettings = .empty) (store : σ) (steps : List VersionSweep.Session.Step) :
    let settings := (interface.performAll (interface.start store) steps).settings
    settings.TypedBy interface.catalog ∧ settings.FreeOfReserved ∧
      ∀ label compiler library,
        ((VersionSweep.Session.start label compiler library).performAll steps).state =
          compiler.interface.performAll
            (compiler.interface.start (.empty .language library)) steps := by
  have hstart : interface.Admits (interface.start store).settings := by
    rw [start, h]
    exact admits_empty
  have hadmits : interface.Admits (interface.performAll (interface.start store) steps).settings :=
    hstart.performAll steps
  refine ⟨hadmits.typed, hadmits.free, fun label compiler library ↦ ?_⟩
  rw [VersionSweep.Session.performAll_eq]
  rfl

theorem typedBy_and_freeOfReserved_of_performAll_reserved_name :
    let interface : CompilerInterface Unit :=
      ⟨[.boolean "Regress", .list "Lib" .string, .choice "Module" [("UMD", 3)], .number "Depth"],
        .empty, fun _ _ _ ↦ (), fun _ _ _ ↦ (.error .sessionConsumed, ())⟩
    let settings := (interface.performAll (interface.start ())
      [.prepare (.set "REGRESS" "true"), .prepare (.set "lIB" " es5 ,, dom"), .compile,
        .prepare (.set "module" "Umd"), .prepare (.set "depth" "deep"),
        .prepare (.load (.parse "// @regress\n// @unknown\nlet x = 1;" "a.ts"))]).settings
    settings.values.keys = ["lib", "module"] ∧ settings.TypedBy interface.catalog ∧
      settings.FreeOfReserved := by
  intro interface settings
  obtain ⟨htyped, hfree, -⟩ := interface.typedBy_and_freeOfReserved_of_performAll rfl ()
    [.prepare (.set "REGRESS" "true"), .prepare (.set "lIB" " es5 ,, dom"), .compile,
      .prepare (.set "module" "Umd"), .prepare (.set "depth" "deep"),
      .prepare (.load (.parse "// @regress\n// @unknown\nlet x = 1;" "a.ts"))]
  have hkeys : settings.values.keys = ["lib", "module"] := by decide +kernel
  exact ⟨hkeys, htyped, hfree⟩

end CompilerInterface

end VersionSweep
