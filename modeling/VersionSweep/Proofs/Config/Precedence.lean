import VersionSweep.CommandLine.Command
import VersionSweep.Proofs.Config.Fields

/-!
# Where the setup of a command comes from

An argument goes before the field of the configuration file and the field before the default, with
one exception: a library path that spells the default one counts as not set.
-/

namespace VersionSweep

def LibrarySource.ofPath? : Option String → LibrarySource
  | none => .bundled
  | some path => .folder path

@[simp] theorem LibrarySource.ofPath?_none : ofPath? none = .bundled := rfl

@[simp] theorem LibrarySource.ofPath?_some (path : String) : ofPath? (some path) = .folder path :=
  rfl

namespace Setup

/-- Whether fields are those that the configuration file of a command sets.  Without a file none is
set. -/
def Configures (disk : Disk) (arguments : Arguments) (fields : ConfigFields) : Prop :=
  match arguments.config with
  | none => fields = .empty
  | some path => ∃ text json pairs, disk.read path = .ok text ∧ Json.parse? text = some json ∧
      ConfigFields.pairs? json = some pairs ∧ fields.SetBy pairs

/-- Whether a path is the default library path, with slashes and dots behind it that lead to the
same folder. -/
def SpellsDefault (path : String) : Prop :=
  ∃ stays : List (List Char), (∀ stay ∈ stays, stay = [] ∨ stay = ['.']) ∧
    path.toList = ['/'].intercalate ("lib".toList :: stays)

variable {path : String}

theorem isStay_ofList (part : List Char) :
    Disk.isStay (String.ofList part) = true ↔ part = [] ∨ part = ['.'] := by
  simp [Disk.isStay, ← String.toList_inj]

theorem isDefaultPath_eq {first : List Char} {stays : List (List Char)}
    (h : path.toList.splitOn '/' = first :: stays) :
    isDefaultPath path = true ↔
      first = "lib".toList ∧ ∀ stay ∈ stays, stay = [] ∨ stay = ['.'] := by
  simp [isDefaultPath, Disk.parts, h, Library.defaultPath, isStay_ofList, ← String.toList_inj]

theorem isDefaultPath_iff : isDefaultPath path = true ↔ SpellsDefault path := by
  constructor
  · intro h
    obtain ⟨first, stays, hsplit⟩ :=
      List.exists_cons_of_ne_nil (List.splitOn_ne_nil '/' path.toList)
    obtain ⟨rfl, hstays⟩ := (isDefaultPath_eq hsplit).1 h
    refine ⟨stays, hstays, ?_⟩
    rw [← hsplit, List.intercalate_splitOn]
  · rintro ⟨stays, hstays, hpath⟩
    have hsplit : path.toList.splitOn '/' = "lib".toList :: stays := by
      rw [hpath]
      refine List.splitOn_intercalate '/' ?_ (List.cons_ne_nil _ _)
      refine List.forall_mem_cons.2 ⟨by decide, fun stay hstay ↦ ?_⟩
      obtain rfl | rfl := hstays stay hstay
      · decide
      · decide
    exact (isDefaultPath_eq hsplit).2 ⟨rfl, hstays⟩

/-- The setup of a command is the one of its configuration with its arguments going before it. -/
theorem resolve_eq {disk : Disk} {arguments : Arguments} {fields : ConfigFields}
    (h : Configures disk arguments fields) :
    resolve disk arguments = .ok ((ofConfig (.ofFields fields)).override arguments) := by
  unfold Configures at h
  unfold resolve
  cases hconfig : arguments.config with
  | none =>
    rw [hconfig] at h
    obtain rfl : fields = .empty := h
    rfl
  | some file =>
    rw [hconfig] at h
    obtain ⟨text, json, pairs, hread, hjson, hpairs, hset⟩ := h
    have hfields := (ConfigFields.ofText?_eq_some_iff text).2 ⟨json, pairs, hjson, hpairs, hset⟩
    simp only [hread, Config.load, hfields, Except.map]

theorem configures_of_ofText? {disk : Disk} {arguments : Arguments} {fields : ConfigFields}
    (file text : String) (hconfig : arguments.config = some file)
    (hread : (disk.read file).toOption = some text)
    (htext : ConfigFields.ofText? text = some fields) : Configures disk arguments fields := by
  have hok : disk.read file = .ok text := by
    cases hcontent : disk.read file with
    | error failure =>
      rw [hcontent] at hread
      cases hread
    | ok content =>
      rw [hcontent] at hread
      rw [Option.some.inj hread]
  obtain ⟨json, pairs, hjson, hpairs, hset⟩ := (ConfigFields.ofText?_eq_some_iff text).1 htext
  rw [Configures, hconfig]
  exact ⟨text, json, pairs, hok, hjson, hpairs, hset⟩

theorem library_override (fields : ConfigFields) (arguments : Arguments) :
    ((ofConfig (.ofFields fields)).override arguments).library =
      .ofPath? (arguments.libraryPath <|>
        fields.libraryPath.filter fun path ↦ !isDefaultPath path) := by
  cases harg : arguments.libraryPath with
  | some path => simp [override, harg]
  | none =>
    cases hpath : fields.libraryPath with
    | none =>
      -- The field that is not set has the default path.
      have hdefault : isDefaultPath Config.standard.libraryPath = true := by decide +kernel
      simp [override, ofConfig, Config.ofFields, harg, hpath, hdefault]
    | some path =>
      cases hdefault : isDefaultPath path <;>
        simp [override, ofConfig, Config.ofFields, harg, hpath, hdefault, Option.filter_some]

theorem ofPath?_filter_eq_iff (path? file? : Option String) :
    LibrarySource.ofPath? (path? <|> file?.filter fun path ↦ !isDefaultPath path) =
        .ofPath? (path? <|> file?) ↔
      ¬(path? = none ∧ ∃ path, file? = some path ∧ SpellsDefault path) := by
  cases path? with
  | some path => simp
  | none =>
    cases file? with
    | none => simp
    | some path =>
      cases hdefault : isDefaultPath path <;>
        simp [← isDefaultPath_iff, hdefault, Option.filter_some]

/-- A command takes each part of its setup from its arguments, else from the field of its
configuration file, else by default.  Only a library path of the file is passed over if it spells
the default path: then the bundled library is taken as if the field was not set. -/
theorem precedence_of_resolve (disk : Disk) (arguments : Arguments) (fields : ConfigFields)
    (h : Configures disk arguments fields) :
    ∃ setup, resolve disk arguments = .ok setup ∧
      setup.version = (arguments.version <|> fields.defaultVersion).getD "latest" ∧
      setup.defaultFileName = fields.defaultFileName.getD "repro.ts" ∧
      setup.shownDiagnostics = fields.shownDiagnostics.getD 10 ∧
      setup.library = .ofPath? (arguments.libraryPath <|>
        fields.libraryPath.filter fun path ↦ !isDefaultPath path) ∧
      (setup.library = .ofPath? (arguments.libraryPath <|> fields.libraryPath) ↔
        ¬(arguments.libraryPath = none ∧
          ∃ path, fields.libraryPath = some path ∧ SpellsDefault path)) := by
  have hlibrary := library_override fields arguments
  refine ⟨_, resolve_eq h, ?_, rfl, rfl, hlibrary, ?_⟩
  · cases hversion : arguments.version <;> simp [override, ofConfig, Config.ofFields, hversion]
    rfl
  · rw [hlibrary]
    exact ofPath?_filter_eq_iff _ _

theorem precedence_of_resolve_mixed_sources :
    let text := "\x7b\"lib_dir\": \"own\", \"default_version\": \"1.0.0\", \"other\": []\x7d"
    let disk := Disk.ofFiles [("c.json", text)]
    let arguments : Arguments := { Arguments.none with
      config := some "c.json"
      version := some "2.0.0" }
    Configures disk arguments ⟨some "own", some "1.0.0", none, none⟩ ∧
      ∃ setup, resolve disk arguments = .ok setup ∧ setup.library = .folder "own" ∧
        setup.version = "2.0.0" ∧ setup.defaultFileName = "repro.ts" ∧
        setup.shownDiagnostics = 10 := by
  intro text disk arguments
  have hfields : Configures disk arguments ⟨some "own", some "1.0.0", none, none⟩ :=
    configures_of_ofText? "c.json" text rfl (by decide +kernel)
      (by decide +kernel)
  obtain ⟨setup, hresolve, hversion, hname, hshown, hlibrary, -⟩ :=
    precedence_of_resolve disk arguments _ hfields
  have hfolder : (some "own").filter (fun path ↦ !isDefaultPath path) = some "own" := by
    decide +kernel
  refine ⟨hfields, setup, hresolve, ?_, hversion, hname, hshown⟩
  rw [hlibrary, hfolder]
  rfl

/-- A library path that the file sets to the default one is not taken. -/
theorem bundled_of_set_default_path :
    let text := "\x7b\"lib_dir\": \"lib\"\x7d"
    let disk := Disk.ofFiles [("c.json", text)]
    let arguments : Arguments := { Arguments.none with config := some "c.json" }
    Configures disk arguments ⟨some "lib", none, none, none⟩ ∧
      ∃ setup, resolve disk arguments = .ok setup ∧ setup.library = .bundled ∧
        setup.library ≠ .ofPath? (arguments.libraryPath <|> some "lib") := by
  intro text disk arguments
  have hfields : Configures disk arguments ⟨some "lib", none, none, none⟩ :=
    configures_of_ofText? "c.json" text rfl (by decide +kernel)
      (by decide +kernel)
  refine ⟨hfields, _, resolve_eq hfields, ?_, ?_⟩
  · decide +kernel
  · decide +kernel

end Setup

end VersionSweep
