import VersionSweep.Session

/-!
# Preparation of sessions

All that can be done with a session before it compiles: files are added, settings are set, snippets
are put in.  A step that fails leaves the session as far as it got.  Nothing of this parses or
writes a file, so a prepared session compiles on a store without handles.
-/

namespace VersionSweep

inductive Session.Preparation where
  | addRoot (path text : String)
  | addExtra (path text : String)
  | set (name raw : String)
  | load (snippet : Snippet)

namespace CompilerInterface

variable {σ : Type} (interface : CompilerInterface σ)

/-- A setting that is refused leaves the session as it was. -/
def prepare (session : Session σ) : VersionSweep.Session.Preparation → Session σ
  | .addRoot path text => interface.addRoot session path text
  | .addExtra path text => interface.addExtra session path text
  | .set name raw =>
    match interface.set session name raw with
    | .ok session => session
    | .error _ => session
  | .load snippet => (snippet.replay interface.target session).state

variable {interface} {session : Session σ} {P : Session σ → Prop}

/-- Setting a setting changes nothing else than settings and flags. -/
theorem exists_eq_of_set {name raw : String} {after : Session σ}
    (h : interface.set session name raw = .ok after) :
    ∃ settings flags, after = { session with settings, flags } := by
  unfold set at h
  split at h
  · exact ⟨_, _, (Except.ok.inj h).symm⟩
  · cases h
  · split at h
    · cases h
    · split at h
      · cases h
      · exact ⟨_, _, (Except.ok.inj h).symm⟩

theorem reserved_or_declared_of_set {name raw : String} {after : Session σ}
    (hset : interface.set session name raw = .ok after) :
    SweepFlags.reserves name = true ∨ (interface.catalog.lookup name).isSome = true := by
  cases hreserved : SweepFlags.reserves name with
  | true => exact .inl rfl
  | false =>
    refine .inr ?_
    rw [set, SweepFlags.setReserved?, if_neg (by rw [hreserved]; decide)] at hset
    dsimp only at hset
    split at hset
    · cases hset
    · rename_i hlookup
      rw [hlookup]
      rfl

/-- What stays when a file is added and when a setting is set stays when a snippet is put in. -/
theorem replayEntries_keeps
    (hroot : ∀ session path text, P session → P (interface.addRoot session path text))
    (hset : ∀ session after name raw, interface.set session name raw = .ok after →
      P session → P after)
    (h : P session) (entries : List Entry) :
    P (Snippet.replayEntries interface.target session entries).state := by
  induction entries generalizing session with
  | nil => exact h
  | cons entry rest ih =>
    cases entry with
    | file name content => exact ih (hroot session name content h)
    | setting name value line =>
      rw [Snippet.replayEntries]
      split
      · rename_i hafter
        exact ih (hset session _ name value hafter h)
      · exact h

theorem prepare_keeps
    (hroot : ∀ session path text, P session → P (interface.addRoot session path text))
    (hextra : ∀ session path text, P session → P (interface.addExtra session path text))
    (hset : ∀ session after name raw, interface.set session name raw = .ok after →
      P session → P after)
    (h : P session) (preparation : VersionSweep.Session.Preparation) :
    P (interface.prepare session preparation) := by
  cases preparation with
  | addRoot path text => exact hroot session path text h
  | addExtra path text => exact hextra session path text h
  | load snippet => exact replayEntries_keeps hroot hset h snippet.entries
  | set name raw =>
    rw [prepare]
    split
    · rename_i hafter
      exact hset session _ name raw hafter h
    · exact h

theorem compiled_prepare (session : Session σ) (preparation : VersionSweep.Session.Preparation) :
    (interface.prepare session preparation).compiled = session.compiled := by
  refine prepare_keeps (P := fun after ↦ after.compiled = session.compiled) (fun _ _ _ h ↦ h)
    (fun _ _ _ h ↦ h) (fun state after name raw hset h ↦ ?_) rfl preparation
  obtain ⟨settings, flags, rfl⟩ := exists_eq_of_set hset
  exact h

/-- A session that has not compiled and whose store has neither parsed nor written anything. -/
structure Session.Pristine (session : Session Store) : Prop where
  compiled : session.compiled = false
  services : session.store.services = .language
  handles : session.store.handles = .empty
  outputs : session.store.outputs = .empty

namespace Session.Pristine

variable {session : Session Store} (compiler : Compiler)

theorem addExtra (h : session.Pristine) (path text : String) :
    (compiler.interface.addExtra session path text).Pristine := by
  refine ⟨h.compiled, h.services, ?_, h.outputs⟩
  simp only [CompilerInterface.addExtra, Compiler.interface, Store.addFile, h.handles]
  rfl

theorem addRoot (h : session.Pristine) (path text : String) :
    (compiler.interface.addRoot session path text).Pristine :=
  ⟨h.compiled, h.services, (h.addExtra compiler path text).handles, h.outputs⟩

theorem prepare (h : session.Pristine) (preparation : VersionSweep.Session.Preparation) :
    (compiler.interface.prepare session preparation).Pristine := by
  refine prepare_keeps (fun _ path text h ↦ h.addRoot compiler path text)
    (fun _ path text h ↦ h.addExtra compiler path text) (fun state after name raw hset h ↦ ?_) h
    preparation
  obtain ⟨settings, flags, rfl⟩ := exists_eq_of_set hset
  exact ⟨h.compiled, h.services, h.handles, h.outputs⟩

end Session.Pristine

end CompilerInterface

namespace Session

def prepare (session : Session) (preparation : Preparation) : Session :=
  { session with state := session.compiler.interface.prepare session.state preparation }

def prepareAll (session : Session) (preparations : List Preparation) : Session :=
  preparations.foldl prepare session

theorem pristine_start (label : String) (compiler : Compiler) (library : Library) :
    (start label compiler library).Pristine :=
  ⟨rfl, rfl, rfl, rfl⟩

variable {session : Session}

theorem pristine_prepareAll (h : session.Pristine) (preparations : List Preparation) :
    (session.prepareAll preparations).Pristine :=
  List.foldlRecOn (motive := fun session : Session ↦ session.Pristine) preparations _ h
    fun state hstate preparation _ ↦ hstate.prepare state.compiler preparation

theorem pristine_load (h : session.Pristine) (snippet : Snippet) :
    (session.load snippet).state.Pristine :=
  h.prepare session.compiler (.load snippet)

/-- What a pristine session compiles to: the failure of its program, or what the program reports and
writes. -/
theorem compile_of_pristine (h : session.Pristine) :
    session.compile =
      match Program.make session.compiler.dialect session.roots session.settings
          session.store with
      | .error interruption =>
        (.error interruption.failure,
          { session with store := interruption.store, compiled := true })
      | .ok (program, store) =>
        (.ok ⟨(program.diagnose store).1.outputs, (program.diagnose store).2⟩,
          { session with store := (program.diagnose store).1, compiled := true }) := by
  rw [compile, CompilerInterface.compileOnce_of_fresh _ h.compiled]
  simp only [Compiler.interface]
  cases Program.make session.compiler.dialect session.roots session.settings session.store <;> rfl

end Session

end VersionSweep
