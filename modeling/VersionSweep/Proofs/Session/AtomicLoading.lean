import VersionSweep.Proofs.Session.MirroredStores

/-!
# Snippets that are refused in part

A snippet is put into a session entry by entry, up to the first setting that is refused.  The
setting that is refused changes nothing, also if it is set in place and the session is kept as the
refusal leaves it: such a way of loading, by `Command`, comes to the same.  When no setting is
refused the sweep's own flag is the one that the snippet asks for by itself.
-/

namespace VersionSweep

abbrev Command (σ α : Type) : Type :=
  ExceptT Failure (StateM σ) α

theorem Command.run_bind {σ α β : Type} (command : Command σ α) (next : α → Command σ β)
    (state : σ) :
    (command >>= next).run.run state =
      match command.run.run state with
      | (.ok value, after) => (next value).run.run after
      | (.error failure, after) => (.error failure, after) := by
  rw [ExceptT.run_bind, StateT.run_bind]
  rcases command.run.run state with ⟨_ | _, _⟩ <;> rfl

namespace SweepFlags

/-- Set a reserved name in place.  A name that is not reserved is left to others. -/
def assign (name raw : String) : StateM SweepFlags (Option (Except Failure Unit)) := do
  if reserves name then
    match Setting.readBool? raw with
    | some value =>
      modify fun flags ↦ { flags with regress := value }
      pure (some (.ok ()))
    | .none => pure (some (.error (.invalidOptionValue regressName raw Scalar.boolean.describe)))
  else pure .none

theorem run_assign (flags : SweepFlags) (name raw : String) :
    (assign name raw).run flags =
      match flags.setReserved? name raw with
      | some (.ok after) => (some (.ok ()), after)
      | some (.error failure) => (some (.error failure), flags)
      | .none => (.none, flags) := by
  unfold assign setReserved?
  cases reserves name with
  | false => rfl
  | true => cases Setting.readBool? raw <;> rfl

end SweepFlags

namespace Snippet

variable {σ : Type}

def Replay.outcome (replay : Replay σ) : Except Failure Unit :=
  match replay.failure with
  | none => .ok ()
  | some failure => .error failure

def applyEntry (target : SnippetTarget σ) (state : σ) : Entry → Except Failure σ
  | .file name content => .ok (target.addFile name content state)
  | .setting name value _ => target.set name value state

/-- What a replay of entries may come to: all of them are applied one after the other, or those
before a setting that the state then reached refuses. -/
inductive Outcome (target : SnippetTarget σ) (state : σ) (entries : List Entry) : Replay σ → Prop
  | all {after : σ} (h : entries.foldlM (applyEntry target) state = .ok after) :
    Outcome target state entries ⟨after, none⟩
  | refused {before rest : List Entry} {name value : String} {line : Nat} {reached : σ}
    {failure : Failure} (hentries : entries = before ++ .setting name value line :: rest)
    (hbefore : before.foldlM (applyEntry target) state = .ok reached)
    (hset : target.set name value reached = .error failure) :
    Outcome target state entries ⟨reached, some failure⟩

variable {target : SnippetTarget σ} {state next : σ} {entry : Entry} {rest : List Entry}

theorem foldlM_applyEntry_cons (h : applyEntry target state entry = .ok next)
    (entries : List Entry) :
    (entry :: entries).foldlM (applyEntry target) state =
      entries.foldlM (applyEntry target) next := by
  rw [List.foldlM_cons, h]
  rfl

theorem Outcome.cons {replay : Replay σ} (hentry : applyEntry target state entry = .ok next)
    (h : Outcome target next rest replay) : Outcome target state (entry :: rest) replay := by
  cases h with
  | all hall => exact .all ((foldlM_applyEntry_cons hentry rest).trans hall)
  | refused hentries hbefore hset =>
    exact .refused (congrArg (entry :: ·) hentries)
      ((foldlM_applyEntry_cons hentry _).trans hbefore) hset

theorem outcome_replayEntries (target : SnippetTarget σ) (state : σ) (entries : List Entry) :
    Outcome target state entries (replayEntries target state entries) := by
  induction entries generalizing state with
  | nil => exact .all rfl
  | cons entry rest ih =>
    cases entry with
    | file name content => exact (ih (target.addFile name content state)).cons rfl
    | setting name value line =>
      rw [replayEntries]
      cases hset : target.set name value state with
      | ok next => exact (ih next).cons hset
      | error failure =>
        have hsplit : Entry.setting name value line :: rest =
            [] ++ .setting name value line :: rest := rfl
        exact .refused hsplit rfl hset

end Snippet

namespace CompilerInterface

variable {σ : Type} (interface : CompilerInterface σ)

def onFlags {α : Type} (change : StateM SweepFlags α) : Command (Session σ) α := do
  let session ← get
  let (answer, flags) := change.run session.flags
  modify fun session ↦ { session with flags }
  pure answer

def assignDeclared (name raw : String) : Command (Session σ) Unit := do
  match interface.catalog.lookup name with
  | none => throw (.unknownOption name)
  | some setting =>
    let value ← MonadExcept.ofExcept (setting.read raw)
    modify fun session ↦ { session with settings := session.settings.set setting.name value }

def assign (name raw : String) : Command (Session σ) Unit := do
  match ← onFlags (SweepFlags.assign name raw) with
  | some outcome => MonadExcept.ofExcept outcome
  | none => interface.assignDeclared name raw

def enter : Entry → Command (Session σ) Unit
  | .file name content => modify fun session ↦ interface.addRoot session name content
  | .setting name value _ => interface.assign name value

def enterAll (entries : List Entry) : Command (Session σ) Unit :=
  forM entries interface.enter

variable {interface}

theorem run_onFlags {α : Type} (change : StateM SweepFlags α) (session : Session σ) :
    (onFlags change).run.run session =
      (.ok (change.run session.flags).1,
        { session with flags := (change.run session.flags).2 }) :=
  rfl

theorem run_assignDeclared (session : Session σ) (name raw : String) :
    (interface.assignDeclared name raw).run.run session =
      match interface.catalog.lookup name with
      | none => (.error (.unknownOption name), session)
      | some setting =>
        match setting.read raw with
        | .error failure => (.error failure, session)
        | .ok value =>
          (.ok (), { session with settings := session.settings.set setting.name value }) := by
  unfold assignDeclared
  cases interface.catalog.lookup name with
  | none => rfl
  | some setting =>
    dsimp only
    cases setting.read raw <;> rfl

/-- Set in place, a setting that is refused leaves the session as it was. -/
theorem run_assign (session : Session σ) (name raw : String) :
    (interface.assign name raw).run.run session =
      match interface.set session name raw with
      | .ok after => (.ok (), after)
      | .error failure => (.error failure, session) := by
  rw [assign, Command.run_bind, run_onFlags, SweepFlags.run_assign, set]
  cases session.flags.setReserved? name raw with
  | some outcome => cases outcome <;> rfl
  | none =>
    dsimp only
    rw [run_assignDeclared]
    cases interface.catalog.lookup name with
    | none => rfl
    | some setting =>
      dsimp only
      cases setting.read raw <;> rfl

/-- Entering entries in place comes to their replay. -/
theorem run_enterAll (session : Session σ) (entries : List Entry) :
    (interface.enterAll entries).run.run session =
      ((Snippet.replayEntries interface.target session entries).outcome,
        (Snippet.replayEntries interface.target session entries).state) := by
  induction entries generalizing session with
  | nil => rfl
  | cons entry rest ih =>
    rw [enterAll, List.forM_cons, Command.run_bind]
    cases entry with
    | file name content => exact ih (interface.addRoot session name content)
    | setting name value line =>
      have htarget : interface.target.set name value session = interface.set session name value :=
        rfl
      rw [enter, run_assign, Snippet.replayEntries, htarget]
      cases interface.set session name value with
      | error failure => rfl
      | ok after => exact ih after

/-- The flags of a session after a setting, which is one of the sweep or not. -/
theorem flags_of_set {session after : Session σ} {name raw : String}
    (h : interface.set session name raw = .ok after) :
    after.flags = Snippet.applyFlag session.flags (name, raw) := by
  unfold set at h
  unfold Snippet.applyFlag
  cases hreserved : session.flags.setReserved? name raw with
  | some outcome =>
    rw [hreserved] at h
    cases outcome with
    | error failure => cases h
    | ok flags =>
      obtain rfl := Except.ok.inj h
      rfl
  | none =>
    rw [hreserved] at h
    dsimp only at h ⊢
    split at h
    · cases h
    · split at h
      · cases h
      · obtain rfl := Except.ok.inj h
        rfl

/-- The flags after a replay that nothing was refused in. -/
theorem flags_replayEntries {session : Session σ} {entries : List Entry}
    (h : (Snippet.replayEntries interface.target session entries).failure = none) :
    (Snippet.replayEntries interface.target session entries).state.flags =
      (Snippet.mk entries).settings.foldl Snippet.applyFlag session.flags := by
  induction entries generalizing session with
  | nil => rfl
  | cons entry rest ih =>
    cases entry with
    | file name content =>
      have hrest : (Snippet.replayEntries interface.target
          (interface.addRoot session name content) rest).failure = none := h
      exact ih hrest
    | setting name value line =>
      rw [Snippet.replayEntries] at h ⊢
      cases hset : interface.target.set name value session with
      | error failure =>
        rw [hset] at h
        cases h
      | ok after =>
        rw [hset] at h
        have hsettings : (Snippet.mk (.setting name value line :: rest)).settings =
            (name, value) :: (Snippet.mk rest).settings := rfl
        rw [hsettings, List.foldl_cons, ← flags_of_set hset]
        exact ih h

/-- A snippet is put into a session as a whole, or up to the first setting that is refused, which
changes nothing; to do it in place and to keep what a refusal leaves comes to the same.  If nothing
is refused the flags are those that the settings of the snippet ask for, so a fresh session is told
to run all versions exactly by a snippet that asks for it.  The sessions of a compiler version are a
case. -/
theorem replay_upTo_first_refusal (interface : CompilerInterface σ) (session : Session σ)
    (text fileName : String) :
    let snippet := Snippet.parse text fileName
    let loaded := snippet.replay interface.target session
    Snippet.Outcome interface.target session snippet.entries loaded ∧
      (interface.enterAll snippet.entries).run.run session = (loaded.outcome, loaded.state) ∧
      (loaded.failure = none →
        loaded.state.flags = snippet.settings.foldl Snippet.applyFlag session.flags ∧
          (session.flags = .none →
            loaded.state.flags.regress = snippet.asksForRegression)) ∧
      ∀ own : VersionSweep.Session,
        snippet.replay own.compiler.interface.target own.state =
          ⟨(own.load snippet).state.state, (own.load snippet).failure⟩ := by
  intro snippet loaded
  refine ⟨Snippet.outcome_replayEntries interface.target session snippet.entries,
    run_enterAll session snippet.entries, fun hnone ↦ ?_,
    fun own ↦ rfl⟩
  have hflags : loaded.state.flags = snippet.settings.foldl Snippet.applyFlag session.flags :=
    flags_replayEntries hnone
  refine ⟨hflags, fun hfresh ↦ ?_⟩
  rw [hflags, hfresh, Snippet.asksForRegression]

/-- The sweep's own flag is set twice, and among the items of a list one is no number. -/
theorem replay_upTo_first_refusal_list_of_numbers :
    let interface : CompilerInterface Unit :=
      ⟨[.list "Sizes" .number, .boolean "Regress"], .empty, fun _ _ _ ↦ (),
        fun _ _ _ ↦ (.error .sessionConsumed, ())⟩
    let snippet := Snippet.parse
      "// @sizes: 1, 2\n// @regress: false\nlet a = 1;\n// @REGRESS" "a.ts"
    let loaded := snippet.replay interface.target (interface.start ())
    let refusedSnippet := Snippet.parse
      "// @regress\nlet a = 1;\n// @filename: b.ts\n// @sizes: 1, x\nlet b = 2;" "a.ts"
    let refused := refusedSnippet.replay interface.target (interface.start ())
    loaded.failure = none ∧ loaded.state.flags.regress = snippet.asksForRegression ∧
      snippet.asksForRegression = true ∧
      refused.failure = some (.invalidOptionValue "Sizes" "x" "a number") ∧
      refused.state.roots = ["a.ts"] ∧
      Snippet.Outcome interface.target (interface.start ()) refusedSnippet.entries refused := by
  intro interface snippet loaded refusedSnippet refused
  have hnone : loaded.failure = none := by decide +kernel
  obtain ⟨-, -, hflags, -⟩ := replay_upTo_first_refusal interface (interface.start ())
    "// @sizes: 1, 2\n// @regress: false\nlet a = 1;\n// @REGRESS" "a.ts"
  obtain ⟨houtcome, -, -, -⟩ := replay_upTo_first_refusal interface (interface.start ())
    "// @regress\nlet a = 1;\n// @filename: b.ts\n// @sizes: 1, x\nlet b = 2;" "a.ts"
  exact ⟨hnone, (hflags hnone).2 rfl, by decide +kernel, by decide +kernel, by decide +kernel,
    houtcome⟩

end CompilerInterface

end VersionSweep
