import VersionSweep.Proofs.Session.TypedSettings

/-!
# Sessions on related stores

What is done to prepare a session hangs on its store only through the adding of files.  So two
compilers that declare the same settings prepare sessions alike on stores that stay related when a
file is added, and so does a session that compiles no more.  A case is a compiler that notes the
calls made to it: before a session compiles it notes none, and from then on the first one alone.
-/

namespace VersionSweep

def Session.Step.compiles : Session.Step → Bool
  | .prepare _ => false
  | .compile => true

namespace CompilerInterface

variable {σ τ : Type}

def Session.withStore (session : Session σ) (store : τ) : Session τ :=
  ⟨store, session.roots, session.settings, session.flags, session.compiled⟩

def Session.Mirrors (R : σ → τ → Prop) (session : Session σ) (mirror : Session τ) : Prop :=
  ∃ store, mirror = session.withStore store ∧ R session.store store

/-- Compilers that declare the same settings, on stores that stay related when a file is added. -/
structure Similar (interface : CompilerInterface σ) (other : CompilerInterface τ)
    (R : σ → τ → Prop) : Prop where
  declared : other.declared = interface.declared
  addFile : ∀ store store' path text, R store store' →
    R (interface.addFile store path text) (other.addFile store' path text)

variable {interface : CompilerInterface σ} {other : CompilerInterface τ} {R : σ → τ → Prop}
  {session : Session σ} {mirror : Session τ}

theorem store_of_set {name raw : String} {after : Session σ}
    (h : interface.set session name raw = .ok after) : after.store = session.store := by
  obtain ⟨settings, flags, rfl⟩ := exists_eq_of_set h
  rfl

namespace Similar

theorem set_withStore (hsimilar : interface.Similar other R) (session : Session σ) (store : τ)
    (name raw : String) :
    other.set (session.withStore store) name raw =
      (interface.set session name raw).map (·.withStore store) := by
  have hcatalog : other.catalog = interface.catalog := congrArg Catalog.ofList hsimilar.declared
  have hflags : (session.withStore store).flags = session.flags := rfl
  unfold set
  rw [hcatalog, hflags]
  cases session.flags.setReserved? name raw with
  | some outcome => cases outcome <;> rfl
  | none =>
    cases interface.catalog.lookup name with
    | none => rfl
    | some setting =>
      dsimp only
      cases setting.read raw <;> rfl

theorem mirrors_replayEntries (hsimilar : interface.Similar other R)
    (h : session.Mirrors R mirror) (entries : List Entry) :
    (Snippet.replayEntries interface.target session entries).state.Mirrors R
      (Snippet.replayEntries other.target mirror entries).state := by
  induction entries generalizing session mirror with
  | nil => exact h
  | cons entry rest ih =>
    obtain ⟨store, rfl, hstore⟩ := h
    cases entry with
    | file name content => exact ih ⟨_, rfl, hsimilar.addFile _ _ name content hstore⟩
    | setting name value line =>
      have hset : other.target.set name value (session.withStore store) =
          (interface.target.set name value session).map (·.withStore store) :=
        hsimilar.set_withStore session store name value
      rw [Snippet.replayEntries, Snippet.replayEntries, hset]
      cases hafter : interface.target.set name value session with
      | error failure => exact ⟨store, rfl, hstore⟩
      | ok after => exact ih ⟨store, rfl, store_of_set hafter ▸ hstore⟩

theorem mirrors_prepare (hsimilar : interface.Similar other R) (h : session.Mirrors R mirror)
    (preparation : VersionSweep.Session.Preparation) :
    (interface.prepare session preparation).Mirrors R (other.prepare mirror preparation) := by
  cases preparation with
  | load snippet => exact hsimilar.mirrors_replayEntries h snippet.entries
  | addRoot path text =>
    obtain ⟨store, rfl, hstore⟩ := h
    exact ⟨_, rfl, hsimilar.addFile _ _ path text hstore⟩
  | addExtra path text =>
    obtain ⟨store, rfl, hstore⟩ := h
    exact ⟨_, rfl, hsimilar.addFile _ _ path text hstore⟩
  | set name raw =>
    obtain ⟨store, rfl, hstore⟩ := h
    rw [prepare, prepare, hsimilar.set_withStore]
    cases hafter : interface.set session name raw with
    | error failure => exact ⟨store, rfl, hstore⟩
    | ok after => exact ⟨store, rfl, store_of_set hafter ▸ hstore⟩

end Similar

theorem perform_compile_of_compiled (h : session.compiled = true) :
    interface.perform session .compile = session :=
  congrArg Prod.snd (interface.compileOnce_of_compiled h)

/-- Sessions stay on related stores as long as none of them has to compile. -/
theorem Similar.mirrors_performAll (hsimilar : interface.Similar other R)
    (h : session.Mirrors R mirror) {steps : List VersionSweep.Session.Step}
    (hidle : session.compiled = true ∨ ∀ step ∈ steps, step.compiles = false) :
    (interface.performAll session steps).Mirrors R (other.performAll mirror steps) := by
  induction steps generalizing session mirror with
  | nil => exact h
  | cons step rest ih =>
    have hrest : ∀ step ∈ rest, step ∈ step :: rest := fun _ hmem ↦ List.mem_cons_of_mem _ hmem
    cases step with
    | prepare preparation =>
      refine ih (hsimilar.mirrors_prepare h preparation) ?_
      exact hidle.imp (fun hcompiled ↦ (compiled_prepare session preparation).trans hcompiled)
        fun hsteps step hmem ↦ hsteps step (List.mem_cons_of_mem _ hmem)
    | compile =>
      obtain hcompiled | hsteps := hidle
      · obtain ⟨store, rfl, hstore⟩ := h
        have hmirror : (session.withStore store).compiled = true := hcompiled
        change Session.Mirrors R
          (interface.performAll (interface.perform session .compile) rest)
          (other.performAll (other.perform (session.withStore store) .compile) rest)
        rw [perform_compile_of_compiled hcompiled, perform_compile_of_compiled hmirror]
        exact ih ⟨store, rfl, hstore⟩ (.inl hcompiled)
      · exact absurd (hsteps .compile (List.mem_cons_self ..)) (by decide)

theorem perform_compile_of_fresh (h : session.compiled = false) :
    interface.perform session .compile =
      { session with
        store := (interface.compile session.roots session.settings session.store).2
        compiled := true } :=
  congrArg Prod.snd (interface.compileOnce_of_fresh h)

/-- Sessions mirror each other from a compilation on that leaves related stores. -/
theorem Similar.mirrors_performAll_compile (hsimilar : interface.Similar other R)
    (hfresh : session.compiled = false) {store : τ}
    (hstore : R (interface.compile session.roots session.settings session.store).2
      (other.compile session.roots session.settings store).2)
    (after : List VersionSweep.Session.Step) :
    (interface.performAll session (.compile :: after)).Mirrors R
      (other.performAll (session.withStore store) (.compile :: after)) := by
  have hmirror : (session.withStore store).compiled = false := hfresh
  have hclosed : (interface.perform session .compile).Mirrors R
      (other.perform (session.withStore store) .compile) := by
    rw [perform_compile_of_fresh hfresh, perform_compile_of_fresh hmirror]
    exact ⟨_, rfl, hstore⟩
  refine hsimilar.mirrors_performAll hclosed (.inl ?_)
  rw [perform_compile_of_fresh hfresh]

/-- A call of a compiler: what is handed to it. -/
structure Call (σ : Type) where
  roots : List String
  settings : Assignment
  store : σ

def noting (interface : CompilerInterface σ) : CompilerInterface (σ × List (Call σ)) where
  declared := interface.declared
  defaultSettings := interface.defaultSettings
  addFile store path text := (interface.addFile store.1 path text, store.2)
  compile roots settings store :=
    let (outcome, after) := interface.compile roots settings store.1
    (outcome, after, store.2 ++ [⟨roots, settings, store.1⟩])

def Noted (calls : List (Call σ)) (store : σ) (noted : σ × List (Call σ)) : Prop :=
  noted = (store, calls)

theorem similar_noting (interface : CompilerInterface σ) (calls : List (Call σ)) :
    interface.Similar interface.noting (Noted calls) := by
  refine ⟨rfl, ?_⟩
  rintro store - path text rfl
  rfl

/-- Nothing is noted before a session compiles. -/
theorem noting_performAll (interface : CompilerInterface σ) (session : Session σ)
    {steps : List VersionSweep.Session.Step} (hsteps : ∀ step ∈ steps, step.compiles = false) :
    let after := interface.performAll session steps
    interface.noting.performAll (session.withStore (session.store, [])) steps =
      after.withStore (after.store, []) := by
  obtain ⟨_, hmirror, rfl⟩ :=
    (interface.similar_noting []).mirrors_performAll ⟨_, rfl, rfl⟩ (.inr hsteps)
  exact hmirror

/-- Of all that is done from a compilation on only this one reaches the compiler, which is handed
what the session has then. -/
theorem noting_performAll_compile (interface : CompilerInterface σ)
    (hfresh : session.compiled = false) (steps : List VersionSweep.Session.Step) :
    let after := interface.performAll session (.compile :: steps)
    interface.noting.performAll (session.withStore (session.store, [])) (.compile :: steps) =
      after.withStore (after.store, [⟨session.roots, session.settings, session.store⟩]) := by
  have hnoted : Noted [⟨session.roots, session.settings, session.store⟩]
      (interface.compile session.roots session.settings session.store).2
      (interface.noting.compile session.roots session.settings (session.store, [])).2 := rfl
  obtain ⟨_, hmirror, rfl⟩ :=
    (interface.similar_noting _).mirrors_performAll_compile hfresh hnoted steps
  exact hmirror

end CompilerInterface

end VersionSweep
