import VersionSweep.Proofs.Language.Reading
import VersionSweep.Proofs.Language.Taking

/-!
# Expressions read again

An expression that was read once is read again from the same tokens, wherever they are put: the
reading sees of what follows only that it does not go on with the expression.  The two expressions
are the same but for their places.
-/

namespace VersionSweep

open Token (Shape)

def Span.zero : Span := ⟨0, 0⟩

def Ident.bare (ident : Ident) : Ident :=
  ⟨ident.text, .zero⟩

mutual

/-- An expression with its places erased. -/
def Expr.bare : Expr → Expr
  | .number text _ => .number text .zero
  | .string value _ => .string value .zero
  | .bool value _ => .bool value .zero
  | .name ident => .name ident.bare
  | .paren inner _ => .paren inner.bare .zero
  | .member object property _ => .member object.bare property.bare .zero
  | .call callee arguments _ => .call callee.bare (Expr.allBare arguments) .zero

def Expr.allBare : List Expr → List Expr
  | [] => []
  | e :: rest => e.bare :: Expr.allBare rest

end

theorem Expr.allBare_eq_map (arguments : List Expr) :
    Expr.allBare arguments = arguments.map Expr.bare := by
  induction arguments with
  | nil => rw [Expr.allBare, List.map_nil]
  | cons e rest ih => rw [Expr.allBare, List.map_cons, ih]

namespace Stream.Passes

variable {s rest : Stream} {used : List Token}

theorem lastStop_eq (h : s.Passes used rest) :
    ∀ token ∈ used.getLast?, rest.lastStop = token.span.stop := by
  induction h with
  | refl => simp
  | step hs h ih =>
    cases h with
    | refl => simp [Stream.lastStop_skip hs]
    | step hs' h =>
      rw [List.getLast?_cons_cons]
      exact ih

theorem size_skip_lt (h : s.Passes used rest) (hne : used ≠ []) : rest.skip.size < s.size := by
  have hsize := h.size_eq
  have hpos := List.length_pos_iff.2 hne
  have hle := rest.size_skip_le
  omega

theorem lacks (h : s.Passes used rest) {c : Char} (hc : s.next.isPunctuator c = false) :
    Lacks c (used.map Token.shape) := by
  cases h with
  | refl => simp [Lacks]
  | step hs h =>
    have hkind : s.next.kind ≠ .punctuator c := by simpa [Token.isPunctuator] using hc
    simpa [Lacks, Token.shape] using hkind

end Stream.Passes

namespace Reader

variable {α β : Type}

theorem bind_eq_read {reader : Reader α} {f : α → Reader β} {s rest : Stream} {result : β}
    (h : (reader >>= f) s = .read result rest) :
    ∃ value middle, reader s = .read value middle ∧ f value middle = .read result rest := by
  rw [bind_apply] at h
  cases hread : reader s with
  | failed finding rest => simp [hread] at h
  | read value middle => exact ⟨value, middle, rfl, by simpa [hread] using h⟩

theorem map_eq_read {reading : Reading α} {f : α → β} {rest : Stream} {result : β}
    (h : reading.map f = .read result rest) :
    ∃ value, reading = .read value rest ∧ f value = result := by
  cases reading with
  | failed finding rest => cases h
  | read value rest =>
    obtain ⟨rfl, rfl⟩ := Reading.read.inj h
    exact ⟨value, rfl, rfl⟩

theorem optionalPunctuator_of_true {c : Char} {s : Stream} (h : s.next.isPunctuator c = true) :
    optionalPunctuator c s = .read true s.skip := by
  rw [optionalPunctuator, if_pos h]

theorem optionalPunctuator_of_not {c : Char} {s : Stream} (h : ¬s.next.isPunctuator c = true) :
    optionalPunctuator c s = .read false s := by
  rw [optionalPunctuator, if_neg h]

theorem punctuator_eq_read {c : Char} {s rest : Stream} {token : Token}
    (h : punctuator c s = .read token rest) :
    token = s.next ∧ s.next.kind = .punctuator c ∧ s.Passes [s.next] rest := by
  unfold punctuator at h
  split at h
  · rename_i hc
    obtain ⟨rfl, rfl⟩ := Reading.read.inj h
    exact ⟨rfl, by simpa [Token.isPunctuator] using hc, .skip (Stream.ne_nil_of_isPunctuator hc)⟩
  · cases h

theorem ident_eq_read {s rest : Stream} {name : Ident} (h : ident s = .read name rest) :
    name = ⟨s.next.text, s.next.span⟩ ∧ s.next.kind = .word ∧ s.next.text ∉ reservedWords ∧
      s.Passes [s.next] rest := by
  unfold ident at h
  split at h
  · rename_i hname
    obtain ⟨rfl, rfl⟩ := Reading.read.inj h
    simp only [isName, Bool.and_eq_true, beq_iff_eq, Bool.not_eq_true', List.contains_eq_mem,
      decide_eq_false_iff_not] at hname
    have hs : s.tokens ≠ [] := Stream.ne_nil_of_kind_ne (by simp [hname.1])
    exact ⟨rfl, hname.1, hname.2, .skip hs⟩
  · cases h

def Repeats (reader : Reader α) (s rest : Stream) (follow : List Shape → Prop) (P : α → Prop) :
    Prop :=
  ∃ used, s.Passes used rest ∧ used ≠ [] ∧ reader.Takes (used.map Token.shape) follow P

theorem repeats_separated {close : Char} {item : Reader α} {erase : α → β}
    {follow : List Shape → Prop} (hclose : close ≠ ',')
    (hfollow : ∀ more, Heads ',' more ∨ Heads close more → follow more)
    (hitem : ∀ s value rest, item s = .read value rest →
      item.Repeats s rest follow (erase · = erase value))
    {s rest : Stream} {values : List α} (h : separated close item s = .read values rest) :
    ∃ used, s.Passes used rest ∧
      Takes (separated close item) (used.map Token.shape) (Heads close)
        (·.map erase = values.map erase) := by
  fun_induction separated close item s generalizing values with
  | case1 s hclosed =>
    obtain ⟨rfl, rfl⟩ := Reading.read.inj h
    exact ⟨[], .refl s, takes_separated_nil⟩
  | case2 s hopen finding rest hread => cases h
  | case3 s hopen value middle hread hcomma hshorter ih =>
    obtain ⟨used, hpasses, hne, htakes⟩ := hitem s value middle hread
    have hrow : used.map Token.shape ≠ [] := by simpa using hne
    have hlacks := hpasses.lacks (Bool.not_eq_true _ ▸ hopen)
    obtain ⟨others, hmore, rfl⟩ := map_eq_read h
    obtain ⟨used', hpasses', htakes'⟩ := ih hmore
    have hskip : middle.Passes [middle.next] middle.skip :=
      .skip (Stream.ne_nil_of_isPunctuator hcomma)
    have hkind : middle.next.shape.kind = .punctuator ',' := by
      simpa [Token.isPunctuator] using hcomma
    refine ⟨used ++ ([middle.next] ++ used'), hpasses.trans (hskip.trans hpasses'), ?_⟩
    have hcons := takes_separated_cons htakes (fun more h ↦ hfollow more (.inl h)) hrow
      hlacks hkind htakes'
    simpa using hcons
  | case4 s hopen value middle hread hcomma hlong =>
    obtain ⟨used, hpasses, hne, -⟩ := hitem s value middle hread
    exact absurd (hpasses.size_skip_lt hne) hlong
  | case5 s hopen value middle hread hlast =>
    obtain ⟨rfl, rfl⟩ := Reading.read.inj h
    obtain ⟨used, hpasses, hne, htakes⟩ := hitem s value middle hread
    have hrow : used.map Token.shape ≠ [] := by simpa using hne
    have hlacks := hpasses.lacks (Bool.not_eq_true _ ▸ hopen)
    exact ⟨used, hpasses,
      takes_separated_last htakes (fun more h ↦ hfollow more (.inr h)) hrow hlacks hclose⟩

end Reader

namespace Expression

open Reader

def Ends (row : List Shape) : Prop :=
  Lacks '.' row ∧ Lacks '(' row

theorem ends_of_heads {c : Char} {row : List Shape} (h : Heads c row) (hdot : c ≠ '.')
    (hparen : c ≠ '(') : Ends row :=
  ⟨h.lacks hdot, h.lacks hparen⟩

theorem map_bare_atom? {token token' : Token} (h : token.shape = token'.shape) :
    (atom? token).map Expr.bare = (atom? token').map Expr.bare := by
  have hkind : token.kind = token'.kind := congrArg Shape.kind h
  have htext : token.text = token'.text := congrArg Shape.text h
  unfold atom?
  rw [hkind, htext]
  split
  · rfl
  · rfl
  · split
    · rfl
    · split <;> rfl
  · rfl

def RepeatsExpr (reader : Reader Expr) : Prop :=
  ∀ s e rest, reader s = .read e rest → reader.Repeats s rest Ends (·.bare = e.bare)

variable {s rest : Stream} {e : Expr}

theorem repeats_parenthesized {inner : Reader Expr} (hinner : RepeatsExpr inner)
    (hs : s.next.isPunctuator '(' = true) (h : parenthesized inner s = .read e rest) :
    (parenthesized inner).Repeats s rest (fun _ ↦ True) (·.bare = e.bare) := by
  obtain ⟨opening, s₁, hopening, h⟩ := bind_eq_read h
  obtain ⟨rfl, rfl⟩ := Reading.read.inj hopening
  obtain ⟨value, s₂, hvalue, h⟩ := bind_eq_read h
  obtain ⟨closing, s₃, hclosing, h⟩ := bind_eq_read h
  obtain ⟨rfl, rfl⟩ := Reading.read.inj h
  obtain ⟨-, hkind, hclose⟩ := punctuator_eq_read hclosing
  obtain ⟨used, hpasses, -, htakes⟩ := hinner _ _ _ hvalue
  have hopen : s.Passes [s.next] s.skip := .skip (Stream.ne_nil_of_isPunctuator hs)
  refine ⟨[s.next] ++ (used ++ [s₂.next]), hopen.trans (hpasses.trans hclose), by simp, ?_⟩
  have hclosing : Heads ')' [s₂.next.shape] := ⟨_, [], rfl, hkind⟩
  rw [List.map_append, List.map_append]
  refine (takes_token _).bind (fun _ _ ↦ trivial) fun token _ ↦ ?_
  refine htakes.bind (fun more _ ↦ ?_) fun inner' hinner' ↦ ?_
  · exact ends_of_heads (hclosing.append more) (by decide) (by decide)
  refine (takes_punctuator hkind).bind (fun _ _ ↦ trivial) fun _ _ ↦ ?_
  exact takes_pure (by rw [Expr.bare, Expr.bare, hinner'])

theorem takes_primary_atom {inner : Reader Expr} {token : Token} {value : Expr}
    (h : atom? token = some value) :
    (primary inner).Takes [token.shape] (fun _ ↦ True) (·.bare = value.bare) := by
  intro s more hrow _
  have hsame := map_bare_atom? (Stream.shape_next hrow)
  rw [h, Option.map_some, Option.map_eq_some_iff] at hsame
  obtain ⟨value', hatom, hbare⟩ := hsame
  refine ⟨value', s.skip, ?_, Stream.row_skip hrow, hbare⟩
  rw [primary, hatom]

theorem repeats_primary {inner : Reader Expr} (hinner : RepeatsExpr inner)
    (h : primary inner s = .read e rest) :
    (primary inner).Repeats s rest (fun _ ↦ True) (·.bare = e.bare) := by
  unfold primary at h
  split at h
  · rename_i value hatom
    obtain ⟨rfl, rfl⟩ := Reading.read.inj h
    exact ⟨[s.next], .skip (ne_nil_of_atom? hatom), by simp, takes_primary_atom hatom⟩
  · rename_i hatom
    split at h
    · rename_i hparen
      obtain ⟨used, hpasses, hne, htakes⟩ := repeats_parenthesized hinner hparen h
      refine ⟨used, hpasses, hne, ?_⟩
      intro t more hrow hmore
      cases hpasses with
      | refl => exact absurd rfl hne
      | step hs hpasses =>
        have hsame := map_bare_atom? (Stream.shape_next hrow)
        rw [hatom, Option.map_none, Option.map_eq_none_iff] at hsame
        have hparen' : t.next.isPunctuator '(' = true := by
          rw [Stream.isPunctuator_next hrow]
          exact hparen
        rw [primary, hsame, if_pos hparen']
        exact htakes t more hrow hmore
    · cases h

def RepeatsBehind (reader : Expr → Reader Expr) : Prop :=
  ∀ value s e rest, reader value s = .read e rest → ∃ used, s.Passes used rest ∧
    ∀ value' : Expr, value'.bare = value.bare →
      (reader value').Takes (used.map Token.shape) Ends (·.bare = e.bare)

def accessRest (levels : Nat) (value : Expr) : Reader Expr := do
  let property ← ident
  suffixes levels (.member value property ⟨value.span.start, property.span.stop⟩)

def callRest (levels : Nat) (value : Expr) : Reader Expr := do
  let arguments ← separated ')' (read levels)
  let close ← punctuator ')'
  suffixes levels (.call value arguments ⟨value.span.start, close.span.stop⟩)

theorem suffixes_succ (levels : Nat) (value : Expr) :
    suffixes (levels + 1) value = (do
      if ← optionalPunctuator '.' then accessRest levels value
      else if ← optionalPunctuator '(' then callRest levels value
      else pure value) := by
  rw [suffixes]
  rfl

theorem takes_suffixes_nil (levels : Nat) (value : Expr) :
    (suffixes levels value).Takes [] Ends (·.bare = value.bare) := by
  cases levels with
  | zero =>
    intro s more hrow hmore
    obtain rfl : s.row = more := hrow
    have hdot := Stream.isPunctuator_eq_false hmore.1
    have hparen := Stream.isPunctuator_eq_false hmore.2
    refine ⟨value, s, ?_, rfl, rfl⟩
    rw [suffixes, bind_apply, peek, Reading.bind_read, hdot, hparen]
    rfl
  | succ levels =>
    rw [suffixes_succ]
    refine (takes_optionalPunctuator_nil '.').bind (fun more hmore ↦ hmore.1) ?_
    rintro _ rfl
    refine (takes_optionalPunctuator_nil '(').bind (fun more hmore ↦ hmore.2) ?_
    rintro _ rfl
    exact takes_pure rfl

theorem takes_expression_atom {token : Token} {value : Expr} (h : atom? token = some value) :
    expression.Takes [token.shape] Ends (·.bare = value.bare) := by
  rw [expression, nestingLimit, read]
  refine (takes_primary_atom h).bind (fun _ _ ↦ trivial) fun value' hvalue ↦ ?_
  exact (takes_suffixes_nil _ value').mono (fun _ h ↦ h) fun _ h ↦ h.trans hvalue

theorem repeatsBehind_suffixes_zero : RepeatsBehind (suffixes 0) := by
  intro value s e rest h
  rw [suffixes, bind_apply, peek, Reading.bind_read] at h
  split at h
  · cases h
  obtain ⟨rfl, rfl⟩ := Reading.read.inj h
  refine ⟨[], .refl s, fun value' hvalue ↦ ?_⟩
  exact (takes_suffixes_nil 0 value').mono (fun _ h ↦ h) fun _ h ↦ h.trans hvalue

theorem repeatsBehind_accessRest {levels : Nat} (ih : RepeatsBehind (suffixes levels)) :
    RepeatsBehind (accessRest levels) := by
  intro value s e rest h
  obtain ⟨property, middle, hproperty, h⟩ := bind_eq_read h
  obtain ⟨rfl, hkind, hfree, hpasses⟩ := ident_eq_read hproperty
  obtain ⟨used, hpasses', htakes⟩ := ih _ _ _ _ h
  refine ⟨[s.next] ++ used, hpasses.trans hpasses', fun value' hvalue ↦ ?_⟩
  have hshape : s.next.shape = .word s.next.text := by rw [Token.shape, hkind, Shape.word]
  rw [List.map_append, List.map_singleton, hshape]
  refine (takes_ident hfree).bind (fun _ _ ↦ trivial) fun property' hproperty' ↦ ?_
  refine htakes _ ?_
  rw [Expr.bare, Expr.bare, Ident.bare, Ident.bare, hvalue, hproperty']

theorem repeatsBehind_callRest {levels : Nat} (hread : RepeatsExpr (read levels))
    (ih : RepeatsBehind (suffixes levels)) : RepeatsBehind (callRest levels) := by
  intro value s e rest h
  obtain ⟨arguments, s₁, harguments, h⟩ := bind_eq_read h
  obtain ⟨close, s₂, hclose, h⟩ := bind_eq_read h
  obtain ⟨rfl, hkind, hpasses₂⟩ := punctuator_eq_read hclose
  have hends (more : List Shape) (h : Heads ',' more ∨ Heads ')' more) : Ends more := by
    obtain h | h := h <;> exact ends_of_heads h (by decide) (by decide)
  obtain ⟨used₁, hpasses₁, htakes₁⟩ := repeats_separated (by decide) hends hread harguments
  obtain ⟨used₃, hpasses₃, htakes₃⟩ := ih _ _ _ _ h
  refine ⟨used₁ ++ ([s₁.next] ++ used₃), hpasses₁.trans (hpasses₂.trans hpasses₃),
    fun value' hvalue ↦ ?_⟩
  rw [List.map_append, List.map_append]
  refine Takes.bind htakes₁ (fun more _ ↦ ⟨_, _, rfl, hkind⟩) fun arguments' harguments' ↦ ?_
  refine (takes_punctuator hkind).bind (fun _ _ ↦ trivial) fun close' _ ↦ ?_
  refine htakes₃ _ ?_
  rw [Expr.bare, Expr.bare, Expr.allBare_eq_map, Expr.allBare_eq_map, hvalue, harguments']

theorem repeatsBehind_suffixes_succ {levels : Nat} (hread : RepeatsExpr (read levels))
    (ih : RepeatsBehind (suffixes levels)) : RepeatsBehind (suffixes (levels + 1)) := by
  intro value s e rest h
  simp only [suffixes_succ] at h ⊢
  -- A point, an opening parenthesis or neither comes next, and it does so again.
  rw [bind_apply] at h
  by_cases hdot : s.next.isPunctuator '.' = true
  · rw [optionalPunctuator_of_true hdot] at h
    obtain ⟨used, hpasses, htakes⟩ := repeatsBehind_accessRest ih value _ _ _ h
    have hskip : s.Passes [s.next] s.skip := .skip (Stream.ne_nil_of_isPunctuator hdot)
    have hkind : s.next.shape.kind = .punctuator '.' := by simpa [Token.isPunctuator] using hdot
    refine ⟨[s.next] ++ used, hskip.trans hpasses, fun value' hvalue ↦ ?_⟩
    rw [List.map_append]
    refine (takes_optionalPunctuator hkind).bind (fun _ _ ↦ trivial) ?_
    rintro _ rfl
    exact htakes value' hvalue
  rw [optionalPunctuator_of_not hdot, Reading.bind_read, if_neg Bool.false_ne_true,
    bind_apply] at h
  by_cases hparen : s.next.isPunctuator '(' = true
  · rw [optionalPunctuator_of_true hparen] at h
    obtain ⟨used, hpasses, htakes⟩ := repeatsBehind_callRest hread ih value _ _ _ h
    have hskip : s.Passes [s.next] s.skip := .skip (Stream.ne_nil_of_isPunctuator hparen)
    have hkind : s.next.shape.kind = .punctuator '(' := by simpa [Token.isPunctuator] using hparen
    refine ⟨[s.next] ++ used, hskip.trans hpasses, fun value' hvalue ↦ ?_⟩
    rw [List.map_append]
    have hhead (more : List Shape) : Heads '(' ([s.next.shape] ++ used.map Token.shape ++ more) :=
      ⟨_, _, rfl, hkind⟩
    refine (takes_optionalPunctuator_nil '.').bind
      (fun more _ ↦ (hhead more).lacks (by decide)) ?_
    rintro _ rfl
    refine (takes_optionalPunctuator hkind).bind (fun _ _ ↦ trivial) ?_
    rintro _ rfl
    exact htakes value' hvalue
  · rw [optionalPunctuator_of_not hparen] at h
    obtain ⟨rfl, rfl⟩ := Reading.read.inj h
    refine ⟨[], .refl s, fun value' hvalue ↦ ?_⟩
    have hnil := takes_suffixes_nil (levels + 1) value'
    rw [suffixes_succ] at hnil
    exact hnil.mono (fun _ h ↦ h) fun _ h ↦ h.trans hvalue

theorem repeatsExpr_read_and_suffixes (levels : Nat) :
    RepeatsExpr (read levels) ∧ RepeatsBehind (suffixes levels) := by
  induction levels with
  | zero =>
    refine ⟨fun s e rest h ↦ ?_, repeatsBehind_suffixes_zero⟩
    rw [read] at h
    cases h
  | succ levels ih =>
    refine ⟨fun s e rest h ↦ ?_, repeatsBehind_suffixes_succ ih.1 ih.2⟩
    rw [read] at h ⊢
    obtain ⟨value, middle, hvalue, h⟩ := bind_eq_read h
    obtain ⟨used, hpasses, hne, htakes⟩ := repeats_primary ih.1 hvalue
    obtain ⟨used', hpasses', htakes'⟩ := ih.2 value middle e rest h
    refine ⟨used ++ used', hpasses.trans hpasses', by simp [hne], ?_⟩
    rw [List.map_append]
    exact htakes.bind (fun _ _ ↦ trivial) htakes'

theorem repeatsExpr_expression : RepeatsExpr expression :=
  (repeatsExpr_read_and_suffixes nestingLimit).1

end Expression

end VersionSweep
