import VersionSweep.Proofs.Language.Moving
import VersionSweep.Proofs.Language.Repetition

/-!
# Reading from a changed stream

A stream may be changed in its places, and in what comes behind the tokens that are read.  If a
change keeps the next token and goes along when a token is taken, then every reader reads from the
changed stream what it reads from the stream itself, at the mapped places.  Each reader has one
lemma for all such changes.
-/

namespace VersionSweep

/-- A change of streams that maps their places by `f`.  It is looked at only in streams that have
the property `P`.  These are left only by taking a semicolon, and then no token is left. -/
structure Stream.Change (f : Nat → Nat) (φ : Stream → Stream) (P : Stream → Prop) : Prop where
  next {s : Stream} (h : P s) : (φ s).next = s.next.moved f
  lastStop (s : Stream) : (φ s).lastStop = f s.lastStop
  skip {s : Stream} (h : P s) : (φ s).skip = φ s.skip
  stays {s : Stream} (h : P s) (hs : s.next.kind ≠ .punctuator ';') : P s.skip
  leaves {s : Stream} (h : P s) : P s.skip ∨ s.skip.tokens = []
  size_lt (s t : Stream) : (φ s).size < (φ t).size ↔ s.size < t.size

variable {f : Nat → Nat} {φ : Stream → Stream} {P Q : Stream → Prop}

/-- What is read from a changed stream when a reading is given: the same at other places, and the
stream that is left is changed likewise. -/
inductive Reading.Follows {α β : Type} (f : Nat → Nat) (φ : Stream → Stream) (P : Stream → Prop)
    (g : α → β) : Reading α → Reading β → Prop
  | read {value : α} {rest : Stream} (h : P rest) :
    Follows f φ P g (.read value rest) (.read (g value) (φ rest))
  | failed (finding : Finding) (rest : Stream) :
    Follows f φ P g (.failed finding rest) (.failed (finding.moved f) (φ rest))

namespace Reading.Follows

variable {α α' β β' : Type} {g : α → α'} {g' : β → β'} {reading : Reading α}
  {reading' : Reading α'}

theorem bind {next : α → Stream → Reading β} {next' : α' → Stream → Reading β'}
    (h : Follows f φ P g reading reading')
    (hnext : ∀ value rest, P rest →
      Follows f φ Q g' (next value rest) (next' (g value) (φ rest))) :
    Follows f φ Q g' (reading.bind next) (reading'.bind next') := by
  cases h with
  | read hrest => exact hnext _ _ hrest
  | failed finding rest => exact .failed finding rest

theorem map {k : α → β} {k' : α' → β'} (h : Follows f φ P g reading reading')
    (hk : ∀ value, k' (g value) = g' (k value)) :
    Follows f φ P g' (reading.map k) (reading'.map k') :=
  h.bind fun value rest hrest ↦ by
    rw [hk]
    exact .read hrest

theorem eq_read {value : α} {rest : Stream} (h : Follows f φ P g (.read value rest) reading') :
    reading' = .read (g value) (φ rest) ∧ P rest := by
  cases h with
  | read hrest => exact ⟨rfl, hrest⟩

theorem eq_failed {finding : Finding} {rest : Stream}
    (h : Follows f φ P g (.failed finding rest) reading') :
    reading' = .failed (finding.moved f) (φ rest) := by
  cases h
  rfl

end Reading.Follows

namespace Expression

theorem suffixes_zero_apply (value : Expr) (s : Stream) :
    suffixes 0 value s =
      if s.next.isPunctuator '.' || s.next.isPunctuator '(' then
        Reader.failHere .nestedTooDeep s
      else .read value s := by
  rw [suffixes, Reader.bind_apply, Reader.peek, Reading.bind_read]
  split <;> rfl

theorem atom?_moved (token : Token) :
    atom? (token.moved f) = (atom? token).map (Expr.moved f) := by
  unfold atom? Token.moved
  dsimp only
  split
  · rfl
  · rfl
  · split
    · rfl
    · split <;> rfl
  · rfl

end Expression

namespace Stream.Change

open Reader Expression Parsing

variable {α : Type} {s : Stream} {g : α → α}

section Readers

variable (c : Stream.Change f φ P) (h : P s)
include c h

theorem kind_next : (φ s).next.kind = s.next.kind := by
  rw [c.next h]
  rfl

theorem start_next : (φ s).next.span.start = f s.next.span.start := by
  rw [c.next h]
  rfl

theorem isPunctuator_next (mark : Char) :
    (φ s).next.isPunctuator mark = s.next.isPunctuator mark := by
  rw [c.next h]
  rfl

theorem isWord_next (word : String) : (φ s).next.isWord word = s.next.isWord word := by
  rw [c.next h]
  rfl

theorem stays_of_isPunctuator {mark : Char} (hmark : mark ≠ ';')
    (hs : s.next.isPunctuator mark = true) : P s.skip := by
  refine c.stays h fun hkind ↦ ?_
  rw [Token.isPunctuator, hkind, beq_iff_eq, TokenKind.punctuator.injEq] at hs
  exact hmark hs.symm

theorem stays_of_isWord {word : String} (hs : s.next.isWord word = true) : P s.skip := by
  refine c.stays h fun hkind ↦ ?_
  rw [Token.isWord, hkind] at hs
  simp at hs

theorem follows_failHere (problem : Problem) :
    Reading.Follows f φ Q g (failHere problem s) (failHere problem (φ s)) := by
  rw [failHere, failHere, c.next h]
  exact .failed ⟨problem, s.next.span⟩ s

theorem follows_optionalPunctuator {mark : Char} (hmark : mark ≠ ';') :
    Reading.Follows f φ P id (optionalPunctuator mark s) (optionalPunctuator mark (φ s)) := by
  unfold optionalPunctuator
  rw [c.isPunctuator_next h]
  split
  · rename_i hs
    rw [c.skip h]
    exact .read (c.stays_of_isPunctuator h hmark hs)
  · exact .read h

theorem follows_optionalWord (word : String) :
    Reading.Follows f φ P id (optionalWord word s) (optionalWord word (φ s)) := by
  unfold optionalWord
  rw [c.isWord_next h]
  split
  · rename_i hs
    rw [c.skip h]
    exact .read (c.stays_of_isWord h hs)
  · exact .read h

theorem follows_punctuator {mark : Char} (hmark : mark ≠ ';') :
    Reading.Follows f φ P (Token.moved f) (punctuator mark s) (punctuator mark (φ s)) := by
  unfold punctuator
  rw [c.isPunctuator_next h]
  split
  · rename_i hs
    rw [c.skip h, c.next h]
    exact .read (c.stays_of_isPunctuator h hmark hs)
  · exact c.follows_failHere h _

theorem follows_ident :
    Reading.Follows f φ P (Ident.moved f) (ident s) (ident (φ s)) := by
  unfold ident
  have hname : isName (φ s).next = isName s.next := by
    rw [c.next h]
    rfl
  rw [hname]
  split
  · rename_i hs
    have hkind : s.next.kind = .word := by
      rw [isName, Bool.and_eq_true, beq_iff_eq] at hs
      exact hs.1
    rw [c.skip h, c.next h]
    exact .read (c.stays h (by simp [hkind]))
  · exact c.follows_failHere h _

end Readers

theorem follows_separated (c : Stream.Change f φ P) {item : Reader α} {close : Char}
    (hitem : ∀ s, P s → Reading.Follows f φ P g (item s) (item (φ s))) (h : P s) :
    Reading.Follows f φ P (List.map g) (separated close item s) (separated close item (φ s)) := by
  fun_induction separated close item s with
  | case1 s hclosed =>
    rw [separated, c.isPunctuator_next h, if_pos hclosed]
    exact .read h
  | case2 s hopen finding rest hread =>
    have hfirst := (hread ▸ hitem s h).eq_failed
    rw [separated, c.isPunctuator_next h, if_neg hopen, hfirst]
    exact .failed finding rest
  | case3 s hopen value middle hread hcomma hshorter ih =>
    obtain ⟨hfirst, hmiddle⟩ := (hread ▸ hitem s h).eq_read
    have hskip := c.stays_of_isPunctuator hmiddle (by decide) hcomma
    have hmore : separated close item (φ s) =
        (separated close item (φ middle.skip)).map (g value :: ·) := by
      rw [separated, c.isPunctuator_next h, if_neg hopen, hfirst]
      simp only [c.isPunctuator_next hmiddle, hcomma, c.skip hmiddle, c.size_lt, hshorter,
        ↓reduceIte, ↓reduceDIte]
    rw [hmore]
    exact (ih hskip).map fun _ ↦ rfl
  | case4 s hopen value middle hread hcomma hlong =>
    obtain ⟨hfirst, hmiddle⟩ := (hread ▸ hitem s h).eq_read
    have hskip := c.stays_of_isPunctuator hmiddle (by decide) hcomma
    rw [separated, c.isPunctuator_next h, if_neg hopen, hfirst]
    simp only [c.isPunctuator_next hmiddle, hcomma, c.skip hmiddle, c.size_lt, hlong,
      ↓reduceIte, ↓reduceDIte]
    exact .read hskip
  | case5 s hopen value middle hread hlast =>
    obtain ⟨hfirst, hmiddle⟩ := (hread ▸ hitem s h).eq_read
    rw [separated, c.isPunctuator_next h, if_neg hopen, hfirst]
    simp only [c.isPunctuator_next hmiddle, hlast, Bool.false_eq_true, ↓reduceIte]
    exact .read hmiddle

section Expressions

variable (c : Stream.Change f φ P)
include c

theorem follows_primary {inner : Reader Expr}
    (hinner : ∀ s, P s → Reading.Follows f φ P (Expr.moved f) (inner s) (inner (φ s))) (h : P s) :
    Reading.Follows f φ P (Expr.moved f) (primary inner s) (primary inner (φ s)) := by
  unfold primary
  rw [c.next h, atom?_moved, ← c.next h, c.isPunctuator_next h]
  cases hatom : atom? s.next with
  | some value =>
    rw [c.skip h]
    exact .read (c.stays h fun hkind ↦ by simp [atom?, hkind] at hatom)
  | none =>
    dsimp only [Option.map_none]
    split
    · rename_i hparen
      have hskip := c.stays_of_isPunctuator h (by decide) hparen
      have hopening : Reading.Follows f φ P (Token.moved f) (token s) (token (φ s)) := by
        rw [token, token, c.next h, c.skip h]
        exact .read hskip
      unfold parenthesized
      refine hopening.bind fun opening start hstart ↦ ?_
      refine (hinner _ hstart).bind fun value middle hmiddle ↦ ?_
      refine (c.follows_punctuator hmiddle (by decide)).bind fun closing rest hrest ↦ ?_
      exact .read hrest
    · exact c.follows_failHere h _

theorem follows_suffixes_zero (value : Expr) (h : P s) :
    Reading.Follows f φ P (Expr.moved f) (suffixes 0 value s)
      (suffixes 0 (value.moved f) (φ s)) := by
  rw [suffixes_zero_apply, suffixes_zero_apply, c.isPunctuator_next h, c.isPunctuator_next h]
  split
  · exact c.follows_failHere h _
  · exact .read h

theorem follows_suffixes_succ {levels : Nat}
    (hread : ∀ s, P s → Reading.Follows f φ P (Expr.moved f) (Expression.read levels s)
      (Expression.read levels (φ s)))
    (ih : ∀ (value : Expr) s, P s → Reading.Follows f φ P (Expr.moved f) (suffixes levels value s)
      (suffixes levels (value.moved f) (φ s))) (value : Expr) (h : P s) :
    Reading.Follows f φ P (Expr.moved f) (suffixes (levels + 1) value s)
      (suffixes (levels + 1) (value.moved f) (φ s)) := by
  rw [suffixes_succ, suffixes_succ]
  refine (c.follows_optionalPunctuator h (by decide)).bind fun dot middle hmiddle ↦ ?_
  dsimp only [id_eq]
  split
  · refine (c.follows_ident hmiddle).bind fun property rest hrest ↦ ?_
    have hmore := ih (.member value property ⟨value.span.start, property.span.stop⟩) rest hrest
    rw [Expr.moved_member] at hmore
    exact hmore
  · refine (c.follows_optionalPunctuator hmiddle (by decide)).bind fun opening rest hrest ↦ ?_
    dsimp only [id_eq]
    split
    · refine (c.follows_separated hread hrest).bind fun arguments s₁ h₁ ↦ ?_
      refine (c.follows_punctuator h₁ (by decide)).bind fun close s₂ h₂ ↦ ?_
      have hmore := ih (.call value arguments ⟨value.span.start, close.span.stop⟩) s₂ h₂
      rw [Expr.moved_call] at hmore
      exact hmore
    · exact .read hrest

theorem follows_read_and_suffixes (levels : Nat) :
    (∀ s, P s → Reading.Follows f φ P (Expr.moved f) (Expression.read levels s)
      (Expression.read levels (φ s))) ∧
    ∀ (value : Expr) s, P s → Reading.Follows f φ P (Expr.moved f) (suffixes levels value s)
      (suffixes levels (value.moved f) (φ s)) := by
  induction levels with
  | zero =>
    refine ⟨fun s h ↦ ?_, fun value s h ↦ c.follows_suffixes_zero value h⟩
    rw [Expression.read]
    exact c.follows_failHere h _
  | succ levels ih =>
    refine ⟨fun s h ↦ ?_, fun value s h ↦ c.follows_suffixes_succ ih.1 ih.2 value h⟩
    rw [Expression.read]
    exact (c.follows_primary ih.1 h).bind ih.2

theorem follows_expression (h : P s) :
    Reading.Follows f φ P (Expr.moved f) (expression s) (expression (φ s)) :=
  (c.follows_read_and_suffixes nestingLimit).1 s h

end Expressions

section Statements

variable (c : Stream.Change f φ P)
include c

theorem follows_terminator (h : P s) :
    Reading.Follows f φ (fun s ↦ P s ∨ s.tokens = []) f (terminator s) (terminator (φ s)) := by
  unfold terminator
  have hends : ((φ s).next.afterBreak || (φ s).next.kind == .endOfText) =
      (s.next.afterBreak || s.next.kind == .endOfText) := by
    rw [c.next h]
    rfl
  rw [c.isPunctuator_next h, c.isPunctuator_next h, hends, c.skip h, c.lastStop, c.next h]
  split
  · exact .read (c.leaves h)
  · split
    · exact .read (.inl h)
    · exact c.follows_failHere h _

theorem follows_after {reader : Reader α} {mark : Char} (hmark : mark ≠ ';')
    (hreader : ∀ s, P s → Reading.Follows f φ P g (reader s) (reader (φ s))) (h : P s) :
    Reading.Follows f φ P (Option.map g) (after mark reader s) (after mark reader (φ s)) := by
  unfold after
  refine (c.follows_optionalPunctuator h hmark).bind ?_
  rintro found middle hmiddle
  dsimp only [id_eq]
  split
  · exact (hreader middle hmiddle).bind fun value rest hrest ↦ .read hrest
  · exact .read hmiddle

theorem follows_varDeclRest (start : Nat) (exported ambient : Bool) (keyword : VarKeyword)
    (h : P s) :
    Reading.Follows f φ (fun s ↦ P s ∨ s.tokens = []) (Statement.moved f)
      (varDeclRest start exported ambient keyword s)
      (varDeclRest (f start) exported ambient keyword (φ s)) := by
  unfold varDeclRest
  refine (c.follows_ident h).bind fun name s₁ h₁ ↦ ?_
  refine (c.follows_after (by decide) (fun s ↦ c.follows_ident) h₁).bind
    fun annotation s₂ h₂ ↦ ?_
  refine (c.follows_after (by decide) (fun s ↦ c.follows_expression) h₂).bind
    fun init s₃ h₃ ↦ ?_
  exact (c.follows_terminator h₃).bind fun stop rest hrest ↦ .read hrest

theorem follows_moduleName (h : P s) :
    Reading.Follows f φ P (Token.moved f) (moduleName s) (moduleName (φ s)) := by
  unfold moduleName
  rw [c.kind_next h]
  split
  · rename_i hkind
    rw [c.skip h, c.next h]
    exact .read (c.stays h (by simp [hkind]))
  · exact c.follows_failHere h _

theorem follows_requiredWord (word : String) (h : P s) :
    Reading.Follows f φ P id (requiredWord word s) (requiredWord word (φ s)) := by
  unfold requiredWord
  refine (c.follows_optionalWord h word).bind fun found rest hrest ↦ ?_
  dsimp only [id_eq]
  split
  · exact .read hrest
  · exact c.follows_failHere hrest _

theorem follows_importRest (start : Nat) (h : P s) :
    Reading.Follows f φ (fun s ↦ P s ∨ s.tokens = []) (Statement.moved f)
      (importRest start s) (importRest (f start) (φ s)) := by
  unfold importRest
  refine (c.follows_punctuator h (by decide)).bind fun _ s₁ h₁ ↦ ?_
  refine (c.follows_separated (fun s ↦ c.follows_ident) h₁).bind fun names s₂ h₂ ↦ ?_
  refine (c.follows_punctuator h₂ (by decide)).bind fun _ s₃ h₃ ↦ ?_
  refine (c.follows_requiredWord _ h₃).bind fun _ s₄ h₄ ↦ ?_
  refine (c.follows_moduleName h₄).bind fun name s₅ h₅ ↦ ?_
  exact (c.follows_terminator h₅).bind fun stop rest hrest ↦ .read hrest

theorem follows_exprStatement (start : Nat) (h : P s) :
    Reading.Follows f φ (fun s ↦ P s ∨ s.tokens = []) (Statement.moved f)
      (exprStatement start s) (exprStatement (f start) (φ s)) := by
  unfold exprStatement
  refine (c.follows_expression h).bind fun value s₁ h₁ ↦ ?_
  exact (c.follows_terminator h₁).bind fun stop rest hrest ↦ .read hrest

theorem follows_declarationOrExpression (start : Nat) (exported ambient : Bool) (h : P s) :
    Reading.Follows f φ (fun s ↦ P s ∨ s.tokens = []) (Statement.moved f)
      (declarationOrExpression start exported ambient s)
      (declarationOrExpression (f start) exported ambient (φ s)) := by
  have hbegins : beginsExpression (φ s).next = beginsExpression s.next := by
    rw [c.next h]
    rfl
  have hkeyword : varKeyword? (φ s).next = varKeyword? s.next := by
    rw [c.next h]
    rfl
  unfold declarationOrExpression
  rw [hkeyword, hbegins]
  split
  · rename_i keyword hsome
    rw [c.skip h]
    refine c.follows_varDeclRest start exported ambient keyword (c.stays h fun hkind ↦ ?_)
    simp [varKeyword?, hkind] at hsome
  · split
    · exact c.follows_failHere h _
    · exact c.follows_exprStatement start h

theorem follows_otherStatement (start : Nat) (h : P s) :
    Reading.Follows f φ (fun s ↦ P s ∨ s.tokens = []) (Statement.moved f)
      (otherStatement start s) (otherStatement (f start) (φ s)) := by
  unfold otherStatement
  refine (c.follows_optionalWord h _).bind fun exported s₁ h₁ ↦ ?_
  refine (c.follows_optionalWord h₁ _).bind fun ambient s₂ h₂ ↦ ?_
  exact c.follows_declarationOrExpression start exported ambient h₂

theorem follows_statement (h : P s) :
    Reading.Follows f φ (fun s ↦ P s ∨ s.tokens = []) (Option.map (Statement.moved f))
      (statement s) (statement (φ s)) := by
  unfold statement
  rw [c.isPunctuator_next h, c.isWord_next h, c.start_next h, c.skip h]
  split
  · exact .read (c.leaves h)
  · split
    · rename_i hword
      exact (c.follows_importRest _ (c.stays_of_isWord h hword)).map fun _ ↦ rfl
    · exact (c.follows_otherStatement _ h).map fun _ ↦ rfl

end Statements

end Stream.Change

namespace Parsing

theorem change_moved (f : Nat → Nat) : Stream.Change f (Stream.moved f) fun _ ↦ True where
  next _ := Stream.next_moved _
  lastStop _ := rfl
  skip _ := Stream.skip_moved _
  stays _ _ := trivial
  leaves _ := .inl trivial
  size_lt s t := by rw [Stream.size_moved, Stream.size_moved]

theorem boundary_moved (s : Stream) (tokens : List Token) :
    boundary (s.moved f) (tokens.map (Token.moved f)) = (boundary s tokens).moved f := by
  induction tokens generalizing s with
  | nil => rfl
  | cons token rest ih =>
    have hrest := ih { s with lastStop := token.span.stop }
    rw [List.map_cons, boundary, boundary]
    split
    · rename_i hmark
      rw [if_pos (show token.isPunctuator ';' = true from hmark)]
      rfl
    · rename_i hmark
      rw [if_neg (show ¬token.isPunctuator ';' = true from hmark)]
      split
      · rename_i hbreak
        rw [if_pos (show token.afterBreak = true from hbreak)]
        rfl
      · rename_i hbreak
        rw [if_neg (show ¬token.afterBreak = true from hbreak)]
        exact hrest

theorem recover_moved (begun failed : Stream) :
    recover (begun.moved f) (failed.moved f) = (recover begun failed).moved f := by
  unfold recover
  rw [Stream.size_moved, Stream.size_moved, Stream.skip_moved]
  split
  · exact boundary_moved _ _
  · exact boundary_moved _ _

theorem step_moved (s : Stream) :
    step (s.moved f) = ((step s).1.moved f, (step s).2.moved f) := by
  have hread := (change_moved f).follows_statement (s := s) trivial
  unfold step
  cases hs : statement s with
  | failed finding rest =>
    rw [hs] at hread
    rw [hread.eq_failed]
    exact congrArg (Prod.mk _) (recover_moved s rest)
  | read found rest =>
    rw [hs] at hread
    rw [hread.eq_read.1]
    cases found <;> rfl

theorem items_of_nil {s : Stream} (hs : s.tokens = []) : items s = [] := by
  rw [items, dif_pos hs]

theorem items_of_ne_nil {s : Stream} (hs : s.tokens ≠ []) :
    items s = (step s).1 :: items (step s).2 := by
  rw [items, dif_neg hs]

/-- A file whose places are mapped is read as the file itself, at the mapped places. -/
theorem items_moved (s : Stream) : items (s.moved f) = (items s).map (Item.moved f) := by
  fun_induction items s with
  | case1 s hs =>
    have hmoved : (s.moved f).tokens = [] := by simpa [Stream.moved] using hs
    rw [items_of_nil hmoved]
    rfl
  | case2 s hs ih =>
    have hmoved : (s.moved f).tokens ≠ [] := by simpa [Stream.moved] using hs
    rw [items_of_ne_nil hmoved, step_moved, ih]
    rfl

end Parsing

end VersionSweep
