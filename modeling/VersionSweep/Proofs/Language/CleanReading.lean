import VersionSweep.Proofs.Language.SourceSpans
import VersionSweep.Proofs.Language.StatementRows

/-!
# Statements of a text in which nothing is wrong

Where nothing is wrong with a text, the piece that an expression was read from is read again as the
same expression wherever it is put, and names are words that may name a variable.  So each statement
can be written down again, `SourceFile.copied_of_findings_eq_nil`.
-/

namespace VersionSweep

open Token (Shape)

structure IsName (text : String) : Prop where
  word : Token.IsWord text
  free : text ∉ Reader.reservedWords

/-- The piece of text that an expression stands at spells a row that is read as it. -/
structure Expr.WrittenAs (cs : List Char) (e : Expr) (row : List Shape) : Prop where
  spells : Token.Spells (Text.between cs e.span.start e.span.stop) row
  takes : Expression.expression.Takes row Expression.Ends (·.bare = e.bare)

def Statement.Copied (cs : List Char) : Statement → Prop
  | .var decl => IsName decl.name.text ∧ (∀ annotation ∈ decl.annotation, IsName annotation.text) ∧
      ∀ init ∈ decl.init, ∃ row, init.WrittenAs cs row
  | .importNames decl => ∀ name ∈ decl.names, IsName name.text
  | .expr value _ => ∃ token row, value.WrittenAs cs (token.shape :: row) ∧
      Parsing.OpensExpr token

def Stream.Along (cs : List Char) (s : Stream) : Prop :=
  ∃ before, (Stream.ofScan (Token.scan 0 cs)).Passes before s

variable {cs : List Char}

namespace Stream.Along

variable {s rest : Stream} {used : List Token}

theorem orderly (h : s.Along cs) : s.Orderly (Token.StandsIn cs) :=
  Stream.Leaves.orderly h (Stream.orderly_ofScan cs)

theorem passes (h : s.Along cs) (hpasses : s.Passes used rest) : rest.Along cs := by
  obtain ⟨before, hbefore⟩ := h
  exact ⟨_, hbefore.trans hpasses⟩

theorem skip (h : s.Along cs) : s.skip.Along cs :=
  Stream.Leaves.trans h (.skip s)

theorem spells (h : s.Along cs) (hclean : (Token.scan 0 cs).findings = [])
    (hpasses : s.Passes used rest) (hne : used ≠ []) :
    Token.Spells (Text.between cs s.next.span.start rest.lastStop) (used.map Token.shape) := by
  obtain ⟨before, hbefore⟩ := h
  have htokens : (Token.scan 0 cs).tokens = before ++ (used ++ rest.tokens) := by
    rw [← hpasses.tokens_eq]
    exact hbefore.tokens_eq
  have hlast := List.getLast?_eq_some_getLast hne
  rw [hpasses.lastStop_eq _ hlast]
  refine Token.spells_between hclean htokens ?_ hlast
  cases hpasses with
  | refl => exact absurd rfl hne
  | step hs hpasses => rfl

end Stream.Along

def Reading.Yields {α : Type} (cs : List Char) (P : α → Prop) : Reading α → Prop
  | .read value rest => rest.Along cs ∧ P value
  | .failed _ _ => True

namespace Reading.Yields

variable {α β : Type} {P : α → Prop} {Q : β → Prop} {reading : Reading α}

theorem bind {f : α → Stream → Reading β} (h : reading.Yields cs P)
    (hf : ∀ value rest, rest.Along cs → P value → (f value rest).Yields cs Q) :
    (reading.bind f).Yields cs Q := by
  cases reading with
  | read value rest => exact hf value rest h.1 h.2
  | failed finding rest => trivial

theorem mono {P' : α → Prop} (h : reading.Yields cs P) (himp : ∀ value, P value → P' value) :
    reading.Yields cs P' := by
  cases reading with
  | read value rest => exact ⟨h.1, himp value h.2⟩
  | failed finding rest => trivial

theorem map {f : α → β} (h : reading.Yields cs P) (himp : ∀ value, P value → Q (f value)) :
    (reading.map f).Yields cs Q :=
  h.bind fun value _ hrest hvalue ↦ ⟨hrest, himp value hvalue⟩

end Reading.Yields

namespace Reader

variable {α : Type} {s : Stream} {P : α → Prop}

theorem yields_optionalPunctuator (c : Char) (h : s.Along cs) :
    (optionalPunctuator c s).Yields cs fun _ ↦ True := by
  unfold optionalPunctuator
  split
  · exact ⟨h.skip, trivial⟩
  · exact ⟨h, trivial⟩

theorem yields_punctuator (c : Char) (h : s.Along cs) :
    (punctuator c s).Yields cs fun _ ↦ True := by
  unfold punctuator
  split
  · exact ⟨h.skip, trivial⟩
  · trivial

theorem yields_ident (h : s.Along cs) : (ident s).Yields cs (IsName ·.text) := by
  cases hread : ident s with
  | failed finding rest => trivial
  | read name rest =>
    obtain ⟨rfl, hkind, hfree, hpasses⟩ := ident_eq_read hread
    exact ⟨h.passes hpasses, Token.isWord_of_standsIn h.orderly.next hkind, hfree⟩

theorem yields_separated {close : Char} {item : Reader α}
    (hitem : ∀ s : Stream, s.Along cs → (item s).Yields cs P) (h : s.Along cs) :
    (separated close item s).Yields cs (∀ value ∈ ·, P value) := by
  fun_induction separated close item s with
  | case1 s hclosed => exact ⟨h, by simp⟩
  | case2 s hopen finding rest hread => trivial
  | case3 s hopen value middle hread hcomma hshorter ih =>
    obtain ⟨hmiddle, hvalue⟩ : (Reading.read value middle).Yields cs P := hread ▸ hitem s h
    exact (ih hmiddle.skip).map fun values hvalues ↦ by simpa [hvalue] using hvalues
  | case4 s hopen value middle hread hcomma hlong =>
    obtain ⟨hmiddle, hvalue⟩ : (Reading.read value middle).Yields cs P := hread ▸ hitem s h
    exact ⟨hmiddle.skip, by simpa using hvalue⟩
  | case5 s hopen value middle hread hlast =>
    obtain ⟨hmiddle, hvalue⟩ : (Reading.read value middle).Yields cs P := hread ▸ hitem s h
    exact ⟨hmiddle, by simpa using hvalue⟩

end Reader

theorem Expression.yields_expression {s : Stream} (hclean : (Token.scan 0 cs).findings = [])
    (h : s.Along cs) :
    (expression s).Yields cs fun e ↦ ∃ row, e.WrittenAs cs (s.next.shape :: row) := by
  have hplace := readsExpr_expression s h.orderly
  cases hread : expression s with
  | failed finding rest => trivial
  | read e rest =>
    rw [hread] at hplace
    obtain ⟨-, -, -, hstart, htook⟩ := hplace
    obtain ⟨used, hpasses, hne, htakes⟩ := repeatsExpr_expression s e rest hread
    have hspells := h.spells hclean hpasses hne
    rw [← hstart, ← htook.stop] at hspells
    cases hpasses with
    | refl => exact absurd rfl hne
    | step hs hpasses => exact ⟨(h.passes (.skip hs)).passes hpasses, _, hspells, htakes⟩

namespace Parsing

open Reader

variable {s : Stream} {start : Nat}

theorem yields_terminator (h : s.Along cs) : (terminator s).Yields cs fun _ ↦ True := by
  unfold terminator
  split
  · exact ⟨h.skip, trivial⟩
  · split
    · exact ⟨h, trivial⟩
    · trivial

theorem yields_after {α : Type} {reader : Reader α} {P : α → Prop} (c : Char)
    (hreader : ∀ s : Stream, s.Along cs → (reader s).Yields cs P) (h : s.Along cs) :
    (after c reader s).Yields cs (∀ value ∈ ·, P value) := by
  unfold after
  rw [bind_apply]
  refine (yields_optionalPunctuator c h).bind fun found middle hmiddle _ ↦ ?_
  split
  · exact (hreader middle hmiddle).bind fun value rest hrest hvalue ↦ ⟨hrest, by simpa using hvalue⟩
  · exact ⟨hmiddle, by simp⟩

theorem yields_requiredWord (word : String) (h : s.Along cs) :
    (requiredWord word s).Yields cs fun _ ↦ True := by
  unfold requiredWord
  rw [bind_apply, optionalWord]
  split
  · exact ⟨h.skip, trivial⟩
  · trivial

theorem yields_moduleName (h : s.Along cs) : (moduleName s).Yields cs fun _ ↦ True := by
  unfold moduleName
  split
  · exact ⟨h.skip, trivial⟩
  · trivial

theorem yields_varDeclRest (hclean : (Token.scan 0 cs).findings = []) {exported ambient : Bool}
    {keyword : VarKeyword} (h : s.Along cs) :
    (varDeclRest start exported ambient keyword s).Yields cs (Statement.Copied cs) := by
  unfold varDeclRest
  rw [bind_apply]
  refine (yields_ident h).bind fun name s₁ h₁ hname ↦ ?_
  refine (yields_after ':' (fun s hs ↦ yields_ident hs) h₁).bind
    fun annotation s₂ h₂ hannotation ↦ ?_
  have hexpr (s : Stream) (hs : s.Along cs) := (Expression.yields_expression hclean hs).mono
    fun e ⟨row, hrow⟩ ↦ (⟨_, hrow⟩ : ∃ row, e.WrittenAs cs row)
  refine (yields_after '=' hexpr h₂).bind fun init s₃ h₃ hinit ↦ ?_
  refine (yields_terminator h₃).bind fun stop rest hrest _ ↦ ?_
  exact ⟨hrest, hname, hannotation, hinit⟩

theorem yields_importRest (h : s.Along cs) :
    (importRest start s).Yields cs (Statement.Copied cs) := by
  unfold importRest
  rw [bind_apply]
  refine (yields_punctuator '{' h).bind fun _ s₁ h₁ _ ↦ ?_
  refine (yields_separated (fun s hs ↦ yields_ident hs) h₁).bind fun names s₂ h₂ hnames ↦ ?_
  refine (yields_punctuator '}' h₂).bind fun _ s₃ h₃ _ ↦ ?_
  refine (yields_requiredWord "from" h₃).bind fun _ s₄ h₄ _ ↦ ?_
  refine (yields_moduleName h₄).bind fun _ s₅ h₅ _ ↦ ?_
  refine (yields_terminator h₅).bind fun stop rest hrest _ ↦ ?_
  exact ⟨hrest, hnames⟩

theorem yields_exprStatement (hclean : (Token.scan 0 cs).findings = []) (h : s.Along cs)
    (hopens : OpensExpr s.next) : (exprStatement start s).Yields cs (Statement.Copied cs) := by
  unfold exprStatement
  rw [bind_apply]
  refine (Expression.yields_expression hclean h).bind fun value s₁ h₁ ⟨row, hrow⟩ ↦ ?_
  refine (yields_terminator h₁).bind fun stop rest hrest _ ↦ ?_
  exact ⟨hrest, s.next, row, hrow, hopens⟩

theorem shape_ne_word {token : Token} {word : String} (h : ¬token.isWord word = true) :
    token.shape ≠ .word word := by
  rintro hshape
  obtain ⟨hkind, htext⟩ := Shape.mk.inj hshape
  simp [Token.isWord, hkind, htext] at h

theorem yields_declarationOrExpression (hclean : (Token.scan 0 cs).findings = [])
    {exported ambient : Bool} (h : s.Along cs)
    (hplain : exported = false → ambient = false → s.next.kind ≠ .punctuator ';' ∧
      s.next.shape ≠ .word "import" ∧ s.next.shape ≠ .word "export" ∧
      s.next.shape ≠ .word "declare") :
    (declarationOrExpression start exported ambient s).Yields cs (Statement.Copied cs) := by
  unfold declarationOrExpression
  split
  · exact yields_varDeclRest hclean h.skip
  · rename_i hkeyword
    split
    · trivial
    · rename_i hbegins
      simp only [Bool.or_eq_true, Bool.not_eq_true', not_or, Bool.not_eq_true,
        Bool.not_eq_false] at hbegins
      -- An expression follows only where neither of the two words was read.
      obtain ⟨⟨hexported, hambient⟩, hbegins⟩ := hbegins
      obtain ⟨hfilled, himport, hexport, hdeclare⟩ := hplain hexported hambient
      exact yields_exprStatement hclean h
        ⟨hfilled, himport, hexport, hdeclare, hkeyword, hbegins⟩

theorem yields_otherStatement (hclean : (Token.scan 0 cs).findings = []) (h : s.Along cs)
    (hfilled : s.next.kind ≠ .punctuator ';') (himport : s.next.shape ≠ .word "import") :
    (otherStatement start s).Yields cs (Statement.Copied cs) := by
  unfold otherStatement
  rw [bind_apply, optionalWord]
  split
  · rw [Reading.bind_read, bind_apply, optionalWord]
    split
    · exact yields_declarationOrExpression hclean h.skip.skip (by simp)
    · exact yields_declarationOrExpression hclean h.skip (by simp)
  · rename_i hexport
    rw [Reading.bind_read, bind_apply, optionalWord]
    split
    · exact yields_declarationOrExpression hclean h.skip (by simp)
    · rename_i hdeclare
      exact yields_declarationOrExpression hclean h fun _ _ ↦
        ⟨hfilled, himport, shape_ne_word hexport, shape_ne_word hdeclare⟩

theorem yields_statement (hclean : (Token.scan 0 cs).findings = []) (h : s.Along cs) :
    (statement s).Yields cs (∀ value ∈ ·, Statement.Copied cs value) := by
  unfold statement
  split
  · exact ⟨h.skip, by simp⟩
  · rename_i hfilled
    split
    · exact (yields_importRest h.skip).map fun value hvalue ↦ by simpa using hvalue
    · rename_i himport
      have hkind : s.next.kind ≠ .punctuator ';' := by simpa [Token.isPunctuator] using hfilled
      exact (yields_otherStatement hclean h hkind (shape_ne_word himport)).map
        fun value hvalue ↦ by simpa using hvalue

/-- Every statement of a text in which nothing is wrong can be written down again. -/
theorem copied_items (hclean : (Token.scan 0 cs).findings = []) (h : s.Along cs)
    (hitems : ∀ item ∈ items s, item.finding? = none) {value : Statement}
    (hvalue : Item.statement value ∈ items s) : value.Copied cs := by
  induction hn : s.size using Nat.strongRecOn generalizing s with
  | ind n ih =>
    subst hn
    rw [items] at hitems hvalue
    split at hvalue
    · cases hvalue
    rename_i hs
    rw [dif_neg hs] at hitems
    obtain ⟨hitem, hrest⟩ := List.forall_mem_cons.1 hitems
    have hshorter := size_step_lt hs
    have hread := yields_statement hclean h
    -- A round that failed would have left a finding.
    have hstep : (step s).2.Along cs ∧
        ∀ value, (step s).1 = .statement value → value.Copied cs := by
      unfold step at hitem ⊢
      cases hstatement : statement s with
      | failed finding rest =>
        rw [hstatement] at hitem
        cases hitem
      | read found rest =>
        rw [hstatement] at hread
        obtain ⟨halong, hfound⟩ := hread
        cases found with
        | none => exact ⟨halong, by simp⟩
        | some value => exact ⟨halong, fun other hother ↦ hfound other (by simpa using hother)⟩
    rcases List.mem_cons.1 hvalue with hvalue | hvalue
    · exact hstep.2 value hvalue.symm
    · exact ih _ hshorter hstep.1 hrest hvalue rfl

end Parsing

theorem SourceFile.copied_of_findings_eq_nil {name text : String} {target : Int}
    (hclean : (parse name text target).findings = []) {statement : Statement}
    (hstatement : statement ∈ (parse name text target).statements) :
    statement.Copied text.toList := by
  obtain ⟨hscan, hitems⟩ := clean_of_findings_eq_nil hclean
  obtain ⟨item, hitem, hvalue⟩ := List.mem_filterMap.1 hstatement
  cases item with
  | statement value =>
    obtain rfl := Option.some.inj hvalue
    exact Parsing.copied_items hscan ⟨[], .refl _⟩ hitems hitem
  | finding value => cases hvalue
  | empty => cases hvalue

end VersionSweep
