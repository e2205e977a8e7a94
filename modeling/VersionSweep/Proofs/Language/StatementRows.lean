import VersionSweep.Language.Parsing
import VersionSweep.Proofs.Language.Repetition

/-!
# Statements on rows of tokens

The rows of tokens that the reading of statements takes, for statements that end with a semicolon:
variables without a type, typed variables that exist elsewhere, imports of names, and expressions by
themselves.  What is read is told up to its places.
-/

namespace VersionSweep

open Token (Shape)

def VarDecl.bare (decl : VarDecl) : VarDecl :=
  { decl with
    name := decl.name.bare
    annotation := decl.annotation.map Ident.bare
    init := decl.init.map Expr.bare
    span := .zero }

def ImportDecl.bare (decl : ImportDecl) : ImportDecl :=
  { decl with names := decl.names.map Ident.bare, specifierSpan := .zero, span := .zero }

def Statement.bare : Statement → Statement
  | .var decl => .var decl.bare
  | .importNames decl => .importNames decl.bare
  | .expr value _ => .expr value.bare .zero

namespace Parsing

open Reader

variable {α : Type} {row : List Shape} {start : Nat}

theorem takes_terminator : Takes terminator [.mark ';'] (fun _ ↦ True) (fun _ ↦ True) := by
  intro s more hrow _
  refine ⟨s.next.span.stop, s.skip, ?_, Stream.row_skip hrow, trivial⟩
  rw [terminator, if_pos (Stream.isPunctuator_eq_true ⟨_, more, hrow, rfl⟩)]

theorem takes_after_nil {reader : Reader α} (c : Char) :
    Takes (after c reader) [] (Lacks c) (· = none) := by
  refine (takes_optionalPunctuator_nil c).bind (fun _ h ↦ h) ?_
  rintro _ rfl
  exact takes_pure rfl

theorem takes_after_cons {reader : Reader α} {follow : List Shape → Prop} {P : α → Prop} (c : Char)
    (h : Takes reader row follow P) :
    Takes (after c reader) (.mark c :: row) follow (∃ value, · = some value ∧ P value) := by
  refine (takes_optionalPunctuator (Shape.kind_mark c)).bind (fun _ _ ↦ trivial) ?_
  rintro _ rfl
  have hrow : row = row ++ [] := (List.append_nil row).symm
  rw [hrow]
  refine h.bind (fun _ h ↦ h) fun value hvalue ↦ takes_pure ⟨value, rfl, hvalue⟩

def ValueRow (value : Option Expr) (row : List Shape) : Prop :=
  Takes (after '=' Expression.expression) row (Heads ';')
      (·.map Expr.bare = value.map Expr.bare) ∧ Lacks ':' (row ++ [.mark ';'])

theorem valueRow_none : ValueRow none [] := by
  constructor
  · exact (takes_after_nil '=').mono (fun _ h ↦ h.lacks (by decide)) fun _ h ↦ by rw [h]
  · simp [Lacks]

theorem valueRow_some {value : Expr}
    (h : Takes Expression.expression row Expression.Ends (·.bare = value.bare)) :
    ValueRow (some value) (.mark '=' :: row) := by
  constructor
  · refine (takes_after_cons '=' h).mono ?_ ?_
    · exact fun _ h ↦ Expression.ends_of_heads h (by decide) (by decide)
    · rintro _ ⟨value', rfl, hvalue⟩
      exact congrArg some hvalue
  · simp [Lacks]

theorem takes_varDeclRest {exported ambient : Bool} {keyword : VarKeyword} {name : Ident}
    {value : Option Expr} (hname : name.text ∉ reservedWords) (hvalue : ValueRow value row) :
    Takes (varDeclRest start exported ambient keyword) (.word name.text :: (row ++ [.mark ';']))
      (fun _ ↦ True) (·.bare = Statement.bare
        (.var ⟨exported, ambient, keyword, name, none, value, .zero⟩)) := by
  obtain ⟨htakes, hlacks⟩ := hvalue
  refine (takes_ident hname).bind (fun _ _ ↦ trivial) fun name' hname' ↦ ?_
  refine (takes_after_nil ':').bind (fun more _ ↦ hlacks.append (by simp) more) ?_
  rintro _ rfl
  refine htakes.bind (fun more _ ↦ ⟨_, _, rfl, rfl⟩) fun value' hvalue' ↦ ?_
  refine takes_terminator.bind (fun _ _ ↦ trivial) fun stop _ ↦ takes_pure ?_
  simp [Statement.bare, VarDecl.bare, Ident.bare, hname', hvalue']

theorem varKeyword?_eq_some {token : Token} {keyword : VarKeyword}
    (h : token.shape = .word keyword.word) : varKeyword? token = some keyword := by
  have hkind : token.kind = .word := congrArg Shape.kind h
  have htext : token.text = keyword.word := congrArg Shape.text h
  rw [varKeyword?, if_pos hkind, htext]
  cases keyword <;> decide

theorem word_keyword_ne (keyword : VarKeyword) {word : String}
    (h : word ∉ ["var", "let", "const"]) : Shape.word keyword.word ≠ .word word := by
  intro heq
  obtain rfl : keyword.word = word := congrArg Shape.text heq
  cases keyword <;> simp [VarKeyword.word] at h

variable {name : Ident} {value : Option Expr}

theorem takes_declarationOrExpression (start : Nat) (exported : Bool) (keyword : VarKeyword)
    (hname : name.text ∉ reservedWords) (hvalue : ValueRow value row) :
    Takes (declarationOrExpression start exported false)
      (.word keyword.word :: .word name.text :: (row ++ [.mark ';'])) (fun _ ↦ True) (·.bare =
        Statement.bare (.var ⟨exported, false, keyword, name, none, value, .zero⟩)) := by
  intro s more hrow hmore
  have hkeyword := varKeyword?_eq_some (Stream.shape_next hrow)
  rw [declarationOrExpression, hkeyword]
  exact takes_varDeclRest hname hvalue s.skip more (Stream.row_skip hrow) hmore

def exportRow (exported : Bool) : List Shape :=
  if exported then [.word "export"] else []

theorem takes_export (exported : Bool) : Takes (optionalWord "export") (exportRow exported)
    (∃ x more, · = x :: more ∧ x ≠ .word "export") (· = exported) := by
  cases exported with
  | true => exact (takes_optionalWord "export").mono (fun _ _ ↦ trivial) fun _ h ↦ h
  | false => exact takes_optionalWord_nil "export"

theorem takes_otherStatement_var (start : Nat) (exported : Bool) (keyword : VarKeyword)
    (hname : name.text ∉ reservedWords) (hvalue : ValueRow value row) :
    Takes (otherStatement start)
      (exportRow exported ++ .word keyword.word :: .word name.text :: (row ++ [.mark ';']))
      (fun _ ↦ True) (·.bare = Statement.bare
        (.var ⟨exported, false, keyword, name, none, value, .zero⟩)) := by
  refine (takes_export exported).bind
    (fun more _ ↦ ⟨_, _, rfl, word_keyword_ne keyword (by decide)⟩) ?_
  rintro exported rfl
  refine (takes_optionalWord_nil "declare").bind
    (fun more _ ↦ ⟨_, _, rfl, word_keyword_ne keyword (by decide)⟩) ?_
  rintro _ rfl
  exact takes_declarationOrExpression start exported keyword hname hvalue

/-- A statement that is neither empty nor an import. -/
theorem takes_statement_of_otherStatement {x : Shape} {expected : Statement}
    (hx : x.kind ≠ .punctuator ';') (himport : x ≠ .word "import")
    (h : ∀ start, Takes (otherStatement start) (x :: row) (fun _ ↦ True)
      (·.bare = expected)) :
    Takes statement (x :: row) (fun _ ↦ True) (·.map Statement.bare = some expected) := by
  intro s more hrow hmore
  obtain ⟨found, rest, hread, hrest, hfound⟩ := h s.next.span.start s more hrow hmore
  have hword : s.next.isWord "import" = false := by
    rw [Stream.isWord_next hrow]
    obtain ⟨kind, text⟩ := x
    simpa [Shape.word] using himport
  have hmark : s.next.isPunctuator ';' = false := by
    rw [Stream.isPunctuator_next hrow]
    simpa using hx
  refine ⟨some found, rest, ?_, hrest, congrArg some hfound⟩
  rw [statement, hmark, hword, if_neg Bool.false_ne_true, if_neg Bool.false_ne_true, hread]
  rfl

theorem takes_statement_var (exported : Bool) (keyword : VarKeyword)
    (hname : name.text ∉ reservedWords) (hvalue : ValueRow value row) :
    Takes statement
      (exportRow exported ++ .word keyword.word :: .word name.text :: (row ++ [.mark ';']))
      (fun _ ↦ True) (·.map Statement.bare = some (Statement.bare
        (.var ⟨exported, false, keyword, name, none, value, .zero⟩))) := by
  have hother (start : Nat) := takes_otherStatement_var start exported keyword hname hvalue
  cases exported with
  | true =>
    exact takes_statement_of_otherStatement (by simp) (by decide) hother
  | false =>
    exact takes_statement_of_otherStatement (by simp) (word_keyword_ne keyword (by decide)) hother

section Typed

variable {type : Ident}

end Typed

def nameRow : List String → List Shape
  | [] => []
  | [name] => [.word name]
  | name :: rest => .word name :: .mark ',' :: nameRow rest

theorem takes_names {close : Char} (hclose : close ≠ ',') {names : List String}
    (h : ∀ name ∈ names, name ∉ reservedWords) :
    Takes (separated close ident) (nameRow names) (Heads close) (·.map Ident.text = names) := by
  induction names with
  | nil => exact takes_separated_nil
  | cons name rest ih =>
    obtain ⟨hname, hrest⟩ := List.forall_mem_cons.1 h
    cases rest with
    | nil =>
      exact takes_separated_last (takes_ident hname) (fun _ _ ↦ trivial) (by simp [nameRow])
        (by simp [nameRow, Lacks]) hclose
    | cons second rest =>
      exact takes_separated_cons (takes_ident hname) (fun _ _ ↦ trivial) (by simp) (by simp [Lacks])
        rfl (ih hrest)

theorem takes_requiredWord (word : String) :
    Takes (requiredWord word) [.word word] (fun _ ↦ True) (fun _ ↦ True) := by
  refine (takes_optionalWord word).bind (fun _ _ ↦ trivial) ?_
  rintro _ rfl
  exact takes_pure trivial

theorem takes_moduleName {x : Shape} (hx : x.kind = .string) :
    Takes moduleName [x] (fun _ ↦ True) (·.shape = x) := by
  intro s more hrow _
  refine ⟨s.next, s.skip, ?_, Stream.row_skip hrow, Stream.shape_next hrow⟩
  rw [moduleName, if_pos ((Stream.kind_next hrow).trans hx)]

def importRow (decl : ImportDecl) : List Shape :=
  .mark '{' :: (nameRow (decl.names.map Ident.text) ++
    [.mark '}', .word "from", .quoted decl.specifier.toList, .mark ';'])

theorem takes_importRest {decl : ImportDecl}
    (hnames : ∀ name ∈ decl.names, name.text ∉ reservedWords)
    (hspecifier : Quoted.Plain decl.specifier.toList) :
    Takes (importRest start) (importRow decl) (fun _ ↦ True)
      (·.bare = Statement.bare (.importNames decl)) := by
  have hfree : ∀ name ∈ decl.names.map Ident.text, name ∉ reservedWords := by simpa using hnames
  refine (takes_punctuator (Shape.kind_mark '{')).bind (fun _ _ ↦ trivial) fun _ _ ↦ ?_
  refine Takes.bind (takes_names (by decide) hfree) (fun more _ ↦ ⟨_, _, rfl, rfl⟩)
    fun names hread ↦ ?_
  refine (takes_punctuator (Shape.kind_mark '}')).bind (fun _ _ ↦ trivial) fun _ _ ↦ ?_
  refine (takes_requiredWord "from").bind (fun _ _ ↦ trivial) fun _ _ ↦ ?_
  refine (takes_moduleName (Shape.kind_quoted _)).bind (fun _ _ ↦ trivial) fun name hname ↦ ?_
  refine takes_terminator.bind (fun _ _ ↦ trivial) fun stop _ ↦ takes_pure ?_
  have hbare : names.map Ident.bare = decl.names.map Ident.bare := by
    have hmap := congrArg (List.map fun text ↦ (⟨text, .zero⟩ : Ident)) hread
    rw [List.map_map, List.map_map] at hmap
    exact hmap
  have htext : name.text = (Shape.quoted decl.specifier.toList).text := congrArg Shape.text hname
  have hvalue : Quoted.unquote name.text.toList = decl.specifier.toList := by
    rw [htext, Shape.quoted, String.toList_ofList, hspecifier.unquote_eq]
  simp [Statement.bare, ImportDecl.bare, hbare, hvalue]

theorem takes_statement_import {decl : ImportDecl}
    (hnames : ∀ name ∈ decl.names, name.text ∉ reservedWords)
    (hspecifier : Quoted.Plain decl.specifier.toList) :
    Takes statement (.word "import" :: importRow decl) (fun _ ↦ True)
      (·.map Statement.bare = some (Statement.bare (.importNames decl))) := by
  intro s more hrow hmore
  have hword : s.next.isWord "import" = true := by simp [Stream.isWord_next hrow]
  have hmark : s.next.isPunctuator ';' = false := by simp [Stream.isPunctuator_next hrow]
  obtain ⟨found, rest, hread, hrest, hfound⟩ :=
    takes_importRest hnames hspecifier s.skip more (Stream.row_skip hrow) hmore
  refine ⟨some found, rest, ?_, hrest, congrArg some hfound⟩
  rw [statement, hmark, hword, if_neg Bool.false_ne_true, if_pos rfl, hread]
  rfl

structure OpensExpr (token : Token) : Prop where
  filled : token.kind ≠ .punctuator ';'
  notImport : token.shape ≠ .word "import"
  notExport : token.shape ≠ .word "export"
  notDeclare : token.shape ≠ .word "declare"
  noKeyword : varKeyword? token = none
  begins : beginsExpression token = true

theorem OpensExpr.congr {token token' : Token} (h : OpensExpr token)
    (hshape : token.shape = token'.shape) : OpensExpr token' := by
  obtain ⟨kind, text, span, afterBreak⟩ := token
  obtain ⟨kind', text', span', afterBreak'⟩ := token'
  obtain ⟨rfl, rfl⟩ := Shape.mk.inj hshape
  exact ⟨h.filled, h.notImport, h.notExport, h.notDeclare, h.noKeyword, h.begins⟩

theorem takes_exprStatement {value : Expr}
    (h : Takes Expression.expression row Expression.Ends (·.bare = value.bare)) :
    Takes (exprStatement start) (row ++ [.mark ';']) (fun _ ↦ True)
      (·.bare = .expr value.bare .zero) := by
  refine h.bind (fun more _ ↦ ?_) fun value' hvalue ↦ ?_
  · exact Expression.ends_of_heads ⟨_, more, rfl, rfl⟩ (by decide) (by decide)
  refine takes_terminator.bind (fun _ _ ↦ trivial) fun stop _ ↦ takes_pure ?_
  rw [Statement.bare, hvalue]

theorem takes_statement_expr {token : Token} {value : Expr} (hopens : OpensExpr token)
    (h : Takes Expression.expression (token.shape :: row) Expression.Ends (·.bare = value.bare)) :
    Takes statement (token.shape :: (row ++ [.mark ';'])) (fun _ ↦ True)
      (·.map Statement.bare = some (.expr value.bare .zero)) := by
  refine takes_statement_of_otherStatement hopens.filled hopens.notImport fun start ↦ ?_
  refine (takes_optionalWord_nil "export").bind (fun _ _ ↦ ⟨_, _, rfl, hopens.notExport⟩) ?_
  rintro _ rfl
  refine (takes_optionalWord_nil "declare").bind (fun _ _ ↦ ⟨_, _, rfl, hopens.notDeclare⟩) ?_
  rintro _ rfl
  intro s more hrow hmore
  have hnext := hopens.congr (Stream.shape_next hrow).symm
  rw [declarationOrExpression, hnext.noKeyword, hnext.begins]
  exact takes_exprStatement h s more hrow hmore

end Parsing

end VersionSweep
