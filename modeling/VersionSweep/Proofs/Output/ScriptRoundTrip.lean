import VersionSweep.Output.Script
import VersionSweep.Proofs.Language.CleanReading
import VersionSweep.Proofs.Project.ParsedUnits

/-!
# Scripts are read as the program they were made from

Each line of a script is a statement that ends with a semicolon, so it is read by itself whatever
comes behind it.  For a file in which nothing is wrong the script is read back as the statements of
the file, without their annotations and without what exists elsewhere.
-/

namespace VersionSweep

open Token (Shape Outlined Stops)

/-- Whether an import names something and its specifier can stand between quotes as it is. -/
def Statement.Writable : Statement → Prop
  | .importNames decl => decl.names ≠ [] ∧ Quoted.Plain decl.specifier.toList
  | .var _ => True
  | .expr _ _ => True

instance : DecidablePred Statement.Writable
  | .importNames decl =>
    inferInstanceAs (Decidable (decl.names ≠ [] ∧ Quoted.Plain decl.specifier.toList))
  | .var _ => inferInstanceAs (Decidable True)
  | .expr _ _ => inferInstanceAs (Decidable True)

/-- Whether a line is read as one statement wherever it stands. -/
def IsLine (line : String) (expected : Statement) : Prop :=
  ∃ row, (∀ rest more, Outlined rest more → Outlined (line.toList ++ rest) (row ++ more)) ∧
    Parsing.statement.Takes row (fun _ ↦ True) (·.map Statement.bare = some expected)

theorem isBlank_space : Text.isBlank ' ' = true := by
  decide

theorem isWord_keyword (keyword : VarKeyword) : Token.IsWord keyword.word := by
  cases keyword with
  | var => exact ⟨'v', "ar".toList, by decide, by decide, by decide⟩
  | letVar => exact ⟨'l', "et".toList, by decide, by decide, by decide⟩
  | const => exact ⟨'c', "onst".toList, by decide, by decide, by decide⟩

theorem stops_cons {c : Char} (h : c ∈ [' ', ',', ';']) (rest : List Char) : Stops (c :: rest) := by
  have hall : [' ', ',', ';'].all (fun d ↦ decide (Token.continuesWord d = false ∧ d ≠ '.')) =
      true := by
    decide
  exact ⟨c, rest, rfl, of_decide_eq_true (List.all_eq_true.1 hall c h)⟩

namespace Layout

def written (layout : Layout) (keyword : VarKeyword) : VarKeyword :=
  if layout.lowers then .var else keyword

/-- What a statement becomes in a script.  What exists elsewhere is left out. -/
def scripted? (layout : Layout) : Statement → Option Statement
  | .var decl =>
    if decl.ambient then none
    else some (.var { decl with keyword := layout.written decl.keyword, annotation := none })
  | statement => some statement

def strictStatement : Statement :=
  .expr (.string "use strict" .zero) .zero

def scripted (layout : Layout) (statements : List Statement) : List Statement :=
  (if layout.strict then [strictStatement] else []) ++ statements.filterMap layout.scripted?

variable {layout : Layout} {file : SourceFile}

theorem isLine_strictLine : IsLine strictLine strictStatement.bare := by
  have hplain : Quoted.Plain "use strict".toList := by decide
  have htext : strictLine.toList = '"' :: ("use strict".toList ++ '"' :: [';']) := by decide
  let token : Token := ⟨.string, (Shape.quoted "use strict".toList).text, .zero, false⟩
  have hatom : Expression.atom? token = some (.string "use strict" .zero) := by
    have hvalue := hplain.unquote_eq
    simp only [Expression.atom?, token, Shape.quoted, String.toList_ofList, hvalue,
      String.ofList_toList]
  have hopens : Parsing.OpensExpr token := by
    constructor <;> decide
  refine ⟨[token.shape, .mark ';'], fun rest more h ↦ ?_, ?_⟩
  · have hmark : Outlined (';' :: rest) (.mark ';' :: more) := h.punctuator_cons (by decide)
    rw [htext, List.cons_append, List.append_assoc]
    exact hmark.quoted_append hplain
  · exact Parsing.takes_statement_expr hopens (Expression.takes_expression_atom hatom)

theorem outlined_names {names : List String} (hne : names ≠ [])
    (hnames : ∀ name ∈ names, Token.IsWord name) {rest : List Char} {more : List Shape}
    (hrest : Stops rest) (h : Outlined rest more) :
    Outlined ((", ".intercalate names).toList ++ rest) (Parsing.nameRow names ++ more) := by
  induction names with
  | nil => exact absurd rfl hne
  | cons name names ih =>
    obtain ⟨hname, hothers⟩ := List.forall_mem_cons.1 hnames
    cases names with
    | nil =>
      have hword := h.word_append hname hrest
      simpa [Parsing.nameRow] using hword
    | cons second names =>
      have htail := ih (by simp) hothers
      have hblank := htail.blank_cons isBlank_space
      have hcomma := hblank.punctuator_cons (c := ',') (by decide)
      have hword := hcomma.word_append hname (stops_cons (by decide) _)
      simpa [Parsing.nameRow, String.intercalate_cons_cons] using hword

theorem outlined_nameList {names : List String} (hnames : ∀ name ∈ names, Token.IsWord name)
    {rest : List Char} {more : List Shape} (h : Outlined rest more) :
    Outlined ((", ".intercalate names).toList ++ ' ' :: rest) (Parsing.nameRow names ++ more) := by
  have hblank := h.blank_cons isBlank_space
  cases names with
  | nil => simpa [Parsing.nameRow] using hblank
  | cons name names =>
    exact outlined_names (List.cons_ne_nil _ _) hnames (stops_cons (by decide) _) hblank

/-- The word that is written before what is exported. -/
theorem outlined_export (exported : Bool) {cs : List Char} {row : List Shape}
    (h : Outlined cs row) : Outlined ((if exported then "export " else "").toList ++ cs)
      (Parsing.exportRow exported ++ row) := by
  cases exported with
  | false => exact h
  | true =>
    have hexport : Token.IsWord "export" := ⟨'e', "xport".toList, by decide, by decide, by decide⟩
    exact (h.blank_cons isBlank_space).word_append hexport (stops_cons (by decide) _)

/-- An import in one line, be there names in its braces or not. -/
theorem isLine_importNames {decl : ImportDecl} (hcopied : ∀ name ∈ decl.names, IsName name.text)
    (hplain : Quoted.Plain decl.specifier.toList) :
    IsLine ("import " ++ inBraces decl.nameList ++ " from " ++ ("\"" ++ decl.specifier ++ "\"") ++
      ";") (Statement.importNames decl).bare := by
  have hnames : ∀ name ∈ decl.names.map Ident.text, Token.IsWord name := by
    simpa using fun name hname ↦ (hcopied name hname).word
  have himport : Token.IsWord "import" := ⟨'i', "mport".toList, by decide, by decide, by decide⟩
  have hfrom : Token.IsWord "from" := ⟨'f', "rom".toList, by decide, by decide, by decide⟩
  refine ⟨.word "import" :: Parsing.importRow decl, fun rest more h ↦ ?_,
    Parsing.takes_statement_import (fun name hname ↦ (hcopied name hname).free) hplain⟩
  have hmark : Outlined (';' :: rest) (.mark ';' :: more) := h.punctuator_cons (by decide)
  have hspecifier := (hmark.quoted_append hplain).blank_cons isBlank_space
  have hword := (hspecifier.word_append hfrom (stops_cons (by decide) _)).blank_cons isBlank_space
  have hclose := hword.punctuator_cons (c := '}') (by decide)
  have hlist := outlined_nameList hnames hclose
  have hopen := (hlist.blank_cons isBlank_space).punctuator_cons (c := '{') (by decide)
  have hall := (hopen.blank_cons isBlank_space).word_append himport (stops_cons (by decide) _)
  simpa [inBraces, ImportDecl.nameList, Parsing.importRow] using hall

theorem isLine_importLine (hstyle : layout.style = .esModule) {decl : ImportDecl}
    (hcopied : ∀ name ∈ decl.names, IsName name.text)
    (hwritable : decl.names ≠ [] ∧ Quoted.Plain decl.specifier.toList) :
    IsLine (layout.importLine decl) (Statement.importNames decl).bare := by
  obtain ⟨hne, hplain⟩ := hwritable
  have hline : layout.importLine decl = "import " ++ inBraces decl.nameList ++ " from " ++
      ("\"" ++ decl.specifier ++ "\"") ++ ";" := by
    cases hnames : decl.names with
    | nil => exact absurd hnames hne
    | cons name rest => simp only [importLine, hstyle, hnames]
  exact hline ▸ isLine_importNames hcopied hplain

def valueText (file : SourceFile) : Option Expr → String
  | some init => " = " ++ file.slice init.span
  | none => ""

theorem keyword_eq (keyword : VarKeyword) :
    layout.keyword keyword = (layout.written keyword).word := by
  rw [Layout.keyword, written]
  split <;> rfl

theorem variableLine_eq (decl : VarDecl) : layout.variableLine file decl =
    (layout.written decl.keyword).word ++ " " ++ decl.name.text ++ valueText file decl.init ++
      ";" := by
  rw [variableLine, keyword_eq]
  cases hinit : decl.init <;> rfl

theorem exists_valueRow {value : Option Expr}
    (h : ∀ init ∈ value, ∃ row, init.WrittenAs file.text.toList row) :
    ∃ row, Parsing.ValueRow value row ∧ ∀ rest more, Outlined (';' :: rest) more →
      Outlined ((valueText file value).toList ++ ';' :: rest) (row ++ more) ∧
      Stops ((valueText file value).toList ++ ';' :: rest) := by
  cases value with
  | none =>
    refine ⟨[], Parsing.valueRow_none, fun rest more h ↦ ⟨?_, ?_⟩⟩
    · simpa [valueText] using h
    · simpa [valueText] using stops_cons (by decide) rest
  | some init =>
    obtain ⟨row, hspells, htakes⟩ := h init rfl
    refine ⟨_, Parsing.valueRow_some htakes, fun rest more h ↦ ⟨?_, ?_⟩⟩
    · have hvalue := hspells _ _ (stops_cons (by decide) rest) h
      have hsign := (hvalue.blank_cons isBlank_space).punctuator_cons (c := '=') (by decide)
      simpa [valueText, SourceFile.slice] using hsign.blank_cons isBlank_space
    · simpa [valueText] using stops_cons (by decide) _

theorem variableLines_eq (hstyle : layout.style = .esModule) {decl : VarDecl}
    (hambient : decl.ambient = false) : layout.variableLines file decl =
      [(if decl.exported then "export " else "") ++ layout.variableLine file decl] := by
  rw [variableLines, hambient, hstyle]
  cases decl.exported <;> simp

theorem isLine_variable {decl : VarDecl} (hambient : decl.ambient = false)
    (hcopied : (Statement.var decl).Copied file.text.toList) :
    IsLine ((if decl.exported then "export " else "") ++ layout.variableLine file decl)
      (Statement.var { decl with
        keyword := layout.written decl.keyword, annotation := none }).bare := by
  obtain ⟨hname, -, hinit⟩ := hcopied
  obtain ⟨row, hrow, hspells⟩ := exists_valueRow hinit
  have htakes := Parsing.takes_statement_var decl.exported (layout.written decl.keyword)
    hname.free hrow
  refine ⟨_, fun rest more h ↦ ?_, by simpa [Statement.bare, VarDecl.bare, hambient] using htakes⟩
  have hmark : Outlined (';' :: rest) (.mark ';' :: more) := h.punctuator_cons (by decide)
  obtain ⟨hvalue, hstops⟩ := hspells rest _ hmark
  have hspace := (hvalue.word_append hname.word hstops).blank_cons isBlank_space
  have hkeyword := hspace.word_append (isWord_keyword (layout.written decl.keyword))
    (stops_cons (by decide) _)
  rw [variableLine_eq]
  simpa using outlined_export decl.exported hkeyword

theorem isLine_expr {value : Expr} {span : Span}
    (hcopied : (Statement.expr value span).Copied file.text.toList) :
    IsLine (file.slice value.span ++ ";") (Statement.expr value span).bare := by
  obtain ⟨token, row, ⟨hspells, htakes⟩, hopens⟩ := hcopied
  refine ⟨_, fun rest more h ↦ ?_, Parsing.takes_statement_expr hopens htakes⟩
  have hmark : Outlined (';' :: rest) (.mark ';' :: more) := h.punctuator_cons (by decide)
  have hall := hspells _ _ (stops_cons (by decide) rest) hmark
  simpa [SourceFile.slice] using hall

theorem forall₂_scriptLines (hstyle : layout.style = .esModule) {statement : Statement}
    (hcopied : statement.Copied file.text.toList) (hwritable : statement.Writable) :
    List.Forall₂ IsLine (layout.scriptLines file statement)
      ((layout.scripted? statement).toList.map Statement.bare) := by
  cases statement with
  | importNames decl =>
    exact .cons (isLine_importLine hstyle hcopied hwritable) .nil
  | expr value span => exact .cons (isLine_expr hcopied) .nil
  | var decl =>
    rw [scriptLines, scripted?]
    by_cases hambient : decl.ambient = true
    · rw [variableLines, if_pos hambient, if_pos hambient]
      exact .nil
    · rw [variableLines_eq hstyle (Bool.not_eq_true _ ▸ hambient), if_neg hambient]
      exact .cons (isLine_variable (Bool.not_eq_true _ ▸ hambient) hcopied) .nil

/-- Lines that are read as some statements make a text that is read as these statements. -/
theorem exists_row_of_isLine (hnewLine : Text.allBlank layout.newLine.toList = true)
    {lines : List String} {statements : List Statement}
    (h : List.Forall₂ IsLine lines statements) :
    ∃ row, Outlined (layout.close lines).toList row ∧ ∀ s : Stream, s.row = row →
      (Parsing.items s).filterMap Parsing.Item.finding? = [] ∧
      ((Parsing.items s).filterMap Parsing.Item.statement?).map Statement.bare = statements := by
  -- One round reads the first line and leaves the row of the others.
  induction h with
  | nil =>
    refine ⟨[], Outlined.empty, fun s hrow ↦ ?_⟩
    have hs : s.tokens = [] := List.map_eq_nil_iff.1 hrow
    rw [Parsing.items, dif_pos hs]
    exact ⟨rfl, rfl⟩
  | @cons line expected lines statements hline _ ih =>
    obtain ⟨first, hspells, htakes⟩ := hline
    obtain ⟨row, houtlined, hitems⟩ := ih
    refine ⟨first ++ row, ?_, fun s hrow ↦ ?_⟩
    · have hall := hspells _ _ (houtlined.blanks_append (List.all_eq_true.1 hnewLine))
      simpa [close] using hall
    · obtain ⟨found, rest, hread, hrest, hfound⟩ := htakes s row hrow trivial
      obtain ⟨hfindings, hstatements⟩ := hitems rest hrest
      have hs : s.tokens ≠ [] := by
        have hshorter := Parsing.consumes_statement s found rest hread
        exact List.ne_nil_of_length_pos (Nat.zero_lt_of_lt hshorter)
      obtain ⟨value, rfl, hvalue⟩ := Option.map_eq_some_iff.1 hfound
      have hstep : Parsing.step s = (.statement value, rest) := by rw [Parsing.step, hread]
      rw [Parsing.items, dif_neg hs, hstep]
      constructor
      · exact hfindings
      · simp [Parsing.Item.statement?, hvalue, hstatements]

/-- A text of such lines is read as the statements, and nothing is wrong with it. -/
theorem parse_close_of_isLine (hnewLine : Text.allBlank layout.newLine.toList = true)
    {lines : List String} {statements : List Statement}
    (h : List.Forall₂ IsLine lines statements) (name : String) (target : Int) :
    (SourceFile.parse name (layout.close lines) target).findings = [] ∧
      (SourceFile.parse name (layout.close lines) target).statements.map Statement.bare =
        statements := by
  obtain ⟨row, houtlined, hitems⟩ := exists_row_of_isLine hnewLine h
  obtain ⟨hscan, hrow⟩ := houtlined.scan_eq 0
  obtain ⟨hfindings, hstatements⟩ := hitems (Stream.ofScan (Token.scan 0 _)) hrow
  refine ⟨?_, hstatements⟩
  change Finding.sort ((Token.scan 0 (layout.close lines).toList).findings ++ _) = []
  rw [hscan, hfindings, List.append_nil, Finding.sort, List.mergeSort_nil]

theorem forall₂_lines (hstyle : layout.style = .esModule) {statements : List Statement}
    (hcopied : ∀ statement ∈ statements, statement.Copied file.text.toList)
    (hwritable : ∀ statement ∈ statements, statement.Writable) :
    List.Forall₂ IsLine ((if layout.strict then [strictLine] else []) ++
        statements.flatMap (layout.scriptLines file))
      ((layout.scripted statements).map Statement.bare) := by
  have hstrict : List.Forall₂ IsLine (if layout.strict then [strictLine] else [])
      ((if layout.strict then [strictStatement] else []).map Statement.bare) := by
    split
    · exact .cons isLine_strictLine .nil
    · exact .nil
  have hlines : List.Forall₂ IsLine (statements.flatMap (layout.scriptLines file))
      ((statements.filterMap layout.scripted?).map Statement.bare) := by
    clear hstrict
    induction statements with
    | nil => exact .nil
    | cons statement statements ih =>
      obtain ⟨hfirst, hcopied⟩ := List.forall_mem_cons.1 hcopied
      obtain ⟨hfirst', hwritable⟩ := List.forall_mem_cons.1 hwritable
      have hhead := forall₂_scriptLines hstyle hfirst hfirst'
      have hall := List.rel_append hhead (ih hcopied hwritable)
      rw [List.flatMap_cons]
      cases hscripted : layout.scripted? statement with
      | none => simpa [hscripted] using hall
      | some value => simpa [hscripted] using hall
  rw [scripted, List.map_append]
  exact List.rel_append hstrict hlines

/-- The script of a file in which nothing is wrong is read back as the program of the file. -/
theorem statements_parse_script (hstyle : layout.style = .esModule)
    (hnewLine : Text.allBlank layout.newLine.toList = true) (hparsed : file.Parsed)
    (hclean : file.findings = []) (hwritable : ∀ statement ∈ file.statements, statement.Writable)
    (name : String) (target : Int) :
    let again := SourceFile.parse name (layout.script file) target
    again.findings = [] ∧ again.statements.map Statement.bare =
      (layout.scripted file.statements).map Statement.bare := by
  have hcopied : ∀ statement ∈ file.statements, statement.Copied file.text.toList := by
    obtain ⟨target', heq⟩ := hparsed
    rw [heq] at hclean ⊢
    exact fun statement hstatement ↦ SourceFile.copied_of_findings_eq_nil hclean hstatement
  exact parse_close_of_isLine hnewLine (forall₂_lines hstyle hcopied hwritable) name target

theorem statements_parse_script_across_breaks :
    let text := "import \x7b n, m, \x7d from './n'\nexport const a: number = f( 1.5 // one\n" ++
      ", 'x\\n' ).g /* two */\ndeclare let d: string\nlet b\n(n)"
    let file := SourceFile.parse "a.ts" text 2
    let layout : Layout := ⟨"\r\n", true, .esModule, true⟩
    let script := "\"use strict\";\r\nimport \x7b n, m \x7d from \"./n\";\r\n" ++
      "export var a = f( 1.5 // one\n, 'x\\n' ).g;\r\nvar b;\r\n(n);\r\n"
    let again := SourceFile.parse "a.js" script 1
    file.findings = [] ∧ layout.script file = script ∧ again.findings = [] ∧
      again.statements.map Statement.bare =
        (layout.scripted file.statements).map Statement.bare := by
  intro text file layout script
  have hclean : file.findings.isEmpty = true := by decide +kernel
  have hscript : layout.script file = script := by decide +kernel
  have hwritable : ∀ statement ∈ file.statements, statement.Writable := by decide +kernel
  have hstyle : layout.style = .esModule := rfl
  have hagain := statements_parse_script hstyle (by decide)
    (SourceFile.parsed_parse "a.ts" text 2) (List.isEmpty_iff.1 hclean) hwritable "a.js" 1
  rw [hscript] at hagain
  exact ⟨List.isEmpty_iff.1 hclean, hscript, hagain⟩

end Layout

end VersionSweep
