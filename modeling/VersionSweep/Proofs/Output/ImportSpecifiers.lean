import Mathlib.Data.String.Basic
import VersionSweep.Output.Emit
import VersionSweep.Proofs.Language.Decoding

/-!
# Specifiers in written imports

The specifier of an import is kept without its quotes and escapes and is written between quotes as
it is.  So it is read back exactly if nothing in it has to be escaped.  Otherwise the literal that
is read is too short or has no end: it is never longer than the specifier, since behind the closing
quote there is a line break and no other quote.
-/

namespace VersionSweep

namespace Quoted

variable {specifier tail : List Char}

/-- What is read of a specifier between quotes is shorter than the specifier, or there is nothing to
be escaped in it. -/
theorem length_unescape_append (htail : (scan '"' tail).closed = false)
    (h : (scan '"' (specifier ++ '"' :: tail)).closed = true) :
    (unescape '"' (specifier ++ '"' :: tail)).length < specifier.length ∨ Plain specifier := by
  induction specifier using unescape.induct '"' with
  | case1 => exact .inr fun c hc ↦ absurd hc List.not_mem_nil
  | case2 =>
    -- The backslash takes the closing quote with it.
    rw [List.singleton_append, scan, Scan.push, htail] at h
    cases h
  | case3 c rest ih =>
    rw [List.cons_append, List.cons_append, scan] at h
    rw [List.cons_append, List.cons_append, unescape]
    simp only [List.length_cons]
    rcases ih h with hlt | hplain
    · exact .inl (by omega)
    · rw [hplain.unescape_append]
      exact .inl (by omega)
  | case4 rest hc hc' =>
    rw [List.cons_append, unescape_cons_of_ne '"' (by decide), if_pos rfl]
    exact .inl (Nat.succ_pos _)
  | case5 c rest hc hc' hquote ih =>
    have hne := ne_backslash hc hc'
    rw [List.cons_append, scan_cons_of_ne '"' hne, if_neg hquote] at h
    rw [List.cons_append, unescape_cons_of_ne '"' hne, if_neg hquote]
    split at h
    · cases h
    rename_i hbreak
    simp only [List.length_cons]
    refine (ih h).imp (fun hlt ↦ by omega) fun hplain ↦ ?_
    obtain ⟨hfeed, hreturn⟩ := not_or.1 hbreak
    exact List.forall_mem_cons.2 ⟨⟨hquote, hne, hreturn, hfeed⟩, hplain⟩

/-- A specifier between quotes is read back exactly if nothing in it has to be escaped. -/
theorem closed_and_unescape_iff (htail : (scan '"' tail).closed = false) :
    (scan '"' (specifier ++ '"' :: tail)).closed = true ∧
        unescape '"' (scan '"' (specifier ++ '"' :: tail)).body = specifier ↔
      Plain specifier := by
  constructor
  · rintro ⟨hclosed, hvalue⟩
    rw [unescape_body_scan '"' _ hclosed] at hvalue
    refine (length_unescape_append htail hclosed).resolve_left fun hlt ↦ ?_
    rw [hvalue] at hlt
    exact Nat.lt_irrefl _ hlt
  · intro hplain
    rw [hplain.scan_append]
    exact ⟨rfl, hplain.unescape_append []⟩

end Quoted

/-- Whether a text begins with a string literal that has an end and stands for the given value. -/
def Token.BeginsWithString (value : String) : List Char → Prop
  | [] => False
  | c :: rest =>
    let found := lexeme c rest
    found.kind = .string ∧ found.problem = none ∧
      String.ofList (Quoted.unquote found.text) = value

instance (value : String) : DecidablePred (Token.BeginsWithString value)
  | [] => inferInstanceAs (Decidable False)
  | _ :: _ => inferInstanceAs (Decidable (_ ∧ _ ∧ _))

theorem Token.beginsWithString_quoted_iff {specifier : String} {tail : List Char}
    (htail : (Quoted.scan '"' tail).closed = false) :
    BeginsWithString specifier ('"' :: (specifier.toList ++ '"' :: tail)) ↔
      Quoted.Plain specifier.toList := by
  have hlexeme (rest : List Char) : lexeme '"' rest =
      ⟨.string, '"' :: (Quoted.scan '"' rest).body, (Quoted.scan '"' rest).rest,
        if (Quoted.scan '"' rest).closed then none else some .unterminatedString⟩ := by
    rw [lexeme, if_neg (by decide), if_neg (by decide), if_pos (.inl rfl)]
  rw [← Quoted.closed_and_unescape_iff htail, BeginsWithString, hlexeme]
  simp [Quoted.unquote, String.ofList_eq]

def Statement.specifier? : Statement → Option String
  | .importNames decl => some decl.specifier
  | .var _ => none
  | .expr _ _ => none

theorem Statement.specifier?_eq_some_iff {statement : Statement} {specifier : String} :
    statement.specifier? = some specifier ↔
      ∃ decl, statement = .importNames decl ∧ decl.specifier = specifier := by
  cases statement <;> simp [specifier?]

def ImportDecl.quoted (decl : ImportDecl) : String :=
  "\"" ++ decl.specifier ++ "\""

namespace Layout

variable (layout : Layout)

def importOpening (decl : ImportDecl) : String :=
  match layout.style, decl.names with
  | .esModule, [] => "import "
  | .esModule, _ => "import " ++ inBraces decl.nameList ++ " from "
  | .commonJs, [] => "require("
  | .commonJs, _ => layout.keyword .const ++ " " ++ inBraces decl.nameList ++ " = require("

def importClosing : String :=
  match layout.style with
  | .esModule => ";"
  | .commonJs => ");"

theorem importLine_eq (decl : ImportDecl) :
    layout.importLine decl = layout.importOpening decl ++ decl.quoted ++ layout.importClosing := by
  rw [importLine, importOpening, importClosing, ImportDecl.quoted]
  cases layout.style <;> cases decl.names <;> rfl

theorem close_append (before after : List String) :
    layout.close (before ++ after) = layout.close before ++ layout.close after := by
  rw [close, List.map_append, String.join_append]
  rfl

/-- A line among others stands in the text as it is, with a line break behind it. -/
theorem close_append_cons (before : List String) (line : String) (after : List String) :
    layout.close (before ++ line :: after) =
      layout.close before ++ line ++ (layout.newLine ++ layout.close after) := by
  rw [close_append, close, close, close, List.map_cons, String.join_cons]
  simp only [String.append_assoc]

theorem newLine_ofSettings (settings : Assignment) :
    (ofSettings settings Store.newLine).newLine = "\n" ∨
      (ofSettings settings Store.newLine).newLine = "\r\n" := by
  unfold ofSettings
  dsimp only
  split
  · split
    · exact .inl rfl
    · split
      · exact .inr rfl
      · exact .inr rfl
  · exact .inr rfl

/-- Between the closing quote of a specifier and the end of its line there is no other quote. -/
theorem closed_scan_closing {layout : Layout}
    (hbreak : layout.newLine = "\n" ∨ layout.newLine = "\r\n") {closing : String}
    (hclosing : closing = ";" ∨ closing = ");") (rest : String) :
    (Quoted.scan '"' (closing ++ (layout.newLine ++ rest)).toList).closed = false := by
  rcases hbreak with hbreak | hbreak <;> rcases hclosing with rfl | rfl
  all_goals
    simp [hbreak, Quoted.scan, Quoted.Scan.push]

theorem beginsWithString_quoted_iff {layout : Layout}
    (hbreak : layout.newLine = "\n" ∨ layout.newLine = "\r\n") {closing : String}
    (hclosing : closing = ";" ∨ closing = ");") (decl : ImportDecl) (rest : String) :
    Token.BeginsWithString decl.specifier
        (decl.quoted ++ (closing ++ (layout.newLine ++ rest))).toList ↔
      Quoted.Plain decl.specifier.toList := by
  rw [← Token.beginsWithString_quoted_iff (closed_scan_closing hbreak hclosing rest)]
  simp [ImportDecl.quoted]

/-- In the script of a file and in its declarations the specifier of an import is read back exactly
if nothing in it has to be escaped. -/
theorem specifier_read_back_iff (settings : Assignment) (file : SourceFile)
    (typeOf : Nat → Option BasicType) {front back : List Statement} {decl : ImportDecl}
    (h : file.statements = front ++ .importNames decl :: back) :
    let layout := ofSettings settings Store.newLine
    (∃ behind, layout.script file =
        layout.close ((if layout.strict then [strictLine] else []) ++
          front.flatMap (layout.scriptLines file)) ++ layout.importOpening decl ++
        decl.quoted ++ behind ∧
      (Token.BeginsWithString decl.specifier (decl.quoted ++ behind).toList ↔
        Quoted.Plain decl.specifier.toList)) ∧
    ∃ behind, layout.declarations file typeOf =
        layout.close (front.zipIdx.flatMap fun (statement, number) ↦
          declarationLines true (typeOf number) statement) ++
          ("import " ++ inBraces decl.nameList ++ " from ") ++ decl.quoted ++ behind ∧
      (Token.BeginsWithString decl.specifier (decl.quoted ++ behind).toList ↔
        Quoted.Plain decl.specifier.toList) := by
  intro layout
  have hbreak : layout.newLine = "\n" ∨ layout.newLine = "\r\n" := newLine_ofSettings settings
  have hclosing : layout.importClosing = ";" ∨ layout.importClosing = ");" := by
    unfold importClosing
    cases layout.style
    · exact .inr rfl
    · exact .inl rfl
  constructor
  · refine ⟨_, ?_, beginsWithString_quoted_iff hbreak hclosing decl
      (layout.close (back.flatMap (layout.scriptLines file)))⟩
    rw [script, h, List.flatMap_append, List.flatMap_cons, scriptLines, List.singleton_append,
      ← List.append_assoc, close_append_cons, importLine_eq]
    simp only [String.append_assoc]
  · have hmodule : file.isModule = true := by
      rw [SourceFile.isModule, h]
      simp [Statement.makesModule]
    let line (numbered : Statement × Nat) :=
      declarationLines true (typeOf numbered.2) numbered.1
    let closing :=
      if true && !file.statements.any exportsVariable then [emptyExportLine] else []
    refine ⟨_, ?_, beginsWithString_quoted_iff hbreak (.inl rfl) decl
      (layout.close ((back.zipIdx (front.length + 1)).flatMap line ++ closing))⟩
    have hlines : file.statements.zipIdx.flatMap line = front.zipIdx.flatMap line ++
        ("import " ++ inBraces decl.nameList ++ " from \"" ++ decl.specifier ++ "\";") ::
          (back.zipIdx (front.length + 1)).flatMap line := by
      rw [h, List.zipIdx_append, List.zipIdx_cons, List.flatMap_append, List.flatMap_cons]
      simp [line, declarationLines]
    have hall : layout.declarations file typeOf =
        layout.close (file.statements.zipIdx.flatMap line ++ closing) := by
      rw [declarations, hmodule]
    rw [hall, hlines, List.append_assoc, List.cons_append, close_append_cons, ImportDecl.quoted]
    simp only [String.append_assoc]
    rfl

theorem specifier_read_back_iff_between_variables :
    let file := SourceFile.parse "a.ts" "let a = 1; import \x7b x \x7d from './m'; let b = 2;" 1
    let layout := ofSettings .empty Store.newLine
    ∃ first decl last, file.statements = [first] ++ .importNames decl :: [last] ∧
      (∃ behind, layout.script file =
          layout.close ((if layout.strict then [strictLine] else []) ++
            [first].flatMap (layout.scriptLines file)) ++ layout.importOpening decl ++
          decl.quoted ++ behind ∧
        (Token.BeginsWithString decl.specifier (decl.quoted ++ behind).toList ↔
          Quoted.Plain decl.specifier.toList)) ∧
      ∃ behind, layout.declarations file (fun _ ↦ none) =
          layout.close ([first].zipIdx.flatMap fun (statement, _) ↦
            declarationLines true none statement) ++
            ("import " ++ inBraces decl.nameList ++ " from ") ++ decl.quoted ++ behind ∧
        (Token.BeginsWithString decl.specifier (decl.quoted ++ behind).toList ↔
          Quoted.Plain decl.specifier.toList) := by
  intro file layout
  have hspecifiers : file.statements.map Statement.specifier? = [none, some "./m", none] := by
    decide +kernel
  obtain ⟨first, rest, hfile, -, hrest⟩ := List.map_eq_cons_iff.1 hspecifiers
  obtain ⟨statement, rest', hrest', hstatement, hlast⟩ := List.map_eq_cons_iff.1 hrest
  obtain ⟨decl, rfl, -⟩ := Statement.specifier?_eq_some_iff.1 hstatement
  obtain ⟨last, hlast', -⟩ := List.map_eq_singleton_iff.1 hlast
  have hsplit : file.statements = [first] ++ .importNames decl :: [last] := by
    rw [hfile, hrest', hlast']
    rfl
  exact ⟨first, decl, last, hsplit, specifier_read_back_iff .empty file (fun _ ↦ none) hsplit⟩

/-- A specifier with a double quote in it is read back as what stands before that quote. -/
theorem specifier_cut_at_quote :
    let file := SourceFile.parse "a.ts" "import \x7b x \x7d from './say\"hi';" 1
    let esModule := ofSettings (Assignment.empty.set "module" (.choice "es2015" 5)) Store.newLine
    let commonJs := ofSettings .empty Store.newLine
    file.findings.isEmpty = true ∧
      (∃ decl, file.statements = [.importNames decl] ∧ decl.specifier = "./say\"hi") ∧
      esModule.script file = "import \x7b x \x7d from " ++ "\"./say\"hi\";\r\n" ∧
      ¬ Token.BeginsWithString "./say\"hi" "\"./say\"hi\";\r\n".toList ∧
      commonJs.script file = "var \x7b x \x7d = require(" ++ "\"./say\"hi\");\r\n" ∧
      ¬ Token.BeginsWithString "./say\"hi" "\"./say\"hi\");\r\n".toList ∧
      esModule.declarations file (fun _ ↦ none) =
        "import \x7b x \x7d from " ++ "\"./say\"hi\";\r\nexport \x7b\x7d;\r\n" ∧
      ¬ Token.BeginsWithString "./say\"hi" "\"./say\"hi\";\r\nexport \x7b\x7d;\r\n".toList ∧
      Token.BeginsWithString "./say" "\"./say\"hi\";\r\n".toList := by
  intro file esModule commonJs
  have hspecifiers : file.statements.map Statement.specifier? = [some "./say\"hi"] := by
    decide +kernel
  obtain ⟨statement, hfile, hstatement⟩ := List.map_eq_singleton_iff.1 hspecifiers
  obtain ⟨decl, rfl, hdecl⟩ := Statement.specifier?_eq_some_iff.1 hstatement
  refine ⟨by decide +kernel, ⟨decl, hfile, hdecl⟩, by decide +kernel, by decide +kernel,
    by decide +kernel, by decide +kernel, by decide +kernel, by decide +kernel, by decide +kernel⟩

end Layout

end VersionSweep
