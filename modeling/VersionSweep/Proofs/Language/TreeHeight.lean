import Mathlib.Data.Nat.Choose.Basic
import Mathlib.Order.Bounds.Basic
import VersionSweep.Proofs.Language.Nesting
import VersionSweep.Proofs.Output.ScriptRoundTrip

/-!
# Height of expressions

A row of accesses and calls stands on top of what was counted and dropped before it, so the height
of an expression is not bounded by the levels it needs.  It is bounded by the sum of the counts from
one to these levels, `Expr.height_le_choose`, and a tower of rows in parentheses, each one longer
than the one below it, attains the bound.
-/

namespace VersionSweep

open Token (Shape Outlined)

mutual

/-- The height of an expression as a tree, in which a literal or a name is one high. -/
def Expr.height : Expr → Nat
  | .number _ _ => 1
  | .string _ _ => 1
  | .bool _ _ => 1
  | .name _ => 1
  | .paren inner _ => inner.height + 1
  | .member object _ _ => object.height + 1
  | .call callee arguments _ => max callee.height (Expr.heightOfAll arguments) + 1

def Expr.heightOfAll : List Expr → Nat
  | [] => 0
  | e :: rest => max e.height (Expr.heightOfAll rest)

end

mutual

/-- Whether whatever is accessed or called is no higher than its own row of accesses and calls on a
literal or a name. -/
def Expr.isUpright : Expr → Bool
  | .number _ _ => true
  | .string _ _ => true
  | .bool _ _ => true
  | .name _ => true
  | .paren inner _ => inner.isUpright
  | .member object _ _ => object.isUpright && object.height ≤ object.rowLength + 1
  | .call callee arguments _ =>
    callee.isUpright && callee.height ≤ callee.rowLength + 1 && Expr.allUpright arguments

def Expr.allUpright : List Expr → Bool
  | [] => true
  | e :: rest => e.isUpright && Expr.allUpright rest

end

namespace Expr

def head : Expr → Expr
  | .member object _ _ => object.head
  | .call callee _ _ => callee.head
  | e => e

/-- The arguments in the row at the end of an expression, each with the number of accesses and calls
from its own call on. -/
def hung : Expr → List (Expr × Nat)
  | .member object _ _ => object.hung.map (Prod.map id (· + 1))
  | .call callee arguments _ =>
    callee.hung.map (Prod.map id (· + 1)) ++ arguments.map (·, 1)
  | _ => []

/-- How many expressions `isLiteral` goes through. -/
def literalDepth : Expr → Nat
  | .paren inner _ => inner.literalDepth + 1
  | _ => 1

theorem literalDepth_le_levels (e : Expr) : e.literalDepth ≤ e.levels := by
  induction e using literalDepth.induct with
  | case1 inner _ ih =>
    rw [literalDepth, levels]
    omega
  | case2 e h =>
    rw [literalDepth]
    · exact Nat.zero_lt_of_lt e.rowLength_lt_levels
    · exact h

end Expr

theorem choose_two_succ (n : Nat) : (n + 1).choose 2 = n + n.choose 2 := by
  rw [Nat.choose_succ_succ', Nat.choose_one_right]

mutual

/-- The row of an expression stands on what was counted before it, one level less each time. -/
theorem Expr.height_le_choose_add : (e : Expr) →
    e.height ≤ e.levels.choose 2 + e.rowLength + 1
  | .number _ _ => by simp [Expr.height]
  | .string _ _ => by simp [Expr.height]
  | .bool _ _ => by simp [Expr.height]
  | .name _ => by simp [Expr.height]
  | .paren inner _ => by
    have ih := inner.height_le_choose_add
    have hrow := inner.rowLength_lt_levels
    rw [Expr.height, Expr.levels, Expr.rowLength, choose_two_succ]
    · omega
    all_goals simp
  | .member object _ _ => by
    have ih := object.height_le_choose_add
    have hmono := Nat.choose_le_choose 2 (Nat.le_max_left object.levels (object.rowLength + 2))
    rw [Expr.height, Expr.levels, Expr.rowLength]
    omega
  | .call callee arguments _ => by
    have ih := callee.height_le_choose_add
    have iharguments := Expr.heightOfAll_le_choose arguments
    have hmono := Nat.choose_le_choose 2
      (Nat.le_max_left callee.levels (callee.rowLength + 2 + Expr.levelsOfAll arguments))
    have hinner : Expr.levelsOfAll arguments + 1 ≤
        max callee.levels (callee.rowLength + 2 + Expr.levelsOfAll arguments) := by omega
    have hmono' := Nat.choose_le_choose 2 hinner
    rw [Expr.height, Expr.levels, Expr.rowLength]
    omega

theorem Expr.heightOfAll_le_choose : (arguments : List Expr) →
    Expr.heightOfAll arguments ≤ (Expr.levelsOfAll arguments + 1).choose 2
  | [] => by simp [Expr.heightOfAll]
  | e :: rest => by
    have ih := Expr.heightOfAll_le_choose rest
    have hheight := e.height_le_choose_add
    have hrow := e.rowLength_lt_levels
    rw [Expr.heightOfAll, Expr.levelsOfAll]
    refine Nat.max_le.2 ⟨?_, ih.trans (Nat.choose_le_choose 2 (by omega))⟩
    calc e.height ≤ (e.levels + 1).choose 2 := by rw [choose_two_succ]; omega
      _ ≤ _ := Nat.choose_le_choose 2 (by omega)

end

namespace Expr

theorem height_le_choose (e : Expr) : e.height ≤ (e.levels + 1).choose 2 := by
  have hheight := e.height_le_choose_add
  have hrow := e.rowLength_lt_levels
  rw [choose_two_succ]
  omega

theorem heightOfAll_le_iff {arguments : List Expr} {n : Nat} :
    heightOfAll arguments ≤ n ↔ ∀ e ∈ arguments, e.height ≤ n := by
  induction arguments with
  | nil => simp [heightOfAll]
  | cons e rest ih => rw [heightOfAll, Nat.max_le, ih, List.forall_mem_cons]

theorem forall_mem_map_succ {parts : List (Expr × Nat)} {n : Nat} :
    (∀ part ∈ parts.map (Prod.map id (· + 1)), part.1.height + part.2 ≤ n + 1) ↔
      ∀ part ∈ parts, part.1.height + part.2 ≤ n := by
  rw [List.forall_mem_map]
  exact forall₂_congr fun part _ ↦ Nat.succ_le_succ_iff

/-- What the count of a row does not see: the height of what it stands on, and how much of it stands
behind each argument. -/
theorem height_le_iff (e : Expr) (n : Nat) :
    e.height ≤ n ↔ e.head.height + e.rowLength ≤ n ∧
      ∀ part ∈ e.hung, part.1.height + part.2 ≤ n := by
  induction e using head.induct generalizing n with
  | case1 object property span ih =>
    cases n with
    | zero => simp [height, rowLength]
    | succ n =>
      rw [height, head, rowLength, hung, forall_mem_map_succ, ← Nat.add_assoc,
        Nat.add_le_add_iff_right, Nat.add_le_add_iff_right, ih]
  | case2 callee arguments span ih =>
    cases n with
    | zero => simp [height, rowLength]
    | succ n =>
      have harguments : (∀ part ∈ arguments.map (·, 1), part.1.height + part.2 ≤ n + 1) ↔
          ∀ e ∈ arguments, e.height ≤ n := by
        simp
      rw [height, head, rowLength, hung, List.forall_mem_append, forall_mem_map_succ, harguments,
        ← Nat.add_assoc, Nat.add_le_add_iff_right, Nat.add_le_add_iff_right, Nat.max_le, ih,
        heightOfAll_le_iff, and_assoc]
  | case3 e hmember hcall =>
    cases e with
    | number | string | bool | name | paren => simp [head, rowLength, hung]
    | member object property span => exact absurd rfl (hmember object property span)
    | call callee arguments span => exact absurd rfl (hcall callee arguments span)

end Expr

mutual

/-- An upright expression is as high as its rows and what they hold, so its levels cover it. -/
theorem Expr.height_le_levels : (e : Expr) → e.isUpright = true → e.height ≤ e.levels
  | .number _ _ => fun _ ↦ by rw [Expr.height, Expr.levels]
  | .string _ _ => fun _ ↦ by rw [Expr.height, Expr.levels]
  | .bool _ _ => fun _ ↦ by rw [Expr.height, Expr.levels]
  | .name _ => fun _ ↦ by rw [Expr.height, Expr.levels]
  | .paren inner _ => fun h ↦ by
    rw [Expr.isUpright] at h
    rw [Expr.height, Expr.levels]
    exact Nat.succ_le_succ (inner.height_le_levels h)
  | .member object _ _ => fun h ↦ by
    rw [Expr.isUpright, Bool.and_eq_true, decide_eq_true_eq] at h
    rw [Expr.height, Expr.levels]
    omega
  | .call callee arguments _ => fun h ↦ by
    rw [Expr.isUpright, Bool.and_eq_true, Bool.and_eq_true, decide_eq_true_eq] at h
    obtain ⟨⟨-, hcallee⟩, harguments⟩ := h
    have hall := Expr.heightOfAll_le_levelsOfAll arguments harguments
    rw [Expr.height, Expr.levels]
    omega

theorem Expr.heightOfAll_le_levelsOfAll : (arguments : List Expr) →
    Expr.allUpright arguments = true → Expr.heightOfAll arguments ≤ Expr.levelsOfAll arguments
  | [] => fun _ ↦ Nat.le_refl _
  | e :: rest => fun h ↦ by
    rw [Expr.allUpright, Bool.and_eq_true] at h
    have he := e.height_le_levels h.1
    have hrest := Expr.heightOfAll_le_levelsOfAll rest h.2
    rw [Expr.heightOfAll, Expr.levelsOfAll]
    omega

end

mutual

theorem Expr.height_bare : (e : Expr) → e.bare.height = e.height
  | .number _ _ => by rw [Expr.bare, Expr.height, Expr.height]
  | .string _ _ => by rw [Expr.bare, Expr.height, Expr.height]
  | .bool _ _ => by rw [Expr.bare, Expr.height, Expr.height]
  | .name _ => by rw [Expr.bare, Expr.height, Expr.height]
  | .paren inner _ => by rw [Expr.bare, Expr.height, Expr.height, inner.height_bare]
  | .member object _ _ => by rw [Expr.bare, Expr.height, Expr.height, object.height_bare]
  | .call callee arguments _ => by
    rw [Expr.bare, Expr.height, Expr.height, callee.height_bare, Expr.heightOfAll_bare arguments]

theorem Expr.heightOfAll_bare : (arguments : List Expr) →
    Expr.heightOfAll (Expr.allBare arguments) = Expr.heightOfAll arguments
  | [] => rfl
  | e :: rest => by
    rw [Expr.allBare, Expr.heightOfAll, Expr.heightOfAll, e.height_bare,
      Expr.heightOfAll_bare rest]

end

namespace Expr

def called : Nat → Expr → Expr
  | 0, e => e
  | n + 1, e => called n (.call e [] .zero)

/-- A name, put in parentheses with a row of calls behind it over and over again, where each row is
by one longer than the one before. -/
def tower : Nat → Expr
  | 0 => .name ⟨"x", .zero⟩
  | n + 1 => called (n + 1) (.paren (tower n) .zero)

theorem height_called (n : Nat) (e : Expr) : (called n e).height = e.height + n := by
  induction n generalizing e with
  | zero => rfl
  | succ n ih =>
    rw [called, ih, height, heightOfAll]
    omega

theorem height_tower (n : Nat) : (tower n).height = (n + 2).choose 2 := by
  induction n with
  | zero => rw [tower, height, Nat.choose_self]
  | succ n ih =>
    rw [tower, height_called, height, ih, choose_two_succ (n + 2)]
    omega

theorem bare_called (n : Nat) (e : Expr) : (called n e).bare = called n e.bare := by
  induction n generalizing e with
  | zero => rfl
  | succ n ih => rw [called, ih, called, bare, allBare]

theorem bare_tower (n : Nat) : (tower n).bare = tower n := by
  induction n with
  | zero => rfl
  | succ n ih => rw [tower, bare_called, bare, ih]

def callRow : Nat → List Shape
  | 0 => []
  | n + 1 => .mark '(' :: .mark ')' :: callRow n

def callText : Nat → List Char
  | 0 => []
  | n + 1 => '(' :: ')' :: callText n

def towerRow : Nat → List Shape
  | 0 => [.word "x"]
  | n + 1 => .mark '(' :: (towerRow n ++ .mark ')' :: callRow (n + 1))

def towerText : Nat → List Char
  | 0 => ['x']
  | n + 1 => '(' :: (towerText n ++ ')' :: callText (n + 1))

end Expr

namespace Expression

open Reader

theorem takes_suffixes_callRow (n : Nat) (value : Expr) :
    (suffixes n value).Takes (Expr.callRow n) Ends (·.bare = Expr.called n value.bare) := by
  induction n generalizing value with
  | zero => exact takes_suffixes_nil 0 value
  | succ n ih =>
    rw [suffixes_succ]
    have hcut : Expr.callRow (n + 1) =
        [] ++ ([.mark '('] ++ ([] ++ ([.mark ')'] ++ Expr.callRow n))) := rfl
    have hnone : Takes (separated ')' (read n)) [] (Heads ')') (·.map Expr.bare = []) :=
      takes_separated_nil
    rw [hcut]
    refine (takes_optionalPunctuator_nil '.').bind
      (fun more _ ↦ Heads.lacks ⟨_, _, rfl, rfl⟩ (by decide)) ?_
    rintro _ rfl
    refine (takes_optionalPunctuator rfl).bind (fun _ _ ↦ trivial) ?_
    rintro _ rfl
    refine Takes.bind hnone (fun more _ ↦ ⟨_, _, rfl, Shape.kind_mark ')'⟩)
      fun arguments harguments ↦ ?_
    refine (takes_punctuator rfl).bind (fun _ _ ↦ trivial) fun close _ ↦ ?_
    refine (ih _).mono (fun _ h ↦ h) fun e he ↦ ?_
    rw [he, Expr.called, Expr.bare, Expr.allBare_eq_map, harguments]

theorem takes_primary_parenthesized {inner : Reader Expr} {row : List Shape} {e : Expr}
    (h : inner.Takes row Ends (·.bare = e)) :
    (primary inner).Takes (.mark '(' :: (row ++ [.mark ')'])) (fun _ ↦ True)
      (·.bare = .paren e .zero) := by
  have htakes : (parenthesized inner).Takes ([.mark '('] ++ (row ++ ([.mark ')'] ++ [])))
      (fun _ ↦ True) (·.bare = .paren e .zero) := by
    refine (takes_token _).bind (fun _ _ ↦ trivial) fun _ _ ↦ ?_
    refine h.bind (fun more _ ↦ ?_) fun value hvalue ↦ ?_
    · exact ends_of_heads ⟨_, more, rfl, rfl⟩ (by decide) (by decide)
    refine (takes_punctuator rfl).bind (fun _ _ ↦ trivial) fun _ _ ↦ takes_pure ?_
    rw [Expr.bare, hvalue]
  intro s more hrow hmore
  have hkind := Stream.kind_next hrow
  have hatom : atom? s.next = none := by rw [atom?, hkind, Shape.kind_mark]
  have hparen : s.next.isPunctuator '(' = true := by simp [Token.isPunctuator, hkind]
  rw [primary, hatom, if_pos hparen]
  exact htakes s more (by simpa using hrow) hmore

/-- A tower is read with one level for each of its rows. -/
theorem takes_read_towerRow (n : Nat) :
    (read (n + 1)).Takes (Expr.towerRow n) Ends (·.bare = Expr.tower n) := by
  induction n with
  | zero =>
    have hatom : atom? ⟨.word, "x", .zero, false⟩ = some (Expr.tower 0) := rfl
    have hcut : Expr.towerRow 0 = [.word "x"] ++ [] := rfl
    rw [hcut, read]
    refine (takes_primary_atom hatom).bind (fun _ _ ↦ trivial) fun value hvalue ↦ ?_
    exact (takes_suffixes_nil 0 value).mono (fun _ h ↦ h) fun _ h ↦ h.trans hvalue
  | succ n ih =>
    have hcut : Expr.towerRow (n + 1) =
        (.mark '(' :: (Expr.towerRow n ++ [.mark ')'])) ++ Expr.callRow (n + 1) := by
      simp [Expr.towerRow]
    rw [hcut, read]
    refine (takes_primary_parenthesized ih).bind (fun _ _ ↦ trivial) fun value hvalue ↦ ?_
    refine (takes_suffixes_callRow (n + 1) value).mono (fun _ h ↦ h) fun e he ↦ ?_
    rw [he, hvalue, Expr.tower]

end Expression

namespace Expr

variable {rest : List Char} {more : List Shape}

theorem outlined_callText (n : Nat) (h : Outlined rest more) :
    Outlined (callText n ++ rest) (callRow n ++ more) := by
  induction n with
  | zero => exact h
  | succ n ih => exact (ih.punctuator_cons (by decide)).punctuator_cons (by decide)

theorem outlined_towerText (n : Nat) (hrest : Token.Stops rest) (h : Outlined rest more) :
    Outlined (towerText n ++ rest) (towerRow n ++ more) := by
  induction n generalizing rest more with
  | zero =>
    have hword : Token.IsWord "x" := ⟨'x', [], rfl, by decide, by decide⟩
    exact h.word_append hword hrest
  | succ n ih =>
    have hbehind : Outlined (')' :: (callText (n + 1) ++ rest))
        (.mark ')' :: (callRow (n + 1) ++ more)) :=
      (outlined_callText (n + 1) h).punctuator_cons (by decide)
    have hall := (ih ⟨')', _, rfl, by decide, by decide⟩ hbehind).punctuator_cons (c := '(')
      (by decide)
    simpa [towerText, towerRow] using hall

end Expr

/-- The tower that needs all levels is read from its text. -/
theorem isLine_tower {n : Nat} (h : n + 2 = Expression.nestingLimit) :
    IsLine (String.ofList (Expr.towerText (n + 1) ++ [';']))
      (.expr (Expr.tower (n + 1)) .zero) := by
  have htakes := Expression.takes_read_towerRow (n + 1)
  rw [h, ← Expr.bare_tower] at htakes
  let token : Token := ⟨.punctuator '(', "(", .zero, false⟩
  have hopens : Parsing.OpensExpr token := by
    constructor <;> decide
  have hstatement := Parsing.takes_statement_expr hopens htakes
  rw [Expr.bare_tower] at hstatement
  refine ⟨_, fun rest more houtlined ↦ ?_, hstatement⟩
  have hmark : Outlined (';' :: rest) (.mark ';' :: more) :=
    houtlined.punctuator_cons (by decide)
  have hall := Expr.outlined_towerText (n + 1) (stops_cons (by decide) rest) hmark
  rw [String.toList_ofList, List.append_assoc]
  simpa [Expr.towerRow, token, Token.shape, Shape.mark] using hall

namespace SourceFile

/-- The height of the tower that needs all levels is attained. -/
theorem exists_height_eq {n : Nat} (h : n + 2 = Expression.nestingLimit) (name : String)
    (target : Int) :
    ∃ text, ∃ e ∈ (parse name text target).expressions, e.height = (n + 3).choose 2 := by
  let layout : Layout := ⟨"\n", true, .esModule, true⟩
  let text := layout.close [String.ofList (Expr.towerText (n + 1) ++ [';'])]
  have hnewLine : Text.allBlank layout.newLine.toList = true := by decide
  obtain ⟨row, houtlined, hitems⟩ :=
    Layout.exists_row_of_isLine hnewLine (.cons (isLine_tower h) .nil)
  obtain ⟨-, hrow⟩ := houtlined.scan_eq 0
  obtain ⟨-, hstatements⟩ := hitems (Stream.ofScan (Token.scan 0 text.toList)) hrow
  obtain ⟨statement, hstatement, hbare⟩ := List.map_eq_singleton_iff.1 hstatements
  obtain ⟨e, span, rfl, he⟩ : ∃ e span, statement = .expr e span ∧
      e.bare = Expr.tower (n + 1) := by
    cases statement with
    | var decl => cases hbare
    | importNames decl => cases hbare
    | expr e span => exact ⟨e, span, rfl, (Statement.expr.inj hbare).1⟩
  have hexpressions : (parse name text target).expressions = [e] :=
    congrArg (List.filterMap Statement.expression?) hstatement
  refine ⟨text, e, ?_, ?_⟩
  · rw [hexpressions]
    exact List.mem_singleton_self e
  · rw [← e.height_bare, he, Expr.height_tower]

theorem choose_nestingLimit : (Expression.nestingLimit + 1).choose 2 = 8256 := by
  rw [Nat.choose_two_right, Expression.nestingLimit]

theorem height_le_of_mem_expressions {name text : String} {target : Int} {e : Expr}
    (h : e ∈ (parse name text target).expressions) : e.height ≤ 8256 := by
  have hlevels := levels_le_of_mem_expressions h
  calc e.height ≤ (e.levels + 1).choose 2 := e.height_le_choose
    _ ≤ (Expression.nestingLimit + 1).choose 2 :=
      Nat.choose_le_choose 2 (Nat.succ_le_succ hlevels)
    _ = 8256 := choose_nestingLimit

/-- The greatest height of an expression in a file is the sum of the numbers up to the limit. -/
theorem isGreatest_height :
    IsGreatest {height | ∃ name text target, ∃ e ∈ (parse name text target).expressions,
      e.height = height} 8256 := by
  constructor
  · obtain ⟨text, e, he, hheight⟩ := exists_height_eq (n := 126) rfl "a.ts" 1
    exact ⟨"a.ts", text, 1, e, he, hheight.trans choose_nestingLimit⟩
  · rintro _ ⟨name, text, target, e, he, rfl⟩
    exact height_le_of_mem_expressions he

/-- No expression in a file needs more levels than the limit, and the walk of `isLiteral` is within
it.  The height is within it exactly where the row at the end of the expression is, counted from the
height of what it stands on and of each argument; it is so where whatever is accessed or called is
no higher than its own row.  In general it is at most the sum of the numbers up to the limit. -/
theorem nesting_of_mem_expressions {name text : String} {target : Int} {e : Expr}
    (h : e ∈ (parse name text target).expressions) :
    e.levels ≤ Expression.nestingLimit ∧ e.literalDepth ≤ Expression.nestingLimit ∧
      (e.height ≤ Expression.nestingLimit ↔
        e.head.height + e.rowLength ≤ Expression.nestingLimit ∧
          ∀ part ∈ e.hung, part.1.height + part.2 ≤ Expression.nestingLimit) ∧
      (e.isUpright = true → e.height ≤ Expression.nestingLimit) ∧ e.height ≤ 8256 := by
  have hlevels := levels_le_of_mem_expressions h
  exact ⟨hlevels, e.literalDepth_le_levels.trans hlevels, e.height_le_iff _,
    fun hupright ↦ (e.height_le_levels hupright).trans hlevels,
    isGreatest_height.2 ⟨name, text, target, e, h, rfl⟩⟩

theorem nesting_of_mem_expressions_call :
    ∃ e ∈ (parse "a.ts" "let x = f((1), y.b);" 1).expressions,
      e.isUpright = true ∧ e.height = 3 ∧ e.levels ≤ Expression.nestingLimit ∧
        e.literalDepth ≤ Expression.nestingLimit ∧ e.height ≤ Expression.nestingLimit := by
  let measures (e : Expr) : Bool × Nat := (e.isUpright, e.height)
  have hone : (parse "a.ts" "let x = f((1), y.b);" 1).expressions.map measures =
      [(true, 3)] := by
    decide +kernel
  obtain ⟨e, he, hmeasures⟩ := List.map_eq_singleton_iff.1 hone
  obtain ⟨hupright, hheight⟩ := Prod.mk.inj hmeasures
  have hmem : e ∈ (parse "a.ts" "let x = f((1), y.b);" 1).expressions :=
    he ▸ List.mem_singleton_self e
  obtain ⟨hlevels, hliteral, -, hbound, -⟩ := nesting_of_mem_expressions hmem
  exact ⟨e, hmem, hupright, hheight, hlevels, hliteral, hbound hupright⟩

/-- A row behind parentheses is not counted with them: the access is higher than the limit. -/
theorem height_beyond_limit :
    let text := String.ofList (List.replicate 127 '(' ++ 'x' :: (List.replicate 127 ')' ++
      ".a;".toList))
    let file := parse "t.ts" text 1
    file.findings = [] ∧ ∃ e ∈ file.expressions, e.height = Expression.nestingLimit + 1 := by
  intro text file
  have hparsed : file.findings.isEmpty = true ∧ file.expressions.map Expr.height = [129] := by
    decide +kernel
  obtain ⟨hclean, hheights⟩ := hparsed
  obtain ⟨e, he, hheight⟩ := List.map_eq_singleton_iff.1 hheights
  exact ⟨List.isEmpty_iff.1 hclean, e, he ▸ List.mem_singleton_self e, hheight⟩

end SourceFile

end VersionSweep
