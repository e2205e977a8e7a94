import VersionSweep.Language.SourceFile
import VersionSweep.Proofs.Language.Repetition

/-!
# Levels of nesting

The reader of expressions counts the levels that are open.  What is in parentheses or stands as an
argument is read within a count of its own, which is dropped where it ends; the accesses and calls
of a row add up.  What the count comes to is `Expr.levels`.  An expression that is read has no more
levels than were allowed, and with fewer allowed it is still read if it does not need more,
`Expression.read_eq_read_iff`.  So the limit accepts the expressions of that many levels and no
others.
-/

namespace VersionSweep

namespace Expr

/-- The number of accesses and calls that an expression ends in. -/
def rowLength : Expr → Nat
  | .member object _ _ => object.rowLength + 1
  | .call callee _ _ => callee.rowLength + 1
  | _ => 0

end Expr

mutual

/-- The levels that have to be open at once for an expression to be read.  A call or an access opens
one for itself besides those of the row before it. -/
def Expr.levels : Expr → Nat
  | .number _ _ => 1
  | .string _ _ => 1
  | .bool _ _ => 1
  | .name _ => 1
  | .paren inner _ => inner.levels + 1
  | .member object _ _ => max object.levels (object.rowLength + 2)
  | .call callee arguments _ =>
    max callee.levels (callee.rowLength + 2 + Expr.levelsOfAll arguments)

def Expr.levelsOfAll : List Expr → Nat
  | [] => 0
  | e :: rest => max e.levels (Expr.levelsOfAll rest)

end

namespace Expr

theorem levelsOfAll_le_iff {arguments : List Expr} {n : Nat} :
    levelsOfAll arguments ≤ n ↔ ∀ e ∈ arguments, e.levels ≤ n := by
  induction arguments with
  | nil => simp [levelsOfAll]
  | cons e rest ih => rw [levelsOfAll, Nat.max_le, ih, List.forall_mem_cons]

theorem rowLength_lt_levels (e : Expr) : e.rowLength < e.levels := by
  cases e with
  | number | string | bool | name | paren => simp [rowLength, levels]
  | member object _ _ =>
    rw [rowLength, levels]
    omega
  | call callee arguments _ =>
    rw [rowLength, levels]
    omega

end Expr

namespace Reader

variable {α β : Type} {close : Char} {item item' : Reader α} {P : α → Prop} {s rest : Stream}
  {values : List α}

theorem bind_of_read {value : α} {f : α → Reader β} (h : item s = .read value rest) :
    (item >>= f) s = f value rest := by
  rw [bind_apply, h, Reading.bind_read]

theorem forall_of_separated (hitem : ∀ s value rest, item s = .read value rest → P value)
    (h : separated close item s = .read values rest) : ∀ value ∈ values, P value := by
  fun_induction separated close item s generalizing values with
  | case1 s hclosed =>
    obtain ⟨rfl, rfl⟩ := Reading.read.inj h
    simp
  | case2 s hopen finding rest hread => cases h
  | case3 s hopen value middle hread hcomma hshorter ih =>
    obtain ⟨others, hmore, rfl⟩ := map_eq_read h
    exact List.forall_mem_cons.2 ⟨hitem s value middle hread, ih hmore⟩
  | case4 s hopen value middle hread hcomma hlong =>
    obtain ⟨rfl, rfl⟩ := Reading.read.inj h
    simpa using hitem s value middle hread
  | case5 s hopen value middle hread hlast =>
    obtain ⟨rfl, rfl⟩ := Reading.read.inj h
    simpa using hitem s value middle hread

/-- A reader that reads the same items reads the same row of them. -/
theorem separated_congr
    (hitem : ∀ s value rest, item s = .read value rest → P value → item' s = .read value rest)
    (h : separated close item s = .read values rest) (hvalues : ∀ value ∈ values, P value) :
    separated close item' s = .read values rest := by
  fun_induction separated close item s generalizing values with
  | case1 s hclosed =>
    obtain ⟨rfl, rfl⟩ := Reading.read.inj h
    rw [separated, if_pos hclosed]
  | case2 s hopen finding rest hread => cases h
  | case3 s hopen value middle hread hcomma hshorter ih =>
    obtain ⟨others, hmore, rfl⟩ := map_eq_read h
    obtain ⟨hvalue, hothers⟩ := List.forall_mem_cons.1 hvalues
    rw [separated, if_neg hopen, hitem s value middle hread hvalue]
    simp only [hcomma, hshorter, ↓reduceIte, ↓reduceDIte, ih hmore hothers, Reading.map,
      Reading.bind_read]
  | case4 s hopen value middle hread hcomma hlong =>
    obtain ⟨rfl, rfl⟩ := Reading.read.inj h
    rw [separated, if_neg hopen, hitem s value middle hread (hvalues value (by simp))]
    simp only [hcomma, hlong, ↓reduceIte, ↓reduceDIte]
  | case5 s hopen value middle hread hlast =>
    obtain ⟨rfl, rfl⟩ := Reading.read.inj h
    rw [separated, if_neg hopen, hitem s value middle hread (hvalues value (by simp))]
    simp only [hlast, Bool.false_eq_true, ↓reduceIte]

end Reader

namespace Expression

open Reader

variable {levels : Nat} {value e : Expr} {s rest : Stream}

theorem suffixes_of_dot (h : s.next.isPunctuator '.' = true) :
    suffixes (levels + 1) value s = accessRest levels value s.skip := by
  rw [suffixes_succ, bind_apply, optionalPunctuator_of_true h]
  rfl

theorem suffixes_of_paren (hdot : ¬s.next.isPunctuator '.' = true)
    (h : s.next.isPunctuator '(' = true) :
    suffixes (levels + 1) value s = callRest levels value s.skip := by
  rw [suffixes_succ, bind_apply, optionalPunctuator_of_not hdot, Reading.bind_read,
    if_neg Bool.false_ne_true, bind_apply, optionalPunctuator_of_true h]
  rfl

theorem suffixes_of_end (hdot : ¬s.next.isPunctuator '.' = true)
    (h : ¬s.next.isPunctuator '(' = true) : suffixes levels value s = .read value s := by
  cases levels with
  | zero =>
    rw [suffixes, bind_apply, peek, Reading.bind_read, Bool.eq_false_iff.2 hdot,
      Bool.eq_false_iff.2 h]
    rfl
  | succ levels =>
    rw [suffixes_succ, bind_apply, optionalPunctuator_of_not hdot, Reading.bind_read,
      if_neg Bool.false_ne_true, bind_apply, optionalPunctuator_of_not h]
    rfl

/-- An access or a call that is read behind an expression, given how its arguments are read. -/
inductive GoesOn (argument : Reader Expr) (value : Expr) (s : Stream) : Expr → Stream → Prop
  | access {property : Ident} {rest : Stream} (hdot : s.next.isPunctuator '.' = true)
      (hproperty : ident s.skip = .read property rest) :
      GoesOn argument value s
        (.member value property ⟨value.span.start, property.span.stop⟩) rest
  | call {arguments : List Expr} {close : Token} {middle rest : Stream}
      (hdot : ¬s.next.isPunctuator '.' = true) (hparen : s.next.isPunctuator '(' = true)
      (harguments : separated ')' argument s.skip = .read arguments middle)
      (hclose : punctuator ')' middle = .read close rest) :
      GoesOn argument value s (.call value arguments ⟨value.span.start, close.span.stop⟩) rest

namespace GoesOn

variable {argument argument' : Reader Expr} {value' : Expr} {s' : Stream} {n : Nat}

theorem suffixes_eq (h : GoesOn (read levels) value s value' s') :
    suffixes (levels + 1) value s = suffixes levels value' s' := by
  cases h with
  | access hdot hproperty =>
    rw [suffixes_of_dot hdot]
    exact bind_of_read hproperty
  | call hdot hparen harguments hclose =>
    rw [suffixes_of_paren hdot hparen]
    exact (bind_of_read harguments).trans (bind_of_read hclose)

theorem rowLength_eq (h : GoesOn argument value s value' s') :
    value'.rowLength = value.rowLength + 1 := by
  cases h <;> rfl

theorem levels_le (h : GoesOn argument value s value' s') : value.levels ≤ value'.levels := by
  cases h with
  | access =>
    rw [Expr.levels]
    exact Nat.le_max_left _ _
  | call =>
    rw [Expr.levels]
    exact Nat.le_max_left _ _

theorem rowLength_add_two_le (h : GoesOn argument value s value' s') :
    value.rowLength + 2 ≤ value'.levels := by
  cases h with
  | access =>
    rw [Expr.levels]
    exact Nat.le_max_right _ _
  | call =>
    rw [Expr.levels]
    omega

theorem levels_le_max (h : GoesOn argument value s value' s')
    (hargument : ∀ s e rest, argument s = .read e rest → e.levels ≤ n) :
    value'.levels ≤ max value.levels (value.rowLength + 2 + n) := by
  cases h with
  | access =>
    rw [Expr.levels]
    omega
  | call hdot hparen harguments hclose =>
    have hall := Expr.levelsOfAll_le_iff.2 (forall_of_separated hargument harguments)
    rw [Expr.levels]
    omega

/-- The arguments are read again where each of them is. -/
theorem congr (h : GoesOn argument value s value' s')
    (hargument : ∀ s e rest, argument s = .read e rest →
      value.rowLength + 2 + e.levels ≤ value'.levels → argument' s = .read e rest) :
    GoesOn argument' value s value' s' := by
  cases h with
  | access hdot hproperty => exact .access hdot hproperty
  | call hdot hparen harguments hclose =>
    refine .call hdot hparen (separated_congr hargument harguments fun e he ↦ ?_) hclose
    have hle := Expr.levelsOfAll_le_iff.1 (Nat.le_refl _) e he
    rw [Expr.levels]
    omega

end GoesOn

theorem suffixes_zero_eq_read (h : suffixes 0 value s = .read e rest) :
    e = value ∧ rest = s ∧ ¬s.next.isPunctuator '.' = true ∧ ¬s.next.isPunctuator '(' = true := by
  rw [suffixes, bind_apply, peek, Reading.bind_read] at h
  split at h
  · cases h
  · rename_i hends
    obtain ⟨rfl, rfl⟩ := Reading.read.inj h
    rw [Bool.or_eq_true, not_or] at hends
    exact ⟨rfl, rfl, hends⟩

theorem suffixes_succ_eq_read (h : suffixes (levels + 1) value s = .read e rest) :
    (e = value ∧ rest = s ∧ ¬s.next.isPunctuator '.' = true ∧ ¬s.next.isPunctuator '(' = true) ∨
      ∃ value' s', GoesOn (read levels) value s value' s' ∧
        suffixes levels value' s' = .read e rest := by
  by_cases hdot : s.next.isPunctuator '.' = true
  · rw [suffixes_of_dot hdot] at h
    obtain ⟨property, middle, hproperty, h⟩ := bind_eq_read h
    exact .inr ⟨_, _, .access hdot hproperty, h⟩
  by_cases hparen : s.next.isPunctuator '(' = true
  · rw [suffixes_of_paren hdot hparen] at h
    obtain ⟨arguments, middle, harguments, h⟩ := bind_eq_read h
    obtain ⟨close, middle', hclose, h⟩ := bind_eq_read h
    exact .inr ⟨_, _, .call hdot hparen harguments hclose, h⟩
  · rw [suffixes_of_end hdot hparen] at h
    obtain ⟨rfl, rfl⟩ := Reading.read.inj h
    exact .inl ⟨rfl, rfl, hdot, hparen⟩

theorem levels_le_of_suffixes (h : suffixes levels value s = .read e rest) :
    value.levels ≤ e.levels := by
  induction levels generalizing value s with
  | zero =>
    obtain ⟨rfl, -⟩ := suffixes_zero_eq_read h
    exact Nat.le_refl _
  | succ levels ih =>
    obtain ⟨rfl, -⟩ | ⟨value', s', hgoes, h⟩ := suffixes_succ_eq_read h
    · exact Nat.le_refl _
    · exact Nat.le_trans hgoes.levels_le (ih h)

theorem rowLength_and_levels_of_atom? {token : Token} (h : atom? token = some e) :
    e.rowLength = 0 ∧ e.levels = 1 := by
  unfold atom? at h
  split at h
  · cases h
    exact ⟨rfl, rfl⟩
  · cases h
    exact ⟨rfl, rfl⟩
  · split at h
    · cases h
      exact ⟨rfl, rfl⟩
    · split at h
      · cases h
      · cases h
        exact ⟨rfl, rfl⟩
  · cases h

/-- What begins an expression is an atom, or an expression in parentheses; it ends in no row. -/
theorem primary_eq_read {inner : Reader Expr} (h : primary inner s = .read e rest) :
    (e.rowLength = 0 ∧ e.levels = 1 ∧ ∀ inner', primary inner' s = .read e rest) ∨
    ∃ value middle span, e = .paren value span ∧ inner s.skip = .read value middle ∧
      ∀ inner' : Reader Expr, inner' s.skip = .read value middle →
        primary inner' s = .read e rest := by
  unfold primary at h
  split at h
  · rename_i atom hatom
    obtain ⟨rfl, rfl⟩ := Reading.read.inj h
    obtain ⟨hrow, hlevels⟩ := rowLength_and_levels_of_atom? hatom
    exact .inl ⟨hrow, hlevels, fun inner' ↦ by rw [primary, hatom]⟩
  · rename_i hatom
    split at h
    · rename_i hparen
      obtain ⟨opening, s₁, hopening, h⟩ := bind_eq_read h
      obtain ⟨rfl, rfl⟩ := Reading.read.inj hopening
      obtain ⟨value, middle, hvalue, h⟩ := bind_eq_read h
      obtain ⟨closing, s₃, hclosing, h⟩ := bind_eq_read h
      obtain ⟨rfl, rfl⟩ := Reading.read.inj h
      refine .inr ⟨value, middle, _, rfl, hvalue, fun inner' hinner' ↦ ?_⟩
      rw [primary, hatom, if_pos hparen]
      exact (bind_of_read hinner').trans (bind_of_read hclosing)
    · cases h

theorem levels_le_of_read_and_suffixes (levels : Nat) :
    (∀ s e rest, read levels s = .read e rest → e.levels ≤ levels) ∧
      ∀ value s e rest bound, suffixes levels value s = .read e rest → value.levels ≤ bound →
        value.rowLength + 1 + levels ≤ bound → e.levels ≤ bound := by
  induction levels with
  | zero =>
    constructor
    · intro s e rest h
      rw [read] at h
      cases h
    · intro value s e rest bound h hvalue _
      obtain ⟨rfl, -⟩ := suffixes_zero_eq_read h
      exact hvalue
  | succ levels ih =>
    obtain ⟨ihread, ihsuffixes⟩ := ih
    constructor
    · intro s e rest h
      rw [read] at h
      obtain ⟨value, middle, hvalue, h⟩ := bind_eq_read h
      -- A row begins anew here, with the level that was opened for the expression.
      have hfirst : value.rowLength = 0 ∧ value.levels ≤ levels + 1 := by
        obtain ⟨hrow, hlevels, -⟩ | ⟨inner, _, span, rfl, hinner, -⟩ := primary_eq_read hvalue
        · omega
        · exact ⟨rfl, Nat.succ_le_succ (ihread _ _ _ hinner)⟩
      exact ihsuffixes value middle e rest _ h hfirst.2 (by omega)
    · intro value s e rest bound h hvalue hbound
      obtain ⟨rfl, -⟩ | ⟨value', s', hgoes, h⟩ := suffixes_succ_eq_read h
      · exact hvalue
      · have hrow := hgoes.rowLength_eq
        have hlevels := hgoes.levels_le_max ihread
        exact ihsuffixes value' s' e rest bound h (by omega) (by omega)

theorem read_and_suffixes_of_levels_le (levels : Nat) :
    (∀ s e rest n, read levels s = .read e rest → e.levels ≤ n → read n s = .read e rest) ∧
      ∀ value s e rest n, suffixes levels value s = .read e rest →
        e.levels ≤ value.rowLength + 1 + n → suffixes n value s = .read e rest := by
  induction levels with
  | zero =>
    constructor
    · intro s e rest n h
      rw [read] at h
      cases h
    · intro value s e rest n h _
      obtain ⟨rfl, rfl, hdot, hparen⟩ := suffixes_zero_eq_read h
      exact suffixes_of_end hdot hparen
  | succ levels ih =>
    obtain ⟨ihread, ihsuffixes⟩ := ih
    constructor
    · intro s e rest n h hn
      rw [read] at h
      obtain ⟨value, middle, hvalue, h⟩ := bind_eq_read h
      have hlevels := levels_le_of_suffixes h
      have hpos := e.rowLength_lt_levels
      obtain ⟨n, rfl⟩ : ∃ n', n = n' + 1 := Nat.exists_eq_add_one.2 (by omega)
      have hprimary : primary (read n) s = .read value middle := by
        obtain ⟨-, -, hread⟩ | ⟨inner, middle', span, rfl, hinner, hread⟩ :=
          primary_eq_read hvalue
        · exact hread _
        · rw [Expr.levels] at hlevels
          exact hread _ (ihread _ _ _ n hinner (by omega))
      rw [read, bind_of_read hprimary]
      exact ihsuffixes value middle e rest n h (by omega)
    · intro value s e rest n h hn
      obtain ⟨rfl, rfl, hdot, hparen⟩ | ⟨value', s', hgoes, h⟩ := suffixes_succ_eq_read h
      · exact suffixes_of_end hdot hparen
      have hlevels := levels_le_of_suffixes h
      have htwo := hgoes.rowLength_add_two_le
      have hrow := hgoes.rowLength_eq
      obtain ⟨n, rfl⟩ : ∃ n', n = n' + 1 := Nat.exists_eq_add_one.2 (by omega)
      have hgoes' : GoesOn (read n) value s value' s' :=
        hgoes.congr fun s e rest hread hle ↦ ihread s e rest n hread (by omega)
      rw [hgoes'.suffixes_eq]
      exact ihsuffixes value' s' e rest n h (by omega)

/-- Among the expressions that can be read at all, the limit accepts those with that many levels. -/
theorem read_eq_read_iff {n : Nat} (h : read levels s = .read e rest) :
    read n s = .read e rest ↔ e.levels ≤ n :=
  ⟨(levels_le_of_read_and_suffixes n).1 s e rest,
    (read_and_suffixes_of_levels_le levels).1 s e rest n h⟩

end Expression

def Statement.expression? : Statement → Option Expr
  | .var decl => decl.init
  | .importNames _ => none
  | .expr value _ => some value

namespace Parsing

open Reader

variable {s rest : Stream} {start : Nat}

def HoldsRead (statement : Statement) : Prop :=
  ∀ e ∈ statement.expression?, ∃ s rest, Expression.expression s = .read e rest

theorem mem_of_after {α : Type} {c : Char} {reader : Reader α} {found : Option α}
    (h : after c reader s = .read found rest) :
    ∀ value ∈ found, ∃ s rest, reader s = .read value rest := by
  obtain ⟨present, middle, -, h⟩ := bind_eq_read h
  split at h
  · obtain ⟨value, middle', hvalue, h⟩ := bind_eq_read h
    obtain ⟨rfl, rfl⟩ := Reading.read.inj h
    rintro _ ⟨⟩
    exact ⟨_, _, hvalue⟩
  · obtain ⟨rfl, rfl⟩ := Reading.read.inj h
    simp

theorem holdsRead_varDeclRest {exported ambient : Bool} {keyword : VarKeyword} {st : Statement}
    (h : varDeclRest start exported ambient keyword s = .read st rest) : HoldsRead st := by
  obtain ⟨name, s₁, -, h⟩ := bind_eq_read h
  obtain ⟨written, s₂, -, h⟩ := bind_eq_read h
  obtain ⟨init, s₃, hinit, h⟩ := bind_eq_read h
  obtain ⟨stop, s₄, -, h⟩ := bind_eq_read h
  obtain ⟨rfl, rfl⟩ := Reading.read.inj h
  exact mem_of_after hinit

theorem holdsRead_importRest {st : Statement} (h : importRest start s = .read st rest) :
    HoldsRead st := by
  obtain ⟨_, s₁, -, h⟩ := bind_eq_read h
  obtain ⟨names, s₂, -, h⟩ := bind_eq_read h
  obtain ⟨_, s₃, -, h⟩ := bind_eq_read h
  obtain ⟨_, s₄, -, h⟩ := bind_eq_read h
  obtain ⟨name, s₅, -, h⟩ := bind_eq_read h
  obtain ⟨stop, s₆, -, h⟩ := bind_eq_read h
  obtain ⟨rfl, rfl⟩ := Reading.read.inj h
  simp [HoldsRead, Statement.expression?]

theorem holdsRead_exprStatement {st : Statement} (h : exprStatement start s = .read st rest) :
    HoldsRead st := by
  obtain ⟨value, s₁, hvalue, h⟩ := bind_eq_read h
  obtain ⟨stop, s₂, -, h⟩ := bind_eq_read h
  obtain ⟨rfl, rfl⟩ := Reading.read.inj h
  rintro _ ⟨⟩
  exact ⟨_, _, hvalue⟩

theorem holdsRead_otherStatement {st : Statement} (h : otherStatement start s = .read st rest) :
    HoldsRead st := by
  obtain ⟨exported, s₁, -, h⟩ := bind_eq_read h
  obtain ⟨ambient, s₂, -, h⟩ := bind_eq_read h
  unfold declarationOrExpression at h
  split at h
  · exact holdsRead_varDeclRest h
  · split at h
    · cases h
    · exact holdsRead_exprStatement h

theorem holdsRead_statement {st : Statement} (h : statement s = .read (some st) rest) :
    HoldsRead st := by
  unfold statement at h
  split at h
  · cases h
  · split at h
    · obtain ⟨found, hfound, ⟨⟩⟩ := map_eq_read h
      exact holdsRead_importRest hfound
    · obtain ⟨found, hfound, ⟨⟩⟩ := map_eq_read h
      exact holdsRead_otherStatement hfound

theorem holdsRead_step (s : Stream) : ∀ st ∈ (step s).1.statement?, HoldsRead st := by
  unfold step
  split
  · rename_i value rest hread
    rintro _ ⟨⟩
    exact holdsRead_statement hread
  · rintro _ ⟨⟩
  · rintro _ ⟨⟩

theorem holdsRead_items (s : Stream) :
    ∀ item ∈ items s, ∀ st ∈ item.statement?, HoldsRead st := by
  fun_induction items s with
  | case1 s hs => simp
  | case2 s hs ih => exact List.forall_mem_cons.2 ⟨holdsRead_step s, ih⟩

end Parsing

namespace SourceFile

def expressions (file : SourceFile) : List Expr :=
  file.statements.filterMap Statement.expression?

theorem exists_read_of_mem_expressions {name text : String} {target : Int} {e : Expr}
    (h : e ∈ (parse name text target).expressions) :
    ∃ s rest, Expression.expression s = .read e rest := by
  obtain ⟨st, hst, he⟩ := List.mem_filterMap.1 h
  obtain ⟨item, hitem, hst⟩ := List.mem_filterMap.1 hst
  exact Parsing.holdsRead_items _ item hitem st hst e he

theorem levels_le_of_mem_expressions {name text : String} {target : Int} {e : Expr}
    (h : e ∈ (parse name text target).expressions) : e.levels ≤ Expression.nestingLimit := by
  obtain ⟨s, rest, hread⟩ := exists_read_of_mem_expressions h
  exact (Expression.read_eq_read_iff hread).1 hread

end SourceFile

end VersionSweep
