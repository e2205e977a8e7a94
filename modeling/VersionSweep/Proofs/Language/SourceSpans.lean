import VersionSweep.Proofs.Language.Building

/-!
# Spans of a source file

Every statement that is read is built from tokens, and every failure is about a token, also after
the reading has gone on behind a failure.  `SourceFile.sound_parse` draws the conclusion for the
tokens of a text: all spans and findings of a file lie within its text.
-/

namespace VersionSweep

section Text

variable {cs : List Char}

theorem Span.Frames.within {span : Span} {parts : List Span}
    (h : span.Frames (Token.StandsIn cs) parts) : span.Within cs := by
  refine ⟨h.row.le, ?_, ?_⟩
  · obtain ⟨token, htoken, hstart⟩ := h.start
    exact hstart ▸ htoken.within.start
  · rcases h.stop with hstop | ⟨token, htoken, hstop⟩
    · exact hstop ▸ Text.boundary_zero cs
    · exact hstop ▸ htoken.within.stop

theorem Ident.Of.within {ident : Ident} (h : ident.Of (Token.StandsIn cs)) :
    ident.span.Within cs := by
  obtain ⟨token, htoken, -, -, hspan⟩ := h
  exact hspan ▸ htoken.within

theorem Expr.Built.within {e : Expr} (h : e.Built (Token.StandsIn cs)) : e.span.Within cs := by
  cases e with
  | number text span =>
    obtain ⟨token, htoken, -, -, rfl⟩ := h
    exact htoken.within
  | string value span =>
    obtain ⟨token, htoken, -, -, rfl⟩ := h
    exact htoken.within
  | bool value span =>
    obtain ⟨token, htoken, -, rfl⟩ := h
    exact htoken.within
  | name ident => exact Ident.Of.within h
  | paren inner span => exact h.2.within
  | member object property span => exact h.2.2.within
  | call callee arguments span => exact h.2.2.within

end Text

variable {T : Token → Prop}

theorem Stream.orderly_ofScan (cs : List Char) :
    (Stream.ofScan (Token.scan 0 cs)).Orderly (Token.StandsIn cs) :=
  have hscan := Token.orderly_scan cs
  ⟨hscan.tokens, hscan.row, hscan.finish, .inl rfl⟩

namespace Parsing

open Reader

variable {s : Stream}

theorem from_terminator (h : s.Orderly T) :
    (terminator s).From T s.lastStop fun stop rest ↦ stop = rest.lastStop := by
  unfold terminator
  split
  · rename_i hend
    exact from_skip h (Stream.lastStop_skip (Stream.ne_nil_of_isPunctuator hend)).symm
  · split
    · exact from_pure h rfl
    · exact from_failHere h

theorem from_after {α : Type} {c : Char} {reader : Reader α} {P : α → Prop} {span : α → Span}
    (hreader : ∀ s : Stream, s.Orderly T → (reader s).From T s.lastStop fun value rest ↦
      P value ∧ (span value).Took s.lastStop rest) (h : s.Orderly T) :
    (after c reader s).From T s.lastStop fun found rest ↦
      (∀ value ∈ found, P value) ∧
        Span.Row rest.lastStop s.lastStop (found.map span).toList := by
  unfold after
  rw [bind_apply]
  refine (from_optionalPunctuator c h).bind ?_
  rintro found middle hmiddle hlow -
  split
  · refine (hreader middle hmiddle).bind ?_
    rintro value rest hrest - ⟨hvalue, htook⟩
    exact from_pure hrest ⟨by simpa using hvalue, htook.row.mono hlow (Nat.le_refl _)⟩
  · exact from_pure hmiddle ⟨by simp, hlow⟩

theorem from_varDeclRest {start : Nat} {exported ambient : Bool} {keyword : VarKeyword}
    (h : s.Orderly T) (hstart : ∃ token, T token ∧ token.span.start = start)
    (hle : start ≤ s.lastStop) :
    (varDeclRest start exported ambient keyword s).From T s.lastStop fun found _ ↦
      found.Built T := by
  unfold varDeclRest
  rw [bind_apply]
  refine (from_ident h).bind ?_
  rintro name s₁ h₁ - ⟨hname, htook⟩
  refine (from_after (fun s hs ↦ from_ident hs) h₁).bind ?_
  rintro annotation s₂ h₂ - ⟨hwritten, hrow₂⟩
  refine (from_after Expression.readsExpr_expression.took h₂).bind ?_
  rintro init s₃ h₃ - ⟨hinit, hrow₃⟩
  refine (from_terminator h₃).bind ?_
  rintro stop rest hrest hlow rfl
  refine from_pure hrest ⟨hname, hwritten, hinit, hstart, hrest.lastStop, ?_⟩
  exact (htook.row.append (hrow₂.append hrow₃)).mono hle hlow

theorem from_moduleName (h : s.Orderly T) :
    (moduleName s).From T s.lastStop fun token rest ↦
      T token ∧ token.kind = .string ∧ token.span.Took s.lastStop rest := by
  unfold moduleName
  split
  · rename_i hkind
    have hs : s.tokens ≠ [] := Stream.ne_nil_of_kind_ne (by rw [hkind]; simp)
    exact from_skip h ⟨h.next, hkind, took_next h hs⟩
  · exact from_failHere h

theorem from_requiredWord (word : String) (h : s.Orderly T) :
    (requiredWord word s).From T s.lastStop fun _ _ ↦ True := by
  unfold requiredWord
  rw [bind_apply]
  refine (from_optionalWord word h).bind ?_
  rintro found rest hrest - -
  split
  · exact from_pure hrest trivial
  · exact from_failHere hrest

theorem from_importRest {start : Nat} (h : s.Orderly T)
    (hstart : ∃ token, T token ∧ token.span.start = start) (hle : start ≤ s.lastStop) :
    (importRest start s).From T s.lastStop fun found _ ↦ found.Built T := by
  unfold importRest
  rw [bind_apply]
  refine (from_punctuator _ h).bind ?_
  rintro - s₁ h₁ hlow₁ -
  refine (from_separated (fun s hs ↦ from_ident hs) h₁).bind ?_
  rintro names s₂ h₂ - ⟨hnames, hrow⟩
  refine (from_punctuator _ h₂).bind ?_
  rintro - s₃ h₃ hlow₃ -
  refine (from_requiredWord _ h₃).bind ?_
  rintro - s₄ h₄ hlow₄ -
  refine (from_moduleName h₄).bind ?_
  rintro name s₅ h₅ - ⟨hname, hkind, htook⟩
  refine (from_terminator h₅).bind ?_
  rintro stop rest hrest hlow rfl
  have hspecifier := htook.row.mono (Nat.le_trans hlow₃ hlow₄) hlow
  refine from_pure hrest ⟨hnames, ⟨name, hname, hkind, rfl, rfl⟩, hstart, hrest.lastStop, ?_⟩
  exact (hrow.append hspecifier).mono (Nat.le_trans hle hlow₁) (Nat.le_refl _)

theorem from_exprStatement {start : Nat} (h : s.Orderly T)
    (hstart : ∃ token, T token ∧ token.span.start = start) (hle : start ≤ s.next.span.start) :
    (exprStatement start s).From T s.lastStop fun found _ ↦ found.Built T := by
  unfold exprStatement
  rw [bind_apply]
  refine (Expression.readsExpr_expression s h).bind ?_
  rintro value s₁ h₁ - ⟨hvalue, hvalueStart, htook⟩
  refine (from_terminator h₁).bind ?_
  rintro stop rest hrest hlow rfl
  refine from_pure hrest ⟨hvalue, hstart, hrest.lastStop, ?_⟩
  exact ⟨hvalueStart ▸ hle, htook.le, htook.stop ▸ hlow⟩

theorem from_declarationOrExpression {start : Nat} {exported ambient : Bool} (h : s.Orderly T)
    (hstart : ∃ token, T token ∧ token.span.start = start) (hle : start ≤ s.next.span.start) :
    (declarationOrExpression start exported ambient s).From T s.lastStop fun found _ ↦
      found.Built T := by
  unfold declarationOrExpression
  split
  · rename_i keyword hkeyword
    have hskip := Stream.lastStop_skip (ne_nil_of_varKeyword? hkeyword)
    refine (from_varDeclRest h.skip hstart ?_).mono h.lastStop_le_skip fun _ _ _ _ hq ↦ hq
    exact hskip ▸ Nat.le_trans hle h.next_le
  · split
    · exact from_failHere h
    · exact from_exprStatement h hstart hle

theorem from_otherStatement (h : s.Orderly T) :
    (otherStatement s.next.span.start s).From T s.lastStop fun found _ ↦ found.Built T := by
  unfold otherStatement
  rw [bind_apply]
  refine (from_optionalWord _ h).bind ?_
  rintro exported s₁ h₁ - hexported
  refine (from_optionalWord _ h₁).bind ?_
  rintro ambient s₂ h₂ - hambient
  refine from_declarationOrExpression h₂ ⟨s.next, h.next, rfl⟩ ?_
  exact Nat.le_trans (Optional.next_le h hexported) (Optional.next_le h₁ hambient)

theorem from_statement (h : s.Orderly T) :
    (statement s).From T s.lastStop fun found _ ↦ ∀ value ∈ found, value.Built T := by
  unfold statement
  split
  · exact from_skip h (by simp)
  · split
    · rename_i hword
      have hskip := Stream.lastStop_skip (Stream.ne_nil_of_isWord hword)
      refine ((from_importRest h.skip ⟨s.next, h.next, rfl⟩ ?_).map ?_).mono
        h.lastStop_le_skip fun _ _ _ _ hq ↦ hq
      · exact hskip ▸ h.next_le
      · rintro value - - - hvalue
        simpa using hvalue
    · refine (from_otherStatement h).map ?_
      rintro value - - - hvalue
      simpa using hvalue

def Item.Built (T : Token → Prop) : Item → Prop
  | .statement value => value.Built T
  | .finding value => ∃ token, T token ∧ token.span = value.span
  | .empty => True

theorem built_step (h : s.Orderly T) : (step s).1.Built T := by
  have hread := from_statement h
  unfold step
  cases hs : statement s with
  | failed finding rest =>
    rw [hs] at hread
    exact hread.2.2
  | read found rest =>
    rw [hs] at hread
    cases found with
    | none => trivial
    | some value => exact hread.2.2 value rfl

theorem built_items (h : s.Orderly T) : ∀ item ∈ items s, item.Built T := by
  fun_induction items s with
  | case1 s hs => exact nofun
  | case2 s hs ih =>
    exact List.forall_mem_cons.2 ⟨built_step h, ih ((leaves_step s).orderly h)⟩

end Parsing

namespace SourceFile

structure Sound (file : SourceFile) : Prop where
  statements : ∀ statement ∈ file.statements, statement.Built (Token.StandsIn file.text.toList)
  findings : ∀ finding ∈ file.findings, finding.span.Within file.text.toList

theorem Sound.le_of_mem_findings {file : SourceFile} (h : file.Sound) :
    ∀ finding ∈ file.findings, finding.span.start ≤ finding.span.stop :=
  fun finding hfinding ↦ (h.findings finding hfinding).le

theorem mem_sort {finding : Finding} {findings : List Finding} :
    finding ∈ Finding.sort findings ↔ finding ∈ findings :=
  List.mem_mergeSort

/-- Where nothing is wrong with a file, neither its scan nor any round of reading found anything. -/
theorem clean_of_findings_eq_nil {name text : String} {target : Int}
    (hclean : (parse name text target).findings = []) :
    (Token.scan 0 text.toList).findings = [] ∧
      ∀ item ∈ Parsing.items (Stream.ofScan (Token.scan 0 text.toList)), item.finding? = none := by
  have hnone (finding : Finding) : finding ∉ (Token.scan 0 text.toList).findings ++
      (Parsing.items (Stream.ofScan (Token.scan 0 text.toList))).filterMap
        Parsing.Item.finding? := by
    intro hfinding
    have hsorted : finding ∈ (parse name text target).findings := mem_sort.2 hfinding
    rw [hclean] at hsorted
    cases hsorted
  refine ⟨List.eq_nil_iff_forall_not_mem.2 fun finding h ↦
    hnone finding (List.mem_append_left _ h), fun item hitem ↦ ?_⟩
  cases hfinding : item.finding? with
  | none => rfl
  | some finding =>
    have hmem := List.mem_filterMap.2 ⟨item, hitem, hfinding⟩
    exact absurd (List.mem_append_right _ hmem) (hnone finding)

theorem sound_parse (name text : String) (target : Int) : (parse name text target).Sound := by
  have hscan := Token.orderly_scan text.toList
  have hitems := Parsing.built_items (Stream.orderly_ofScan text.toList)
  refine ⟨fun statement hstatement ↦ ?_, fun finding hfinding ↦ ?_⟩
  · obtain ⟨item, hitem, hvalue⟩ := List.mem_filterMap.1 hstatement
    have hbuilt := hitems item hitem
    cases item with
    | statement value =>
      obtain rfl := Option.some.inj hvalue
      exact hbuilt
    | finding value => cases hvalue
    | empty => cases hvalue
  · rcases List.mem_append.1 (mem_sort.1 hfinding) with hfinding | hfinding
    · exact hscan.findings finding hfinding
    · obtain ⟨item, hitem, hvalue⟩ := List.mem_filterMap.1 hfinding
      have hbuilt := hitems item hitem
      cases item with
      | finding value =>
        obtain rfl := Option.some.inj hvalue
        obtain ⟨token, htoken, hspan⟩ := hbuilt
        exact hspan ▸ htoken.within
      | statement value => cases hvalue
      | empty => cases hvalue

end SourceFile

end VersionSweep
