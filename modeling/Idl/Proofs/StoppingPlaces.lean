import Idl.Proofs.Lookahead
import Idl.Proofs.ViablePrefixes

/-!
# Where each construct stops

Each parsing function takes off a sentence of its part of the grammar or stops within one. Only a
directive behind a declaration is reported as such.
-/
namespace Idl

namespace Grammar
open Computability

variable {language : Language TokenKind}

theorem Begins.nil_notMem {sort : TokenKind → Prop} (h : Begins sort language) : [] ∉ language := by
  intro hnil
  obtain ⟨kind, rest, heq, -⟩ := h [] hnil
  cases heq

theorem items_mul_eq (item after : Language TokenKind) :
    items item * after = item * (optional separator * (items item * after)) + after := by
  conv_lhs => rw [items, ← Language.one_add_self_mul_kstar_eq_kstar]
  rw [add_mul, one_mul, mul_assoc, mul_assoc, add_comm, items]

/-- The kinds that directives begin with. -/
def IsHeader (kind : TokenKind) : Prop :=
  kind = .keyword .naming ∨ kind = .keyword .inclusion

theorem IsHeader.starts {kind : TokenKind} (h : IsHeader kind) : Starts kind := by
  rcases h with rfl | rfl
  · exact Keyword.noConfusion
  · exact Keyword.noConfusion

end Grammar

namespace Parser
open Grammar Computability

variable {α β : Type} {input : List Token} {s : ParserState} {bound : Nat}
  {language : Language TokenKind}

theorem follows_identifier (what : String) :
    Follows input bound (token .identifier) (identifier what) := by
  intro s hs _
  unfold identifier
  refine .current hs ?_
  split
  · next h =>
    exact .leaf hs (congrArg Lexeme.kind h) TokenKind.noConfusion (.node fun _ => .pure _)
  · exact .expected hs what

theorem follows_integerLiteral (what : String) :
    Follows input bound (token .integer) (integerLiteral what) := by
  intro s hs _
  unfold integerLiteral
  refine .current hs ?_
  split
  · next h =>
    exact .leaf hs (congrArg Lexeme.kind h) TokenKind.noConfusion (.node fun _ => .pure _)
  · exact .expected hs what

theorem follows_stringLiteral (what : String) :
    Follows input bound (token .string) (stringLiteral what) := by
  intro s hs _
  unfold stringLiteral
  refine .current hs ?_
  split
  · next h =>
    exact .leaf hs (congrArg Lexeme.kind h) TokenKind.noConfusion (.node fun _ => .pure _)
  · exact .expected hs what

theorem follows_terminated [Productive language] {item : Parser α} (hnil : [] ∉ language)
    (hitem : Follows input bound language item) (closing : Mark) (what : String) :
    Follows input bound (items language * mark closing) (terminated item closing what bound) := by
  suffices h : ∀ fuel, fuel ≤ bound → Follows input fuel (items language * mark closing)
      (terminated item closing what fuel) from h bound le_rfl
  intro fuel
  induction fuel with
  | zero => exact fun _ => .zero
  | succ fuel ih =>
    intro hbound
    rw [terminated, items_mul_eq, ← mul_one (mark closing)]
    refine .accept TokenKind.noConfusion (.pure []) (.kind fun kind => ?_)
    split
    · exact .expected_bind what _
    · refine (hitem.mono hbound).bind_fewer hnil fun first => ?_
      refine follows_separator.bind fun _ => ?_
      rw [mul_one]
      exact (ih (Nat.le_of_succ_le hbound)).last fun rest => .pure _

theorem follows_dotted [Productive language] {item : Parser α}
    (hitem : Follows input bound language item) :
    Follows input bound (mark .dot * language)∗ (dotted item bound) := by
  suffices h : ∀ fuel, fuel ≤ bound → Follows input fuel (mark .dot * language)∗
      (dotted item fuel) from h bound le_rfl
  intro fuel
  induction fuel with
  | zero => exact fun _ => .zero
  | succ fuel ih =>
    intro hbound
    have hle := Nat.le_of_succ_le hbound
    rw [dotted, ← Language.one_add_self_mul_kstar_eq_kstar, mul_assoc, clause, bind_assoc]
    refine .accept TokenKind.noConfusion ((hitem.mono hle).map.bind fun next => ?_) (.pure [])
    cases next with
    | none => exact (Follows.pure []).of_le fun _ h => h ▸ Language.nil_mem_kstar _
    | some next => exact (ih hle).last fun rest => .pure _

/-- The first identifier of a name takes no fuel. -/
theorem follows_name (fuel : Nat) : Follows input (fuel + 1) Grammar.dotted (name fuel) := by
  unfold name
  refine .position fun start => ?_
  refine (follows_identifier "name").bind_fewer nil_notMem_token fun head => ?_
  exact (follows_dotted (follows_identifier "name")).last fun tail => .node fun _ => .pure _

theorem follows_typeRef (fuel : Nat) : Follows input fuel type (typeRef fuel) := by
  induction fuel with
  | zero => exact .zero
  | succ fuel ih =>
    have hlist : keyword .list * (mark .less * (type * mark .greater)) ≤ type := by
      simpa only [mul_assoc] using list_le_type
    have hmap : keyword .map * (mark .less * (type * (mark .comma * (type * mark .greater)))) ≤
        type := by
      simpa only [mul_assoc] using map_le_type
    intro s hs hbound
    rw [typeRef]
    refine .position hs (.kind hs ?_)
    split
    · next hkind =>
      refine (FollowsAt.step hs hbound hkind TokenKind.noConfusion ?_).of_le hlist
      refine (follows_expect TokenKind.noConfusion _).bind fun _ => ?_
      refine ih.bind fun element => ?_
      exact (follows_expect TokenKind.noConfusion _).last fun _ => .node fun _ => .pure _
    · next hkind =>
      refine (FollowsAt.step hs hbound hkind TokenKind.noConfusion ?_).of_le hmap
      refine (follows_expect TokenKind.noConfusion _).bind fun _ => ?_
      refine ih.bind fun key => (follows_expect TokenKind.noConfusion _).bind fun _ => ?_
      refine ih.bind fun value => ?_
      exact (follows_expect TokenKind.noConfusion _).last fun _ => .node fun _ => .pure _
    · next word _ _ hkind =>
      split
      · next builtin hbuiltin =>
        obtain rfl := keyword_of_builtin? hbuiltin
        refine (FollowsAt.leaf hs hkind TokenKind.noConfusion (.node fun _ => .pure _)).of_le ?_
        rintro _ rfl
        exact .builtin builtin
      · exact .expected hs _
    · refine ((follows_name fuel).last fun path => .pure _).of_le ?_ s hs hbound
      exact fun _ h => .dotted h
    · exact .expected hs _

theorem follows_mapEntry {item : Parser Expr} (hitem : Follows input bound value item) :
    Follows input bound entry (mapEntry item) := by
  rw [entry, mul_assoc]
  unfold mapEntry
  refine hitem.bind fun key => (follows_expect TokenKind.noConfusion _).bind fun _ => ?_
  exact hitem.last fun value => .pure _

theorem follows_expr (fuel : Nat) : Follows input fuel value (expr fuel) := by
  induction fuel with
  | zero => exact .zero
  | succ fuel ih =>
    have hlist : mark .openBracket * (items value * mark .closeBracket) ≤ value := by
      simpa only [enclosed, mul_assoc] using list_le_value
    have hmap : mark .openBrace * (items entry * mark .closeBrace) ≤ value := by
      simpa only [enclosed, mul_assoc] using map_le_value
    intro s hs hbound
    rw [expr]
    refine .position hs (.kind hs ?_)
    split
    · refine ((follows_integerLiteral _).last fun literal => .pure _).of_le ?_ s hs hbound
      rintro _ rfl
      exact .integer
    · refine ((follows_stringLiteral _).last fun literal => .pure _).of_le ?_ s hs hbound
      rintro _ rfl
      exact .string
    · next hkind =>
      refine (FollowsAt.leaf hs hkind TokenKind.noConfusion (.node fun _ => .pure _)).of_le ?_
      rintro _ rfl
      exact .truth
    · next hkind =>
      refine (FollowsAt.leaf hs hkind TokenKind.noConfusion (.node fun _ => .pure _)).of_le ?_
      rintro _ rfl
      exact .falsehood
    · next hkind =>
      refine (FollowsAt.step hs hbound hkind TokenKind.noConfusion ?_).of_le hlist
      exact (follows_terminated begins_value.nil_notMem ih _ _).last fun _ => .node fun _ => .pure _
    · next hkind =>
      refine (FollowsAt.step hs hbound hkind TokenKind.noConfusion ?_).of_le hmap
      exact (follows_terminated begins_entry.nil_notMem (follows_mapEntry ih) _ _).last
        fun _ => .node fun _ => .pure _
    · refine ((follows_name fuel).last fun path => .pure _).of_le ?_ s hs hbound
      exact fun _ h => .dotted h
    · exact .expected hs _

theorem follows_order : Follows input bound Grammar.order order := by
  unfold order
  refine .kind fun kind => ?_
  split
  · refine ((follows_integerLiteral _).bind fun literal => ?_).of_le fun _ h => .inr h
    exact (follows_expect TokenKind.noConfusion _).last fun _ => .pure _
  · exact (Follows.pure none).of_le fun _ h => .inl h

theorem follows_enumEntry : Follows input bound Grammar.enumEntry enumEntry := by
  unfold enumEntry
  refine .position fun start => (follows_identifier _).bind fun name => ?_
  exact (follows_clause TokenKind.noConfusion (follows_integerLiteral _)).last
    fun value => .node fun _ => .pure _

theorem follows_requiredness :
    Follows input bound (optional (keyword .required + keyword .optional)) requiredness := by
  have h : Follows input (bound + 1)
      (1 + keyword .optional * 1 + keyword .required * 1) requiredness :=
    .accept TokenKind.noConfusion (.pure _) (.accept TokenKind.noConfusion (.pure _) (.pure _))
  rw [mul_one, mul_one, add_assoc, add_comm (keyword .optional)] at h
  exact h.mono (Nat.le_succ bound)

theorem follows_field (fuel : Nat) : Follows input fuel Grammar.field (field fuel) := by
  simp only [Grammar.field, mul_assoc]
  unfold field
  refine .position fun start => follows_order.bind fun order => ?_
  refine follows_requiredness.bind fun requiredness => ?_
  refine (follows_typeRef fuel).bind fun type => (follows_identifier _).bind fun name => ?_
  exact (follows_clause TokenKind.noConfusion (follows_expr fuel)).last
    fun default => .node fun _ => .pure _

theorem follows_argument (fuel : Nat) : Follows input fuel Grammar.argument (argument fuel) := by
  simp only [Grammar.argument, mul_assoc]
  unfold argument
  refine .position fun start => follows_order.bind fun order => ?_
  refine (follows_typeRef fuel).bind fun type => ?_
  exact (follows_identifier _).last fun name => .node fun _ => .pure _

theorem follows_method (fuel : Nat) : Follows input fuel Grammar.method (method fuel) := by
  have harguments (what : String) : Follows input fuel (items Grammar.argument * mark .closeParen)
      (terminated (argument fuel) .closeParen what fuel) :=
    follows_terminated begins_argument.nil_notMem (follows_argument fuel) .closeParen what
  simp only [Grammar.method, enclosed, mul_assoc]
  unfold method
  refine .position fun start => (follows_accept TokenKind.noConfusion).bind fun oneway => ?_
  refine (follows_typeRef fuel).bind fun returns => (follows_identifier _).bind fun name => ?_
  refine (follows_expect TokenKind.noConfusion _).bind fun _ => ?_
  rw [← mul_assoc]
  refine (harguments _).bind fun arguments => ?_
  refine (follows_clause TokenKind.noConfusion ?_).last fun throws => .node fun _ => .pure _
  exact (follows_expect TokenKind.noConfusion _).bind fun _ => harguments _

theorem follows_constantDecl (fuel : Nat) (hs : s.Ready input) (hfuel : s.tokens.length ≤ fuel)
    (hkind : s.current.kind = .keyword .const) :
    FollowsAt input constant (Within constant) (constantDecl fuel) s := by
  simp only [constant, mul_assoc]
  unfold constantDecl
  refine .position hs (.step hs (hfuel.trans (Nat.le_succ fuel)) hkind TokenKind.noConfusion ?_)
  refine (follows_typeRef fuel).bind fun type => (follows_identifier _).bind fun name => ?_
  refine (follows_expect TokenKind.noConfusion _).bind fun _ => ?_
  exact (follows_expr fuel).last fun value => .node fun _ => .pure _

theorem follows_typedefDecl (fuel : Nat) (hs : s.Ready input) (hfuel : s.tokens.length ≤ fuel)
    (hkind : s.current.kind = .keyword .typedef) :
    FollowsAt input typedef (Within typedef) (typedefDecl fuel) s := by
  simp only [typedef, mul_assoc]
  unfold typedefDecl
  refine .position hs (.step hs (hfuel.trans (Nat.le_succ fuel)) hkind TokenKind.noConfusion ?_)
  refine (follows_typeRef fuel).bind fun type => ?_
  exact (follows_identifier _).last fun name => .node fun _ => .pure _

theorem follows_enumDecl (fuel : Nat) (hs : s.Ready input) (hfuel : s.tokens.length ≤ fuel)
    (hkind : s.current.kind = .keyword .enum) :
    FollowsAt input enum (Within enum) (enumDecl fuel) s := by
  simp only [enum, enclosed, mul_assoc]
  unfold enumDecl
  refine .position hs (.step hs (hfuel.trans (Nat.le_succ fuel)) hkind TokenKind.noConfusion ?_)
  refine (follows_identifier _).bind fun name => ?_
  refine (follows_expect TokenKind.noConfusion _).bind fun _ => ?_
  exact (follows_terminated begins_enumEntry.nil_notMem follows_enumEntry _ _).last
    fun entries => .node fun _ => .pure _

theorem follows_structDecl (kind : StructKind) (fuel : Nat) (hs : s.Ready input)
    (hfuel : s.tokens.length ≤ fuel) (hkind : s.current.kind = .keyword kind.keyword) :
    FollowsAt input struct (Within struct) (structDecl kind fuel) s := by
  have hle : keyword kind.keyword * (token .identifier *
      (mark .openBrace * (items Grammar.field * mark .closeBrace))) ≤ struct := by
    simp only [struct, enclosed, mul_assoc]
    rintro _ ⟨word, hword, rest, hrest, rfl⟩
    refine Language.append_mem_mul ?_ hrest
    cases kind with
    | struct => exact .inl hword
    | exception => exact .inr hword
  unfold structDecl
  refine .position hs (FollowsAt.of_le (.step hs (hfuel.trans (Nat.le_succ fuel)) hkind
    TokenKind.noConfusion ?_) hle)
  refine (follows_identifier _).bind fun name => ?_
  refine (follows_expect TokenKind.noConfusion _).bind fun _ => ?_
  exact (follows_terminated begins_field.nil_notMem (follows_field fuel) _ _).last
    fun fields => .node fun _ => .pure _

theorem follows_serviceDecl (fuel : Nat) (hs : s.Ready input) (hfuel : s.tokens.length ≤ fuel)
    (hkind : s.current.kind = .keyword .service) :
    FollowsAt input service (Within service) (serviceDecl fuel) s := by
  simp only [service, enclosed, mul_assoc]
  unfold serviceDecl
  refine .position hs (.step hs (hfuel.trans (Nat.le_succ fuel)) hkind TokenKind.noConfusion ?_)
  refine (follows_identifier _).bind fun name => ?_
  refine (follows_clause TokenKind.noConfusion
    ((follows_name fuel).mono (Nat.le_succ fuel))).bind fun parent => ?_
  refine (follows_expect TokenKind.noConfusion _).bind fun _ => ?_
  exact (follows_terminated begins_method.nil_notMem (follows_method fuel) _ _).last
    fun methods => .node fun _ => .pure _

/-! ### Directives and declarations -/

/-- A directive is reported behind a sentence of the language. -/
def Misplaces (language : Language TokenKind) : Stops := fun before token message =>
  before ∈ written language ∧ IsHeader token.kind ∧ message = .headerAfterDeclaration token.kind

/-- Within a sentence of the one language, or at a directive behind a sentence of the other. -/
def Halts (language complete : Language TokenKind) : Stops := fun before token message =>
  Within language before token message ∨ Misplaces complete before token message

theorem FollowsAt.halts_bind {language' complete complete' whole all : Language TokenKind}
    [Productive language'] {first : Parser α} {second : α → Parser β}
    (h : FollowsAt input language (Halts language complete) first s)
    (hsecond : ∀ result next, next.Ready input → s.Passes next language →
      FollowsAt input language' (Halts language' complete') (second result) next)
    (hwhole : language * language' ≤ whole) (hcomplete : complete ≤ all)
    (hcomplete' : language * complete' ≤ all) :
    FollowsAt input whole (Halts whole all) (first >>= second) s := by
  refine FollowsAt.mono (h.bind hsecond ?_ ?_) hwhole fun _ _ _ hstop => hstop
  · rintro before token message (hstop | hstop)
    · exact .inl ⟨beginnings_mono hwhole (mem_beginnings_mul hstop.1), hstop.2⟩
    · exact .inr ⟨written_mono hcomplete hstop.1, hstop.2⟩
  · rintro taken htaken before token message (hstop | hstop)
    · exact .inl ⟨beginnings_mono hwhole (append_mem_beginnings htaken hstop.1), hstop.2⟩
    · exact .inr ⟨written_mono hcomplete' (append_mem_written htaken hstop.1), hstop.2⟩

theorem FollowsAt.halts {complete : Language TokenKind} {parser : Parser α}
    (h : FollowsAt input language (Within language) parser s) :
    FollowsAt input language (Halts language complete) parser s :=
  h.mono le_rfl fun _ _ _ => .inl

theorem follows_declaration (fuel : Nat) (hs : s.Ready input) (hfuel : s.tokens.length ≤ fuel) :
    FollowsAt input definition (Halts definition 1) (declaration fuel) s := by
  unfold declaration
  refine .kind hs ?_
  split
  · next hkind =>
    exact ((follows_constantDecl fuel hs hfuel hkind).map.of_le
      fun _ h => .inl (.inl (.inl (.inl h)))).halts
  · next hkind =>
    exact ((follows_typedefDecl fuel hs hfuel hkind).map.of_le
      fun _ h => .inl (.inl (.inl (.inr h)))).halts
  · next hkind =>
    exact ((follows_enumDecl fuel hs hfuel hkind).map.of_le fun _ h => .inl (.inl (.inr h))).halts
  · next hkind =>
    exact ((follows_structDecl .struct fuel hs hfuel hkind).map.of_le
      fun _ h => .inl (.inr h)).halts
  · next hkind =>
    exact ((follows_structDecl .exception fuel hs hfuel hkind).map.of_le
      fun _ h => .inl (.inr h)).halts
  · next hkind =>
    exact ((follows_serviceDecl fuel hs hfuel hkind).map.of_le fun _ h => .inr h).halts
  · next hkind => exact .fail hs (.inr ⟨nil_mem_written_one, .inl hkind, by rw [hkind]⟩)
  · next hkind => exact .fail hs (.inr ⟨nil_mem_written_one, .inr hkind, by rw [hkind]⟩)
  · exact (FollowsAt.expected hs _).halts

theorem follows_declarations (fuel rounds : Nat) (hs : s.Ready input)
    (hrounds : s.tokens.length ≤ rounds) (hfuel : s.tokens.length ≤ fuel) :
    FollowsAt input (items definition) (Halts (items definition) (items definition))
      (declarations fuel rounds) s := by
  induction rounds generalizing s with
  | zero =>
    have := hs.length_pos
    omega
  | succ rounds ih =>
    have hle : definition * (optional Grammar.separator * items definition) ≤ items definition := by
      conv_rhs => rw [← mul_one (items definition), items_mul_eq, mul_one]
      exact le_sup_left
    rw [declarations]
    refine .kind hs ?_
    split
    · exact (FollowsAt.pure hs []).mono (fun _ h => h ▸ Language.nil_mem_kstar _) fun _ _ _ h => h
    · refine (follows_declaration fuel hs hfuel).halts_bind (fun first middle hmiddle hpasses => ?_)
        hle (fun _ h => h ▸ Language.nil_mem_kstar _) hle
      have hlt := hpasses.length_lt begins_definition.nil_notMem
      refine (follows_separator middle hmiddle le_rfl).halts.halts_bind
        (fun _ last hlast hpasses' => ?_) le_rfl le_rfl le_rfl
      have hle := hpasses'.length_le
      exact (ih hlast (by omega) (by omega)).last fun rest next hnext => .pure hnext _

theorem follows_namespaceSegment (what : String) :
    Follows input bound Grammar.segment (namespaceSegment what) := by
  intro s hs _
  have hidentifier : token .identifier ≤ Grammar.segment := fun _ h => .inl h
  have hkeyword (word : Keyword) : keyword word ≤ Grammar.segment :=
    fun _ h => .inr (Language.mem_iSup.2 ⟨word, h⟩)
  unfold namespaceSegment
  refine .current hs ?_
  split
  · next h =>
    refine FollowsAt.of_le ?_ hidentifier
    exact .leaf hs (congrArg Lexeme.kind h) TokenKind.noConfusion (.pure _)
  · next word h =>
    refine FollowsAt.of_le ?_ (hkeyword word)
    exact .leaf hs (congrArg Lexeme.kind h) TokenKind.noConfusion (.pure _)
  · exact .expected hs what

theorem follows_namespaceScope :
    Follows input bound (Grammar.segment + mark .star) namespaceScope := by
  have h : Follows input (bound + 1) (Grammar.segment + mark .star * 1) namespaceScope :=
    .accept TokenKind.noConfusion (.pure _) (follows_namespaceSegment _)
  rw [mul_one] at h
  exact h.mono (Nat.le_succ bound)

theorem follows_namespaceDirective (fuel : Nat) (hs : s.Ready input)
    (hfuel : s.tokens.length ≤ fuel) (hkind : s.current.kind = .keyword .naming) :
    FollowsAt input naming (Within naming) (namespaceDirective fuel) s := by
  simp only [naming, mul_assoc]
  unfold namespaceDirective
  refine .position hs (.step hs (hfuel.trans (Nat.le_succ fuel)) hkind TokenKind.noConfusion ?_)
  refine follows_namespaceScope.bind fun scope => (follows_namespaceSegment _).bind fun head => ?_
  exact (follows_dotted (follows_namespaceSegment _)).last fun tail => .node fun _ => .pure _

theorem follows_includeDirective (hs : s.Ready input)
    (hkind : s.current.kind = .keyword .inclusion) :
    FollowsAt input inclusion (Within inclusion) includeDirective s := by
  unfold inclusion includeDirective
  refine .position hs (.step hs (Nat.le_succ _) hkind TokenKind.noConfusion ?_)
  exact (follows_stringLiteral _).last fun path => .node fun _ => .pure _

theorem follows_headers (fuel rounds : Nat) (hs : s.Ready input)
    (hrounds : s.tokens.length ≤ rounds) (hfuel : s.tokens.length ≤ fuel) :
    FollowsAt input (items header) (Within (items header)) (headers fuel rounds) s := by
  induction rounds generalizing s with
  | zero =>
    have := hs.length_pos
    omega
  | succ rounds ih =>
    have hle : header * (optional Grammar.separator * items header) ≤ items header := by
      conv_rhs => rw [← mul_one (items header), items_mul_eq, mul_one]
      exact le_sup_left
    -- What comes after a directive, whatever becomes of it.
    have hmore {middle : ParserState} (hmiddle : middle.Ready input)
        (hpasses : s.Passes middle header) {γ : Type}
        (next : List NamespaceDirective × List IncludeDirective → γ) :
        FollowsAt input (optional Grammar.separator * items header)
          (Within (optional Grammar.separator * items header))
          (separator >>= fun _ => headers fuel rounds >>= fun rest => pure (next rest)) middle := by
      have hlt := hpasses.length_lt begins_header.nil_notMem
      refine (follows_separator middle hmiddle le_rfl).within_bind fun _ last hlast hpasses' => ?_
      have hle := hpasses'.length_le
      exact (ih hlast (by omega) (by omega)).last fun rest next hnext => .pure hnext _
    rw [headers]
    refine .kind hs ?_
    split
    · next hkind =>
      have hdirective : FollowsAt input header (Within header) (namespaceDirective fuel) s :=
        (follows_namespaceDirective fuel hs hfuel hkind).of_le fun _ h => .inr h
      exact (hdirective.within_bind fun directive middle hmiddle hpasses =>
        hmore hmiddle hpasses _).of_le hle
    · next hkind =>
      have hdirective : FollowsAt input header (Within header) includeDirective s :=
        (follows_includeDirective hs hkind).of_le fun _ h => .inl h
      exact (hdirective.within_bind fun directive middle hmiddle hpasses =>
        hmore hmiddle hpasses _).of_le hle
    · exact (FollowsAt.pure hs _).of_le fun _ h => h ▸ Language.nil_mem_kstar _

/-- Run on all tokens of a file, the parser takes them all or stops within a sentence. -/
theorem follows_document (fuel : Nat) (hwithin : ∀ token ∈ s.tokens, token ∈ input)
    (hclosed : Token.Closed s.tokens) (hfuel : s.tokens.length ≤ fuel) :
    FollowsAt input Grammar.document (Halts Grammar.document Grammar.document)
      (document fuel) s := by
  unfold document
  cases hfault : faultMessage? s.current.lexeme with
  | some message => exact (FollowsAt.checkCurrent_of_fault hclosed hfault _).halts
  | none =>
    have hs : s.Ready input := ⟨hwithin, hclosed, hfault⟩
    refine .checkCurrent hs (.position hs ?_)
    refine (follows_headers fuel fuel hs hfuel hfuel).halts.halts_bind
      (fun directives middle hmiddle hpasses => ?_) le_rfl le_rfl le_rfl
    have hle := hpasses.length_le.trans hfuel
    exact (follows_declarations fuel fuel hmiddle hle hle).last
      fun declarations next hnext => .node (.pure (hnext.withNodes _) _)

end Parser
end Idl
