import Idl.Proofs.Matching
import Idl.Proofs.Parsing

/-!
# Parsing what differs in spans only

The parser reads two lists of tokens that have the same lexemes step by step in the same way. It
makes trees of them that differ in spans only, or it gives up at the same place for the same reason.
-/
namespace Idl

/-- Documents that are the same but for positions. -/
structure Document.Matches (document other : Document) : Prop where
  namespaces : List.Forall₂ (fun directive directive' : NamespaceDirective =>
    directive.scope = directive'.scope ∧ directive.name = directive'.name)
    document.namespaces other.namespaces
  includes : List.Forall₂ (fun directive directive' : IncludeDirective =>
    directive.path.text = directive'.path.text) document.includes other.includes
  declarations : List.Forall₂ (Declaration.Matches Name.Alike (TypeRef.Matches Name.Alike))
    document.declarations other.declarations

theorem map_eq_map_of_forall₂ {α β γ : Type} {f : α → γ} {g : β → γ} {list : List α}
    {other : List β} (h : List.Forall₂ (fun a b => f a = g b) list other) :
    list.map f = other.map g := by
  rw [← List.forall₂_eq_eq_eq, List.forall₂_map_left_iff, List.forall₂_map_right_iff]
  exact h

theorem Expr.matchesAll_of_forall₂ {names : Name → Name → Prop} {exprs others : List Expr}
    (h : List.Forall₂ (Expr.Matches names) exprs others) : MatchesAll names exprs others := by
  induction h with
  | nil => exact .nil
  | cons head _ ih => exact .cons head ih

theorem Expr.matchesEntries_of_forall₂ {names : Name → Name → Prop}
    {entries others : List (Expr × Expr)}
    (h : List.Forall₂ (fun entry other => entry.1.Matches names other.1 ∧
      entry.2.Matches names other.2) entries others) : MatchesEntries names entries others := by
  induction h with
  | nil => exact .nil
  | cons head _ ih => exact .cons head.1 head.2 ih

/-- States with the same tokens, but for the spans, ahead. The tokens of the two inputs are given
in pairs. -/
structure ParserState.Abreast (pairs : List (Token × Token)) (s s' : ParserState) : Prop where
  same : ∀ pair ∈ pairs, pair.1.lexeme = pair.2.lexeme
  tokens : ∃ rest : List (Token × Token), (∀ pair ∈ rest, pair ∈ pairs) ∧
    s.tokens = rest.map Prod.fst ∧ s'.tokens = rest.map Prod.snd
  closed : Token.Closed s.tokens
  nodes : s.nodes = s'.nodes

/-- The same failure, at the same place. -/
inductive ParseFailure.Abreast (pairs : List (Token × Token)) :
    ParseFailure → ParseFailure → Prop
  | fault {pair} (mem : pair ∈ pairs) (message : Message) :
      Abreast pairs (.fault (.error pair.1.span message)) (.fault (.error pair.2.span message))
  | pastEnd : Abreast pairs .pastEnd .pastEnd
  | outOfFuel : Abreast pairs .outOfFuel .outOfFuel

namespace ParserState.Abreast

variable {pairs : List (Token × Token)} {s s' : ParserState}

theorem exists_current (h : s.Abreast pairs s') :
    ∃ pair ∈ pairs, s.current = pair.1 ∧ s'.current = pair.2 := by
  obtain ⟨rest, hrest, hs, hs'⟩ := h.tokens
  cases rest with
  | nil =>
    have hclosed := h.closed
    rw [hs] at hclosed
    cases hclosed
  | cons pair rest =>
    refine ⟨pair, hrest pair List.mem_cons_self, ?_, ?_⟩
    · rw [current, hs]
      rfl
    · rw [current, hs']
      rfl

theorem current_lexeme (h : s.Abreast pairs s') : s.current.lexeme = s'.current.lexeme := by
  obtain ⟨pair, hpair, hs, hs'⟩ := h.exists_current
  rw [hs, hs', h.same pair hpair]

theorem advance (h : s.Abreast pairs s') (hne : s.current.lexeme ≠ .finish) :
    s.advance.Abreast pairs s'.advance := by
  obtain ⟨rest, hrest, hs, hs'⟩ := h.tokens
  refine ⟨h.same, ⟨rest.tail, fun pair hpair => hrest pair (List.mem_of_mem_tail hpair), ?_, ?_⟩,
    ?_, h.nodes⟩
  · rw [ParserState.advance, hs, List.map_tail]
  · rw [ParserState.advance, hs', List.map_tail]
  · have hclosed := h.closed
    change Token.Closed s.tokens.tail
    generalize htokens : s.tokens = tokens at hclosed
    cases hclosed with
    | last finish => exact absurd (by rw [current, htokens]; exact finish) hne
    | cons _ closed => exact closed

end ParserState.Abreast

namespace Parser

variable {α β γ δ : Type} {pairs : List (Token × Token)}

/-- Run from states with the same tokens ahead, the parsers fail alike or end with related results
in such states. -/
def Agree (pairs : List (Token × Token)) (r : α → β → Prop) (first : Parser α)
    (second : Parser β) : Prop :=
  ∀ s s' : ParserState, s.Abreast pairs s' →
    match first.run s, second.run s' with
    | .ok (result, next), .ok (result', next') => r result result' ∧ next.Abreast pairs next'
    | .error failure, .error failure' => failure.Abreast pairs failure'
    | _, _ => False

namespace Agree

variable {r : α → β → Prop} {p : γ → δ → Prop}

theorem pure {a : α} {b : β} (h : r a b) : Agree pairs r (Pure.pure a) (Pure.pure b) :=
  fun _ _ hs => ⟨h, hs⟩

theorem bind {first : Parser α} {second : Parser β} {next : α → Parser γ} {next' : β → Parser δ}
    (h : Agree pairs r first second) (hnext : ∀ a b, r a b → Agree pairs p (next a) (next' b)) :
    Agree pairs p (first >>= next) (second >>= next') := by
  intro s s' hs
  have hrun := h s s' hs
  rw [StateT.run_bind, StateT.run_bind]
  generalize first.run s = result, second.run s' = result' at hrun
  cases result with
  | error failure =>
    cases result' with
    | error failure' => exact hrun
    | ok pair' => exact hrun.elim
  | ok pair =>
    cases result' with
    | error failure' => exact hrun.elim
    | ok pair' => exact hnext pair.1 pair'.1 hrun.1 pair.2 pair'.2 hrun.2

theorem map {first : Parser α} {second : Parser β} {f : α → γ} {g : β → δ}
    (h : Agree pairs r first second) (hmap : ∀ a b, r a b → p (f a) (g b)) :
    Agree pairs p (f <$> first) (g <$> second) := by
  rw [← bind_pure_comp, ← bind_pure_comp]
  exact h.bind fun a b hab => .pure (hmap a b hab)

theorem current {next next' : Token → Parser α} {r : α → α → Prop}
    (h : ∀ token token' : Token, token.lexeme = token'.lexeme →
      Agree pairs r (next token) (next' token')) :
    Agree pairs r (Parser.current >>= next) (Parser.current >>= next') :=
  fun s s' hs => h s.current s'.current hs.current_lexeme s s' hs

theorem kind {next : TokenKind → Parser α} {next' : TokenKind → Parser β}
    (h : ∀ kind, Agree pairs r (next kind) (next' kind)) :
    Agree pairs r (Parser.kind >>= next) (Parser.kind >>= next') := by
  intro s s' hs
  have hkind : s'.current.kind = s.current.kind := congrArg Lexeme.kind hs.current_lexeme.symm
  have hrun : (Parser.kind >>= next').run s' = (next' s.current.kind).run s' :=
    congrArg (fun kind => (next' kind).run s') hkind
  rw [hrun]
  exact h s.current.kind s s' hs

theorem position {next : Nat → Parser α} {next' : Nat → Parser β}
    (h : ∀ start start', Agree pairs r (next start) (next' start')) :
    Agree pairs r (Parser.position >>= next) (Parser.position >>= next') :=
  fun s s' hs => h s.current.span.start s'.current.span.start s s' hs

theorem node {start start' : Nat} {next : Span → Parser α} {next' : Span → Parser β}
    (h : ∀ span span', Agree pairs r (next span) (next' span')) :
    Agree pairs r (Parser.node start >>= next) (Parser.node start' >>= next') :=
  fun s s' hs => h ⟨start, s.previousEnd⟩ ⟨start', s'.previousEnd⟩ _ _
    ⟨hs.same, hs.tokens, hs.closed, congrArg (· + 1) hs.nodes⟩

theorem fail (message : Message) : Agree pairs r (Parser.fail message) (Parser.fail message) := by
  intro s s' hs
  obtain ⟨pair, hpair, hcurrent, hcurrent'⟩ := hs.exists_current
  change ParseFailure.Abreast pairs (.fault (.error s.current.span message))
    (.fault (.error s'.current.span message))
  rw [hcurrent, hcurrent']
  exact .fault hpair message

theorem outOfFuel : Agree pairs r Parser.outOfFuel Parser.outOfFuel :=
  fun _ _ _ => .outOfFuel

theorem expected (what : String) : Agree pairs r (Parser.expected what) (Parser.expected what) :=
  .kind fun kind => .fail (.expected what kind)

end Agree

theorem checkCurrent_eq : checkCurrent = Parser.current >>= fun token =>
    match faultMessage? token.lexeme with
    | some message => fail message
    | none => Pure.pure () := rfl

theorem agree_checkCurrent : Agree pairs (fun _ _ => True) checkCurrent checkCurrent := by
  rw [checkCurrent_eq]
  refine .current fun token token' h => ?_
  rw [h]
  split
  · next message _ => exact .fail message
  · exact .pure trivial

theorem agree_advance : Agree pairs (fun _ _ => True) advance advance := by
  intro s s' hs
  have hkind : s'.current.kind = s.current.kind := congrArg Lexeme.kind hs.current_lexeme.symm
  by_cases hfinish : s.current.kind = .finish
  · rw [run_advance_of_finish hfinish, run_advance_of_finish (hkind.trans hfinish)]
    exact .pastEnd
  · rw [run_advance hfinish, run_advance (hkind ▸ hfinish)]
    exact agree_checkCurrent _ _ (hs.advance fun h => hfinish (congrArg Lexeme.kind h))

theorem agree_accept (wanted : TokenKind) :
    Agree pairs (· = ·) (accept wanted) (accept wanted) := by
  unfold accept
  refine .kind fun kind => ?_
  split
  · exact agree_advance.bind fun _ _ _ => .pure rfl
  · exact .pure rfl

theorem agree_expect (wanted : TokenKind) (what : String) :
    Agree pairs (fun _ _ => True) (expect wanted what) (expect wanted what) := by
  unfold expect
  refine (agree_accept wanted).bind fun taken _ h => ?_
  subst h
  cases taken with
  | false => exact .expected what
  | true => exact .pure trivial

theorem agree_separator : Agree pairs (fun _ _ => True) separator separator := by
  unfold separator
  refine .kind fun kind => ?_
  split
  · exact agree_advance
  · exact .pure trivial

section

variable {r : α → β → Prop} {item : Parser α} {item' : Parser β}

theorem agree_clause (wanted : TokenKind) (h : Agree pairs r item item') :
    Agree pairs (Option.Rel r) (clause wanted item) (clause wanted item') := by
  unfold clause
  refine (agree_accept wanted).bind fun taken _ htaken => ?_
  subst htaken
  cases taken with
  | false => exact .pure .none
  | true => exact h.map fun _ _ hab => .some hab

theorem agree_terminated (h : Agree pairs r item item') (closing : Mark) (what : String)
    (fuel : Nat) :
    Agree pairs (List.Forall₂ r) (terminated item closing what fuel)
      (terminated item' closing what fuel) := by
  induction fuel with
  | zero => exact .outOfFuel
  | succ fuel ih =>
    unfold terminated
    refine (agree_accept _).bind fun taken _ htaken => ?_
    subst htaken
    cases taken with
    | true => exact .pure .nil
    | false =>
      refine .kind fun kind => ?_
      split
      · exact .expected what
      · refine h.bind fun first first' hfirst => agree_separator.bind fun _ _ _ => ?_
        exact ih.map fun _ _ hrest => .cons hfirst hrest

theorem agree_dotted (h : Agree pairs r item item') (fuel : Nat) :
    Agree pairs (List.Forall₂ r) (dotted item fuel) (dotted item' fuel) := by
  induction fuel with
  | zero => exact .outOfFuel
  | succ fuel ih =>
    unfold dotted
    refine (agree_clause _ h).bind fun _ _ hnext => ?_
    cases hnext with
    | none => exact .pure .nil
    | some hnext => exact ih.map fun _ _ hrest => .cons hnext hrest

end

theorem agree_identifier (what : String) :
    Agree pairs (fun a b => a.text = b.text) (identifier what) (identifier what) := by
  unfold identifier
  refine .current fun token token' h => ?_
  rw [h]
  split
  · exact agree_advance.bind fun _ _ _ => .node fun _ _ => .pure rfl
  · exact .expected what

theorem agree_integerLiteral (what : String) :
    Agree pairs (fun a b => a.value = b.value) (integerLiteral what) (integerLiteral what) := by
  unfold integerLiteral
  refine .current fun token token' h => ?_
  rw [h]
  split
  · exact agree_advance.bind fun _ _ _ => .node fun _ _ => .pure rfl
  · exact .expected what

theorem agree_stringLiteral (what : String) :
    Agree pairs (fun a b => a.text = b.text) (stringLiteral what) (stringLiteral what) := by
  unfold stringLiteral
  refine .current fun token token' h => ?_
  rw [h]
  split
  · exact agree_advance.bind fun _ _ _ => .node fun _ _ => .pure rfl
  · exact .expected what

theorem agree_name (fuel : Nat) : Agree pairs Name.Alike (name fuel) (name fuel) := by
  unfold name
  refine .position fun _ _ => ?_
  refine (agree_identifier "name").bind fun head head' hhead => ?_
  refine (agree_dotted (agree_identifier "name") fuel).bind fun tail tail' htail => ?_
  exact .node fun _ _ => .pure (congrArg₂ List.cons hhead (map_eq_map_of_forall₂ htail))

theorem agree_typeRef (fuel : Nat) :
    Agree pairs (TypeRef.Matches Name.Alike) (typeRef fuel) (typeRef fuel) := by
  induction fuel with
  | zero => exact .outOfFuel
  | succ fuel ih =>
    unfold typeRef
    refine .position fun _ _ => .kind fun kind => ?_
    split
    · refine agree_advance.bind fun _ _ _ => (agree_expect _ _).bind fun _ _ _ => ?_
      refine ih.bind fun _ _ helement => (agree_expect _ _).bind fun _ _ _ => ?_
      exact .node fun _ _ => .pure (.list helement)
    · refine agree_advance.bind fun _ _ _ => (agree_expect _ _).bind fun _ _ _ => ?_
      refine ih.bind fun _ _ hkey => (agree_expect _ _).bind fun _ _ _ => ?_
      refine ih.bind fun _ _ hvalue => (agree_expect _ _).bind fun _ _ _ => ?_
      exact .node fun _ _ => .pure (.map hkey hvalue)
    · split
      · exact agree_advance.bind fun _ _ _ => .node fun _ _ => .pure .builtin
      · exact .expected "type"
    · exact (agree_name fuel).map fun _ _ h => .name h
    · exact .expected "type"

theorem agree_mapEntry {item item' : Parser Expr}
    (h : Agree pairs (Expr.Matches Name.Alike) item item') :
    Agree pairs (fun entry entry' => entry.1.Matches Name.Alike entry'.1 ∧
      entry.2.Matches Name.Alike entry'.2) (mapEntry item) (mapEntry item') := by
  unfold mapEntry
  refine h.bind fun _ _ hkey => (agree_expect _ _).bind fun _ _ _ => ?_
  exact h.map fun _ _ hvalue => ⟨hkey, hvalue⟩

theorem agree_expr (fuel : Nat) :
    Agree pairs (Expr.Matches Name.Alike) (expr fuel) (expr fuel) := by
  induction fuel with
  | zero => exact .outOfFuel
  | succ fuel ih =>
    unfold expr
    refine .position fun _ _ => .kind fun kind => ?_
    split
    · exact (agree_integerLiteral "integer").map fun _ _ h => .integer h
    · exact (agree_stringLiteral "string").map fun _ _ h => .string h
    · exact agree_advance.bind fun _ _ _ => .node fun _ _ => .pure .bool
    · exact agree_advance.bind fun _ _ _ => .node fun _ _ => .pure .bool
    · refine agree_advance.bind fun _ _ _ => ?_
      refine (agree_terminated ih .closeBracket "value or ']'" fuel).bind fun _ _ h => ?_
      exact .node fun _ _ => .pure (.list (Expr.matchesAll_of_forall₂ h))
    · refine agree_advance.bind fun _ _ _ => ?_
      refine (agree_terminated (agree_mapEntry ih) .closeBrace _ fuel).bind fun _ _ h => ?_
      exact .node fun _ _ => .pure (.map (Expr.matchesEntries_of_forall₂ h))
    · exact (agree_name fuel).map fun _ _ h => .name h
    · exact .expected "value"

theorem agree_namespaceSegment (what : String) :
    Agree pairs (· = ·) (namespaceSegment what) (namespaceSegment what) := by
  unfold namespaceSegment
  refine .current fun token token' h => ?_
  rw [h]
  split
  · exact agree_advance.bind fun _ _ _ => .pure rfl
  · exact agree_advance.bind fun _ _ _ => .pure rfl
  · exact .expected what

theorem agree_namespaceScope : Agree pairs (· = ·) namespaceScope namespaceScope := by
  unfold namespaceScope
  refine (agree_accept _).bind fun taken _ htaken => ?_
  subst htaken
  cases taken with
  | true => exact .pure rfl
  | false => exact agree_namespaceSegment _

theorem agree_namespaceDirective (fuel : Nat) :
    Agree pairs (fun a b => a.scope = b.scope ∧ a.name = b.name) (namespaceDirective fuel)
      (namespaceDirective fuel) := by
  unfold namespaceDirective
  refine .position fun _ _ => agree_advance.bind fun _ _ _ => ?_
  refine agree_namespaceScope.bind fun _ _ hscope => ?_
  refine (agree_namespaceSegment _).bind fun _ _ hhead => ?_
  refine (agree_dotted (agree_namespaceSegment _) fuel).bind fun _ _ htail => ?_
  rw [List.forall₂_eq_eq_eq] at htail
  subst hscope hhead htail
  exact .node fun _ _ => .pure ⟨rfl, rfl⟩

theorem agree_includeDirective :
    Agree pairs (fun a b => a.path.text = b.path.text) includeDirective includeDirective := by
  unfold includeDirective
  refine .position fun _ _ => agree_advance.bind fun _ _ _ => ?_
  exact (agree_stringLiteral _).bind fun _ _ h => .node fun _ _ => .pure h

theorem agree_order :
    Agree pairs (fun a b => a.map (·.value) = b.map (·.value)) order order := by
  unfold order
  refine .kind fun kind => ?_
  split
  · refine (agree_integerLiteral _).bind fun _ _ h => (agree_expect _ _).bind fun _ _ _ => ?_
    exact .pure (congrArg some h)
  · exact .pure rfl

theorem agree_enumEntry : Agree pairs EnumEntry.Matches enumEntry enumEntry := by
  unfold enumEntry
  refine .position fun _ _ => (agree_identifier _).bind fun _ _ hname => ?_
  refine (agree_clause _ (agree_integerLiteral _)).bind fun _ _ hvalue => ?_
  refine .node fun _ _ => .pure ⟨hname, ?_⟩
  cases hvalue with
  | none => rfl
  | some h => exact congrArg some h

theorem agree_requiredness : Agree pairs (· = ·) requiredness requiredness := by
  unfold requiredness
  refine (agree_accept _).bind fun taken _ htaken => ?_
  subst htaken
  cases taken with
  | true => exact .pure rfl
  | false =>
    refine (agree_accept _).bind fun taken _ htaken => ?_
    subst htaken
    cases taken <;> exact .pure rfl

theorem agree_field (fuel : Nat) :
    Agree pairs (Field.Matches Name.Alike (TypeRef.Matches Name.Alike)) (field fuel)
      (field fuel) := by
  unfold field
  refine .position fun _ _ => agree_order.bind fun _ _ horder => ?_
  refine agree_requiredness.bind fun _ _ hrequiredness => ?_
  refine (agree_typeRef fuel).bind fun _ _ htype => (agree_identifier _).bind fun _ _ hname => ?_
  refine (agree_clause _ (agree_expr fuel)).bind fun _ _ hdefault => ?_
  exact .node fun _ _ => .pure ⟨horder, hrequiredness, htype, hname, hdefault⟩

theorem agree_argument (fuel : Nat) :
    Agree pairs (Argument.Matches (TypeRef.Matches Name.Alike)) (argument fuel)
      (argument fuel) := by
  unfold argument
  refine .position fun _ _ => agree_order.bind fun _ _ horder => ?_
  refine (agree_typeRef fuel).bind fun _ _ htype => (agree_identifier _).bind fun _ _ hname => ?_
  exact .node fun _ _ => .pure ⟨horder, htype, hname⟩

theorem agree_method (fuel : Nat) :
    Agree pairs (Method.Matches (TypeRef.Matches Name.Alike)) (method fuel) (method fuel) := by
  unfold method
  refine .position fun _ _ => (agree_accept _).bind fun _ _ honeway => ?_
  refine (agree_typeRef fuel).bind fun _ _ htype => (agree_identifier _).bind fun _ _ hname => ?_
  refine (agree_expect _ _).bind fun _ _ _ => ?_
  refine (agree_terminated (agree_argument fuel) .closeParen _ fuel).bind fun _ _ harguments => ?_
  refine (agree_clause _ ((agree_expect _ _).bind fun _ _ _ =>
    agree_terminated (agree_argument fuel) .closeParen _ fuel)).bind fun _ _ hthrows => ?_
  refine .node fun _ _ => .pure ⟨honeway, htype, hname, harguments, ?_⟩
  cases hthrows with
  | none => exact .nil
  | some h => exact h

theorem agree_constantDecl (fuel : Nat) :
    Agree pairs (ConstantDecl.Matches Name.Alike (TypeRef.Matches Name.Alike)) (constantDecl fuel)
      (constantDecl fuel) := by
  unfold constantDecl
  refine .position fun _ _ => agree_advance.bind fun _ _ _ => ?_
  refine (agree_typeRef fuel).bind fun _ _ htype => (agree_identifier _).bind fun _ _ hname => ?_
  refine (agree_expect _ _).bind fun _ _ _ => (agree_expr fuel).bind fun _ _ hvalue => ?_
  exact .node fun _ _ => .pure ⟨htype, hname, hvalue⟩

theorem agree_typedefDecl (fuel : Nat) :
    Agree pairs (TypedefDecl.Matches (TypeRef.Matches Name.Alike)) (typedefDecl fuel)
      (typedefDecl fuel) := by
  unfold typedefDecl
  refine .position fun _ _ => agree_advance.bind fun _ _ _ => ?_
  refine (agree_typeRef fuel).bind fun _ _ htype => (agree_identifier _).bind fun _ _ hname => ?_
  exact .node fun _ _ => .pure ⟨htype, hname⟩

theorem agree_enumDecl (fuel : Nat) :
    Agree pairs EnumDecl.Matches (enumDecl fuel) (enumDecl fuel) := by
  unfold enumDecl
  refine .position fun _ _ => agree_advance.bind fun _ _ _ => ?_
  refine (agree_identifier _).bind fun _ _ hname => (agree_expect _ _).bind fun _ _ _ => ?_
  refine (agree_terminated agree_enumEntry .closeBrace _ fuel).bind fun _ _ hentries => ?_
  exact .node fun _ _ => .pure ⟨hname, hentries⟩

theorem agree_structDecl (kind : StructKind) (fuel : Nat) :
    Agree pairs (StructDecl.Matches Name.Alike (TypeRef.Matches Name.Alike))
      (structDecl kind fuel) (structDecl kind fuel) := by
  unfold structDecl
  refine .position fun _ _ => agree_advance.bind fun _ _ _ => ?_
  refine (agree_identifier _).bind fun _ _ hname => (agree_expect _ _).bind fun _ _ _ => ?_
  refine (agree_terminated (agree_field fuel) .closeBrace _ fuel).bind fun _ _ hfields => ?_
  exact .node fun _ _ => .pure ⟨rfl, hname, hfields⟩

theorem agree_serviceDecl (fuel : Nat) :
    Agree pairs (ServiceDecl.Matches Name.Alike (TypeRef.Matches Name.Alike)) (serviceDecl fuel)
      (serviceDecl fuel) := by
  unfold serviceDecl
  refine .position fun _ _ => agree_advance.bind fun _ _ _ => ?_
  refine (agree_identifier _).bind fun _ _ hname => ?_
  refine (agree_clause _ (agree_name fuel)).bind fun _ _ hparent => ?_
  refine (agree_expect _ _).bind fun _ _ _ => ?_
  refine (agree_terminated (agree_method fuel) .closeBrace _ fuel).bind fun _ _ hmethods => ?_
  exact .node fun _ _ => .pure ⟨hname, hparent, hmethods⟩

theorem agree_declaration (fuel : Nat) :
    Agree pairs (Declaration.Matches Name.Alike (TypeRef.Matches Name.Alike)) (declaration fuel)
      (declaration fuel) := by
  unfold declaration
  refine .kind fun kind => ?_
  split
  · exact (agree_constantDecl fuel).map fun _ _ h => .constant h
  · exact (agree_typedefDecl fuel).map fun _ _ h => .typedef h
  · exact (agree_enumDecl fuel).map fun _ _ h => .enum h
  · exact (agree_structDecl .struct fuel).map fun _ _ h => .struct h
  · exact (agree_structDecl .exception fuel).map fun _ _ h => .struct h
  · exact (agree_serviceDecl fuel).map fun _ _ h => .service h
  · exact .fail _
  · exact .fail _
  · exact .expected _

theorem agree_headers (fuel rounds : Nat) :
    Agree pairs (fun list other =>
      List.Forall₂ (fun directive directive' : NamespaceDirective =>
        directive.scope = directive'.scope ∧ directive.name = directive'.name) list.1 other.1 ∧
      List.Forall₂ (fun directive directive' : IncludeDirective =>
        directive.path.text = directive'.path.text) list.2 other.2)
      (headers fuel rounds) (headers fuel rounds) := by
  induction rounds with
  | zero => exact .outOfFuel
  | succ rounds ih =>
    unfold headers
    refine .kind fun kind => ?_
    split
    · refine (agree_namespaceDirective fuel).bind fun _ _ h => agree_separator.bind fun _ _ _ => ?_
      exact ih.bind fun _ _ hrest => .pure ⟨.cons h hrest.1, hrest.2⟩
    · refine agree_includeDirective.bind fun _ _ h => agree_separator.bind fun _ _ _ => ?_
      exact ih.bind fun _ _ hrest => .pure ⟨hrest.1, .cons h hrest.2⟩
    · exact .pure ⟨.nil, .nil⟩

theorem agree_declarations (fuel rounds : Nat) :
    Agree pairs (List.Forall₂ (Declaration.Matches Name.Alike (TypeRef.Matches Name.Alike)))
      (declarations fuel rounds) (declarations fuel rounds) := by
  induction rounds with
  | zero => exact .outOfFuel
  | succ rounds ih =>
    unfold declarations
    refine .kind fun kind => ?_
    split
    · exact .pure .nil
    · refine (agree_declaration fuel).bind fun _ _ h => agree_separator.bind fun _ _ _ => ?_
      exact ih.map fun _ _ hrest => .cons h hrest

theorem agree_document (fuel : Nat) :
    Agree pairs Document.Matches (document fuel) (document fuel) := by
  unfold document
  refine agree_checkCurrent.bind fun _ _ _ => .position fun _ _ => ?_
  refine (agree_headers fuel fuel).bind fun _ _ hheaders => ?_
  refine (agree_declarations fuel fuel).bind fun _ _ hdeclarations => ?_
  exact .node fun _ _ => .pure ⟨hheaders.1, hheaders.2, hdeclarations⟩

end Parser

namespace Source

variable {source other : Source}

theorem lexeme_eq_of_mem_zip {tokens others : List Token}
    (h : tokens.map Token.lexeme = others.map Token.lexeme) {pair : Token × Token}
    (hpair : pair ∈ tokens.zip others) : pair.1.lexeme = pair.2.lexeme := by
  rw [← List.forall₂_eq_eq_eq, List.forall₂_map_left_iff, List.forall₂_map_right_iff] at h
  exact List.forall₂_zip h hpair

theorem abreast_tokens (h : source.tokens.map Token.lexeme = other.tokens.map Token.lexeme) :
    ParserState.Abreast (source.tokens.zip other.tokens) ⟨source.tokens, 0, 0⟩
      ⟨other.tokens, 0, 0⟩ := by
  have hlength : source.tokens.length = other.tokens.length := by
    simpa using congrArg List.length h
  refine ⟨fun _ => lexeme_eq_of_mem_zip h, ⟨source.tokens.zip other.tokens, fun _ hpair => hpair,
    ?_, ?_⟩, Token.closed_readAll 0 source.chars, rfl⟩
  · exact (List.map_fst_zip hlength.le).symm
  · exact (List.map_snd_zip hlength.ge).symm

/-- Either both texts are parsed, into trees that differ in positions only, or each has one report,
which is the same one and blames the same token. -/
def ParsedAlike (source other : Source) : Prop :=
  match source.parse, other.parse with
  | .ok parsed, .ok parsed' =>
    parsed.document.Matches parsed'.document ∧ parsed.nodes = parsed'.nodes
  | .error failure, .error failure' =>
    ∃ pair ∈ source.tokens.zip other.tokens, ∃ message,
      failure = .fault (.error pair.1.span message) ∧
        failure' = .fault (.error pair.2.span message)
  | _, _ => False

theorem parsedAlike (h : source.tokens.map Token.lexeme = other.tokens.map Token.lexeme) :
    source.ParsedAlike other := by
  have hlength : source.tokens.length = other.tokens.length := by
    simpa using congrArg List.length h
  have hagree := Parser.agree_document source.tokens.length _ _ (abreast_tokens h)
  rw [hlength] at hagree
  generalize hrun : (Parser.document other.tokens.length).run ⟨source.tokens, 0, 0⟩ = result,
    hrun' : (Parser.document other.tokens.length).run ⟨other.tokens, 0, 0⟩ = result' at hagree
  rw [← hlength] at hrun
  have hparse := parse_of_run hrun
  rw [ParsedAlike, hparse, parse_of_run hrun']
  cases result with
  | ok pair =>
    cases result' with
    | ok pair' => exact ⟨hagree.1, hagree.2.nodes⟩
    | error => exact hagree
  | error failure =>
    cases result' with
    | ok => exact hagree
    | error failure' =>
      obtain ⟨token, -, message, hfault⟩ := exists_token_of_parse_error hparse
      change failure.Abreast _ failure' at hagree
      cases hagree with
      | fault mem message => exact ⟨_, mem, message, rfl, rfl⟩
      | pastEnd => cases hfault
      | outOfFuel => cases hfault

end Source
end Idl
