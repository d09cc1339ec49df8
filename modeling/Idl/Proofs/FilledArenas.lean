import Idl.Proofs.StoredTrees

/-!
# Filled arenas

The parser that fills an arena reads the same trees as the parser of trees and stores them, and the
number of nodes that the latter counts grows as the arena does. A file has a tree exactly if it has
an arena, and the reports about it are the same.
-/
namespace Idl

namespace ArenaParser
open Idl.Parser (Ensures MakesNone makesNone_kind makesNone_current makesNone_position
  makesNone_advance makesNone_accept makesNone_expect makesNone_separator)
open Storing (all optional)

variable {α β γ δ : Type} {arena : Arena}

/-- On the arena, the parser reads what the reader reads and gives what `store` makes of it. The
reader counts as many nodes as the arena gets. -/
structure Fills (arena : Arena) (parser : ArenaParser β) (reader : Parser α)
    (store : α → β × Arena) : Prop where
  run : parser.run arena = store <$> reader
  nodes : ∀ s, Ensures (fun _ => True) reader s fun result next =>
    next.nodes + arena.size = s.nodes + (store result).2.size

namespace Fills

variable {parser : ArenaParser β} {reader : Parser α} {store : α → β × Arena}

theorem lift (h : MakesNone reader) :
    Fills arena (liftM reader) reader fun result => (result, arena) where
  run := by simp [liftM]
  nodes s := (h s).mono fun _ _ hnext => congrArg (· + arena.size) hnext

theorem pure {result : α} {id : β} (h : store result = (id, arena)) :
    Fills arena (Pure.pure id) (Pure.pure result) store where
  run := by rw [StateT.run_pure, map_pure, h]
  nodes s := .pure (by rw [h])

theorem bind {next : β → ArenaParser δ} {readNext : α → Parser γ} {storeNext : γ → δ × Arena}
    (h : Fills arena parser reader store)
    (hnext : ∀ result,
      Fills (store result).2 (next (store result).1) (readNext result) storeNext) :
    Fills arena (parser >>= next) (reader >>= readNext) storeNext where
  run := by
    rw [StateT.run_bind, h.run, bind_map_left, map_bind]
    exact bind_congr fun result => (hnext result).run
  nodes s := by
    refine (h.nodes s).bind fun result middle hmiddle => ?_
    refine ((hnext result).nodes middle).mono fun last final hfinal => ?_
    omega

theorem map {f : β → δ} {g : α → γ} {storeNext : γ → δ × Arena}
    (h : Fills arena parser reader store)
    (hstore : ∀ result, storeNext (g result) = (f (store result).1, (store result).2)) :
    Fills arena (f <$> parser) (g <$> reader) storeNext := by
  rw [← bind_pure_comp, ← bind_pure_comp]
  exact h.bind fun result => .pure (hstore result)

theorem node {start : Nat} {data : NodeData} :
    Fills arena (ArenaParser.node start data) (Parser.node start) (arena.add · data) where
  run := by
    unfold ArenaParser.node
    simp only [StateT.run_bind, liftM, StateT.run_monadLift]
    rfl
  nodes s := by
    change s.nodes + 1 + arena.size = s.nodes + (arena.push _).size
    rw [Array.size_push]
    omega

/-- A production ends by making its node. -/
theorem made {start : Nat} {data : NodeData} {make : Span → α}
    {store : α → NodeId data.label × Arena}
    (h : ∀ span, store (make span) = arena.add span data) :
    Fills arena (ArenaParser.node start data) (do return make (← Parser.node start)) store := by
  rw [← bind_pure (ArenaParser.node start data)]
  exact node.bind fun span => .pure (h span)

theorem fails {reader' : Parser γ} {store' : α → γ × Arena} (failure : ParserState → ParseFailure)
    (h : ∀ s, reader.run s = .error (failure s)) (h' : ∀ s, reader'.run s = .error (failure s)) :
    Fills arena (liftM reader') reader store' where
  run := by
    refine StateT.ext fun s => ?_
    simp [liftM, StateT.run_map, h, h']
  nodes s := by
    unfold Ensures
    rw [h]
    trivial

theorem expected (what : String) :
    Fills arena (liftM (Parser.expected (α := β) what)) (Parser.expected what) store :=
  fails (fun s => .fault (.error s.current.span (.expected what s.current.kind))) (fun _ => rfl)
    fun _ => rfl

theorem fail (message : Message) :
    Fills arena (liftM (Parser.fail (α := β) message)) (Parser.fail message) store :=
  fails (fun s => .fault (.error s.current.span message)) (fun _ => rfl) fun _ => rfl

theorem outOfFuel :
    Fills arena (liftM (Parser.outOfFuel (α := β))) Parser.outOfFuel store :=
  fails (fun _ => .outOfFuel) (fun _ => rfl) fun _ => rfl

theorem ite {c : Prop} [Decidable c] {parser' : ArenaParser β} {reader' : Parser α}
    (h : c → Fills arena parser reader store) (h' : ¬ c → Fills arena parser' reader' store) :
    Fills arena (if c then parser else parser') (if c then reader else reader') store := by
  split
  · next hc => exact h hc
  · next hc => exact h' hc

end Fills

/-! ### Words and literals -/

theorem fills_identifier (what : String) :
    Fills arena (identifier what) (Parser.identifier what) (·.store arena) := by
  refine .bind (.lift makesNone_current) fun ⟨lexeme, span⟩ => ?_
  cases lexeme with
  | identifier text => exact .bind (.lift makesNone_advance) fun _ => .made fun _ => rfl
  | _ => exact .expected what

theorem fills_integerLiteral (what : String) :
    Fills arena (integerLiteral what) (Parser.integerLiteral what) (·.store arena) := by
  refine .bind (.lift makesNone_current) fun ⟨lexeme, span⟩ => ?_
  cases lexeme with
  | integer value => exact .bind (.lift makesNone_advance) fun _ => .made fun _ => rfl
  | _ => exact .expected what

theorem fills_stringLiteral (what : String) :
    Fills arena (stringLiteral what) (Parser.stringLiteral what) (·.store arena) := by
  refine .bind (.lift makesNone_current) fun ⟨lexeme, span⟩ => ?_
  cases lexeme with
  | string text => exact .bind (.lift makesNone_advance) fun _ => .made fun _ => rfl
  | _ => exact .expected what

/-! ### Optional and repeated parts -/

section

variable {item : ArenaParser β} {reader : Parser α} {store : α → Storing β}

theorem fills_clause (wanted : TokenKind) (h : ∀ arena, Fills arena item reader (store · arena)) :
    Fills arena (clause wanted item) (Parser.clause wanted reader)
      (optional store · arena) := by
  refine .bind (.lift (makesNone_accept wanted)) fun taken => .ite (fun _ => ?_) fun _ => ?_
  · exact (h arena).map fun _ => rfl
  · exact .pure rfl

theorem fills_dotted (h : ∀ arena, Fills arena item reader (store · arena)) (fuel : Nat) :
    Fills arena (dotted item fuel) (Parser.dotted reader fuel) (all store · arena) := by
  induction fuel generalizing arena with
  | zero => exact .outOfFuel
  | succ fuel ih =>
    refine .bind (fills_clause (.mark .dot) h) fun next => ?_
    cases next with
    | none => exact .pure rfl
    | some next => exact .bind ih fun rest => .pure rfl

theorem fills_terminated (h : ∀ arena, Fills arena item reader (store · arena)) (closing : Mark)
    (what : String) (fuel : Nat) :
    Fills arena (terminated item closing what fuel) (Parser.terminated reader closing what fuel)
      (all store · arena) := by
  induction fuel generalizing arena with
  | zero => exact .outOfFuel
  | succ fuel ih =>
    refine .bind (.lift (makesNone_accept _)) fun taken => .ite (fun _ => .pure rfl) fun _ => ?_
    have hitems : Fills arena
        (do
          let first ← item
          Parser.separator
          return first :: (← terminated item closing what fuel))
        (do
          let first ← reader
          Parser.separator
          return first :: (← Parser.terminated reader closing what fuel)) (all store · arena) :=
      .bind (h arena) fun _ => .bind (.lift makesNone_separator) fun _ =>
        .bind ih fun _ => .pure rfl
    refine .bind (.lift makesNone_kind) fun kind => .ite (fun _ => ?_) fun _ => hitems
    exact .bind (.lift (Parser.makesNone_expected what)) fun _ => hitems

end

/-! ### Names, types and expressions -/

theorem fills_name (fuel : Nat) :
    Fills arena (name fuel) (Parser.name fuel) (·.store arena) :=
  .bind (.lift makesNone_position) fun _ => .bind (fills_identifier _) fun _ =>
    .bind (fills_dotted (fun _ => fills_identifier _) fuel) fun _ => .made fun _ => rfl

theorem fills_typeRef (fuel : Nat) :
    Fills arena (typeRef fuel) (Parser.typeRef fuel) (·.store arena) := by
  induction fuel generalizing arena with
  | zero => exact .outOfFuel
  | succ fuel ih =>
    refine .bind (.lift makesNone_position) fun start => ?_
    refine .bind (.lift makesNone_kind) fun kind => ?_
    cases kind with
    | keyword word =>
      cases word with
      | list =>
        exact .bind (.lift makesNone_advance) fun _ => .bind (.lift (makesNone_expect _ _)) fun _ =>
          .bind ih fun _ => .bind (.lift (makesNone_expect _ _)) fun _ =>
            .bind .node fun _ => .pure rfl
      | map =>
        exact .bind (.lift makesNone_advance) fun _ => .bind (.lift (makesNone_expect _ _)) fun _ =>
          .bind ih fun _ => .bind (.lift (makesNone_expect _ _)) fun _ =>
            .bind ih fun _ => .bind (.lift (makesNone_expect _ _)) fun _ =>
              .bind .node fun _ => .pure rfl
      | bool | i32 | i64 | string | double | void =>
        exact .bind (.lift makesNone_advance) fun _ => .bind .node fun _ => .pure rfl
      | _ => exact .expected _
    | identifier => exact .bind (fills_name fuel) fun _ => .pure rfl
    | _ => exact .expected _

theorem fills_mapEntry {item : ArenaParser ExprId} {reader : Parser Expr}
    (h : ∀ arena, Fills arena item reader (·.store arena)) :
    Fills arena (mapEntry item) (Parser.mapEntry reader) (Expr.storeEntry · arena) :=
  .bind (h arena) fun _ => .bind (.lift (makesNone_expect _ _)) fun _ =>
    .bind (h _) fun _ => .pure rfl

theorem fills_expr (fuel : Nat) :
    Fills arena (expr fuel) (Parser.expr fuel) (·.store arena) := by
  induction fuel generalizing arena with
  | zero => exact .outOfFuel
  | succ fuel ih =>
    refine .bind (.lift makesNone_position) fun start => ?_
    refine .bind (.lift makesNone_kind) fun kind => ?_
    cases kind with
    | integer => exact .bind (fills_integerLiteral _) fun _ => .pure rfl
    | string => exact .bind (fills_stringLiteral _) fun _ => .pure rfl
    | keyword word =>
      cases word with
      | truth => exact .bind (.lift makesNone_advance) fun _ => .bind .node fun _ => .pure rfl
      | falsehood => exact .bind (.lift makesNone_advance) fun _ => .bind .node fun _ => .pure rfl
      | _ => exact .expected _
    | mark sign =>
      cases sign with
      | openBracket =>
        refine .bind (.lift makesNone_advance) fun _ => ?_
        refine .bind (fills_terminated (fun _ => ih) _ _ fuel) fun elements => ?_
        exact .bind .node fun _ => .pure (by rw [Expr.store, Expr.storeAll_eq]; rfl)
      | openBrace =>
        refine .bind (.lift makesNone_advance) fun _ => ?_
        refine .bind (fills_terminated (fun _ => fills_mapEntry fun _ => ih) _ _ fuel)
          fun entries => ?_
        exact .bind .node fun _ => .pure (by rw [Expr.store, Expr.storeEntries_eq]; rfl)
      | _ => exact .expected _
    | identifier => exact .bind (fills_name fuel) fun _ => .pure rfl
    | _ => exact .expected _

/-! ### Directives and declarations -/

theorem fills_namespaceDirective (fuel : Nat) :
    Fills arena (namespaceDirective fuel) (Parser.namespaceDirective fuel) (·.store arena) :=
  .bind (.lift makesNone_position) fun _ => .bind (.lift makesNone_advance) fun _ =>
    .bind (.lift Parser.makesNone_namespaceScope) fun _ =>
      .bind (.lift (Parser.makesNone_namespaceSegment _)) fun _ =>
        .bind (.lift (Parser.makesNone_dotted (Parser.makesNone_namespaceSegment _) fuel))
          fun _ => .made fun _ => rfl

theorem fills_includeDirective :
    Fills arena includeDirective Parser.includeDirective (·.store arena) :=
  .bind (.lift makesNone_position) fun _ => .bind (.lift makesNone_advance) fun _ =>
    .bind (fills_stringLiteral _) fun _ => .made fun _ => rfl

theorem fills_order :
    Fills arena order Parser.order (optional IntegerLiteral.store · arena) := by
  refine .bind (.lift makesNone_kind) fun kind => .ite (fun _ => ?_) fun _ => .pure rfl
  exact .bind (fills_integerLiteral _) fun _ => .bind (.lift (makesNone_expect _ _)) fun _ =>
    .pure rfl

theorem fills_enumEntry : Fills arena enumEntry Parser.enumEntry (·.store arena) :=
  .bind (.lift makesNone_position) fun _ => .bind (fills_identifier _) fun _ =>
    .bind (fills_clause _ fun _ => fills_integerLiteral _) fun _ => .made fun _ => rfl

theorem fills_field (fuel : Nat) :
    Fills arena (field fuel) (Parser.field fuel) (·.store arena) :=
  .bind (.lift makesNone_position) fun _ => .bind fills_order fun _ =>
    .bind (.lift Parser.makesNone_requiredness) fun _ => .bind (fills_typeRef fuel) fun _ =>
      .bind (fills_identifier _) fun _ => .bind (fills_clause _ fun _ => fills_expr fuel) fun _ =>
        .made fun _ => rfl

theorem fills_argument (fuel : Nat) :
    Fills arena (argument fuel) (Parser.argument fuel) (·.store arena) :=
  .bind (.lift makesNone_position) fun _ => .bind fills_order fun _ =>
    .bind (fills_typeRef fuel) fun _ => .bind (fills_identifier _) fun _ => .made fun _ => rfl

theorem fills_method (fuel : Nat) :
    Fills arena (method fuel) (Parser.method fuel) (·.store arena) := by
  have harguments (arena : Arena) (what : String) :
      Fills arena (terminated (argument fuel) .closeParen what fuel)
        (Parser.terminated (Parser.argument fuel) .closeParen what fuel)
        (all Argument.store · arena) :=
    fills_terminated (fun _ => fills_argument fuel) .closeParen what fuel
  refine .bind (.lift makesNone_position) fun _ => .bind (.lift (makesNone_accept _)) fun _ => ?_
  refine .bind (fills_typeRef fuel) fun _ => .bind (fills_identifier _) fun _ => ?_
  refine .bind (.lift (makesNone_expect _ _)) fun _ => .bind (harguments _ _) fun _ => ?_
  refine .bind (fills_clause _ fun arena =>
    .bind (.lift (makesNone_expect _ _)) fun _ => harguments arena _) fun throws => ?_
  cases throws with
  | none => exact .made fun _ => rfl
  | some throws => exact .made fun _ => rfl

theorem fills_constantDecl (fuel : Nat) :
    Fills arena (constantDecl fuel) (Parser.constantDecl fuel) (·.store arena) :=
  .bind (.lift makesNone_position) fun _ => .bind (.lift makesNone_advance) fun _ =>
    .bind (fills_typeRef fuel) fun _ => .bind (fills_identifier _) fun _ =>
      .bind (.lift (makesNone_expect _ _)) fun _ => .bind (fills_expr fuel) fun _ =>
        .made fun _ => rfl

theorem fills_typedefDecl (fuel : Nat) :
    Fills arena (typedefDecl fuel) (Parser.typedefDecl fuel) (·.store arena) :=
  .bind (.lift makesNone_position) fun _ => .bind (.lift makesNone_advance) fun _ =>
    .bind (fills_typeRef fuel) fun _ => .bind (fills_identifier _) fun _ => .made fun _ => rfl

theorem fills_enumDecl (fuel : Nat) :
    Fills arena (enumDecl fuel) (Parser.enumDecl fuel) (·.store arena) :=
  .bind (.lift makesNone_position) fun _ => .bind (.lift makesNone_advance) fun _ =>
    .bind (fills_identifier _) fun _ => .bind (.lift (makesNone_expect _ _)) fun _ =>
      .bind (fills_terminated (fun _ => fills_enumEntry) _ _ fuel) fun _ => .made fun _ => rfl

theorem fills_structDecl (kind : StructKind) (fuel : Nat) :
    Fills arena (structDecl kind fuel) (Parser.structDecl kind fuel) (·.store arena) :=
  .bind (.lift makesNone_position) fun _ => .bind (.lift makesNone_advance) fun _ =>
    .bind (fills_identifier _) fun _ => .bind (.lift (makesNone_expect _ _)) fun _ =>
      .bind (fills_terminated (fun _ => fills_field fuel) _ _ fuel) fun _ => .made fun _ => rfl

theorem fills_serviceDecl (fuel : Nat) :
    Fills arena (serviceDecl fuel) (Parser.serviceDecl fuel) (·.store arena) :=
  .bind (.lift makesNone_position) fun _ => .bind (.lift makesNone_advance) fun _ =>
    .bind (fills_identifier _) fun _ => .bind (fills_clause _ fun _ => fills_name fuel) fun _ =>
      .bind (.lift (makesNone_expect _ _)) fun _ =>
        .bind (fills_terminated (fun _ => fills_method fuel) _ _ fuel) fun _ => .made fun _ => rfl

theorem fills_declaration (fuel : Nat) :
    Fills arena (declaration fuel) (Parser.declaration fuel) (·.store arena) := by
  refine .bind (.lift makesNone_kind) fun kind => ?_
  cases kind with
  | keyword word =>
    cases word with
    | const => exact (fills_constantDecl fuel).map fun _ => rfl
    | typedef => exact (fills_typedefDecl fuel).map fun _ => rfl
    | enum => exact (fills_enumDecl fuel).map fun _ => rfl
    | struct => exact (fills_structDecl .struct fuel).map fun _ => rfl
    | exception => exact (fills_structDecl .exception fuel).map fun _ => rfl
    | service => exact (fills_serviceDecl fuel).map fun _ => rfl
    | naming => exact .fail _
    | inclusion => exact .fail _
    | _ => exact .expected _
  | _ => exact .expected _

theorem fills_declarations (fuel rounds : Nat) :
    Fills arena (declarations fuel rounds) (Parser.declarations fuel rounds)
      (all Declaration.store · arena) := by
  induction rounds generalizing arena with
  | zero => exact .outOfFuel
  | succ rounds ih =>
    refine .bind (.lift makesNone_kind) fun kind => .ite (fun _ => .pure rfl) fun _ => ?_
    exact .bind (fills_declaration fuel) fun _ => .bind (.lift makesNone_separator) fun _ =>
      .bind ih fun _ => .pure rfl

theorem fills_headers (fuel rounds : Nat) :
    Fills arena (headers fuel rounds) (Parser.orderedHeaders fuel rounds)
      (storeHeaders · arena) := by
  induction rounds generalizing arena with
  | zero => exact .outOfFuel
  | succ rounds ih =>
    refine .bind (.lift makesNone_kind) fun kind => ?_
    cases kind with
    | keyword word =>
      cases word with
      | naming =>
        exact .bind (fills_namespaceDirective fuel) fun _ =>
          .bind (.lift makesNone_separator) fun _ => .bind ih fun _ => .pure rfl
      | inclusion =>
        exact .bind fills_includeDirective fun _ =>
          .bind (.lift makesNone_separator) fun _ => .bind ih fun _ => .pure rfl
      | _ => exact .pure rfl
    | _ => exact .pure rfl

theorem fills_document (fuel : Nat) :
    Fills arena (document fuel) (Parser.orderedDocument fuel) (·.store arena) :=
  .bind (.lift Parser.makesNone_checkCurrent) fun _ => .bind (.lift makesNone_position) fun _ =>
    .bind (fills_headers fuel fuel) fun _ => .bind (fills_declarations fuel fuel) fun _ =>
      .made fun _ => rfl

end ArenaParser

namespace Source

/-- What there is to read in the file, with its directives in source order, and the state of the
reader behind it. -/
def readOrdered (source : Source) : Except ParseFailure (OrderedDocument × ParserState) :=
  (Parser.orderedDocument source.tokens.length).run ⟨source.tokens, 0, 0⟩

theorem parse_eq_readOrdered (source : Source) :
    source.parse = source.readOrdered.map fun read => ⟨read.1.document, read.2.nodes⟩ := by
  rw [parse, Parser.document_eq, StateT.run_map, readOrdered]
  cases (Parser.orderedDocument source.tokens.length).run ⟨source.tokens, 0, 0⟩ <;> rfl

theorem parseArena_eq_readOrdered (source : Source) :
    source.parseArena = source.readOrdered.map fun read =>
      ⟨(read.1.store #[]).2, (read.1.store #[]).1⟩ := by
  rw [parseArena, (ArenaParser.fills_document source.tokens.length).run, StateT.run_map,
    readOrdered]
  cases (Parser.orderedDocument source.tokens.length).run ⟨source.tokens, 0, 0⟩ <;> rfl

/-- Of what there is to read, the reader has counted as many nodes as there are to store. -/
theorem nodes_of_readOrdered {source : Source} {ordered : OrderedDocument} {last : ParserState}
    (h : source.readOrdered = .ok (ordered, last)) : last.nodes = (ordered.store #[]).2.size := by
  have hnodes := (@ArenaParser.fills_document #[] source.tokens.length).nodes ⟨source.tokens, 0, 0⟩
  unfold Parser.Ensures at hnodes
  rw [readOrdered] at h
  rw [h] at hnodes
  simpa using hnodes

/-- The arena of a file is its tree, stored. -/
theorem exists_stored_of_parse {source : Source} {parsed : ParsedDocument}
    (h : source.parse = .ok parsed) :
    ∃ ordered : OrderedDocument, parsed.document = ordered.document ∧
      parsed.nodes = (ordered.store #[]).2.size ∧
      source.parseArena = .ok ⟨(ordered.store #[]).2, (ordered.store #[]).1⟩ := by
  rw [parse_eq_readOrdered] at h
  rw [parseArena_eq_readOrdered]
  cases hread : source.readOrdered with
  | error failure =>
    rw [hread] at h
    cases h
  | ok read =>
    rw [hread] at h
    cases h
    exact ⟨read.1, rfl, nodes_of_readOrdered hread, rfl⟩

/-- Both parsers fail on the same files, with the same reports. -/
theorem parseArena_eq_error_iff {source : Source} {failure : ParseFailure} :
    source.parseArena = .error failure ↔ source.parse = .error failure := by
  rw [parseArena_eq_readOrdered, parse_eq_readOrdered]
  cases source.readOrdered <;> simp [Except.map]

end Source

end Idl
