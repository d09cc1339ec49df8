import Idl.Proofs.Located
import Idl.Proofs.OffsetLexer

/-!
# Parsing without fuel

The parser once more, with the number of remaining tokens in place of fuel: a loop goes into its
next round, and a construct into one of the same sort inside it, only with fewer tokens left than
when it was entered last. On the tokens of a text this parser does what the one with fuel does,
however much fuel that has. So parsing comes to an end on every text, with a tree or with a report.
-/
namespace Idl.Parser

variable {α β : Type}

/-- The parser, where fewer tokens than `bound` are left. -/
def below (bound : Nat) (parser : Parser α) : Parser α := fun s =>
  if s.tokens.length < bound then parser s else throw .outOfFuel

/-- Runs a body that may enter itself again, each time with fewer tokens left. -/
def descend (body : Parser α → Parser α) : Parser α := fun s =>
  body (fun next => if next.tokens.length < s.tokens.length then descend body next
    else throw .outOfFuel) s
termination_by s => s.tokens.length

theorem run_descend (body : Parser α → Parser α) (s : ParserState) :
    (descend body).run s = (body (below s.tokens.length (descend body))).run s := by
  rw [StateT.run, descend]
  rfl

/-! ### Loops and nested constructs -/

namespace Measured

def terminated (item : Parser α) (closing : Mark) (what : String) : Parser (List α) :=
  descend fun again => do
    if ← accept (.mark closing) then
      return []
    if (← kind) = .finish then
      expected what
    let first ← item
    separator
    return first :: (← again)

def dotted (item : Parser α) : Parser (List α) :=
  descend fun again => do
    match ← clause (.mark .dot) item with
    | some next => return next :: (← again)
    | none => return []

def name : Parser Name := do
  let start ← position
  let head ← identifier "name"
  let tail ← dotted (identifier "name")
  return ⟨head, tail, ← node start⟩

def typeRef : Parser TypeRef :=
  descend fun typeRef => do
    let start ← position
    match ← kind with
    | .keyword .list =>
      advance
      expect (.mark .less) "'<'"
      let element ← typeRef
      expect (.mark .greater) "'>'"
      return .list element (← node start)
    | .keyword .map =>
      advance
      expect (.mark .less) "'<'"
      let key ← typeRef
      expect (.mark .comma) "','"
      let value ← typeRef
      expect (.mark .greater) "'>'"
      return .map key value (← node start)
    | .keyword word =>
      match builtin? word with
      | some type =>
        advance
        return .builtin type (← node start)
      | none => expected "type"
    | .identifier => return .name (← name)
    | _ => expected "type"

def expr : Parser Expr :=
  descend fun expr => do
    let start ← position
    match ← kind with
    | .integer => return .integer (← integerLiteral "integer")
    | .string => return .string (← stringLiteral "string")
    | .keyword .truth =>
      advance
      return .bool true (← node start)
    | .keyword .falsehood =>
      advance
      return .bool false (← node start)
    | .mark .openBracket =>
      advance
      let elements ← terminated expr .closeBracket "value or ']'"
      return .list elements (← node start)
    | .mark .openBrace =>
      advance
      let entries ← terminated (mapEntry expr) .closeBrace "map entry or '\x7d'"
      return .map entries (← node start)
    | .identifier => return .name (← name)
    | _ => expected "value"

def namespaceDirective : Parser NamespaceDirective := do
  let start ← position
  advance
  let scope ← namespaceScope
  let head ← namespaceSegment "namespace"
  let tail ← dotted (namespaceSegment "namespace")
  return ⟨scope, ".".intercalate (head :: tail), ← node start⟩

def field : Parser Field := do
  let start ← position
  let order ← order
  let requiredness ← requiredness
  let type ← typeRef
  let name ← identifier "field name"
  let default ← clause (.mark .equals) expr
  return ⟨order, requiredness, type, name, default, ← node start⟩

def argument : Parser Argument := do
  let start ← position
  let order ← order
  let type ← typeRef
  let name ← identifier "argument name"
  return ⟨order, type, name, ← node start⟩

def method : Parser Method := do
  let start ← position
  let oneway ← accept (.keyword .oneway)
  let returns ← typeRef
  let name ← identifier "method name"
  expect (.mark .openParen) "'('"
  let arguments ← terminated argument .closeParen "argument or ')'"
  let throws ← clause (.keyword .throws) do
    expect (.mark .openParen) "'('"
    terminated argument .closeParen "exception or ')'"
  return ⟨oneway, returns, name, arguments, throws.getD [], ← node start⟩

def constantDecl : Parser ConstantDecl := do
  let start ← position
  advance
  let type ← typeRef
  let name ← identifier "constant name"
  expect (.mark .equals) "'='"
  let value ← expr
  return ⟨type, name, value, ← node start⟩

def typedefDecl : Parser TypedefDecl := do
  let start ← position
  advance
  let type ← typeRef
  let name ← identifier "typedef name"
  return ⟨type, name, ← node start⟩

def enumDecl : Parser EnumDecl := do
  let start ← position
  advance
  let name ← identifier "enum name"
  expect (.mark .openBrace) "'\x7b'"
  let entries ← terminated enumEntry .closeBrace "enum entry or '\x7d'"
  return ⟨name, entries, ← node start⟩

def structDecl (structKind : StructKind) : Parser StructDecl := do
  let start ← position
  advance
  let name ← identifier "struct name"
  expect (.mark .openBrace) "'\x7b'"
  let fields ← terminated field .closeBrace "field or '\x7d'"
  return ⟨structKind, name, fields, ← node start⟩

def serviceDecl : Parser ServiceDecl := do
  let start ← position
  advance
  let name ← identifier "service name"
  let parent ← clause (.keyword .extending) Measured.name
  expect (.mark .openBrace) "'\x7b'"
  let methods ← terminated method .closeBrace "method or '\x7d'"
  return ⟨name, parent, methods, ← node start⟩

def declaration : Parser Declaration := do
  match ← kind with
  | .keyword .const => .constant <$> constantDecl
  | .keyword .typedef => .typedef <$> typedefDecl
  | .keyword .enum => .enum <$> enumDecl
  | .keyword .struct => .struct <$> structDecl .struct
  | .keyword .exception => .struct <$> structDecl .exception
  | .keyword .service => .service <$> serviceDecl
  | .keyword .naming => fail (.headerAfterDeclaration (.keyword .naming))
  | .keyword .inclusion => fail (.headerAfterDeclaration (.keyword .inclusion))
  | _ => expected "declaration"

def headers : Parser (List NamespaceDirective × List IncludeDirective) :=
  descend fun again => do
    match ← kind with
    | .keyword .naming =>
      let directive ← namespaceDirective
      separator
      let (namespaces, includes) ← again
      return (directive :: namespaces, includes)
    | .keyword .inclusion =>
      let directive ← includeDirective
      separator
      let (namespaces, includes) ← again
      return (namespaces, directive :: includes)
    | _ => return ([], [])

def declarations : Parser (List Declaration) :=
  descend fun again => do
    if (← kind) = .finish then
      return []
    let first ← declaration
    separator
    return first :: (← again)

def document : Parser Document := do
  checkCurrent
  let start ← position
  let (namespaces, includes) ← headers
  let declarations ← declarations
  return ⟨namespaces, includes, declarations, ← node start⟩

end Measured

/-! ### The two parsers do the same -/

variable {input : List Token} {bound : Nat}

/-- With at most so many tokens left, the parsers do the same. -/
def Same (input : List Token) (bound : Nat) (parser other : Parser α) : Prop :=
  ∀ s : ParserState, s.Ready input → s.tokens.length ≤ bound → parser.run s = other.run s

/-- With at most `bound` tokens left, the parser blames one of them or comes to an end with at most
so many left. -/
def Leaves (input : List Token) (bound : Nat) (parser : Parser α) (left : α → Nat) : Prop :=
  ∀ s : ParserState, s.Ready input → s.tokens.length ≤ bound →
    Ensures (Blames input) parser s fun result next =>
      next.Ready input ∧ next.tokens.length ≤ left result

theorem Reads.leaves {parser : Parser α} {spell : α → Language Token}
    (h : Reads input bound parser spell) : Leaves input bound parser fun _ => bound :=
  fun s hs hbound => (h s hs hbound).mono fun _ _ hnext =>
    ⟨hnext.ready, hnext.length_le.trans hbound⟩

/-- What is never written with no tokens takes at least one. -/
theorem Ensures.leaves_fewer {parser : Parser α} {s : ParserState} {spell : α → Language Token}
    (h : Ensures (Blames input) parser s fun result next => s.Consumes input next (spell result))
    (hnil : ∀ result, [] ∉ spell result) (hbound : s.tokens.length ≤ bound + 1) :
    Ensures (Blames input) parser s fun _ next => next.Ready input ∧ next.tokens.length ≤ bound :=
  h.mono fun result _ hnext =>
    ⟨hnext.ready, Nat.lt_succ_iff.1 ((hnext.length_lt (hnil result)).trans_le hbound)⟩

theorem Reads.leaves_fewer {parser : Parser α} {spell : α → Language Token}
    (h : Reads input (bound + 1) parser spell) (hnil : ∀ result, [] ∉ spell result) :
    Leaves input (bound + 1) parser fun _ => bound :=
  fun s hs hbound => (h s hs hbound).leaves_fewer hnil hbound

namespace Same

variable {parser other : Parser α}

theorem refl (parser : Parser α) : Same input bound parser parser := fun _ _ _ => rfl

theorem mono {bound' : Nat} (h : Same input bound parser other) (hle : bound' ≤ bound) :
    Same input bound' parser other :=
  fun s hs hbound => h s hs (hbound.trans hle)

/-- Some token is always left. -/
theorem zero : Same input 0 parser other :=
  fun _ hs hbound => absurd hs.length_pos (by omega)

/-- The parsers differ in the first step only. -/
theorem bind_right {second : α → Parser β} (h : Same input bound parser other) :
    Same input bound (parser >>= second) (other >>= second) := by
  intro s hs hbound
  rw [StateT.run_bind, StateT.run_bind, h s hs hbound]

theorem run_bind {s : ParserState} {left : α → Nat} {second second' : α → Parser β}
    (h : parser.run s = other.run s)
    (hleft : Ensures (Blames input) parser s fun result next =>
      next.Ready input ∧ next.tokens.length ≤ left result)
    (hsecond : ∀ result, Same input (left result) (second result) (second' result)) :
    (parser >>= second).run s = (other >>= second').run s := by
  rw [StateT.run_bind, StateT.run_bind, ← h]
  unfold Ensures at hleft
  cases hresult : parser.run s with
  | error failure => rfl
  | ok pair =>
    rw [hresult] at hleft
    exact hsecond pair.1 pair.2 hleft.1 hleft.2

theorem bind {left : α → Nat} {second second' : α → Parser β} (h : Same input bound parser other)
    (hleft : Leaves input bound parser left)
    (hsecond : ∀ result, Same input (left result) (second result) (second' result)) :
    Same input bound (parser >>= second) (other >>= second') :=
  fun s hs hbound => run_bind (h s hs hbound) (hleft s hs hbound) hsecond

theorem map {f : α → β} (h : Same input bound parser other) :
    Same input bound (f <$> parser) (f <$> other) := by
  intro s hs hbound
  rw [StateT.run_map, StateT.run_map, h s hs hbound]

theorem position {next next' : Nat → Parser α}
    (h : ∀ start, Same input bound (next start) (next' start)) :
    Same input bound (Parser.position >>= next) (Parser.position >>= next') :=
  fun s hs hbound => h s.current.span.start s hs hbound

theorem run_kind {s : ParserState} {next next' : TokenKind → Parser α}
    (h : ∀ kind, s.current.kind = kind → (next kind).run s = (next' kind).run s) :
    (Parser.kind >>= next).run s = (Parser.kind >>= next').run s :=
  h s.current.kind rfl

theorem kind {next next' : TokenKind → Parser α}
    (h : ∀ kind, Same input bound (next kind) (next' kind)) :
    Same input bound (Parser.kind >>= next) (Parser.kind >>= next') :=
  fun s hs hbound => h s.current.kind s hs hbound

/-- Behind a token that was taken fewer are left. -/
theorem advance {next next' : Unit → Parser α} (h : Same input bound (next ()) (next' ())) :
    Same input (bound + 1) (Parser.advance >>= next) (Parser.advance >>= next') := by
  intro s hs hbound
  by_cases hfinish : s.current.kind = .finish
  · rw [StateT.run_bind, StateT.run_bind, run_advance_of_finish hfinish]
    rfl
  · have hadvance := ensures_advance hs fun hlexeme => hfinish (congrArg Lexeme.kind hlexeme)
    rw [StateT.run_bind, StateT.run_bind]
    unfold Ensures at hadvance
    cases hrun : Parser.advance.run s with
    | error failure => rfl
    | ok pair =>
      rw [hrun] at hadvance
      have hlt := hadvance.length_lt (Spelling.nil_notMem_lexeme _)
      exact h pair.2 hadvance.ready (by omega)

theorem below {limit : Nat} (h : Same input bound parser other) (hlt : bound < limit) :
    Same input bound parser (below limit other) := by
  intro s hs hbound
  rw [h s hs hbound, StateT.run, StateT.run, Parser.below, if_pos (hbound.trans_lt hlt)]

/-- It is enough to compare one round. -/
theorem descend {body : Parser α → Parser α}
    (h : ∀ left, left + 1 ≤ bound →
      Same input (left + 1) parser (body (Parser.below (left + 1) (Parser.descend body)))) :
    Same input bound parser (Parser.descend body) := by
  intro s hs hbound
  obtain ⟨left, hleft⟩ : ∃ left, s.tokens.length = left + 1 :=
    ⟨s.tokens.length - 1, by have := hs.length_pos; omega⟩
  rw [run_descend, hleft]
  exact h left (hleft ▸ hbound) s hs hleft.le

end Same

theorem leaves_accept {wanted : TokenKind} {spelling : Language Token}
    (hwanted : Spells wanted spelling) :
    Leaves input bound (accept wanted) fun _ => bound := by
  intro s hs hbound
  refine (ensures_accept hs hwanted).mono fun taken next h => ?_
  rcases h with ⟨-, h⟩ | ⟨-, rfl⟩
  · exact ⟨h.ready, h.length_le.trans hbound⟩
  · exact ⟨hs, hbound⟩

theorem leaves_expect {wanted : TokenKind} {spelling : Language Token}
    (hwanted : Spells wanted spelling) (what : String) :
    Leaves input bound (expect wanted what) fun _ => bound :=
  fun _ hs hbound => (ensures_expect hs hwanted what).mono fun _ _ h =>
    ⟨h.ready, h.length_le.trans hbound⟩

theorem leaves_expected (what : String) :
    Leaves input bound (expected what : Parser α) fun _ => 0 :=
  fun _ hs _ => ensures_expected hs what

theorem leaves_separator : Leaves input bound separator fun _ => bound :=
  fun _ hs hbound => (ensures_separator hs).mono fun _ _ h =>
    ⟨h.ready, h.length_le.trans hbound⟩

theorem Spells.nil_notMem {wanted : TokenKind} {spelling : Language Token}
    (h : Spells wanted spelling) : [] ∉ spelling := by
  cases h <;> exact Spelling.nil_notMem_lexeme _

section Loops

variable {item item' : Parser α} {spell : α → Language Token} {wanted : TokenKind}
  {spelling : Language Token}

theorem same_clause (hwanted : Spells wanted spelling) (h : Same input bound item item') :
    Same input bound (clause wanted item) (clause wanted item') := by
  unfold clause
  refine (Same.refl _).bind (leaves_accept hwanted) fun taken => ?_
  cases taken with
  | true => exact h.map
  | false => exact .refl _

theorem leaves_clause (hwanted : Spells wanted spelling) (hitem : Reads input bound item spell) :
    Leaves input bound (clause wanted item) fun _ => bound :=
  fun _ hs hbound => (ensures_clause hs hwanted hbound hitem).mono fun _ _ h =>
    ⟨h.ready, h.length_le.trans hbound⟩

/-- An item that is there has a token in front of it. -/
theorem leaves_fewer_clause (hwanted : Spells wanted spelling)
    (hitem : Reads input (bound + 1) item spell) :
    Leaves input (bound + 1) (clause wanted item) fun result =>
      result.elim (bound + 1) fun _ => bound := by
  intro s hs hbound
  refine (ensures_clause hs hwanted hbound hitem).mono fun result next h => ⟨h.ready, ?_⟩
  cases result with
  | none => exact h.length_le.trans hbound
  | some result =>
    have hlt := h.length_lt fun ⟨_, hfirst, _, _, happend⟩ =>
      hwanted.nil_notMem ((List.append_eq_nil_iff.1 happend).1 ▸ hfirst)
    exact Nat.lt_succ_iff.1 (hlt.trans_le hbound)

/-- A loop with enough fuel. -/
theorem same_terminated (h : Same input bound item item') (hitem : Reads input bound item spell)
    (hnil : ∀ result, [] ∉ spell result) (closing : Mark) (what : String) {fuel : Nat}
    (hfuel : bound ≤ fuel) :
    Same input bound (terminated item closing what fuel)
      (Measured.terminated item' closing what) := by
  induction fuel generalizing bound with
  | zero =>
    obtain rfl := Nat.le_zero.1 hfuel
    exact .zero
  | succ fuel ih =>
    refine .descend fun left hleft => ?_
    rw [terminated]
    refine (Same.refl _).bind (leaves_accept (.mark closing)) fun taken => ?_
    cases taken with
    | true => exact .refl _
    | false =>
      refine .kind fun kind => ?_
      split
      · exact (Same.refl _).bind (leaves_expected what) fun _ => .zero
      · refine (h.mono hleft).bind ((hitem.mono hleft).leaves_fewer hnil) fun first => ?_
        refine (Same.refl _).bind leaves_separator fun _ => ?_
        have hle := Nat.le_of_succ_le hleft
        have hrest := ih (h.mono hle) (hitem.mono hle) (Nat.le_of_succ_le_succ (hleft.trans hfuel))
        exact (hrest.below (Nat.lt_succ_self left)).bind_right

theorem same_dotted (h : Same input bound item item') (hitem : Reads input bound item spell)
    {fuel : Nat} (hfuel : bound ≤ fuel) :
    Same input bound (dotted item fuel) (Measured.dotted item') := by
  induction fuel generalizing bound with
  | zero =>
    obtain rfl := Nat.le_zero.1 hfuel
    exact .zero
  | succ fuel ih =>
    refine .descend fun left hleft => ?_
    rw [dotted]
    refine (same_clause (.mark .dot) (h.mono hleft)).bind
      (leaves_fewer_clause (.mark .dot) (hitem.mono hleft)) fun next => ?_
    cases next with
    | none => exact .refl _
    | some next =>
      have hle := Nat.le_of_succ_le hleft
      have hrest := ih (h.mono hle) (hitem.mono hle) (Nat.le_of_succ_le_succ (hleft.trans hfuel))
      exact (hrest.below (Nat.lt_succ_self left)).bind_right

end Loops

theorem same_name (fuel : Nat) : Same input (fuel + 1) (name fuel) Measured.name := by
  unfold name Measured.name
  refine .position fun start => ?_
  refine (Same.refl _).bind ((reads_identifier _ "name").leaves_fewer
    fun _ => Spelling.nil_notMem_spanning _ _) fun head => ?_
  exact (same_dotted (.refl _) (reads_identifier fuel "name") le_rfl).bind_right

theorem same_typeRef (fuel : Nat) : Same input fuel (typeRef fuel) Measured.typeRef := by
  induction fuel with
  | zero => exact .zero
  | succ fuel ih =>
    refine .descend fun left hleft => ?_
    have hle := Nat.le_of_succ_le_succ hleft
    have hinner : Same input left (typeRef fuel) (below (left + 1) Measured.typeRef) :=
      (ih.mono hle).below (Nat.lt_succ_self left)
    have hreads : Leaves input left (typeRef fuel) fun _ => left :=
      ((reads_typeRef fuel).mono hle).leaves
    rw [typeRef]
    refine .position fun start => .kind fun kind => ?_
    cases kind with
    | keyword word =>
      cases word with
      | list =>
        refine .advance ?_
        refine (Same.refl _).bind (leaves_expect (.mark .less) _) fun _ => ?_
        exact hinner.bind_right
      | map =>
        refine .advance ?_
        refine (Same.refl _).bind (leaves_expect (.mark .less) _) fun _ => ?_
        refine hinner.bind hreads fun key => ?_
        refine (Same.refl _).bind (leaves_expect (.mark .comma) _) fun _ => ?_
        exact hinner.bind_right
      | _ => exact .refl _
    | identifier => exact ((same_name fuel).mono hleft).bind_right
    | _ => exact .refl _

theorem same_mapEntry {item item' : Parser Expr} (h : Same input bound item item')
    (hitem : Reads input bound item Expr.spellings) :
    Same input bound (mapEntry item) (mapEntry item') := by
  unfold mapEntry
  refine h.bind hitem.leaves fun key => ?_
  refine (Same.refl _).bind (leaves_expect (.mark .colon) _) fun _ => ?_
  exact h.bind_right

theorem same_expr (fuel : Nat) : Same input fuel (expr fuel) Measured.expr := by
  induction fuel with
  | zero => exact .zero
  | succ fuel ih =>
    refine .descend fun left hleft => ?_
    have hle := Nat.le_of_succ_le_succ hleft
    have hinner : Same input left (expr fuel) (below (left + 1) Measured.expr) :=
      (ih.mono hle).below (Nat.lt_succ_self left)
    have hreads : Reads input left (expr fuel) Expr.spellings := (reads_expr fuel).mono hle
    rw [expr]
    refine .position fun start => .kind fun kind => ?_
    cases kind with
    | mark sign =>
      cases sign with
      | openBracket =>
        refine .advance ?_
        exact (same_terminated hinner hreads Expr.nil_notMem_spellings _ _ hle).bind_right
      | openBrace =>
        refine .advance ?_
        exact (same_terminated (same_mapEntry hinner hreads) (reads_mapEntry hreads)
          nil_notMem_entrySpellings _ _ hle).bind_right
      | _ => exact .refl _
    | keyword word => cases word <;> exact .refl _
    | identifier => exact ((same_name fuel).mono hleft).bind_right
    | _ => exact .refl _

theorem same_field (fuel : Nat) : Same input fuel (field fuel) Measured.field := by
  unfold field Measured.field
  refine .position fun start => (Same.refl _).bind (reads_order fuel).leaves fun order => ?_
  refine (Same.refl _).bind (reads_requiredness fuel).leaves fun requiredness => ?_
  refine (same_typeRef fuel).bind (reads_typeRef fuel).leaves fun type => ?_
  refine (Same.refl _).bind (reads_identifier fuel _).leaves fun name => ?_
  exact (same_clause (.mark .equals) (same_expr fuel)).bind_right

theorem same_argument (fuel : Nat) : Same input fuel (argument fuel) Measured.argument := by
  unfold argument Measured.argument
  refine .position fun start => (Same.refl _).bind (reads_order fuel).leaves fun order => ?_
  exact (same_typeRef fuel).bind_right

theorem same_arguments (fuel : Nat) (what : String) :
    Same input fuel (terminated (argument fuel) .closeParen what fuel)
      (Measured.terminated Measured.argument .closeParen what) :=
  same_terminated (same_argument fuel) (reads_argument fuel)
    (fun _ => Spelling.nil_notMem_spanning _ _) _ _ le_rfl

theorem same_method (fuel : Nat) : Same input fuel (method fuel) Measured.method := by
  unfold method Measured.method
  refine .position fun start => ?_
  refine (Same.refl _).bind (leaves_accept (.keyword .oneway)) fun oneway => ?_
  refine (same_typeRef fuel).bind (reads_typeRef fuel).leaves fun returns => ?_
  refine (Same.refl _).bind (reads_identifier fuel _).leaves fun name => ?_
  refine (Same.refl _).bind (leaves_expect (.mark .openParen) _) fun _ => ?_
  refine (same_arguments fuel _).bind (reads_terminated (reads_argument fuel)
    (fun _ => Spelling.nil_notMem_spanning _ _) _ _).leaves fun arguments => ?_
  refine (same_clause (.keyword .throws) ?_).bind_right
  exact (Same.refl _).bind (leaves_expect (.mark .openParen) _) fun _ => same_arguments fuel _

theorem same_constantDecl (fuel : Nat) :
    Same input (fuel + 1) (constantDecl fuel) Measured.constantDecl := by
  unfold constantDecl Measured.constantDecl
  refine .position fun start => .advance ?_
  refine (same_typeRef fuel).bind (reads_typeRef fuel).leaves fun type => ?_
  refine (Same.refl _).bind (reads_identifier fuel _).leaves fun name => ?_
  refine (Same.refl _).bind (leaves_expect (.mark .equals) _) fun _ => ?_
  exact (same_expr fuel).bind_right

theorem same_typedefDecl (fuel : Nat) :
    Same input (fuel + 1) (typedefDecl fuel) Measured.typedefDecl := by
  unfold typedefDecl Measured.typedefDecl
  refine .position fun start => .advance ?_
  exact (same_typeRef fuel).bind_right

theorem same_enumDecl (fuel : Nat) :
    Same input (fuel + 1) (enumDecl fuel) Measured.enumDecl := by
  unfold enumDecl Measured.enumDecl
  refine .position fun start => .advance ?_
  refine (Same.refl _).bind (reads_identifier fuel _).leaves fun name => ?_
  refine (Same.refl _).bind (leaves_expect (.mark .openBrace) _) fun _ => ?_
  exact (same_terminated (.refl _) (reads_enumEntry fuel)
    (fun _ => Spelling.nil_notMem_spanning _ _) _ _ le_rfl).bind_right

theorem same_structDecl (kind : StructKind) (fuel : Nat) :
    Same input (fuel + 1) (structDecl kind fuel) (Measured.structDecl kind) := by
  unfold structDecl Measured.structDecl
  refine .position fun start => .advance ?_
  refine (Same.refl _).bind (reads_identifier fuel _).leaves fun name => ?_
  refine (Same.refl _).bind (leaves_expect (.mark .openBrace) _) fun _ => ?_
  exact (same_terminated (same_field fuel) (reads_field fuel)
    (fun _ => Spelling.nil_notMem_spanning _ _) _ _ le_rfl).bind_right

theorem same_serviceDecl (fuel : Nat) :
    Same input (fuel + 1) (serviceDecl fuel) Measured.serviceDecl := by
  unfold serviceDecl Measured.serviceDecl
  refine .position fun start => .advance ?_
  refine (Same.refl _).bind (reads_identifier fuel _).leaves fun name => ?_
  have hle := Nat.le_succ fuel
  refine (same_clause (.keyword .extending) ((same_name fuel).mono hle)).bind
    (leaves_clause (.keyword .extending) ((reads_name fuel).mono hle)) fun parent => ?_
  refine (Same.refl _).bind (leaves_expect (.mark .openBrace) _) fun _ => ?_
  exact (same_terminated (same_method fuel) (reads_method fuel)
    (fun _ => Spelling.nil_notMem_spanning _ _) _ _ le_rfl).bind_right

theorem same_declaration (fuel : Nat) :
    Same input (fuel + 1) (declaration fuel) Measured.declaration := by
  unfold declaration Measured.declaration
  refine .kind fun kind => ?_
  cases kind with
  | keyword word =>
    cases word with
    | const => exact (same_constantDecl fuel).map
    | typedef => exact (same_typedefDecl fuel).map
    | enum => exact (same_enumDecl fuel).map
    | struct => exact (same_structDecl .struct fuel).map
    | exception => exact (same_structDecl .exception fuel).map
    | service => exact (same_serviceDecl fuel).map
    | _ => exact .refl _
  | _ => exact .refl _

theorem same_namespaceDirective (hinput : ∀ token ∈ input, token.lexeme.IsProper) (fuel : Nat) :
    Same input (fuel + 1) (namespaceDirective fuel) Measured.namespaceDirective := by
  unfold namespaceDirective Measured.namespaceDirective
  refine .position fun start => .advance ?_
  refine (Same.refl _).bind (reads_namespaceScope hinput fuel).leaves fun scope => ?_
  refine (Same.refl _).bind (reads_namespaceSegment hinput fuel _).leaves fun head => ?_
  exact (same_dotted (.refl _) (reads_namespaceSegment hinput fuel _) le_rfl).bind_right

theorem same_headers (hinput : ∀ token ∈ input, token.lexeme.IsProper) {fuel rounds : Nat}
    (hfuel : bound ≤ fuel) (hrounds : bound ≤ rounds) :
    Same input bound (headers fuel rounds) Measured.headers := by
  induction rounds generalizing bound with
  | zero =>
    obtain rfl := Nat.le_zero.1 hrounds
    exact .zero
  | succ rounds ih =>
    refine .descend fun left hleft => ?_
    have hle := Nat.le_of_succ_le hleft
    have hrest := (ih (hle.trans hfuel) (Nat.le_of_succ_le_succ (hleft.trans hrounds))).below
      (Nat.lt_succ_self left)
    rw [headers]
    intro s hs hbound
    refine Same.run_kind fun kind hkind => ?_
    cases kind with
    | keyword word =>
      cases word with
      | naming =>
        have hfewer := (reads_namespaceDirective hinput fuel hs (by omega) hkind).leaves_fewer
          (fun _ => Spelling.nil_notMem_spanning _ _) hbound
        refine Same.run_bind (same_namespaceDirective hinput fuel s hs (by omega)) hfewer
          fun directive => ?_
        exact (Same.refl _).bind leaves_separator fun _ => hrest.bind_right
      | inclusion =>
        have hfewer := (reads_includeDirective hs hkind).leaves_fewer
          (fun _ => Spelling.nil_notMem_spanning _ _) hbound
        refine Same.run_bind rfl hfewer fun directive => ?_
        exact (Same.refl _).bind leaves_separator fun _ => hrest.bind_right
      | _ => rfl
    | _ => rfl

theorem same_declarations {fuel rounds : Nat} (hfuel : bound ≤ fuel) (hrounds : bound ≤ rounds) :
    Same input bound (declarations fuel rounds) Measured.declarations := by
  induction rounds generalizing bound with
  | zero =>
    obtain rfl := Nat.le_zero.1 hrounds
    exact .zero
  | succ rounds ih =>
    refine .descend fun left hleft => ?_
    have hle := Nat.le_of_succ_le hleft
    have hrest := (ih (hle.trans hfuel) (Nat.le_of_succ_le_succ (hleft.trans hrounds))).below
      (Nat.lt_succ_self left)
    rw [declarations]
    refine .kind fun kind => ?_
    split
    · exact .refl _
    · refine ((same_declaration fuel).mono (hleft.trans (hfuel.trans (Nat.le_succ fuel)))).bind
        (((reads_declaration fuel).mono (hleft.trans hfuel)).leaves_fewer
          nil_notMem_declarationSpellings) fun first => ?_
      refine (Same.refl _).bind leaves_separator fun _ => ?_
      exact hrest.bind_right

/-- The parser with enough fuel does what the parser does that counts the remaining tokens. -/
theorem run_document {s : ParserState} (hinput : ∀ token ∈ s.tokens, token.lexeme.IsProper)
    (hclosed : Token.Closed s.tokens) {fuel : Nat} (hfuel : s.tokens.length ≤ fuel) :
    (document fuel).run s = Measured.document.run s := by
  have hready : Ensures (Blames s.tokens) checkCurrent s fun _ next =>
      next.Ready s.tokens ∧ next.tokens.length ≤ fuel := by
    refine (ensures_checkCurrent (ParserState.current_mem_tokens hclosed)).mono ?_
    rintro _ _ ⟨rfl, hfault⟩
    exact ⟨⟨fun _ h => h, hclosed, hfault⟩, hfuel⟩
  have hheaders : Leaves s.tokens fuel (headers fuel fuel) fun _ => fuel := by
    intro next hnext hbound
    refine (ensures_headers hinput fuel fuel hnext hbound hbound).mono ?_
    rintro _ last ⟨list, -, h⟩
    exact ⟨h.ready, h.length_le.trans hbound⟩
  unfold document Measured.document
  refine Same.run_bind rfl hready fun _ => .position fun start => ?_
  refine (same_headers hinput le_rfl le_rfl).bind hheaders fun directives => ?_
  exact (same_declarations le_rfl le_rfl).bind_right

end Idl.Parser

namespace Idl.Source

/-- The syntax tree of a file, from the parser that counts the remaining tokens. -/
def measuredParse (source : Source) : Except ParseFailure ParsedDocument :=
  (Parser.Measured.document.run ⟨source.tokens, 0, 0⟩).map fun (document, state) =>
    ⟨document, state.nodes⟩

theorem parse_eq_measuredParse (source : Source) : source.parse = source.measuredParse := by
  have hclosed : Token.Closed source.tokens := Token.closed_readAll 0 source.chars
  have hrun := @Parser.run_document ⟨source.tokens, 0, 0⟩
    (fun _ h => Token.isProper_of_mem_readAll h) hclosed _ le_rfl
  rw [parse, measuredParse, hrun]

/-- What the parser looks up in the text about a token is there. -/
structure HasText (source : Source) (token : Token) (text : String) : Prop where
  slice : source.slice? token.span = some text
  identifier : ∀ name, token.lexeme = .identifier name → text = name
  keyword : ∀ word, token.lexeme = .keyword word → text = word.spelling
  unknownChar : ∀ char, token.lexeme = .unknownChar char → source.peek? token.span.start = some char
  place : source.lineColumn? token.span.start = some (source.lineColumn token.span.start)

theorem exists_hasText {source : Source} {token : Token} (h : token ∈ source.tokens) :
    ∃ text, source.HasText token text := by
  obtain ⟨before, written, rest, hchars, hspan, hlexical⟩ := Token.lexical_of_mem_readAll h
  rw [Nat.zero_add] at hspan hlexical
  refine ⟨String.ofList written, ?_, ?_, ?_, ?_, (locates_of_mem_tokens h).lineColumn?⟩
  · rw [hspan]
    exact slice?_eq hchars
  · intro name hname
    rw [hname] at hlexical
    cases hlexical
    rfl
  · intro word hword
    rw [hword] at hlexical
    cases hlexical
    rw [String.ofList_toList]
  · intro char hchar
    rw [hchar] at hlexical
    cases hlexical
    rw [hspan, peek?_eq hchars]
    rfl

/-- Parsing is total. The text is cut into its tokens without a cut inside a character and without
going past the end. Everywhere a token is, its text and its place can be looked up. A loop and a
descent always leave fewer tokens for the next. What comes of it is a tree, or a report about one of
the tokens. -/
theorem parse_total (source : Source) :
    source.readTokens? 0 = some source.tokens ∧
      (∀ token ∈ source.tokens, ∃ text, source.HasText token text) ∧
      source.parse = source.measuredParse ∧
      match source.measuredParse with
      | .ok _ => True
      | .error failure =>
        ∃ token ∈ source.tokens, ∃ message, failure = .fault (.error token.span message) := by
  refine ⟨source.readTokens?_eq_tokens, fun _ h => exists_hasText h,
    source.parse_eq_measuredParse, ?_⟩
  rw [← source.parse_eq_measuredParse]
  cases hparse : source.parse with
  | ok parsed => trivial
  | error failure => exact exists_token_of_parse_error hparse

end Idl.Source
