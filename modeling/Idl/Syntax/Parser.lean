import Idl.Report
import Idl.Syntax
import Idl.Token.Lexer

/-!
# Parsing

A recursive descent parser over the tokens of one file. It reads one token ahead, never steps
back, and stops at the first token that cannot continue; that token is reported. Loops and nested
constructs carry fuel, and the number of tokens is always enough, because every round of a loop
and every nested construct takes at least one token.
-/
namespace Idl

/-- The tokens still to be read, and what has been read so far. -/
structure ParserState where
  tokens : List Token
  /-- End of the token read last. -/
  previousEnd : Nat
  /-- Number of syntax nodes made. -/
  nodes : Nat

namespace ParserState

/-- The next token; past the end of the list it is `finish`. -/
def current (state : ParserState) : Token :=
  state.tokens.head?.getD ⟨.finish, ⟨state.previousEnd, state.previousEnd⟩⟩

def advance (state : ParserState) : ParserState :=
  { state with tokens := state.tokens.tail, previousEnd := state.current.span.stop }

end ParserState

/-- Why there is no syntax tree. Of the three only a fault in the text ever comes about. -/
inductive ParseFailure where
  | fault (report : Report)
  /-- A step was taken past the end of the tokens. -/
  | pastEnd
  /-- A loop or a nested construct had more rounds than there are tokens. -/
  | outOfFuel
deriving DecidableEq, Repr

/-- What there is to report about a failure. -/
def ParseFailure.reports : ParseFailure → List Report
  | fault report => [report]
  | pastEnd => []
  | outOfFuel => []

abbrev Parser := StateT ParserState (Except ParseFailure)

namespace Parser

/-- What the message about a token that is a lexical fault says. -/
def faultMessage? : Lexeme → Option Message
  | .unclosedString => some .unclosedString
  | .unclosedComment => some .unclosedComment
  | .integerRange => some .integerRange
  | .unknownChar char => some (.unknownChar char)
  | _ => none

def fail {α : Type} (message : Message) : Parser α := do
  throw (.fault (.error (← get).current.span message))

def outOfFuel {α : Type} : Parser α :=
  throw .outOfFuel

/-- Gives up unless the next token is a proper one. -/
def checkCurrent : Parser Unit := do
  match faultMessage? (← get).current.lexeme with
  | some message => fail message
  | none => pure ()

def current : Parser Token :=
  return (← get).current

def kind : Parser TokenKind :=
  return (← get).current.kind

/-- Takes the next token, which must not be the last one. -/
def advance : Parser Unit := do
  if (← kind) = .finish then
    throw .pastEnd
  modify ParserState.advance
  checkCurrent

/-- Where the next token starts. -/
def position : Parser Nat :=
  return (← get).current.span.start

/-- Makes a node that began at `start` and ends with the token read last. -/
def node (start : Nat) : Parser Span :=
  modifyGet fun state => (⟨start, state.previousEnd⟩, { state with nodes := state.nodes + 1 })

def expected {α : Type} (what : String) : Parser α := do
  fail (.expected what (← kind))

/-- Reads a token of the given kind if it is next. -/
def accept (wanted : TokenKind) : Parser Bool := do
  if (← kind) = wanted then
    advance
    return true
  return false

def expect (wanted : TokenKind) (what : String) : Parser Unit := do
  unless ← accept wanted do
    expected what

/-- An item with the wanted token in front of it, if that token is next. -/
def clause {α : Type} (wanted : TokenKind) (item : Parser α) : Parser (Option α) := do
  if ← accept wanted then
    some <$> item
  else
    return none

/-- Reads a comma or semicolon if one is next. -/
def separator : Parser Unit := do
  if (← kind) ∈ [.mark .comma, .mark .semicolon] then
    advance

/-- Items up to and including the closing mark, each with an optional separator after it. -/
def terminated {α : Type} (item : Parser α) (closing : Mark) (what : String) :
    Nat → Parser (List α)
  | 0 => outOfFuel
  | fuel + 1 => do
    if ← accept (.mark closing) then
      return []
    if (← kind) = .finish then
      expected what
    let first ← item
    separator
    return first :: (← terminated item closing what fuel)

def identifier (what : String) : Parser Identifier := do
  let token ← current
  match token.lexeme with
  | .identifier text =>
    advance
    return ⟨text, ← node token.span.start⟩
  | _ => expected what

def integerLiteral (what : String) : Parser IntegerLiteral := do
  let token ← current
  match token.lexeme with
  | .integer value =>
    advance
    return ⟨value, ← node token.span.start⟩
  | _ => expected what

def stringLiteral (what : String) : Parser StringLiteral := do
  let token ← current
  match token.lexeme with
  | .string text =>
    advance
    return ⟨text, ← node token.span.start⟩
  | _ => expected what

/-- Items with a dot in front of each. -/
def dotted {α : Type} (item : Parser α) : Nat → Parser (List α)
  | 0 => outOfFuel
  | fuel + 1 => do
    match ← clause (.mark .dot) item with
    | some next => return next :: (← dotted item fuel)
    | none => return []

def name (fuel : Nat) : Parser Name := do
  let start ← position
  let head ← identifier "name"
  let tail ← dotted (identifier "name") fuel
  return ⟨head, tail, ← node start⟩

def builtin? : Keyword → Option Builtin
  | .bool => some .bool
  | .i32 => some .i32
  | .i64 => some .i64
  | .string => some .string
  | .double => some .double
  | .void => some .void
  | _ => none

def typeRef : Nat → Parser TypeRef
  | 0 => outOfFuel
  | fuel + 1 => do
    let start ← position
    match ← kind with
    | .keyword .list =>
      advance
      expect (.mark .less) "'<'"
      let element ← typeRef fuel
      expect (.mark .greater) "'>'"
      return .list element (← node start)
    | .keyword .map =>
      advance
      expect (.mark .less) "'<'"
      let key ← typeRef fuel
      expect (.mark .comma) "','"
      let value ← typeRef fuel
      expect (.mark .greater) "'>'"
      return .map key value (← node start)
    | .keyword word =>
      match builtin? word with
      | some type =>
        advance
        return .builtin type (← node start)
      | none => expected "type"
    | .identifier => return .name (← name fuel)
    | _ => expected "type"

/-- One `key: value` pair of a map. -/
def mapEntry (expr : Parser Expr) : Parser (Expr × Expr) := do
  let key ← expr
  expect (.mark .colon) "':'"
  return (key, ← expr)

def expr : Nat → Parser Expr
  | 0 => outOfFuel
  | fuel + 1 => do
    let start ← position
    match ← kind with
    | .integer => return .integer (← integerLiteral "integer")
    | .string => return .string (← stringLiteral "string")
    | .keyword .truth =>
      advance
      return .bool true (← node start)
    | .keyword .falsehood =>
      advance
      return .bool false (← node start)
    | .mark .openBracket =>
      advance
      let elements ← terminated (expr fuel) .closeBracket "value or ']'" fuel
      return .list elements (← node start)
    | .mark .openBrace =>
      advance
      let entries ← terminated (mapEntry (expr fuel)) .closeBrace "map entry or '\x7d'" fuel
      return .map entries (← node start)
    | .identifier => return .name (← name fuel)
    | _ => expected "value"

/-- Packages may be spelled with keywords, as in `com.example.service`. -/
def namespaceSegment (what : String) : Parser String := do
  match (← current).lexeme with
  | .identifier text =>
    advance
    return text
  | .keyword word =>
    advance
    return word.spelling
  | _ => expected what

/-- A language, or a star for all of them. -/
def namespaceScope : Parser String := do
  if ← accept (.mark .star) then
    return "*"
  namespaceSegment "namespace scope"

def namespaceDirective (fuel : Nat) : Parser NamespaceDirective := do
  let start ← position
  advance
  let scope ← namespaceScope
  let head ← namespaceSegment "namespace"
  let tail ← dotted (namespaceSegment "namespace") fuel
  return ⟨scope, ".".intercalate (head :: tail), ← node start⟩

def includeDirective : Parser IncludeDirective := do
  let start ← position
  advance
  let path ← stringLiteral "include path"
  return ⟨path, ← node start⟩

/-- The order in front of a field or argument, as in `1:`. -/
def order : Parser (Option IntegerLiteral) := do
  if (← kind) = .integer then
    let literal ← integerLiteral "order"
    expect (.mark .colon) "':'"
    return some literal
  return none

def enumEntry : Parser EnumEntry := do
  let start ← position
  let name ← identifier "enum entry"
  let value ← clause (.mark .equals) (integerLiteral "integer")
  return ⟨name, value, ← node start⟩

def requiredness : Parser (Option Requiredness) := do
  if ← accept (.keyword .required) then
    return some .required
  if ← accept (.keyword .optional) then
    return some .optional
  return none

def field (fuel : Nat) : Parser Field := do
  let start ← position
  let order ← order
  let requiredness ← requiredness
  let type ← typeRef fuel
  let name ← identifier "field name"
  let default ← clause (.mark .equals) (expr fuel)
  return ⟨order, requiredness, type, name, default, ← node start⟩

def argument (fuel : Nat) : Parser Argument := do
  let start ← position
  let order ← order
  let type ← typeRef fuel
  let name ← identifier "argument name"
  return ⟨order, type, name, ← node start⟩

def method (fuel : Nat) : Parser Method := do
  let start ← position
  let oneway ← accept (.keyword .oneway)
  let returns ← typeRef fuel
  let name ← identifier "method name"
  expect (.mark .openParen) "'('"
  let arguments ← terminated (argument fuel) .closeParen "argument or ')'" fuel
  let throws ← clause (.keyword .throws) do
    expect (.mark .openParen) "'('"
    terminated (argument fuel) .closeParen "exception or ')'" fuel
  return ⟨oneway, returns, name, arguments, throws.getD [], ← node start⟩

def constantDecl (fuel : Nat) : Parser ConstantDecl := do
  let start ← position
  advance
  let type ← typeRef fuel
  let name ← identifier "constant name"
  expect (.mark .equals) "'='"
  let value ← expr fuel
  return ⟨type, name, value, ← node start⟩

def typedefDecl (fuel : Nat) : Parser TypedefDecl := do
  let start ← position
  advance
  let type ← typeRef fuel
  let name ← identifier "typedef name"
  return ⟨type, name, ← node start⟩

def enumDecl (fuel : Nat) : Parser EnumDecl := do
  let start ← position
  advance
  let name ← identifier "enum name"
  expect (.mark .openBrace) "'\x7b'"
  let entries ← terminated enumEntry .closeBrace "enum entry or '\x7d'" fuel
  return ⟨name, entries, ← node start⟩

def structDecl (structKind : StructKind) (fuel : Nat) : Parser StructDecl := do
  let start ← position
  advance
  let name ← identifier "struct name"
  expect (.mark .openBrace) "'\x7b'"
  let fields ← terminated (field fuel) .closeBrace "field or '\x7d'" fuel
  return ⟨structKind, name, fields, ← node start⟩

def serviceDecl (fuel : Nat) : Parser ServiceDecl := do
  let start ← position
  advance
  let name ← identifier "service name"
  let parent ← clause (.keyword .extending) (Parser.name fuel)
  expect (.mark .openBrace) "'\x7b'"
  let methods ← terminated (method fuel) .closeBrace "method or '\x7d'" fuel
  return ⟨name, parent, methods, ← node start⟩

def declaration (fuel : Nat) : Parser Declaration := do
  match ← kind with
  | .keyword .const => .constant <$> constantDecl fuel
  | .keyword .typedef => .typedef <$> typedefDecl fuel
  | .keyword .enum => .enum <$> enumDecl fuel
  | .keyword .struct => .struct <$> structDecl .struct fuel
  | .keyword .exception => .struct <$> structDecl .exception fuel
  | .keyword .service => .service <$> serviceDecl fuel
  | .keyword .naming => fail (.headerAfterDeclaration (.keyword .naming))
  | .keyword .inclusion => fail (.headerAfterDeclaration (.keyword .inclusion))
  | _ => expected "declaration"

/-- The directives at the top of a file, in source order. -/
def headers (fuel : Nat) :
    Nat → Parser (List NamespaceDirective × List IncludeDirective)
  | 0 => outOfFuel
  | rounds + 1 => do
    match ← kind with
    | .keyword .naming =>
      let directive ← namespaceDirective fuel
      separator
      let (namespaces, includes) ← headers fuel rounds
      return (directive :: namespaces, includes)
    | .keyword .inclusion =>
      let directive ← includeDirective
      separator
      let (namespaces, includes) ← headers fuel rounds
      return (namespaces, directive :: includes)
    | _ => return ([], [])

def declarations (fuel : Nat) : Nat → Parser (List Declaration)
  | 0 => outOfFuel
  | rounds + 1 => do
    if (← kind) = .finish then
      return []
    let first ← declaration fuel
    separator
    return first :: (← declarations fuel rounds)

def document (fuel : Nat) : Parser Document := do
  checkCurrent
  let start ← position
  let (namespaces, includes) ← headers fuel fuel
  let declarations ← declarations fuel fuel
  return ⟨namespaces, includes, declarations, ← node start⟩

end Parser

/-- A syntax tree and the number of nodes in it. -/
structure ParsedDocument where
  document : Document
  nodes : Nat
deriving DecidableEq, Repr

/-- The syntax tree of a file, or the report of the first token that fits nowhere. -/
def Source.parse (source : Source) : Except ParseFailure ParsedDocument :=
  let tokens := source.tokens
  ((Parser.document tokens.length).run ⟨tokens, 0, 0⟩).map fun (document, state) =>
    ⟨document, state.nodes⟩

end Idl
