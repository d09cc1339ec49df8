import Idl.Syntax.Arena
import Idl.Syntax.Parser

/-!
# Parsing into an arena

The parser of files with its nodes put into an arena, each behind the nodes that it refers to. It
takes the same steps over the tokens; what it gives back are references.
-/
namespace Idl

/-- A parser that puts the nodes it makes into an arena. -/
abbrev ArenaParser := StateT Arena Parser

namespace ArenaParser
open Idl.Parser (position kind current advance accept expect expected outOfFuel separator)

/-- Makes a node that began at `start` and ends with the token read last. -/
def node (start : Nat) (data : NodeData) : ArenaParser (NodeId data.label) := do
  let span ← Parser.node start
  modifyGet fun arena => arena.add span data

def clause {α : Type} (wanted : TokenKind) (item : ArenaParser α) : ArenaParser (Option α) := do
  if ← accept wanted then
    some <$> item
  else
    return none

def terminated {α : Type} (item : ArenaParser α) (closing : Mark) (what : String) :
    Nat → ArenaParser (List α)
  | 0 => outOfFuel
  | fuel + 1 => do
    if ← accept (.mark closing) then
      return []
    if (← kind) = .finish then
      expected what
    let first ← item
    separator
    return first :: (← terminated item closing what fuel)

def dotted {α : Type} (item : ArenaParser α) : Nat → ArenaParser (List α)
  | 0 => outOfFuel
  | fuel + 1 => do
    match ← clause (.mark .dot) item with
    | some next => return next :: (← dotted item fuel)
    | none => return []

def identifier (what : String) : ArenaParser (NodeId .identifier) := do
  let token ← current
  match token.lexeme with
  | .identifier text =>
    advance
    node token.span.start (.identifier text)
  | _ => expected what

def integerLiteral (what : String) : ArenaParser (NodeId .integerLiteral) := do
  let token ← current
  match token.lexeme with
  | .integer value =>
    advance
    node token.span.start (.integerLiteral value)
  | _ => expected what

def stringLiteral (what : String) : ArenaParser (NodeId .stringLiteral) := do
  let token ← current
  match token.lexeme with
  | .string text =>
    advance
    node token.span.start (.stringLiteral text)
  | _ => expected what

def name (fuel : Nat) : ArenaParser (NodeId .name) := do
  let start ← position
  let head ← identifier "name"
  let tail ← dotted (identifier "name") fuel
  node start (.name (head :: tail))

def typeRef : Nat → ArenaParser TypeId
  | 0 => outOfFuel
  | fuel + 1 => do
    let start ← position
    match ← kind with
    | .keyword .list =>
      advance
      expect (.mark .less) "'<'"
      let element ← typeRef fuel
      expect (.mark .greater) "'>'"
      return .list (← node start (.listType element))
    | .keyword .map =>
      advance
      expect (.mark .less) "'<'"
      let key ← typeRef fuel
      expect (.mark .comma) "','"
      let value ← typeRef fuel
      expect (.mark .greater) "'>'"
      return .map (← node start (.mapType key value))
    | .keyword word =>
      match Parser.builtin? word with
      | some type =>
        advance
        return .builtin (← node start (.builtinType type))
      | none => expected "type"
    | .identifier => return .name (← name fuel)
    | _ => expected "type"

/-- One `key: value` pair of a map, for which no node is made. -/
def mapEntry (expr : ArenaParser ExprId) : ArenaParser (ExprId × ExprId) := do
  let key ← expr
  expect (.mark .colon) "':'"
  return (key, ← expr)

def expr : Nat → ArenaParser ExprId
  | 0 => outOfFuel
  | fuel + 1 => do
    let start ← position
    match ← kind with
    | .integer => return .integer (← integerLiteral "integer")
    | .string => return .string (← stringLiteral "string")
    | .keyword .truth =>
      advance
      return .bool (← node start (.boolLiteral true))
    | .keyword .falsehood =>
      advance
      return .bool (← node start (.boolLiteral false))
    | .mark .openBracket =>
      advance
      let elements ← terminated (expr fuel) .closeBracket "value or ']'" fuel
      return .list (← node start (.list elements))
    | .mark .openBrace =>
      advance
      let entries ← terminated (mapEntry (expr fuel)) .closeBrace "map entry or '\x7d'" fuel
      return .map (← node start (.map entries))
    | .identifier => return .name (← name fuel)
    | _ => expected "value"

def namespaceDirective (fuel : Nat) : ArenaParser (NodeId .namespaceDirective) := do
  let start ← position
  advance
  let scope ← Parser.namespaceScope
  let head ← Parser.namespaceSegment "namespace"
  let tail ← Parser.dotted (Parser.namespaceSegment "namespace") fuel
  node start (.namespaceDirective scope (".".intercalate (head :: tail)))

def includeDirective : ArenaParser (NodeId .includeDirective) := do
  let start ← position
  advance
  let path ← stringLiteral "include path"
  node start (.includeDirective path)

def order : ArenaParser (Option (NodeId .integerLiteral)) := do
  if (← kind) = .integer then
    let literal ← integerLiteral "order"
    expect (.mark .colon) "':'"
    return some literal
  return none

def enumEntry : ArenaParser (NodeId .enumEntry) := do
  let start ← position
  let name ← identifier "enum entry"
  let value ← clause (.mark .equals) (integerLiteral "integer")
  node start (.enumEntry name value)

def field (fuel : Nat) : ArenaParser (NodeId .field) := do
  let start ← position
  let order ← order
  let requiredness ← Parser.requiredness
  let type ← typeRef fuel
  let name ← identifier "field name"
  let default ← clause (.mark .equals) (expr fuel)
  node start (.field order requiredness type name default)

def argument (fuel : Nat) : ArenaParser (NodeId .argument) := do
  let start ← position
  let order ← order
  let type ← typeRef fuel
  let name ← identifier "argument name"
  node start (.argument order type name)

def method (fuel : Nat) : ArenaParser (NodeId .method) := do
  let start ← position
  let oneway ← accept (.keyword .oneway)
  let returns ← typeRef fuel
  let name ← identifier "method name"
  expect (.mark .openParen) "'('"
  let arguments ← terminated (argument fuel) .closeParen "argument or ')'" fuel
  let throws ← clause (.keyword .throws) do
    expect (.mark .openParen) "'('"
    terminated (argument fuel) .closeParen "exception or ')'" fuel
  node start (.method oneway returns name arguments (throws.getD []))

def constantDecl (fuel : Nat) : ArenaParser (NodeId .const) := do
  let start ← position
  advance
  let type ← typeRef fuel
  let name ← identifier "constant name"
  expect (.mark .equals) "'='"
  let value ← expr fuel
  node start (.const type name value)

def typedefDecl (fuel : Nat) : ArenaParser (NodeId .typedef) := do
  let start ← position
  advance
  let type ← typeRef fuel
  let name ← identifier "typedef name"
  node start (.typedef type name)

def enumDecl (fuel : Nat) : ArenaParser (NodeId .enum) := do
  let start ← position
  advance
  let name ← identifier "enum name"
  expect (.mark .openBrace) "'\x7b'"
  let entries ← terminated enumEntry .closeBrace "enum entry or '\x7d'" fuel
  node start (.enum name entries)

def structDecl (structKind : StructKind) (fuel : Nat) : ArenaParser (NodeId .struct) := do
  let start ← position
  advance
  let name ← identifier "struct name"
  expect (.mark .openBrace) "'\x7b'"
  let fields ← terminated (field fuel) .closeBrace "field or '\x7d'" fuel
  node start (.struct structKind name fields)

def serviceDecl (fuel : Nat) : ArenaParser (NodeId .service) := do
  let start ← position
  advance
  let name ← identifier "service name"
  let parent ← clause (.keyword .extending) (ArenaParser.name fuel)
  expect (.mark .openBrace) "'\x7b'"
  let methods ← terminated (method fuel) .closeBrace "method or '\x7d'" fuel
  node start (.service name parent methods)

def declaration (fuel : Nat) : ArenaParser DeclarationId := do
  match ← kind with
  | .keyword .const => .constant <$> constantDecl fuel
  | .keyword .typedef => .typedef <$> typedefDecl fuel
  | .keyword .enum => .enum <$> enumDecl fuel
  | .keyword .struct => .struct <$> structDecl .struct fuel
  | .keyword .exception => .struct <$> structDecl .exception fuel
  | .keyword .service => .service <$> serviceDecl fuel
  | .keyword .naming => Parser.fail (.headerAfterDeclaration (.keyword .naming))
  | .keyword .inclusion => Parser.fail (.headerAfterDeclaration (.keyword .inclusion))
  | _ => expected "declaration"

/-- The directives at the top of a file. They are put into the arena in source order, also where
directives of the two kinds take turns. -/
def headers (fuel : Nat) :
    Nat → ArenaParser (List (NodeId .namespaceDirective) × List (NodeId .includeDirective))
  | 0 => outOfFuel
  | rounds + 1 => do
    match ← kind with
    | .keyword .naming =>
      let directive ← namespaceDirective fuel
      separator
      let (namespaces, includes) ← headers fuel rounds
      return (directive :: namespaces, includes)
    | .keyword .inclusion =>
      let directive ← includeDirective
      separator
      let (namespaces, includes) ← headers fuel rounds
      return (namespaces, directive :: includes)
    | _ => return ([], [])

def declarations (fuel : Nat) : Nat → ArenaParser (List DeclarationId)
  | 0 => outOfFuel
  | rounds + 1 => do
    if (← kind) = .finish then
      return []
    let first ← declaration fuel
    separator
    return first :: (← declarations fuel rounds)

def document (fuel : Nat) : ArenaParser (NodeId .document) := do
  Parser.checkCurrent
  let start ← position
  let (namespaces, includes) ← headers fuel fuel
  let declarations ← declarations fuel fuel
  node start (.document namespaces includes declarations)

end ArenaParser

/-- The nodes of a file and the document among them. -/
structure ParsedArena where
  arena : Arena
  document : NodeId .document
deriving Repr

/-- The nodes of a file, or the report of the first token that fits nowhere. -/
def Source.parseArena (source : Source) : Except ParseFailure ParsedArena :=
  let tokens := source.tokens
  (((ArenaParser.document tokens.length).run #[]).run ⟨tokens, 0, 0⟩).map
    fun ((document, arena), _) => ⟨arena, document⟩

end Idl
