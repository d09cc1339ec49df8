import Idl.Token

/-!
# Messages

Every problem that can be reported about a schema, and its wording.
-/
namespace Idl

/-- What an order number is attached to. -/
inductive OrderedItem where
  | field | argument | exception
deriving DecidableEq, Repr

def OrderedItem.text : OrderedItem → String
  | field => "field"
  | argument => "argument"
  | exception => "exception"

inductive Message where
  | unknownChar (char : Char)
  | unclosedString
  | unclosedComment
  | integerRange
  | expected (what : String) (found : TokenKind)
  | headerAfterDeclaration (keyword : TokenKind)
  | includeUnreadable (path error : String)
  | includeCycle (path : String)
  | includeRedeclared (name : String)
  | redeclared (name kind : String)
  | firstDeclared
  | i32Range (value : Int)
  | nameIsPackage (name : String)
  | unresolved (name : String)
  | notFoundInPackage (name package : String)
  | notAType (name : String)
  | cannotUseType (name : String)
  | cannotCoerce (value type : String)
  | notAList (value : String)
  | notAMap (value : String)
  | notStructInitializer
  | expectedFieldName
  | unknownField (field struct : String)
  | duplicateInitializer (field : String)
  | missingRequiredField (field struct : String)
  | notEnumMember (enum : String)
  | enumAsValue (enum : String)
  | noSuchEnumMember (entry enum : String)
  | enumMismatch (given wanted : String)
  | voidNotAllowed
  | missingOrder (item : OrderedItem) (name : String)
  | duplicateOrder (item : OrderedItem) (name previous : String)
  | nonPositiveOrder (item : OrderedItem) (name : String)
  | notAService (name : String)
  | notAnException (found : String)
  | cyclicTypedef (name : String)
  | onewayReturn (name : String)
  | onewayThrows (name : String)
  | cyclicStruct (field struct : String)
  | cyclicService
  | unusedInclude (path : String)
deriving DecidableEq, Repr

namespace Message

/-- The indefinite article for a noun. -/
def article (noun : String) : String :=
  if noun.toList.head?.any (· ∈ ['a', 'e', 'i', 'o', 'u']) then "an" else "a"

private def quoted (text : String) : String :=
  "'" ++ text ++ "'"

def text : Message → String
  | unknownChar char => "unexpected character " ++ quoted (String.singleton char)
  | unclosedString => "unterminated string literal"
  | unclosedComment => "unterminated block comment"
  | integerRange => "integer literal does not fit in a 64-bit integer"
  | expected what found => "expected " ++ what ++ ", but found " ++ quoted found.text
  | headerAfterDeclaration keyword =>
    quoted keyword.text ++ " directives must appear before any declaration"
  | includeUnreadable path error =>
    "could not read include file " ++ quoted path ++ ": " ++ error
  | includeCycle path => "include of " ++ quoted path ++ " is circular"
  | includeRedeclared name => "package " ++ quoted name ++ " is already included"
  | redeclared name kind =>
    "name " ++ quoted name ++ " was already declared as " ++ article kind ++ " " ++ kind
  | firstDeclared => "first declared here"
  | i32Range value => "value " ++ quoted (toString value) ++ " does not fit in a 32-bit integer"
  | nameIsPackage name => "name " ++ quoted name ++ " is a package"
  | unresolved name => "could not find any definition or package for name " ++ quoted name
  | notFoundInPackage name package =>
    "name " ++ quoted name ++ " not found in package " ++ quoted package
  | notAType name => "expected a type, but " ++ quoted name ++ " does not resolve to a type"
  | cannotUseType name => "cannot use type " ++ quoted name ++ " here"
  | cannotCoerce value type => "cannot coerce " ++ value ++ " to type " ++ quoted type
  | notAList value => "cannot coerce " ++ value ++ " to a list"
  | notAMap value => "cannot coerce " ++ value ++ " to a map"
  | notStructInitializer => "value should be a struct initializer"
  | expectedFieldName => "expected a string literal with a struct field"
  | unknownField field struct =>
    "field " ++ quoted field ++ " not found in struct " ++ quoted struct
  | duplicateInitializer field => "field " ++ quoted field ++ " is initialized more than once"
  | missingRequiredField field struct =>
    "required field " ++ quoted field ++ " in struct " ++ quoted struct ++ " is not initialized"
  | notEnumMember enum => "value is not a member of enum " ++ quoted enum
  | enumAsValue enum => "cannot use enum " ++ quoted enum ++ " as a value"
  | noSuchEnumMember entry enum => entry ++ " is not a member of enum " ++ quoted enum
  | enumMismatch given wanted =>
    "cannot coerce enum " ++ quoted given ++ " to enum " ++ quoted wanted
  | voidNotAllowed => "void can only be used as a return type"
  | missingOrder item name =>
    item.text ++ " " ++ quoted name ++ " should have an explicit order, for better compatibility"
  | duplicateOrder item name previous =>
    item.text ++ " " ++ quoted name ++ " has the same ordering as " ++ item.text ++ " " ++
      quoted previous
  | nonPositiveOrder item name =>
    item.text ++ " " ++ quoted name ++ " must have an order greater than 0"
  | notAService name => "name " ++ quoted name ++ " must be a service definition"
  | notAnException found => "expected an exception, but got a " ++ found
  | cyclicTypedef name => "typedef " ++ quoted name ++ " refers to itself"
  | onewayReturn name => "oneway method " ++ quoted name ++ " must return void"
  | onewayThrows name => "oneway method " ++ quoted name ++ " cannot throw exceptions"
  | cyclicStruct field struct =>
    "field " ++ quoted field ++ " introduces a cyclic reference to struct " ++ quoted struct
  | cyclicService => "service extension is cyclic or extends from itself"
  | unusedInclude path => "include directive \"" ++ path ++ "\" is unused"

end Message
end Idl
