import Idl.Symbols

/-!
# Orders

Fields, arguments and exceptions carry order numbers. They must be present, fit 32 bits, be
positive and differ from each other within one list.
-/
namespace Idl

/-- An order, if there is one, and the name of what it is attached to. -/
structure OrderedName where
  order : Option IntegerLiteral
  name : Identifier
deriving Repr

namespace OrderedName

/-- The orders of 32 bits that were seen, each with the first name that has it. -/
abbrev Seen := List (Int × String)

/-- Checks one order against those seen before it. -/
def check (item : OrderedItem) (seen : Seen) (entry : OrderedName) : Reporting Seen :=
  let name := entry.name.text
  match entry.order with
  | none => do
    Reporting.error entry.name.span (.missingOrder item name)
    return seen
  | some ⟨value, span⟩ =>
    if ¬FitsI32 value then do
      Reporting.error span (.i32Range value)
      return seen
    else do
      let previous := seen.lookup value
      if let some previous := previous then
        Reporting.error span (.duplicateOrder item name previous)
      if value ≤ 0 then
        Reporting.error span (.nonPositiveOrder item name)
      return if previous.isSome then seen else (value, name) :: seen

end OrderedName

/-- Reports everything that is wrong with the orders of a list. -/
def checkOrdering (item : OrderedItem) (entries : List OrderedName) : Reporting Unit := do
  let _ ← entries.foldlM (OrderedName.check item) []

def Field.ordered (field : Field) : OrderedName :=
  ⟨field.order, field.name⟩

def Argument.ordered (argument : Argument) : OrderedName :=
  ⟨argument.order, argument.name⟩

end Idl
