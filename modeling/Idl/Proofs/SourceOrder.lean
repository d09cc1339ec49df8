import Idl.Proofs.Parsing
import Idl.Syntax.References

/-!
# Names come in source order

In every token sequence that spells a construct, the names of the construct begin at tokens, one
after the other. As the tokens of a file begin at increasing offsets, so do its names; in
particular no two of them begin at the same place.
-/
namespace Idl
open Spelling

/-- In every sequence of the language the names begin at tokens, in this order. -/
def Spelling.Orders (language : Language Token) (list : List Name) : Prop :=
  ∀ tokens ∈ language,
    (list.map (·.span.start)).Sublist (tokens.map (·.span.start))

namespace Spelling.Orders

variable {language language' : Language Token} {list list' : List Name}

theorem nil (language : Language Token) : Orders language [] :=
  fun _ _ => List.nil_sublist _

theorem mul (h : Orders language list) (h' : Orders language' list') :
    Orders (language * language') (list ++ list') := by
  rintro _ ⟨first, hfirst, second, hsecond, rfl⟩
  simp only [List.map_append]
  exact (h first hfirst).append (h' second hsecond)

theorem left (h : Orders language list) (other : Language Token) :
    Orders (language * other) list :=
  List.append_nil list ▸ h.mul (nil other)

theorem right (h : Orders language list) (other : Language Token) :
    Orders (other * language) list :=
  (nil other).mul h

theorem add (h : Orders language list) (h' : Orders language' list) :
    Orders (language + language') list := by
  rintro tokens (htokens | htokens)
  · exact h tokens htokens
  · exact h' tokens htokens

theorem spanning (h : Orders language list) (span : Span) :
    Orders (Spelling.spanning span language) list :=
  fun tokens htokens => h tokens htokens.1

theorem items {α : Type} {spelling : α → Language Token} {names : α → List Name}
    (h : ∀ item, Orders (spelling item) (names item)) (list : List α) :
    Orders (Spelling.items spelling list) (list.flatMap names) := by
  induction list with
  | nil => exact nil _
  | cons item list ih =>
    rw [Spelling.items, List.map_cons, List.prod_cons, List.flatMap_cons]
    exact ((h item).left separator).mul ih

theorem enclosed (h : Orders language list) (opening closing : Mark) :
    Orders (Spelling.enclosed opening language closing) list :=
  (h.right _).left _

end Spelling.Orders

/-! ### Constructs -/

/-- The name itself is the only one, and it begins with its first token. -/
theorem Name.orders (name : Name) : Orders name.spellings [name] := by
  rintro tokens ⟨-, hhead, -⟩
  cases tokens with
  | nil => cases hhead
  | cons token rest =>
    rw [List.map_cons, List.map_cons, List.map_nil,
      show token.span.start = name.span.start from Option.some.inj hhead]
    exact (List.nil_sublist _).cons_cons _

theorem TypeRef.orders (type : TypeRef) : Orders type.spellings type.references := by
  induction type with
  | builtin type span => exact .nil _
  | list element span ih => exact ((ih.right _).left _).spanning span
  | map key value span ihKey ihValue =>
    exact ((((ihKey.right _).left _).mul ihValue).left _).spanning span
  | name n => exact n.orders

mutual

theorem Expr.orders : ∀ expr : Expr, Orders expr.spellings expr.references
  | .integer _ => .nil _
  | .string _ => .nil _
  | .bool _ _ => .nil _
  | .list elements span => by
    rw [Expr.spellings, Expr.references]
    exact ((Expr.orders_elements elements).enclosed _ _).spanning span
  | .map entries span => by
    rw [Expr.spellings, Expr.references]
    exact ((Expr.orders_entries entries).enclosed _ _).spanning span
  | .name n => n.orders

theorem Expr.orders_elements :
    ∀ elements : List Expr, Orders (Expr.elementSpellings elements) (Expr.referencesAll elements)
  | [] => .nil _
  | element :: elements => by
    rw [Expr.elementSpellings, Expr.referencesAll]
    exact ((Expr.orders element).left _).mul (Expr.orders_elements elements)

theorem Expr.orders_entries :
    ∀ entries : List (Expr × Expr),
      Orders (Expr.entrySpellings entries) (Expr.referencesEntries entries)
  | [] => .nil _
  | (key, value) :: entries => by
    rw [Expr.entrySpellings, Expr.referencesEntries]
    exact ((((Expr.orders key).left _).mul (Expr.orders value)).left _).mul
      (Expr.orders_entries entries)

end

theorem Field.orders (field : Field) : Orders field.spellings field.references := by
  have hdefault : Orders (field.default.elim 1 fun value => mark .equals * value.spellings)
      ((field.default.map Expr.references).getD []) := by
    cases field.default with
    | none => exact .nil _
    | some value => exact value.orders.right _
  exact (((field.type.orders.right _).left _).mul hdefault).spanning field.span

theorem Argument.orders (argument : Argument) :
    Orders argument.spellings argument.type.references :=
  ((argument.type.orders.right _).left _).spanning argument.span

theorem Argument.list_orders (arguments : List Argument) :
    Orders (Argument.listSpellings arguments) (arguments.flatMap (·.type.references)) :=
  (Orders.items Argument.orders arguments).enclosed _ _

theorem Method.orders (method : Method) : Orders method.spellings method.references := by
  have hthrows : Orders ((if method.throws = [] then 1 else 0) +
      keyword .throws * Argument.listSpellings method.throws)
      (method.throws.flatMap (·.type.references)) := by
    refine Orders.add ?_ ((Argument.list_orders method.throws).right _)
    split
    · next hnone =>
      rw [hnone]
      exact .nil _
    · exact fun _ htokens => htokens.elim
  rw [Method.references, List.flatMap_append, ← List.append_assoc]
  exact ((((method.returns.orders.right _).left _).mul
    (Argument.list_orders method.arguments)).mul hthrows).spanning method.span

theorem ServiceDecl.orders (decl : ServiceDecl) :
    Orders decl.spellings (decl.parent.toList ++ decl.methods.flatMap Method.references) := by
  have hparent : Orders (decl.parent.elim 1 fun parent => keyword .extending * parent.spellings)
      decl.parent.toList := by
    cases decl.parent with
    | none => exact .nil _
    | some parent => exact parent.orders.right _
  exact ((hparent.right _).mul ((Orders.items Method.orders decl.methods).enclosed _ _)).spanning
    decl.span

theorem Declaration.orders (declaration : Declaration) :
    Orders declaration.spellings declaration.references := by
  cases declaration with
  | constant decl =>
    exact ((((decl.type.orders.right _).left _).left _).mul decl.value.orders).spanning _
  | typedef decl => exact ((decl.type.orders.right _).left _).spanning _
  | enum decl => exact .nil _
  | struct decl => exact (((Orders.items Field.orders decl.fields).enclosed _ _).right _).spanning _
  | service decl => exact decl.orders

theorem Document.orders (document : Document) : Orders document.spellings document.references :=
  (Orders.items Declaration.orders document.declarations).right _

namespace Source

/-- The names of a file begin one after the other. -/
theorem pairwise_start_references {source : Source} {parsed : ParsedDocument}
    (h : source.parse = .ok parsed) :
    parsed.document.references.Pairwise fun name next => name.span.start < next.span.start := by
  have hspec := source.parse_spec
  rw [h] at hspec
  have htokens : (source.tokens.map (·.span.start)).Pairwise (· < ·) :=
    List.pairwise_map.2 source.pairwise_start_tokens
  have hsublist := (parsed.document.orders _ hspec.1).trans
    ((List.dropLast_sublist source.tokens).map _)
  exact List.pairwise_map.1 (htokens.sublist hsublist)

end Source

end Idl
