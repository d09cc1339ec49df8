import Idl.Proofs.NodeDerivations
import Idl.Proofs.WrittenTokens
import Idl.Syntax.Dump

/-!
# What a dump tells

Texts are dumped as they are, without escapes. Still a dump can be read from the front: each of its
pieces has an end that can be told, whatever follows. The label of a node ends at the first blank,
a word and the text of a leaf at the end of the line, and the text of a string, which may go over
several lines, at the second quote. What remains to be told is where a list ends, and that is where
a bracket stands in place of the indentation of one more item.
-/
namespace Idl

namespace Text

/-- Where a text starts with `a` as well as with `b`, one can tell that `p` holds and that both
are followed by the same text. -/
def Tells (a b : String) (p : Prop) : Prop :=
  ∀ ⦃rest rest' : String⦄, a ++ rest = b ++ rest' → p ∧ rest = rest'

namespace Tells

variable {a b c d : String} {p q : Prop}

theorem same (a : String) : Tells a a True :=
  fun _ _ h => ⟨trivial, (String.append_right_inj a).1 h⟩

theorem symm (h : Tells a b p) : Tells b a p := by
  intro rest rest' heq
  obtain ⟨hp, hrest⟩ := h heq.symm
  exact ⟨hp, hrest.symm⟩

theorem imp (h : Tells a b p) (hpq : p → q) : Tells a b q :=
  fun _ _ heq => (h heq).imp_left hpq

/-- What comes first is told first, and the rest may depend on it. -/
theorem append (h : Tells a b p) (h' : p → Tells c d q) : Tells (a ++ c) (b ++ d) (p ∧ q) := by
  intro rest rest' heq
  rw [String.append_assoc, String.append_assoc] at heq
  obtain ⟨hp, heq⟩ := h heq
  obtain ⟨hq, heq⟩ := h' hp heq
  exact ⟨⟨hp, hq⟩, heq⟩

/-- No text starts with two different characters. -/
theorem of_head {x y : Char} (ha : a.toList.head? = some x) (hb : b.toList.head? = some y)
    (hne : x ≠ y) : Tells a b p := by
  intro rest rest' heq
  have hhead := congrArg (fun text : String => text.toList.head?) heq
  simp only [String.toList_append, List.head?_append, ha, hb, Option.some_or,
    Option.some.injEq] at hhead
  exact absurd hhead hne

/-- A piece that goes up to the first occurrence of a character can be told. -/
theorem upTo {stop : Char} {behind : String} (hbehind : behind.toList.head? = some stop)
    (ha : stop ∉ a.toList) (hb : stop ∉ b.toList) : Tells (a ++ behind) (b ++ behind) (a = b) := by
  intro rest rest' heq
  have hpiece : ∀ {piece rest : String}, stop ∉ piece.toList →
      (piece ++ behind ++ rest).toList.takeWhile (· ≠ stop) = piece.toList := by
    intro piece rest hpiece
    rw [String.append_assoc, String.toList_append]
    apply (Reading.takeWhile_append_of_notMem hpiece _).1
    simp [List.head?_append, hbehind]
  have hpieces : a = b := by
    rw [← String.toList_inj, ← hpiece ha, ← hpiece hb, heq]
  subst hpieces
  exact ⟨rfl, (String.append_right_inj _).1 heq⟩

/-- At the end of both texts nothing else is left to tell them apart. -/
theorem of_eq (h : Tells a b p) (heq : a = b) : p := by
  subst heq
  exact (@h "" "" rfl).1

end Tells

end Text

open Text

/-! ### Headings -/

namespace NodeLabel

theorem text_injective : Function.Injective text := by
  intro label label' h
  cases label <;> cases label' <;> first | rfl | exact absurd h (by decide)

theorem blank_notMem_text (label : NodeLabel) : ' ' ∉ label.text.toList := by
  cases label <;> decide

theorem exists_head_text (label : NodeLabel) :
    ∃ c, label.text.toList.head? = some c ∧ c.isUpper := by
  cases label <;> exact ⟨_, rfl, by decide⟩

end NodeLabel

/-- A number that a character other than a digit follows can be told. -/
theorem Text.Tells.number {stop : Char} {behind : String} (h : ¬ stop.isDigit)
    (hbehind : behind.toList.head? = some stop) (n n' : Nat) :
    Tells (toString n ++ behind) (toString n' ++ behind) (n = n') :=
  (upTo hbehind (notMem_toString h n) (notMem_toString h n')).imp fun heq => by
    rw [← decimal_toString n, heq, decimal_toString]

namespace Source

/-- The lines and columns of a span, as they are shown. -/
def placesText (source : Source) (span : Span) : String :=
  let place := fun offset =>
    let lineColumn := source.lineColumn offset
    toString lineColumn.line ++ ":" ++ toString lineColumn.column
  place span.start ++ "-" ++ place span.stop

theorem spanText_eq (source : Source) (span : Span) :
    source.spanText span = source.placesText span ++ " (" ++ (toString span.start ++ "-") ++
      (toString span.stop ++ ")") := by
  simp only [spanText, placesText, String.append_assoc]

theorem blank_notMem_placesText (source : Source) (span : Span) :
    ' ' ∉ (source.placesText span).toList := by
  have hdigits := @notMem_toDigits ' ' (by decide)
  simp [placesText, hdigits]

/-- The offsets of a span are shown, whatever lines and columns they are on. -/
theorem spanText_tells (source source' : Source) (span span' : Span) :
    Tells (source.spanText span) (source'.spanText span') (span = span') := by
  rw [spanText_eq, spanText_eq]
  have hplaces := @Tells.upTo _ _ ' ' " (" rfl (blank_notMem_placesText source span)
    (blank_notMem_placesText source' span')
  have hstart := @Tells.number '-' "-" (by decide) rfl span.start span'.start
  have hstop := @Tells.number ')' ")" (by decide) rfl span.stop span'.stop
  apply ((hplaces.append fun _ => hstart).append fun _ => hstop).imp
  rintro ⟨⟨-, hstart⟩, hstop⟩
  exact congrArg₂ Span.mk hstart hstop

/-- What the first line of a node starts with. -/
def headingText (source : Source) (label : NodeLabel) (span : Span) : String :=
  label.text ++ " @ " ++ source.spanText span ++ " "

theorem headingText_tells (source source' : Source) (label label' : NodeLabel)
    (span span' : Span) :
    Tells (source.headingText label span) (source'.headingText label' span')
      (label = label' ∧ span = span') := by
  have hlabel := @Tells.upTo _ _ ' ' " @ " rfl label.blank_notMem_text label'.blank_notMem_text
  have hspan := spanText_tells source source' span span'
  apply ((hlabel.append fun _ => hspan).append fun _ => .same " ").imp
  rintro ⟨⟨hlabel, hspan⟩, -⟩
  exact ⟨NodeLabel.text_injective hlabel, hspan⟩

end Source

/-! ### Margins -/

theorem margin_add_two (depth : Nat) : margin (depth + 2) = margin depth ++ "  " := by
  apply String.ext
  simp [margin, List.replicate_add]

/-- One more item of a list is told from the bracket that ends the list. -/
theorem Text.Tells.item_end {depth : Nat} {item closing : String} {bracket : Char} {p : Prop}
    (hclosing : closing.toList.head? = some bracket) (hbracket : ' ' ≠ bracket) :
    Tells (margin (depth + 2) ++ item) (margin depth ++ closing) p := by
  rw [margin_add_two, String.append_assoc]
  have hitem : ("  " ++ item).toList.head? = some ' ' := by
    simp
  exact ((same _).append fun _ => of_head hitem hclosing hbracket).imp And.right

/-! ### Nodes -/

namespace Part

def name : Part → String
  | word name _ => name
  | one name _ => name
  | absent name => name
  | many name _ => name

/-- What is dumped of a part behind its name. -/
def body (source : Source) (depth : Nat) : Part → String
  | word _ text => text ++ "\n"
  | one _ node => node.dump source depth
  | absent _ => "<none>\n"
  | many _ nodes => "[\n" ++ (Node.dumpAll source (depth + 2) nodes ++ (margin depth ++ "]\n"))

/-- The parts that are words; a part of another name holds nodes. -/
def wordNames : List String :=
  ["requiredness", "oneway", "kind"]

/-- A name up to a colon that does not say that the part is a word. -/
def NamesNodes (name : String) : Prop :=
  name ∉ wordNames ∧ ':' ∉ name.toList

/-- The name of the part says whether it is a word, and a word is on one line. -/
def IsPlain : Part → Prop
  | word name text => name ∈ wordNames ∧ '\n' ∉ text.toList
  | one name _ => NamesNodes name
  | absent name => NamesNodes name
  | many name _ => NamesNodes name

@[simp] theorem isPlain_word (name text : String) :
    (word name text).IsPlain ↔ name ∈ wordNames ∧ '\n' ∉ text.toList := Iff.rfl

@[simp] theorem isPlain_one (name : String) (node : Node) :
    (one name node).IsPlain ↔ NamesNodes name := Iff.rfl

@[simp] theorem isPlain_many (name : String) (nodes : List Node) :
    (many name nodes).IsPlain ↔ NamesNodes name := Iff.rfl

@[simp] theorem isPlain_optional (name : String) (node : Option Node) :
    (optional name node).IsPlain ↔ NamesNodes name := by
  cases node <;> rfl

theorem IsPlain.colon_notMem {part : Part} (h : part.IsPlain) : ':' ∉ part.name.toList := by
  cases part with
  | word name text =>
    obtain ⟨hname, -⟩ := h
    simp only [wordNames, List.mem_cons, List.not_mem_nil, or_false] at hname
    rcases hname with rfl | rfl | rfl <;> simp [Part.name]
  | _ => exact h.2

end Part

namespace Node

/-- The end of a leaf can be told, and so can the ends of its parts. -/
inductive IsPlain : Node → Prop
  | string {contents : String} (span : Span) (unquoted : '"' ∉ contents.toList) :
      IsPlain (leaf .stringLiteral span ("\"" ++ contents ++ "\""))
  | leaf {label : NodeLabel} (notString : label ≠ .stringLiteral) (span : Span) {text : String}
      (unbroken : '\n' ∉ text.toList) : IsPlain (leaf label span text)
  | branch (label : NodeLabel) (span : Span) {parts : List Part}
      (plain : ∀ part ∈ parts, part.IsPlain) : IsPlain (branch label span parts)

theorem dump_leaf (source : Source) (depth : Nat) (label : NodeLabel) (span : Span)
    (text : String) :
    (leaf label span text).dump source depth =
      source.headingText label span ++ ("= " ++ (text ++ "\n")) := by
  rw [dump, Source.headingText, show " = " = " " ++ "= " from rfl]
  simp only [String.append_assoc]

theorem dump_branch (source : Source) (depth : Nat) (label : NodeLabel) (span : Span)
    (parts : List Part) :
    (branch label span parts).dump source depth =
      source.headingText label span ++ ("\x7b\n" ++
        (dumpParts source (depth + 2) parts ++ (margin depth ++ "\x7d\n"))) := by
  rw [dump, Source.headingText, show " \x7b\n" = " " ++ "\x7b\n" from rfl]
  simp only [String.append_assoc]

theorem dumpParts_cons_append (source : Source) (depth : Nat) (part : Part) (parts : List Part)
    (closing : String) :
    dumpParts source depth (part :: parts) ++ closing =
      margin depth ++ (part.name ++ ": " ++ (part.body source depth ++
        (dumpParts source depth parts ++ closing))) := by
  cases part with
  | absent name =>
    rw [dumpParts, Part.name, Part.body, show ": <none>\n" = ": " ++ "<none>\n" from rfl]
    simp only [String.append_assoc]
  | many name nodes =>
    rw [dumpParts, Part.name, Part.body, show ": [\n" = ": " ++ "[\n" from rfl]
    simp only [String.append_assoc]
  | _ =>
    simp only [dumpParts, Part.name, Part.body, String.append_assoc]

theorem dumpAll_cons_append (source : Source) (depth : Nat) (node : Node) (list : List Node)
    (closing : String) :
    dumpAll source depth (node :: list) ++ closing =
      margin depth ++ (node.dump source depth ++ (dumpAll source depth list ++ closing)) := by
  rw [dumpAll, String.append_assoc, String.append_assoc]

/-- All nodes of the tree below and including a node are plain. -/
def AllPlain (node : Node) : Prop :=
  ∀ below ∈ node.nodes, below.IsPlain

theorem AllPlain.isPlain {node : Node} (h : node.AllPlain) : node.IsPlain := by
  apply h
  rw [nodes_eq]
  exact List.mem_cons_self

end Node

/-- The part is plain, and so are all nodes that it holds and those below them. -/
def Part.AllPlain (part : Part) : Prop :=
  part.IsPlain ∧ ∀ node ∈ part.nodes, node.AllPlain

namespace Node

theorem AllPlain.of_mem_parts {label : NodeLabel} {span : Span} {parts : List Part}
    (h : (branch label span parts).AllPlain) : ∀ part ∈ parts, part.AllPlain := by
  intro part hpart
  cases h.isPlain with
  | branch _ _ plain =>
    refine ⟨plain part hpart, fun node hnode below hbelow => h below ?_⟩
    rw [nodes_eq, inner, nodesOfParts_eq]
    apply List.mem_cons_of_mem
    simp only [List.mem_flatMap]
    exact ⟨node, ⟨part, hpart, hnode⟩, hbelow⟩

theorem exists_head_dump (source : Source) (depth : Nat) (node : Node) :
    ∃ c, (node.dump source depth).toList.head? = some c ∧ c.isUpper := by
  obtain ⟨c, hc, hupper⟩ := node.label.exists_head_text
  have hdump : ∃ rest, node.dump source depth = node.label.text ++ rest := by
    cases node <;> simp only [dump, String.append_assoc] <;> exact ⟨_, rfl⟩
  obtain ⟨rest, hrest⟩ := hdump
  refine ⟨c, ?_, hupper⟩
  rw [hrest, String.toList_append, List.head?_append, hc, Option.some_or]

/-- A node is told from a text that may stand in its place. -/
theorem tells_of_head {source : Source} {depth : Nat} {node : Node} {text : String} {c : Char}
    {p : Prop} (htext : text.toList.head? = some c) (hc : ¬ c.isUpper) :
    Tells (node.dump source depth) text p := by
  obtain ⟨d, hd, hupper⟩ := exists_head_dump source depth node
  apply Tells.of_head hd htext
  rintro rfl
  exact hc hupper

variable {source source' : Source} {depth : Nat}

/-- The text of a leaf can be told once its label is known. -/
theorem text_tells {label : NodeLabel} {span span' : Span} {text text' : String}
    (h : (leaf label span text).IsPlain) (h' : (leaf label span' text').IsPlain) :
    Tells (text ++ "\n") (text' ++ "\n") (text = text') := by
  cases h with
  | @string contents _ unquoted =>
    cases h' with
    | @string contents' _ unquoted' =>
      have hcontents := @Tells.upTo contents contents' '"' ("\"" ++ "\n") (by simp) unquoted
        unquoted'
      simp only [String.append_assoc]
      apply ((Tells.same "\"").append fun _ => hcontents).imp
      rintro ⟨-, rfl⟩
      rfl
    | leaf notString => exact absurd rfl notString
  | leaf notString _ unbroken =>
    cases h' with
    | string => exact absurd rfl notString
    | leaf _ _ unbroken' => exact .upTo rfl unbroken unbroken'

theorem leaf_tells {label : NodeLabel} {span : Span} {text : String} {node : Node}
    (h : (leaf label span text).IsPlain) (h' : node.IsPlain) :
    Tells ((leaf label span text).dump source depth) (node.dump source' depth)
      (leaf label span text = node) := by
  cases node with
  | leaf label' span' text' =>
    rw [dump_leaf, dump_leaf]
    have hheading := source.headingText_tells source' label label' span span'
    have htext := fun heq : label = label' =>
      @text_tells label span span' text text' h (heq ▸ h')
    apply (hheading.append fun hlabel => (Tells.same "= ").append fun _ => htext hlabel.1).imp
    rintro ⟨⟨rfl, rfl⟩, -, rfl⟩
    rfl
  | branch label' span' parts =>
    rw [dump_leaf, dump_branch]
    have hheading := source.headingText_tells source' label label' span span'
    have hsign : Tells ("= " ++ (text ++ "\n")) ("\x7b\n" ++
        (dumpParts source' (depth + 2) parts ++ (margin depth ++ "\x7d\n"))) False :=
      @Tells.of_head _ _ _ '=' '\x7b' (by simp) (by simp) (by decide)
    exact (hheading.append fun _ => hsign).imp fun h => h.2.elim

end Node

namespace Part

theorem head?_body_absent (name : String) :
    ((absent name).body source depth).toList.head? = some '<' := by
  simp [body]

theorem head?_body_many (name : String) (list : List Node) :
    ((many name list).body source depth).toList.head? = some '[' := by
  simp [body]

theorem word_tells {name text : String} {part : Part} (h : (word name text).IsPlain)
    (h' : part.IsPlain) (hname : name = part.name) :
    Tells ((word name text).body source depth) (part.body source' depth)
      (word name text = part) := by
  subst hname
  cases part with
  | word _ text' =>
    apply (Tells.upTo rfl h.2 h'.2).imp
    rintro rfl
    rfl
  | _ => exact absurd h.1 h'.1

theorem absent_tells {name : String} {part : Part} (h : (absent name).IsPlain)
    (h' : part.IsPlain) (hname : name = part.name) :
    Tells ((absent name).body source depth) (part.body source' depth) (absent name = part) := by
  cases part with
  | word _ text' => exact absurd (hname ▸ h'.1) h.1
  | one _ node => exact (Node.tells_of_head (head?_body_absent name) (by decide)).symm
  | absent name' => exact (Tells.same _).imp fun _ => congrArg absent hname
  | many _ list => exact .of_head (head?_body_absent name) (head?_body_many _ list) (by decide)

end Part

namespace Node

-- Where a list of parts or nodes ends is only told by what is behind it, so the lists are read
-- together with their closing brackets.
mutual

/-- In front of any text the dump of a tree of plain nodes tells the tree, and where it ends. -/
theorem dump_tells (source source' : Source) : ∀ (node node' : Node) (depth : Nat),
    node.AllPlain → node'.AllPlain →
      Tells (node.dump source depth) (node'.dump source' depth) (node = node')
  | leaf label span text, node', depth, h, h' => leaf_tells h.isPlain h'.isPlain
  | branch label span parts, leaf label' span' text', depth, h, h' =>
    (leaf_tells h'.isPlain h.isPlain).symm.imp Eq.symm
  | branch label span parts, branch label' span' parts', depth, h, h' => by
    rw [dump_branch, dump_branch]
    have hheading := source.headingText_tells source' label label' span span'
    have hparts := dumpParts_tells source source' parts parts' depth h.of_mem_parts h'.of_mem_parts
    apply (hheading.append fun _ => (Tells.same _).append fun _ => hparts).imp
    rintro ⟨⟨rfl, rfl⟩, -, rfl⟩
    rfl

theorem body_tells (source source' : Source) : ∀ (part part' : Part) (depth : Nat),
    part.AllPlain → part'.AllPlain → part.name = part'.name →
      Tells (part.body source depth) (part'.body source' depth) (part = part')
  | .word name text, part', depth, h, h', hname => Part.word_tells h.1 h'.1 hname
  | .absent name, part', depth, h, h', hname => Part.absent_tells h.1 h'.1 hname
  | .one name node, .word name' text, depth, h, h', hname =>
    (Part.word_tells h'.1 h.1 hname.symm).symm.imp Eq.symm
  | .one name node, .absent name', depth, h, h', hname =>
    (Part.absent_tells h'.1 h.1 hname.symm).symm.imp Eq.symm
  | .one name node, .one name' node', depth, h, h', hname => by
    have hnode := dump_tells source source' node node' depth (h.2 node List.mem_cons_self)
      (h'.2 node' List.mem_cons_self)
    exact hnode.imp fun heq => congrArg₂ Part.one hname heq
  | .one name node, .many name' list, depth, h, h', hname =>
    tells_of_head (Part.head?_body_many name' list) (by decide)
  | .many name list, .word name' text, depth, h, h', hname =>
    (Part.word_tells h'.1 h.1 hname.symm).symm.imp Eq.symm
  | .many name list, .absent name', depth, h, h', hname =>
    (Part.absent_tells h'.1 h.1 hname.symm).symm.imp Eq.symm
  | .many name list, .one name' node, depth, h, h', hname =>
    (tells_of_head (Part.head?_body_many name list) (by decide)).symm
  | .many name list, .many name' list', depth, h, h', hname => by
    have hlist := dumpAll_tells source source' list list' depth h.2 h'.2
    apply ((Tells.same "[\n").append fun _ => hlist).imp
    rintro ⟨-, heq⟩
    exact congrArg₂ Part.many hname heq

theorem dumpParts_tells (source source' : Source) : ∀ (parts parts' : List Part) (depth : Nat),
    (∀ part ∈ parts, part.AllPlain) → (∀ part ∈ parts', part.AllPlain) →
      Tells (dumpParts source (depth + 2) parts ++ (margin depth ++ "\x7d\n"))
        (dumpParts source' (depth + 2) parts' ++ (margin depth ++ "\x7d\n")) (parts = parts')
  | [], [], depth, _, _ => (Tells.same _).imp fun _ => rfl
  | part :: parts, [], depth, _, _ => by
    rw [dumpParts_cons_append, dumpParts, String.empty_append]
    exact .item_end rfl (by decide)
  | [], part :: parts, depth, _, _ => by
    rw [dumpParts_cons_append, dumpParts, String.empty_append]
    exact (Tells.item_end rfl (by decide)).symm
  | part :: parts, part' :: parts', depth, h, h' => by
    rw [List.forall_mem_cons] at h h'
    have hname := @Tells.upTo _ _ ':' ": " rfl h.1.1.colon_notMem h'.1.1.colon_notMem
    have hbody := body_tells source source' part part' (depth + 2) h.1 h'.1
    have hparts := dumpParts_tells source source' parts parts' depth h.2 h'.2
    rw [dumpParts_cons_append, dumpParts_cons_append]
    apply ((Tells.same _).append fun _ => hname.append fun heq => (hbody heq).append
      fun _ => hparts).imp
    rintro ⟨-, -, rfl, rfl⟩
    rfl

theorem dumpAll_tells (source source' : Source) : ∀ (list list' : List Node) (depth : Nat),
    (∀ node ∈ list, node.AllPlain) → (∀ node ∈ list', node.AllPlain) →
      Tells (dumpAll source (depth + 2) list ++ (margin depth ++ "]\n"))
        (dumpAll source' (depth + 2) list' ++ (margin depth ++ "]\n")) (list = list')
  | [], [], depth, _, _ => (Tells.same _).imp fun _ => rfl
  | node :: list, [], depth, _, _ => by
    rw [dumpAll_cons_append, dumpAll, String.empty_append]
    exact .item_end rfl (by decide)
  | [], node :: list, depth, _, _ => by
    rw [dumpAll_cons_append, dumpAll, String.empty_append]
    exact (Tells.item_end rfl (by decide)).symm
  | node :: list, node' :: list', depth, h, h' => by
    rw [List.forall_mem_cons] at h h'
    have hnode := dump_tells source source' node node' (depth + 2) h.1 h'.1
    have hlist := dumpAll_tells source source' list list' depth h.2 h'.2
    rw [dumpAll_cons_append, dumpAll_cons_append]
    apply ((Tells.same _).append fun _ => hnode.append fun _ => hlist).imp
    rintro ⟨-, rfl, rfl⟩
    rfl

end

/-- Trees of plain nodes with the same dump are the same tree, whatever the two sources. -/
theorem eq_of_dump_eq {node node' : Node} (h : node.AllPlain) (h' : node'.AllPlain)
    (heq : node.dump source depth = node'.dump source' depth) : node = node' :=
  (dump_tells source source' node node' depth h h').of_eq heq

end Node

end Idl
