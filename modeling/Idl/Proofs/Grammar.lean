import Idl.Syntax
import Idl.Token
import Mathlib.Computability.Language
import Mathlib.Order.CompletePartialOrder

/-!
# The grammar of schema files

The language of the token kinds of well-formed files. Types and values are the least languages
that are closed under their productions; all other constructs are built from those and from tokens
by concatenation, choice and repetition.
-/
namespace Idl

def Builtin.keyword : Builtin → Keyword
  | bool => .bool
  | i32 => .i32
  | i64 => .i64
  | string => .string
  | double => .double
  | void => .void

namespace Grammar
open Computability

def token (kind : TokenKind) : Language TokenKind := {[kind]}

def keyword (word : Keyword) : Language TokenKind := token (.keyword word)

def mark (mark : Mark) : Language TokenKind := token (.mark mark)

def optional (language : Language TokenKind) : Language TokenKind := 1 + language

def separator : Language TokenKind := mark .comma + mark .semicolon

/-- Any number of items, each with an optional separator after it. -/
def items (item : Language TokenKind) : Language TokenKind := (item * optional separator)∗

/-- Items between an opening and a closing mark. -/
def enclosed (opening : Mark) (item : Language TokenKind) (closing : Mark) : Language TokenKind :=
  mark opening * items item * mark closing

def dotted : Language TokenKind := token .identifier * (mark .dot * token .identifier)∗

/-- A type; `Grammar.type_eq` is its production. -/
inductive IsType : List TokenKind → Prop
  | builtin (type : Builtin) : IsType [.keyword type.keyword]
  | list {element} (type : IsType element) :
      IsType ([.keyword .list, .mark .less] ++ element ++ [.mark .greater])
  | map {key value} (keyType : IsType key) (valueType : IsType value) :
      IsType ([.keyword .map, .mark .less] ++ key ++ [.mark .comma] ++ value ++ [.mark .greater])
  | dotted {path} (isDotted : path ∈ dotted) : IsType path

def type : Language TokenKind := {sentence | IsType sentence}

/-- A value; `Grammar.value_eq` is its production. The parts of an item of a list or map are kept
apart, so that they are known to be values. -/
inductive IsValue : List TokenKind → Prop
  | integer : IsValue [.integer]
  | string : IsValue [.string]
  | truth : IsValue [.keyword .truth]
  | falsehood : IsValue [.keyword .falsehood]
  | dotted {path} (isDotted : path ∈ dotted) : IsValue path
  | list {elements : List (List TokenKind × List TokenKind)}
      (values : ∀ element ∈ elements, IsValue element.1)
      (separated : ∀ element ∈ elements, element.2 ∈ optional separator) :
      IsValue ([.mark .openBracket] ++ elements.flatMap (fun element => element.1 ++ element.2) ++
        [.mark .closeBracket])
  | map {entries : List ((List TokenKind × List TokenKind) × List TokenKind)}
      (keys : ∀ entry ∈ entries, IsValue entry.1.1)
      (values : ∀ entry ∈ entries, IsValue entry.1.2)
      (separated : ∀ entry ∈ entries, entry.2 ∈ optional separator) :
      IsValue ([.mark .openBrace] ++ entries.flatMap (fun entry =>
        entry.1.1 ++ [.mark .colon] ++ entry.1.2 ++ entry.2) ++ [.mark .closeBrace])

def value : Language TokenKind := {sentence | IsValue sentence}

/-- A value with a colon and another value after it. -/
def entry : Language TokenKind := value * mark .colon * value

def order : Language TokenKind := optional (token .integer * mark .colon)

def argument : Language TokenKind := order * type * token .identifier

def field : Language TokenKind :=
  order * optional (keyword .required + keyword .optional) * type * token .identifier *
    optional (mark .equals * value)

def enumEntry : Language TokenKind :=
  token .identifier * optional (mark .equals * token .integer)

def method : Language TokenKind :=
  optional (keyword .oneway) * type * token .identifier *
    enclosed .openParen argument .closeParen *
    optional (keyword .throws * enclosed .openParen argument .closeParen)

def constant : Language TokenKind :=
  keyword .const * type * token .identifier * mark .equals * value

def typedef : Language TokenKind := keyword .typedef * type * token .identifier

def enum : Language TokenKind :=
  keyword .enum * token .identifier * enclosed .openBrace enumEntry .closeBrace

def struct : Language TokenKind :=
  (keyword .struct + keyword .exception) * token .identifier *
    enclosed .openBrace field .closeBrace

def service : Language TokenKind :=
  keyword .service * token .identifier * optional (keyword .extending * dotted) *
    enclosed .openBrace method .closeBrace

def definition : Language TokenKind := constant + typedef + enum + struct + service

/-- A part of a package, which may be spelled like a keyword. -/
def segment : Language TokenKind := token .identifier + ⨆ word, keyword word

def naming : Language TokenKind :=
  keyword .naming * (segment + mark .star) * (segment * (mark .dot * segment)∗)

def inclusion : Language TokenKind := keyword .inclusion * token .string

def header : Language TokenKind := inclusion + naming

def document : Language TokenKind := items header * items definition

@[simp] theorem mem_token {kind : TokenKind} {sentence : List TokenKind} :
    sentence ∈ token kind ↔ sentence = [kind] := Iff.rfl

@[simp] theorem mem_keyword {word : Keyword} {sentence : List TokenKind} :
    sentence ∈ keyword word ↔ sentence = [.keyword word] := Iff.rfl

@[simp] theorem mem_mark {sign : Mark} {sentence : List TokenKind} :
    sentence ∈ mark sign ↔ sentence = [.mark sign] := Iff.rfl

/-- A sequence of items as pairs of an item and the separator or nothing after it. -/
theorem mem_items {item : Language TokenKind} {sentence : List TokenKind} :
    sentence ∈ items item ↔ ∃ parts : List (List TokenKind × List TokenKind),
      (∀ part ∈ parts, part.1 ∈ item ∧ part.2 ∈ optional separator) ∧
        sentence = parts.flatMap fun part => part.1 ++ part.2 := by
  rw [items, Language.mem_kstar]
  constructor
  · rintro ⟨sentences, rfl, h⟩
    induction sentences with
    | nil => exact ⟨[], by simp, rfl⟩
    | cons sentence sentences ih =>
      obtain ⟨parts, hparts, hsentences⟩ := ih fun other hother =>
        h other (List.mem_cons_of_mem _ hother)
      obtain ⟨first, hfirst, separator, hseparator, rfl⟩ := h _ List.mem_cons_self
      refine ⟨(first, separator) :: parts, ?_, by simp [hsentences]⟩
      exact List.forall_mem_cons.2 ⟨⟨hfirst, hseparator⟩, hparts⟩
  · rintro ⟨parts, h, rfl⟩
    refine ⟨parts.map fun part => part.1 ++ part.2, List.flatMap_def, ?_⟩
    intro sentence hsentence
    obtain ⟨part, hpart, rfl⟩ := List.mem_map.1 hsentence
    exact Language.append_mem_mul (h part hpart).1 (h part hpart).2

theorem type_eq :
    type = (⨆ builtin : Builtin, keyword builtin.keyword) +
      keyword .list * mark .less * type * mark .greater +
      keyword .map * mark .less * type * mark .comma * type * mark .greater + dotted := by
  ext sentence
  constructor
  · intro h
    cases h with
    | builtin builtin => exact .inl (.inl (.inl (Language.mem_iSup.2 ⟨builtin, rfl⟩)))
    | list element =>
      refine .inl (.inl (.inr (Language.append_mem_mul (Language.append_mem_mul ?_ element) rfl)))
      exact Language.append_mem_mul (a := [_]) rfl rfl
    | map key value =>
      refine .inl (.inr (Language.append_mem_mul (Language.append_mem_mul
        (Language.append_mem_mul (Language.append_mem_mul ?_ key) rfl) value) rfl))
      exact Language.append_mem_mul (a := [_]) rfl rfl
    | dotted path => exact .inr path
  · rintro (((h | h) | h) | h)
    · obtain ⟨builtin, rfl⟩ := Language.mem_iSup.1 h
      exact .builtin builtin
    · obtain ⟨_, ⟨_, ⟨_, rfl, _, rfl, rfl⟩, element, helement, rfl⟩, _, rfl, rfl⟩ := h
      exact .list helement
    · obtain ⟨_, ⟨_, ⟨_, ⟨_, ⟨_, rfl, _, rfl, rfl⟩, key, hkey, rfl⟩, _, rfl, rfl⟩, value, hvalue,
        rfl⟩, _, rfl, rfl⟩ := h
      exact .map hkey hvalue
    · exact .dotted h

theorem list_le_type : keyword .list * mark .less * type * mark .greater ≤ type := by
  intro sentence h
  rw [type_eq]
  exact .inl (.inl (.inr h))

theorem map_le_type :
    keyword .map * mark .less * type * mark .comma * type * mark .greater ≤ type := by
  intro sentence h
  rw [type_eq]
  exact .inl (.inr h)

theorem exists_entries {parts : List (List TokenKind × List TokenKind)}
    (h : ∀ part ∈ parts, part.1 ∈ entry) :
    ∃ entries : List ((List TokenKind × List TokenKind) × List TokenKind),
      (∀ entry ∈ entries, IsValue entry.1.1 ∧ IsValue entry.1.2) ∧
        entries.map (fun entry => (entry.1.1 ++ [.mark .colon] ++ entry.1.2, entry.2)) = parts := by
  induction parts with
  | nil => exact ⟨[], by simp, rfl⟩
  | cons part parts ih =>
    obtain ⟨entries, hentries, rfl⟩ :=
      ih fun other hother => h other (List.mem_cons_of_mem _ hother)
    obtain ⟨_, ⟨key, hkey, _, rfl, rfl⟩, value, hvalue, heq⟩ := h part List.mem_cons_self
    refine ⟨((key, value), part.2) :: entries,
      List.forall_mem_cons.2 ⟨⟨hkey, hvalue⟩, hentries⟩, ?_⟩
    exact congrArg₂ List.cons (Prod.ext heq rfl) rfl

theorem value_eq :
    value = token .integer + token .string + keyword .truth + keyword .falsehood + dotted +
      enclosed .openBracket value .closeBracket + enclosed .openBrace entry .closeBrace := by
  ext sentence
  constructor
  · intro h
    cases h with
    | integer => exact .inl (.inl (.inl (.inl (.inl (.inl rfl)))))
    | string => exact .inl (.inl (.inl (.inl (.inl (.inr rfl)))))
    | truth => exact .inl (.inl (.inl (.inl (.inr rfl))))
    | falsehood => exact .inl (.inl (.inl (.inr rfl)))
    | dotted path => exact .inl (.inl (.inr path))
    | list values separated =>
      refine .inl (.inr (Language.append_mem_mul (Language.append_mem_mul rfl ?_) rfl))
      exact mem_items.2 ⟨_, fun element h => ⟨values element h, separated element h⟩, rfl⟩
    | @map entries keys values separated =>
      refine .inr (Language.append_mem_mul (Language.append_mem_mul rfl ?_) rfl)
      refine mem_items.2 ⟨entries.map fun entry =>
        (entry.1.1 ++ [.mark .colon] ++ entry.1.2, entry.2), ?_, ?_⟩
      · intro part hpart
        obtain ⟨entry, hentry, rfl⟩ := List.mem_map.1 hpart
        exact ⟨Language.append_mem_mul (Language.append_mem_mul (keys entry hentry) rfl)
          (values entry hentry), separated entry hentry⟩
      · rw [List.flatMap_map]
  · rintro ((((((rfl | rfl) | rfl) | rfl) | h) | h) | h)
    · exact .integer
    · exact .string
    · exact .truth
    · exact .falsehood
    · exact .dotted h
    · obtain ⟨_, ⟨_, rfl, _, hitems, rfl⟩, _, rfl, rfl⟩ := h
      obtain ⟨elements, hparts, rfl⟩ := mem_items.1 hitems
      exact .list (fun element helement => (hparts element helement).1)
        fun element helement => (hparts element helement).2
    · obtain ⟨_, ⟨_, rfl, _, hitems, rfl⟩, _, rfl, rfl⟩ := h
      obtain ⟨parts, hparts, rfl⟩ := mem_items.1 hitems
      -- the parts of an entry are pulled out of the items, as the rule has them
      obtain ⟨entries, hentries, rfl⟩ := exists_entries fun part hpart => (hparts part hpart).1
      rw [List.flatMap_map]
      exact .map (fun entry hentry => (hentries entry hentry).1)
        (fun entry hentry => (hentries entry hentry).2)
        fun entry hentry => (hparts _ (List.mem_map_of_mem hentry)).2

theorem list_le_value : enclosed .openBracket value .closeBracket ≤ value := by
  intro sentence h
  rw [value_eq]
  exact .inl (.inr h)

theorem map_le_value : enclosed .openBrace entry .closeBrace ≤ value := by
  intro sentence h
  rw [value_eq]
  exact .inr h

end Grammar
end Idl
