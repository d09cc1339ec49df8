import Idl.Proofs.ParallelParsing
import Idl.Proofs.TokenStream
import Idl.Proofs.WrittenTokens

/-!
# Layouts

Lexemes are laid out one after the other with gaps before, between and after them. The text that
comes about has just these lexemes, each where it was written, and what the parser makes of the
text does not depend on the gaps.
-/
namespace Idl

/-- A lexeme, what is written for it and the gap in front of that. -/
structure Entry where
  gap : List Char
  lexeme : Lexeme
  written : List Char

/-- The token of an entry that starts at the given offset. -/
def Entry.token (offset : Nat) (entry : Entry) : Token :=
  ⟨entry.lexeme, ⟨offset + Text.size entry.gap,
    offset + Text.size entry.gap + Text.size entry.written⟩⟩

/-- Entries and the gap after the last of them. -/
structure Layout where
  entries : List Entry
  last : List Char

namespace Layout

def write (entries : List Entry) : List Char :=
  entries.flatMap fun entry => entry.gap ++ entry.written

/-- The text that is laid out. -/
def chars (layout : Layout) : List Char :=
  write layout.entries ++ layout.last

def tokensFrom (last : List Char) : Nat → List Entry → List Token
  | offset, [] => [⟨.finish, ⟨offset + Text.size last, offset + Text.size last⟩⟩]
  | offset, entry :: entries =>
    entry.token offset :: tokensFrom last (entry.token offset).span.stop entries

/-- The lexemes with the spans that they are written in. -/
def tokens (layout : Layout) : List Token :=
  tokensFrom layout.last 0 layout.entries

/-- Every lexeme is written in one of its ways, with gaps around it that are not empty but before
the first and after the last one. -/
structure IsProper (layout : Layout) : Prop where
  written : ∀ entry ∈ layout.entries, entry.lexeme.WrittenAs entry.written
  first : ∀ entry ∈ layout.entries.head?, Gap.Front 0 entry.gap
  inner : ∀ entry ∈ layout.entries.tail, Gap.Filler entry.gap ∧ entry.gap ≠ []
  last : Gap.Back (Text.size (write layout.entries)) layout.last

theorem read_entry {offset : Nat} {entry : Entry} {rest : List Char}
    (hwritten : entry.lexeme.WrittenAs entry.written) (hgap : Gap.Front offset entry.gap)
    (hrest : Reading.Apart rest) :
    Token.read offset (entry.gap ++ (entry.written ++ rest)) = (entry.token offset, rest) := by
  obtain ⟨c, cs, hcs, hopens⟩ := Reading.exists_cons_writtenAs hwritten
  have hread : Gap.read .between offset (entry.gap ++ (entry.written ++ rest)) =
      .closed (offset + Text.size entry.gap) (entry.written ++ rest) := by
    rw [Gap.read_front hgap, hcs]
    exact Gap.read_of_not_opens hopens
  rw [Token.read, hread]
  simp only
  rw [Reading.ofChars_writtenAs hwritten hrest]
  rfl

theorem apart_of_opens {cs : List Char} (h : ∀ c tail, cs = c :: tail → Gap.Opens c) :
    Reading.Apart cs := by
  intro c hc
  obtain ⟨tail, rfl⟩ := List.head?_eq_some_iff.1 hc
  exact (h c tail rfl).not_isWordPart

/-- Behind an entry there is a gap or the text ends. -/
theorem apart_write {offset : Nat} {entries : List Entry} {last : List Char}
    (hinner : ∀ entry ∈ entries, Gap.Filler entry.gap ∧ entry.gap ≠ [])
    (hlast : Gap.Back offset last) : Reading.Apart (write entries ++ last) := by
  apply apart_of_opens
  rintro c tail hcs
  cases entries with
  | nil =>
    rw [write, List.flatMap_nil, List.nil_append] at hcs
    exact (hcs ▸ hlast).opens_head
  | cons entry entries =>
    obtain ⟨hgap, hne⟩ := hinner entry List.mem_cons_self
    cases hentry : entry.gap with
    | nil => exact absurd hentry hne
    | cons d gap =>
      rw [write, List.flatMap_cons, hentry] at hcs
      obtain ⟨rfl, -⟩ := List.cons.inj hcs
      exact (hentry ▸ hgap).opens_head

theorem readAll_write {offset : Nat} {entries : List Entry} {last : List Char}
    (hwritten : ∀ entry ∈ entries, entry.lexeme.WrittenAs entry.written)
    (hfirst : ∀ entry ∈ entries.head?, Gap.Front offset entry.gap)
    (hinner : ∀ entry ∈ entries.tail, Gap.Filler entry.gap ∧ entry.gap ≠ [])
    (hlast : Gap.Back (offset + Text.size (write entries)) last) :
    Token.readAll offset (write entries ++ last) = tokensFrom last offset entries := by
  induction entries generalizing offset with
  | nil =>
    have hread : Token.read offset last =
        (⟨.finish, ⟨offset + Text.size last, offset + Text.size last⟩⟩, []) := by
      rw [Token.read, @Gap.read_back offset last hlast]
      rfl
    change Token.readAll offset last = [_]
    rw [Token.readAll_of_finish (by rw [hread]), hread]
  | cons entry entries ih =>
    rw [List.tail_cons] at hinner
    have hentry := hwritten entry List.mem_cons_self
    have hread := read_entry hentry (hfirst entry rfl) (apart_write hinner hlast)
    have hwrite : write (entry :: entries) ++ last =
        entry.gap ++ (entry.written ++ (write entries ++ last)) := by
      simp [write]
    rw [hwrite, Token.readAll_of_ne_finish (by rw [hread]; exact hentry.ne_finish), hread,
      tokensFrom, ih]
    · exact fun next hnext => hwritten next (List.mem_cons_of_mem _ hnext)
    · intro next hnext
      exact .filler (hinner next (List.mem_of_mem_head? hnext)).1
    · exact fun next hnext => hinner next (List.mem_of_mem_tail hnext)
    · have hstop : offset + Text.size (write (entry :: entries)) =
          (entry.token offset).span.stop + Text.size (write entries) := by
        simp [write, Entry.token, Nat.add_assoc]
      exact hstop ▸ hlast

theorem tokens_of_isProper {layout : Layout} (h : layout.IsProper) :
    Token.readAll 0 layout.chars = layout.tokens :=
  readAll_write h.written h.first h.inner ((Nat.zero_add _).symm ▸ h.last)

/-- Where the tokens of entries lie in a text. -/
theorem forall₂_tokensFrom {cs before last : List Char} {entries : List Entry}
    (hcs : cs = before ++ (write entries ++ last)) :
    ∃ tokens, tokensFrom last (Text.size before) entries =
        tokens ++ [⟨.finish, ⟨Text.size cs, Text.size cs⟩⟩] ∧
      List.Forall₂ (fun token entry => token.lexeme = entry.lexeme ∧
        Text.slice? token.span.start token.span.stop cs = some entry.written) tokens entries := by
  induction entries generalizing before with
  | nil =>
    refine ⟨[], ?_, .nil⟩
    rw [tokensFrom, hcs]
    simp [write]
  | cons entry entries ih =>
    have hstop : (entry.token (Text.size before)).span.stop =
        Text.size (before ++ (entry.gap ++ entry.written)) := by
      simp [Entry.token, Nat.add_assoc]
    have hrest : cs = before ++ (entry.gap ++ entry.written) ++ (write entries ++ last) := by
      rw [hcs]
      simp [write]
    obtain ⟨tokens, htokens, hforall⟩ := ih hrest
    refine ⟨entry.token (Text.size before) :: tokens, ?_, .cons ⟨rfl, ?_⟩ hforall⟩
    · rw [tokensFrom, hstop, htokens, List.cons_append]
    · have hwritten : cs = before ++ entry.gap ++ (entry.written ++ (write entries ++ last)) := by
        rw [hcs]
        simp [write]
      rw [hwritten, Entry.token, ← Text.size_append]
      exact Text.slice?_size _ entry.written _

/-- The text has the tokens of the layout: what was written, where it was written, and the end. -/
def IsReadFrom (layout : Layout) (source : Source) : Prop :=
  source.tokens = layout.tokens ∧
    ∃ tokens, source.tokens = tokens ++ [⟨.finish, ⟨source.size, source.size⟩⟩] ∧
      List.Forall₂ (fun token entry => token.lexeme = entry.lexeme ∧
        Text.slice? token.span.start token.span.stop source.chars = some entry.written)
        tokens layout.entries

variable {layout other : Layout} {source source' : Source}

theorem isReadFrom (h : layout.IsProper) (hchars : source.chars = layout.chars) :
    layout.IsReadFrom source := by
  have htokens : source.tokens = layout.tokens := by
    rw [Source.tokens, hchars, tokens_of_isProper h]
  refine ⟨htokens, ?_⟩
  rw [htokens]
  exact @forall₂_tokensFrom source.chars [] layout.last layout.entries hchars

theorem lexemes_tokensFrom (last : List Char) (offset : Nat) (entries : List Entry) :
    (tokensFrom last offset entries).map Token.lexeme =
      entries.map Entry.lexeme ++ [.finish] := by
  induction entries generalizing offset with
  | nil => rfl
  | cons entry entries ih => exact congrArg (entry.lexeme :: ·) (ih _)

/-- Gaps have no meaning. A text in which lexemes are laid out has just these tokens, and what is
parsed from it depends on the lexemes only. -/
theorem parse_of_layouts (h : layout.IsProper) (h' : other.IsProper)
    (hlexemes : layout.entries.map Entry.lexeme = other.entries.map Entry.lexeme)
    (hchars : source.chars = layout.chars) (hchars' : source'.chars = other.chars) :
    layout.IsReadFrom source ∧ other.IsReadFrom source' ∧ source.ParsedAlike source' := by
  have hread := isReadFrom h hchars
  have hread' := isReadFrom h' hchars'
  refine ⟨hread, hread', Source.parsedAlike ?_⟩
  rw [hread.1, hread'.1, tokens, tokens, lexemes_tokensFrom, lexemes_tokensFrom, hlexemes]

/-- The words of `const i32 n = 5` with what is written for the number and the gaps. -/
def constantLayout (number first second third fourth fifth last : List Char) : Layout where
  entries :=
    [⟨first, .keyword .const, ['c', 'o', 'n', 's', 't']⟩,
      ⟨second, .keyword .i32, ['i', '3', '2']⟩,
      ⟨third, .identifier (String.ofList ['n']), ['n']⟩,
      ⟨fourth, .mark .equals, ['=']⟩,
      ⟨fifth, .integer 5, number⟩]
  last := last

theorem isProper_constantLayout {number first second third fourth fifth last : List Char}
    (hnumber : (Lexeme.integer 5).WrittenAs number) (hfirst : Gap.Front 0 first)
    (hinner : ∀ gap ∈ [second, third, fourth, fifth], Gap.Piece gap)
    (hlast : ∀ offset, Gap.Back offset last) :
    (constantLayout number first second third fourth fifth last).IsProper := by
  refine ⟨?_, ?_, ?_, hlast _⟩
  · simp only [constantLayout, List.forall_mem_cons, List.not_mem_nil, false_imp_iff,
      implies_true, and_true]
    exact ⟨.keyword .const, .keyword .i32, .identifier (by decide) (by simp) (by decide),
      .mark .equals, hnumber⟩
  · intro entry hentry
    obtain rfl := Option.some.inj hentry
    exact hfirst
  · have hgap : ∀ gap ∈ [second, third, fourth, fifth], Gap.Filler gap ∧ gap ≠ [] :=
      fun gap h => ⟨.of_piece (hinner gap h), (hinner gap h).ne_nil⟩
    simpa [constantLayout] using hgap

def plainLayout : Layout :=
  constantLayout ['5'] [] [' '] [' '] [' '] [' '] []

def commentedLayout : Layout :=
  constantLayout ['+', '0', '5'] ['\uFEFF'] ['/', '*', '*', '*', '/'] ['#', '/', '*', '\n']
    ['/', '/', '\n'] ['\t'] ['#', 'é']

theorem parse_of_constantLayouts :
    plainLayout.IsReadFrom ⟨"plain.thrift", String.ofList plainLayout.chars⟩ ∧
      commentedLayout.IsReadFrom ⟨"commented.thrift", String.ofList commentedLayout.chars⟩ ∧
      Source.ParsedAlike ⟨"plain.thrift", String.ofList plainLayout.chars⟩
        ⟨"commented.thrift", String.ofList commentedLayout.chars⟩ := by
  refine parse_of_layouts ?_ ?_ rfl ?_ ?_
  · refine isProper_constantLayout (@Lexeme.WrittenAs.unsigned ['5'] (by decide) (by decide))
      (.filler .nil) ?_
      fun _ => .closed (.filler .nil)
    simp only [List.forall_mem_cons, List.not_mem_nil, false_imp_iff, implies_true, and_true]
    exact ⟨.blank rfl, .blank rfl, .blank rfl, .blank rfl⟩
  · refine isProper_constantLayout
      (@Lexeme.WrittenAs.positive ['0', '5'] (by decide) (by decide)) (.marked rfl .nil) ?_
      fun _ => .line (.filler .nil) (.hash (by decide))
    simp only [List.forall_mem_cons, List.not_mem_nil, false_imp_iff, implies_true, and_true]
    exact ⟨@Gap.Piece.block ['*'] (by decide), .line (@Gap.LineComment.hash ['/', '*'] (by decide)),
      .line (@Gap.LineComment.slashes [] (by decide)), .blank rfl⟩
  · exact String.toList_ofList
  · exact String.toList_ofList

end Layout
end Idl
