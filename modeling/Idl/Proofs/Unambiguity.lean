import Idl.Proofs.Derivation
import Idl.Proofs.Parsing

/-!
# Spellings are unambiguous

Tokens spell at most one tree. If spellings of two trees lie in front of the same tokens, the trees
are the same and the one spelling goes as far as the other, as long as what comes behind cannot
continue them.
-/
namespace Idl
open Grammar (Begins Closes Ends IsSeparator Starts)

namespace Spelling

/-- The next token, if there is one, is of a kind of this sort. -/
def Next (sort : TokenKind → Prop) (tokens : List Token) : Prop :=
  ∀ token ∈ tokens.head?, sort token.kind

/-- The sequences are not empty, and begin with a token of a kind of this sort. -/
def Opens (sort : TokenKind → Prop) (language : Language Token) : Prop :=
  ∀ tokens ∈ language, ∃ token rest, tokens = token :: rest ∧ sort token.kind

/-- With a sequence of the language in front, what is next is of the one sort if it was of the
other without. -/
def Leads (sort : TokenKind → Prop) (language : Language Token) (sort' : TokenKind → Prop) : Prop :=
  ∀ tokens ∈ language, ∀ after, Next sort after → Next sort' (tokens ++ after)

/-- Two sequences, one of each language, that lie in front of the same tokens are the same, and
`p` holds, if what comes behind them is of this sort. -/
def Forces (sort : TokenKind → Prop) (language language' : Language Token) (p : Prop) : Prop :=
  ∀ tokens ∈ language, ∀ tokens' ∈ language', ∀ after after', tokens ++ after = tokens' ++ after' →
    Next sort after → Next sort after' → tokens = tokens' ∧ p

variable {sort sort' : TokenKind → Prop} {kind kind' : TokenKind} {p q : Prop}
  {language language' further further' : Language Token}

theorem Next.cons {token : Token} (h : sort token.kind) (rest : List Token) :
    Next sort (token :: rest) := by
  rintro _ ⟨⟩
  exact h

theorem Next.mono {tokens : List Token} (h : Next sort tokens)
    (hsort : ∀ kind, sort kind → sort' kind) : Next sort' tokens :=
  fun token htoken => hsort _ (h token htoken)

namespace Opens

theorem lexeme {lexeme : Lexeme} (h : sort lexeme.kind) : Opens sort (Spelling.lexeme lexeme) := by
  rintro _ ⟨span, rfl⟩
  exact ⟨_, [], rfl, h⟩

theorem mul (h : Opens sort language) (further : Language Token) :
    Opens sort (language * further) := by
  rintro _ ⟨tokens, htokens, after, -, rfl⟩
  obtain ⟨token, rest, rfl, htoken⟩ := h tokens htokens
  exact ⟨token, rest ++ after, rfl, htoken⟩

theorem spanning (h : Opens sort language) (span : Span) :
    Opens sort (Spelling.spanning span language) :=
  fun tokens htokens => h tokens htokens.1

theorem mono (h : Opens sort language) (hsort : ∀ kind, sort kind → sort' kind) :
    Opens sort' language := by
  intro tokens htokens
  obtain ⟨token, rest, rfl, htoken⟩ := h tokens htokens
  exact ⟨token, rest, rfl, hsort _ htoken⟩

/-- What the grammar says about the first kind. -/
theorem of_yields {grammar : Language TokenKind} (h : Yields language grammar)
    (hbegins : Begins sort grammar) : Opens sort language := by
  intro tokens htokens
  obtain ⟨kind, kinds, hkinds, hkind⟩ := hbegins _ (h tokens htokens)
  obtain ⟨token, rest, rfl, rfl, -⟩ := List.map_eq_cons_iff.1 hkinds
  exact ⟨token, rest, rfl, hkind⟩

end Opens

namespace Leads

theorem of_opens (h : Opens sort' language) : Leads sort language sort' := by
  rintro tokens htokens after -
  obtain ⟨token, rest, rfl, htoken⟩ := h tokens htokens
  exact .cons htoken _

theorem one (hsort : ∀ kind, sort kind → sort' kind) : Leads sort 1 sort' := by
  rintro _ rfl after hafter
  exact hafter.mono hsort

theorem elim {α : Type} {spell : α → Language Token} (hsort : ∀ kind, sort kind → sort' kind)
    (h : ∀ item, Opens sort' (spell item)) (item : Option α) :
    Leads sort (item.elim 1 spell) sort' := by
  cases item with
  | none => exact one hsort
  | some item => exact of_opens (h item)

theorem prod {α : Type} {spell : α → Language Token} (hsort : ∀ kind, sort kind → sort' kind)
    (h : ∀ item, Opens sort' (spell item)) (list : List α) :
    Leads sort (list.map spell).prod sort' := by
  cases list with
  | nil => exact one hsort
  | cons item list => exact of_opens ((h item).mul _)

theorem separator (h : ∀ kind, sort kind → Ends kind) : Leads sort Spelling.separator Ends := by
  rintro _ (rfl | ⟨span, rfl⟩ | ⟨span, rfl⟩) after hafter
  · exact hafter.mono h
  · exact .cons (by simp [Ends, Token.kind, Lexeme.kind]) _
  · exact .cons (by simp [Ends, Token.kind, Lexeme.kind]) _

theorem items {α : Type} {spell : α → Language Token} (h : ∀ item, Opens Starts (spell item))
    (list : List α) :
    Leads Closes (Spelling.items spell list) fun kind => Ends kind ∧ ¬ IsSeparator kind :=
  prod (fun _ h => ⟨h.ends, h.not_isSeparator⟩)
    (fun item => ((h item).mono fun _ h => ⟨h.ends, h.not_isSeparator⟩).mul _) list

end Leads

namespace Forces

theorem imp (h : Forces sort language language' p) (hp : p → q) :
    Forces sort language language' q :=
  fun tokens htokens tokens' htokens' after after' heq hafter hafter' =>
    (h tokens htokens tokens' htokens' after after' heq hafter hafter').imp_right hp

theorem mono (h : Forces sort language language' p) (hsort : ∀ kind, sort' kind → sort kind) :
    Forces sort' language language' p :=
  fun tokens htokens tokens' htokens' after after' heq hafter hafter' =>
    h tokens htokens tokens' htokens' after after' heq (hafter.mono hsort) (hafter'.mono hsort)

theorem symm (h : Forces sort language language' p) : Forces sort language' language p := by
  intro tokens htokens tokens' htokens' after after' heq hafter hafter'
  obtain ⟨htokens, hp⟩ := h tokens' htokens' tokens htokens after' after heq.symm hafter' hafter
  exact ⟨htokens.symm, hp⟩

theorem lexeme (lexeme other : Lexeme) :
    Forces sort (Spelling.lexeme lexeme) (Spelling.lexeme other) (lexeme = other) := by
  rintro _ ⟨span, rfl⟩ _ ⟨span', rfl⟩ after after' heq - -
  obtain ⟨htoken, -⟩ := List.cons.inj heq
  exact ⟨congrArg (fun token => [token]) htoken, congrArg Token.lexeme htoken⟩

theorem one : Forces sort 1 1 True := by
  rintro _ rfl _ rfl after after' - - -
  exact ⟨rfl, trivial⟩

/-- What stands behind cannot be taken for what has been left out. -/
theorem one_left (h : Opens (fun kind => ¬ sort kind) language) : Forces sort 1 language p := by
  rintro _ rfl tokens htokens after after' heq hafter -
  obtain ⟨token, rest, rfl, htoken⟩ := h tokens htokens
  rw [List.nil_append] at heq
  exact absurd (hafter token (heq ▸ rfl)) htoken

theorem of_opens (h : Opens (Eq kind) language) (h' : Opens (Eq kind') language')
    (hforces : kind = kind' → Forces sort language language' p) :
    Forces sort language language' p := by
  intro tokens htokens tokens' htokens' after after' heq
  refine hforces ?_ tokens htokens tokens' htokens' after after' heq
  obtain ⟨token, rest, rfl, rfl⟩ := h tokens htokens
  obtain ⟨token', rest', rfl, rfl⟩ := h' tokens' htokens'
  exact congrArg Token.kind (List.cons.inj heq).1

/-- The first parts are the same, because what begins the second parts ends them. -/
theorem mul (h : Forces sort' language language' p) (h' : Forces sort further further' q)
    (hlead : Leads sort further sort') (hlead' : Leads sort further' sort') :
    Forces sort (language * further) (language' * further') (p ∧ q) := by
  rintro _ ⟨first, hfirst, second, hsecond, rfl⟩ _ ⟨first', hfirst', second', hsecond', rfl⟩
    after after' heq hafter hafter'
  simp only [List.append_assoc] at heq
  obtain ⟨rfl, hp⟩ := h first hfirst first' hfirst' _ _ heq (hlead second hsecond after hafter)
    (hlead' second' hsecond' after' hafter')
  obtain ⟨rfl, hq⟩ := h' second hsecond second' hsecond' after after'
    (List.append_cancel_left heq) hafter hafter'
  exact ⟨rfl, hp, hq⟩

/-- The first parts are the same whatever stands behind them. -/
theorem mul_of_any (h : Forces (fun _ => True) language language' p)
    (h' : Forces sort further further' q) :
    Forces sort (language * further) (language' * further') (p ∧ q) :=
  h.mul h' (fun _ _ _ _ _ _ => trivial) fun _ _ _ _ _ _ => trivial

theorem mul_opens (h : Forces sort' language language' p) (h' : Forces sort further further' q)
    (hopens : Opens sort' further) (hopens' : Opens sort' further') :
    Forces sort (language * further) (language' * further') (p ∧ q) :=
  h.mul h' (.of_opens hopens) (.of_opens hopens')

theorem mul_lexeme (h : Forces sort' language language' p) (lexeme : Lexeme)
    (hlexeme : sort' lexeme.kind) :
    Forces sort (language * Spelling.lexeme lexeme) (language' * Spelling.lexeme lexeme) p :=
  (h.mul_opens (.lexeme lexeme lexeme) (.lexeme hlexeme) (.lexeme hlexeme)).imp And.left

theorem lexeme_mul (lexeme : Lexeme) (h : Forces sort further further' p) :
    Forces sort (Spelling.lexeme lexeme * further) (Spelling.lexeme lexeme * further') p :=
  (Forces.mul_of_any (.lexeme lexeme lexeme) h).imp And.right

theorem spanning (h : Forces sort language language' p) (span span' : Span) :
    Forces sort (Spelling.spanning span language) (Spelling.spanning span' language')
      (p ∧ span = span') := by
  rintro tokens ⟨htokens, hstart, hstop⟩ tokens' ⟨htokens', hstart', hstop'⟩ after after' heq
    hafter hafter'
  obtain ⟨rfl, hp⟩ := h tokens htokens tokens' htokens' after after' heq hafter hafter'
  obtain ⟨start, stop⟩ := span
  obtain rfl := Option.some.inj (hstart.symm.trans hstart')
  obtain rfl := Option.some.inj (hstop.symm.trans hstop')
  exact ⟨rfl, hp, rfl⟩

section

variable {α : Type} {spell : α → Language Token}

theorem elim (h : ∀ item other, Forces sort (spell item) (spell other) (item = other))
    (hopens : ∀ item, Opens (fun kind => ¬ sort kind) (spell item)) (item other : Option α) :
    Forces sort (item.elim 1 spell) (other.elim 1 spell) (item = other) := by
  cases item with
  | none =>
    cases other with
    | none => exact one.imp fun _ => rfl
    | some other => exact one_left (hopens other)
  | some item =>
    cases other with
    | none => exact (one_left (hopens item)).symm
    | some other => exact (h item other).imp (congrArg some)

/-- Whether there is one more item is seen from what is next. -/
theorem prod (h : ∀ item other, Forces sort' (spell item) (spell other) (item = other))
    (hopens : ∀ item, Opens (fun kind => ¬ sort kind ∧ sort' kind) (spell item))
    (hsort : ∀ kind, sort kind → sort' kind) (list others : List α) :
    Forces sort (list.map spell).prod (others.map spell).prod (list = others) := by
  have hmore (item : α) (list : List α) :
      Opens (fun kind => ¬ sort kind) ((item :: list).map spell).prod :=
    ((hopens item).mono fun _ h => h.1).mul _
  induction list generalizing others with
  | nil =>
    cases others with
    | nil => exact one.imp fun _ => rfl
    | cons other others => exact one_left (hmore other others)
  | cons item list ih =>
    cases others with
    | nil => exact (one_left (hmore item list)).symm
    | cons other others =>
      have hlead := Leads.prod hsort fun item => (hopens item).mono fun _ h => h.2
      refine ((h item other).mul (ih others) (hlead list) (hlead others)).imp ?_
      rintro ⟨hitem, hlist⟩
      rw [hitem, hlist]

end

theorem separator :
    Forces (fun kind => ¬ IsSeparator kind) Spelling.separator Spelling.separator True := by
  have hmarks : Opens (fun kind => ¬ ¬ IsSeparator kind) (mark .comma + mark .semicolon) := by
    rintro _ (⟨span, rfl⟩ | ⟨span, rfl⟩) <;>
      exact ⟨_, [], rfl, not_not_intro (by simp [IsSeparator, Token.kind, Lexeme.kind])⟩
  rintro tokens (h | h) tokens' (h' | h') after after' heq hafter hafter'
  · exact one tokens h tokens' h' after after' heq hafter hafter'
  · exact one_left hmarks tokens h tokens' h' after after' heq hafter hafter'
  · exact (one_left hmarks).symm tokens h tokens' h' after after' heq hafter hafter'
  · refine ⟨?_, trivial⟩
    obtain ⟨_, rfl⟩ | ⟨_, rfl⟩ := h <;> obtain ⟨_, rfl⟩ | ⟨_, rfl⟩ := h' <;>
      exact congrArg (fun token => [token]) (List.cons.inj heq).1

/-- What is next after an item and its separator is the next item or the end of the list. -/
theorem mul_separator (h : Forces Ends language language' p) :
    Forces (fun kind => Ends kind ∧ ¬ IsSeparator kind) (language * Spelling.separator)
      (language' * Spelling.separator) p :=
  (h.mul (separator.mono fun _ h => h.2) (.separator fun _ h => h.1)
    (.separator fun _ h => h.1)).imp And.left

theorem items {α : Type} {spell : α → Language Token}
    (h : ∀ item other, Forces Ends (spell item) (spell other) (item = other))
    (hopens : ∀ item, Opens Starts (spell item)) (list others : List α) :
    Forces Closes (Spelling.items spell list) (Spelling.items spell others) (list = others) :=
  prod (fun item other => (h item other).mul_separator)
    (fun item => ((hopens item).mono fun _ h => ⟨h.not_closes, h.ends, h.not_isSeparator⟩).mul _)
    (fun _ h => ⟨h.ends, h.not_isSeparator⟩) list others

theorem enclosed {opening closing : Mark} (h : Forces Closes language language' p)
    (hcloses : Closes (.mark closing)) :
    Forces sort (Spelling.enclosed opening language closing)
      (Spelling.enclosed opening language' closing) p :=
  (lexeme_mul (.mark opening) h).mul_lexeme (.mark closing) hcloses

end Forces
end Spelling

open Spelling

theorem Identifier.opens (identifier : Identifier) : Opens (Eq .identifier) identifier.spellings :=
  (Opens.lexeme rfl).spanning _

section

variable {sort : TokenKind → Prop}

theorem Identifier.forces (identifier other : Identifier) :
    Forces sort identifier.spellings other.spellings (identifier = other) := by
  refine ((Forces.lexeme _ _).spanning _ _).imp ?_
  rintro ⟨htext, hspan⟩
  cases identifier; cases other; simp_all

theorem IntegerLiteral.forces (literal other : IntegerLiteral) :
    Forces sort literal.spellings other.spellings (literal = other) := by
  refine ((Forces.lexeme _ _).spanning _ _).imp ?_
  rintro ⟨hvalue, hspan⟩
  cases literal; cases other; simp_all

theorem StringLiteral.forces (literal other : StringLiteral) :
    Forces sort literal.spellings other.spellings (literal = other) := by
  refine ((Forces.lexeme _ _).spanning _ _).imp ?_
  rintro ⟨htext, hspan⟩
  cases literal; cases other; simp_all

end

theorem Name.forces (name other : Name) :
    Forces Ends name.spellings other.spellings (name = other) := by
  have hdots (tail tail' : List Identifier) : Forces Ends
      (tail.map fun next => mark .dot * next.spellings).prod
      (tail'.map fun next => mark .dot * next.spellings).prod (tail = tail') :=
    @Forces.prod Ends (fun _ => True) _ _ (fun next next' => .lexeme_mul _ (next.forces next'))
      (fun next => (Opens.lexeme ⟨by simp [Ends, Lexeme.kind], trivial⟩).mul _)
      (fun _ _ => trivial) tail tail'
  refine ((Forces.mul_of_any (name.head.forces other.head) (hdots name.tail other.tail)).spanning
    name.span other.span).imp ?_
  rintro ⟨⟨hhead, htail⟩, hspan⟩
  cases name; cases other; simp_all

/-! ### Types and values -/

/-- The kind that a type begins with. -/
def TypeRef.opening : TypeRef → TokenKind
  | builtin type _ => .keyword type.keyword
  | list _ _ => .keyword .list
  | map _ _ _ => .keyword .map
  | name _ => .identifier

theorem TypeRef.opens_opening (type : TypeRef) : Opens (Eq type.opening) type.spellings := by
  cases type with
  | builtin => exact (Opens.lexeme rfl).spanning _
  | list => exact ((((Opens.lexeme rfl).mul _).mul _).mul _).spanning _
  | map => exact ((((((Opens.lexeme rfl).mul _).mul _).mul _).mul _).mul _).spanning _
  | name name => exact (name.head.opens.mul _).spanning _

theorem Builtin.keyword_ne (type : Builtin) : type.keyword ≠ .list ∧ type.keyword ≠ .map := by
  cases type <;> decide

theorem Builtin.keyword_injective : Function.Injective Builtin.keyword := by
  intro type other h
  cases type <;> cases other <;> first | rfl | cases h

theorem TypeRef.forces (type other : TypeRef) :
    Forces Ends type.spellings other.spellings (type = other) := by
  -- the kinds that they begin with tell what the other type is made of
  induction type generalizing other with
  | builtin type span =>
    refine .of_opens (TypeRef.builtin type span).opens_opening other.opens_opening fun hkind => ?_
    cases other with
    | builtin other span' =>
      refine ((Forces.lexeme (.keyword type.keyword) (.keyword other.keyword)).spanning
        span span').imp ?_
      rintro ⟨hword, hspan⟩
      rw [Builtin.keyword_injective (Lexeme.keyword.inj hword), hspan]
    | list => exact absurd (TokenKind.keyword.inj hkind) type.keyword_ne.1
    | map => exact absurd (TokenKind.keyword.inj hkind) type.keyword_ne.2
    | name => cases hkind
  | list element span ih =>
    refine .of_opens (TypeRef.list element span).opens_opening other.opens_opening fun hkind => ?_
    cases other with
    | builtin other => exact absurd (TokenKind.keyword.inj hkind).symm other.keyword_ne.1
    | list other span' =>
      have hopening : Forces (fun _ => True) _ _ _ :=
        .lexeme_mul (.keyword .list) (.lexeme (.mark .less) (.mark .less))
      refine (((Forces.mul_of_any hopening (ih other)).mul_lexeme (.mark .greater)
        (by simp [Ends, Lexeme.kind])).spanning
        span span').imp ?_
      rintro ⟨⟨_, helement⟩, hspan⟩
      rw [helement, hspan]
    | map => cases hkind
    | name => cases hkind
  | map key value span ihKey ihValue =>
    refine .of_opens (TypeRef.map key value span).opens_opening other.opens_opening fun hkind => ?_
    cases other with
    | builtin other => exact absurd (TokenKind.keyword.inj hkind).symm other.keyword_ne.2
    | list => cases hkind
    | map key' value' span' =>
      have hopening : Forces (fun _ => True) _ _ _ :=
        .lexeme_mul (.keyword .map) (.lexeme (.mark .less) (.mark .less))
      have hkey : Forces (fun _ => True) _ _ _ :=
        (Forces.mul_of_any hopening (ihKey key')).mul_lexeme (.mark .comma)
          (by simp [Ends, Lexeme.kind])
      refine (((Forces.mul_of_any hkey (ihValue value')).mul_lexeme (.mark .greater)
        (by simp [Ends, Lexeme.kind])).spanning
        span span').imp ?_
      rintro ⟨⟨⟨_, hkey⟩, hvalue⟩, hspan⟩
      rw [hkey, hvalue, hspan]
    | name => cases hkind
  | name name =>
    refine .of_opens (TypeRef.name name).opens_opening other.opens_opening fun hkind => ?_
    cases other with
    | builtin => cases hkind
    | list => cases hkind
    | map => cases hkind
    | name other => exact (name.forces other).imp (congrArg TypeRef.name)

/-- The kind that a value begins with. -/
def Expr.opening : Expr → TokenKind
  | .integer _ => .integer
  | .string _ => .string
  | .bool value _ => .keyword (if value then .truth else .falsehood)
  | .list _ _ => .mark .openBracket
  | .map _ _ => .mark .openBrace
  | .name _ => .identifier

theorem Expr.opens_opening (expr : Expr) : Opens (Eq expr.opening) expr.spellings := by
  cases expr with
  | integer | string | bool => exact (Opens.lexeme rfl).spanning _
  | list | map => exact (((Opens.lexeme rfl).mul _).mul _).spanning _
  | name name => exact (name.head.opens.mul _).spanning _

theorem Expr.opens (expr : Expr) : Opens Starts expr.spellings :=
  .of_yields expr.yields Grammar.begins_value

theorem Parser.opens_entrySpellings (entry : Expr × Expr) : Opens Starts (entrySpellings entry) :=
  (entry.1.opens.mul _).mul _

theorem Expr.leads_elements (elements : List Expr) :
    Leads Closes (Expr.elementSpellings elements)
      fun kind => Ends kind ∧ ¬ IsSeparator kind := by
  rw [Parser.Expr.elementSpellings_eq]
  exact .items Expr.opens elements

theorem Expr.leads_entries (entries : List (Expr × Expr)) :
    Leads Closes (Expr.entrySpellings entries) fun kind => Ends kind ∧ ¬ IsSeparator kind := by
  rw [Parser.Expr.entrySpellings_eq]
  exact .items Parser.opens_entrySpellings entries

mutual

theorem Expr.forces : ∀ expr other : Expr,
    Forces Ends expr.spellings other.spellings (expr = other)
  | .integer literal, other => by
    refine .of_opens (Expr.integer literal).opens_opening other.opens_opening fun hkind => ?_
    cases other with
    | integer other => exact (literal.forces other).imp (congrArg Expr.integer)
    | _ => cases hkind
  | .string literal, other => by
    refine .of_opens (Expr.string literal).opens_opening other.opens_opening fun hkind => ?_
    cases other with
    | string other => exact (literal.forces other).imp (congrArg Expr.string)
    | _ => cases hkind
  | .bool value span, other => by
    refine .of_opens (Expr.bool value span).opens_opening other.opens_opening fun hkind => ?_
    cases other with
    | bool other span' =>
      refine ((Forces.lexeme _ _).spanning span span').imp ?_
      rintro ⟨hword, hspan⟩
      cases value <;> cases other <;> simp_all
    | _ => cases hkind
  | .list elements span, other => by
    have ih := Expr.elements_forces elements
    refine .of_opens (Expr.list elements span).opens_opening other.opens_opening fun hkind => ?_
    cases other with
    | list others span' =>
      refine (((ih others).enclosed (by simp [Closes])).spanning span span').imp ?_
      rintro ⟨helements, hspan⟩
      rw [helements, hspan]
    | _ => cases hkind
  | .map entries span, other => by
    have ih := Expr.entries_forces entries
    refine .of_opens (Expr.map entries span).opens_opening other.opens_opening fun hkind => ?_
    cases other with
    | map others span' =>
      refine (((ih others).enclosed (by simp [Closes])).spanning span span').imp ?_
      rintro ⟨hentries, hspan⟩
      rw [hentries, hspan]
    | _ => cases hkind
  | .name path, other => by
    refine .of_opens (Expr.name path).opens_opening other.opens_opening fun hkind => ?_
    cases other with
    | name other => exact (path.forces other).imp (congrArg Expr.name)
    | _ => cases hkind

theorem Expr.elements_forces : ∀ elements others : List Expr,
    Forces Closes (Expr.elementSpellings elements) (Expr.elementSpellings others)
      (elements = others)
  | [], [] => Forces.one.imp fun _ => rfl
  | [], other :: _ => .one_left (((other.opens.mono fun _ h => h.not_closes).mul _).mul _)
  | element :: _, [] =>
    (Forces.one_left (((element.opens.mono fun _ h => h.not_closes).mul _).mul _)).symm
  | element :: elements, other :: others => by
    refine ((Expr.forces element other).mul_separator.mul (Expr.elements_forces elements others)
      (Expr.leads_elements elements) (Expr.leads_elements others)).imp ?_
    rintro ⟨hhead, htail⟩
    rw [hhead, htail]

theorem Expr.entries_forces : ∀ entries others : List (Expr × Expr),
    Forces Closes (Expr.entrySpellings entries) (Expr.entrySpellings others) (entries = others)
  | [], [] => Forces.one.imp fun _ => rfl
  | [], other :: _ =>
    .one_left ((((other.1.opens.mono fun _ h => h.not_closes).mul _).mul _).mul _ |>.mul _)
  | entry :: _, [] =>
    (Forces.one_left
      ((((entry.1.opens.mono fun _ h => h.not_closes).mul _).mul _).mul _ |>.mul _)).symm
  | (key, value) :: entries, (key', value') :: others => by
    have hkey : Forces (fun _ => True) _ _ _ :=
      (Expr.forces key key').mul_lexeme (.mark .colon) (by simp [Ends, Lexeme.kind])
    have hentry := (hkey.mul_of_any (Expr.forces value value')).mul_separator
    refine (hentry.mul (Expr.entries_forces entries others) (Expr.leads_entries entries)
      (Expr.leads_entries others)).imp ?_
    rintro ⟨⟨hkey, hvalue⟩, htail⟩
    rw [hkey, hvalue, htail]

end

/-! ### Parts of declarations -/

theorem IntegerLiteral.order_forces (order other : Option IntegerLiteral) :
    Forces (fun kind => kind ≠ .integer) (orderSpellings order) (orderSpellings other)
      (order = other) :=
  .elim (fun literal other => Forces.mul_lexeme
    (literal.forces other : Forces (fun _ => True) _ _ _) (.mark .colon) trivial)
    (fun _ => ((Opens.lexeme (not_not_intro rfl)).spanning _).mul _) order other

theorem EnumEntry.forces (entry other : EnumEntry) :
    Forces Ends entry.spellings other.spellings (entry = other) := by
  have hvalue := Forces.elim (fun literal other => .lexeme_mul (.mark .equals)
    (IntegerLiteral.forces literal other)) (fun literal => (Opens.lexeme
      (show ¬ Ends (.mark .equals) by simp [Ends])).mul _) entry.value other.value
  refine ((Forces.mul_of_any (entry.name.forces other.name) hvalue).spanning
    entry.span other.span).imp ?_
  rintro ⟨⟨hname, hvalue⟩, hspan⟩
  cases entry; cases other; simp_all

theorem TypeRef.opens (type : TypeRef) : Opens Grammar.StartsType type.spellings :=
  .of_yields type.yields Grammar.begins_type

theorem Identifier.opens_ends (identifier : Identifier) : Opens Ends identifier.spellings :=
  identifier.opens.mono fun _ h => h ▸ by simp [Ends]

theorem Requiredness.keyword_injective : Function.Injective Requiredness.keyword := by
  intro requiredness other h
  cases requiredness <;> cases other <;> first | rfl | cases h

theorem Field.forces (field other : Field) :
    Forces Ends field.spellings other.spellings (field = other) := by
  have hrequiredness : Forces Grammar.StartsType _ _ (field.requiredness = other.requiredness) :=
    .elim (fun requiredness other => (Forces.lexeme (.keyword requiredness.keyword)
      (.keyword other.keyword)).imp fun h => Requiredness.keyword_injective (Lexeme.keyword.inj h))
      (fun requiredness => .lexeme fun h => by
        cases requiredness
        · exact h.ne_of_prefix.2.1 rfl
        · exact h.ne_of_prefix.2.2.1 rfl) _ _
  have hfront := (IntegerLiteral.order_forces field.order other.order).mul hrequiredness
    (.elim (fun _ h => h.ne_of_prefix.1) (fun _ => .lexeme TokenKind.noConfusion) _)
    (.elim (fun _ h => h.ne_of_prefix.1) (fun _ => .lexeme TokenKind.noConfusion) _)
  have htype := hfront.mul_opens (field.type.forces other.type) field.type.opens other.type.opens
  have hname : Forces (fun _ => True) _ _ _ := htype.mul_opens (field.name.forces other.name)
    field.name.opens_ends other.name.opens_ends
  have hdefault := Forces.elim (fun value other => .lexeme_mul (.mark .equals)
    (Expr.forces value other)) (fun value => (Opens.lexeme
      (show ¬ Ends (.mark .equals) by simp [Ends])).mul _) field.default other.default
  refine ((hname.mul_of_any hdefault).spanning field.span other.span).imp ?_
  rintro ⟨⟨⟨⟨⟨horder, hrequiredness⟩, htype⟩, hname⟩, hdefault⟩, hspan⟩
  cases field; cases other; simp_all

theorem Argument.forces (argument other : Argument) :
    Forces Ends argument.spellings other.spellings (argument = other) := by
  have htype := (IntegerLiteral.order_forces argument.order other.order).mul_opens
    (argument.type.forces other.type) (argument.type.opens.mono fun _ h => h.ne_of_prefix.1)
    (other.type.opens.mono fun _ h => h.ne_of_prefix.1)
  refine ((htype.mul_opens (argument.name.forces other.name) argument.name.opens_ends
    other.name.opens_ends).spanning argument.span other.span).imp ?_
  rintro ⟨⟨⟨horder, htype⟩, hname⟩, hspan⟩
  cases argument; cases other; simp_all

theorem Argument.list_forces {sort : TokenKind → Prop} (arguments others : List Argument) :
    Forces sort (listSpellings arguments) (listSpellings others) (arguments = others) :=
  (Forces.items Argument.forces
    (fun argument => .of_yields argument.yields Grammar.begins_argument) arguments others).enclosed
    (by simp [Closes])

/-- Exceptions begin with a word that ends the list of arguments in front. -/
theorem Method.throws_forces (throws others : List Argument) :
    Forces Ends
      ((if throws = [] then 1 else 0) + keyword .throws * Argument.listSpellings throws)
      ((if others = [] then 1 else 0) + keyword .throws * Argument.listSpellings others)
      (throws = others) := by
  have hopens (list : List Argument) : Opens (fun kind => ¬ Ends kind)
      (keyword .throws * Argument.listSpellings list) :=
    (Opens.lexeme (show ¬ Ends (.keyword .throws) by simp [Ends])).mul _
  have hnone {list : List Argument} {tokens : List Token}
      (h : tokens ∈ (if list = [] then 1 else 0 : Language Token)) : list = [] ∧ tokens = [] := by
    split at h
    · exact ⟨‹_›, h⟩
    · exact absurd h (Language.notMem_zero tokens)
  rintro tokens (h | h) tokens' (h' | h') after after' heq hafter hafter'
  · obtain ⟨rfl, rfl⟩ := hnone h
    obtain ⟨rfl, rfl⟩ := hnone h'
    exact ⟨rfl, rfl⟩
  · obtain ⟨rfl, rfl⟩ := hnone h
    exact Forces.one_left (hopens others) [] rfl tokens' h' after after' heq hafter hafter'
  · obtain ⟨rfl, rfl⟩ := hnone h'
    exact (Forces.one_left (hopens throws)).symm tokens h [] rfl after after' heq hafter hafter'
  · exact Forces.lexeme_mul (.keyword .throws) (Argument.list_forces throws others) tokens h tokens'
      h' after after' heq hafter hafter'

theorem Method.forces (method other : Method) :
    Forces Ends method.spellings other.spellings (method = other) := by
  -- without the word in front a method begins with its type
  have honeway : Forces Grammar.StartsType (if method.oneway then keyword .oneway else 1)
      (if other.oneway then keyword .oneway else 1) (method.oneway = other.oneway) := by
    have hopens : Opens (fun kind => ¬ Grammar.StartsType kind) (keyword .oneway) :=
      .lexeme fun h => h.ne_of_prefix.2.2.2 rfl
    cases method.oneway <;> cases other.oneway
    · exact Forces.one.imp fun _ => rfl
    · exact .one_left hopens
    · exact (Forces.one_left hopens).symm
    · exact (Forces.lexeme _ _).imp fun _ => rfl
  have hreturns := honeway.mul_opens (method.returns.forces other.returns) method.returns.opens
    other.returns.opens
  have hname : Forces (fun _ => True) _ _ _ := hreturns.mul_opens (method.name.forces other.name)
    method.name.opens_ends other.name.opens_ends
  have harguments : Forces (fun _ => True) _ _ _ :=
    hname.mul_of_any (Argument.list_forces method.arguments other.arguments)
  refine ((harguments.mul_of_any (Method.throws_forces method.throws other.throws)).spanning
    method.span other.span).imp ?_
  rintro ⟨⟨⟨⟨⟨honeway, hreturns⟩, hname⟩, harguments⟩, hthrows⟩, hspan⟩
  cases method; cases other; simp_all

/-! ### Declarations -/

theorem ConstantDecl.forces (decl other : ConstantDecl) :
    Forces Ends decl.spellings other.spellings (decl = other) := by
  have hname : Forces (fun _ => True) _ _ _ :=
    (Forces.lexeme_mul (.keyword .const) (decl.type.forces other.type)).mul_opens
      (decl.name.forces other.name) decl.name.opens_ends other.name.opens_ends
  have hequals : Forces (fun _ => True) _ _ _ := hname.mul_lexeme (.mark .equals) trivial
  refine ((hequals.mul_of_any (decl.value.forces other.value)).spanning decl.span other.span).imp ?_
  rintro ⟨⟨⟨htype, hname⟩, hvalue⟩, hspan⟩
  cases decl; cases other; simp_all

theorem TypedefDecl.forces (decl other : TypedefDecl) :
    Forces Ends decl.spellings other.spellings (decl = other) := by
  refine (((Forces.lexeme_mul (.keyword .typedef) (decl.type.forces other.type)).mul_opens
    (decl.name.forces other.name) decl.name.opens_ends other.name.opens_ends).spanning
    decl.span other.span).imp ?_
  rintro ⟨⟨htype, hname⟩, hspan⟩
  cases decl; cases other; simp_all

theorem EnumDecl.forces (decl other : EnumDecl) :
    Forces Ends decl.spellings other.spellings (decl = other) := by
  have hname : Forces (fun _ => True) _ _ _ :=
    .lexeme_mul (.keyword .enum) (decl.name.forces other.name)
  have hentries := Forces.items EnumEntry.forces
    (fun entry => .of_yields entry.yields Grammar.begins_enumEntry) decl.entries other.entries
  refine ((hname.mul_of_any (hentries.enclosed (by simp [Closes]))).spanning
    decl.span other.span).imp ?_
  rintro ⟨⟨hname, hentries⟩, hspan⟩
  cases decl; cases other; simp_all

theorem StructKind.keyword_injective : Function.Injective StructKind.keyword := by
  intro kind other h
  cases kind <;> cases other <;> first | rfl | cases h

theorem StructDecl.forces (decl other : StructDecl) :
    Forces Ends decl.spellings other.spellings (decl = other) := by
  have hkind : Forces (fun _ => True) (keyword decl.kind.keyword) (keyword other.kind.keyword)
      (decl.kind = other.kind) :=
    (Forces.lexeme _ _).imp fun h => StructKind.keyword_injective (Lexeme.keyword.inj h)
  have hname : Forces (fun _ => True) _ _ _ := hkind.mul_of_any (decl.name.forces other.name)
  have hfields := Forces.items Field.forces
    (fun field => .of_yields field.yields Grammar.begins_field) decl.fields other.fields
  refine ((hname.mul_of_any (hfields.enclosed (by simp [Closes]))).spanning
    decl.span other.span).imp ?_
  rintro ⟨⟨⟨hkind, hname⟩, hfields⟩, hspan⟩
  cases decl; cases other; simp_all

theorem ServiceDecl.forces (decl other : ServiceDecl) :
    Forces Ends decl.spellings other.spellings (decl = other) := by
  have hname : Forces (fun _ => True) _ _ _ :=
    .lexeme_mul (.keyword .service) (decl.name.forces other.name)
  have hparent : Forces (Eq (.mark .openBrace)) _ _ (decl.parent = other.parent) :=
    .elim (fun parent parent' => .lexeme_mul (.keyword .extending)
      ((parent.forces parent').mono fun _ h => h ▸ by simp [Ends]))
      (fun _ => (Opens.lexeme nofun).mul _) _ _
  have hmethods := Forces.items Method.forces
    (fun method => .of_yields method.yields Grammar.begins_method) decl.methods other.methods
  have hopens (methods : List Method) : Opens (Eq (.mark .openBrace))
      (enclosed .openBrace (items Method.spellings methods) .closeBrace) :=
    ((Opens.lexeme rfl).mul _).mul _
  refine (((hname.mul_of_any hparent).mul_opens (hmethods.enclosed (by simp [Closes]))
    (hopens decl.methods) (hopens other.methods)).spanning decl.span other.span).imp ?_
  rintro ⟨⟨⟨hname, hparent⟩, hmethods⟩, hspan⟩
  cases decl; cases other; simp_all

/-- The word that a declaration begins with. -/
def Declaration.keyword : Declaration → Keyword
  | constant _ => .const
  | typedef _ => .typedef
  | enum _ => .enum
  | struct decl => decl.kind.keyword
  | service _ => .service

theorem Declaration.opens_keyword (declaration : Declaration) :
    Opens (Eq (.keyword declaration.keyword)) declaration.spellings := by
  cases declaration with
  | constant => exact (((((Opens.lexeme rfl).mul _).mul _).mul _).mul _).spanning _
  | typedef | enum | struct => exact (((Opens.lexeme rfl).mul _).mul _).spanning _
  | service => exact ((((Opens.lexeme rfl).mul _).mul _).mul _).spanning _

theorem StructKind.keyword_mem (kind : StructKind) : kind.keyword ∈ [.struct, .exception] := by
  cases kind <;> decide

theorem Declaration.forces (declaration other : Declaration) :
    Forces Ends declaration.spellings other.spellings (declaration = other) := by
  refine .of_opens declaration.opens_keyword other.opens_keyword fun hkind => ?_
  replace hkind := TokenKind.keyword.inj hkind
  have hstruct (kind : StructKind) {word : Keyword} (h : kind.keyword = word) :
      word ∈ [.struct, .exception] := h ▸ kind.keyword_mem
  cases declaration with
  | constant decl =>
    cases other with
    | constant other => exact (decl.forces other).imp (congrArg constant)
    | struct other => exact absurd (hstruct other.kind hkind.symm) (by simp [keyword])
    | _ => cases hkind
  | typedef decl =>
    cases other with
    | typedef other => exact (decl.forces other).imp (congrArg typedef)
    | struct other => exact absurd (hstruct other.kind hkind.symm) (by simp [keyword])
    | _ => cases hkind
  | enum decl =>
    cases other with
    | enum other => exact (decl.forces other).imp (congrArg enum)
    | struct other => exact absurd (hstruct other.kind hkind.symm) (by simp [keyword])
    | _ => cases hkind
  | struct decl =>
    cases other with
    | struct other => exact (decl.forces other).imp (congrArg struct)
    | _ => exact absurd (hstruct decl.kind hkind) (by simp [keyword])
  | service decl =>
    cases other with
    | service other => exact (decl.forces other).imp (congrArg service)
    | struct other => exact absurd (hstruct other.kind hkind.symm) (by simp [keyword])
    | _ => cases hkind

namespace Source

variable {source : Source} {list others : List Declaration} {tokens : List Token}

/-- Tokens spell one list of declarations only. -/
theorem declarations_unique (h : tokens ∈ items Declaration.spellings list)
    (h' : tokens ∈ items Declaration.spellings others) : list = others := by
  have hforces := Forces.items Declaration.forces (fun declaration =>
    (Opens.of_yields declaration.yields Grammar.begins_definition).mono fun _ h => h.1) list others
  exact (hforces tokens h tokens h' [] [] rfl nofun nofun).2

theorem headers_eq_nil {document : Document} (h : tokens ∈ document.spellings)
    (hlist : tokens ∈ items Declaration.spellings list) : document.headers = [] := by
  cases hheaders : document.headers with
  | nil => rfl
  | cons header headers =>
    have hopens (declaration : Declaration) :
        Opens (fun kind => kind ∉ [.keyword .naming, .keyword .inclusion])
          declaration.spellings :=
      (Opens.of_yields declaration.yields Grammar.begins_definition).mono fun _ h => by
        simp [h.2.1, h.2.2]
    have hnext := Leads.prod (fun _ h => h) (fun declaration => (hopens declaration).mul separator)
      list tokens hlist [] nofun
    have hheader : Opens (fun kind => kind ∈ [.keyword .naming, .keyword .inclusion])
        header.spellings := by
      cases header with
      | naming => exact (((Opens.lexeme (by simp [Lexeme.kind])).mul _).mul _).spanning _
      | inclusion => exact ((Opens.lexeme (by simp [Lexeme.kind])).mul _).spanning _
    rw [Document.spellings, hheaders] at h
    obtain ⟨token, rest, rfl, htoken⟩ := ((hheader.mul separator).mul _).mul _ tokens h
    exact absurd htoken (hnext token rfl)

/-- A file whose tokens spell declarations is read as those. -/
theorem parse_of_spelled
    (hfault : ∀ token ∈ source.tokens, Parser.faultMessage? token.lexeme = none)
    (hlist : source.tokens.dropLast ∈ items Declaration.spellings list) :
    ∃ parsed, source.parse = .ok parsed ∧ parsed.document.namespaces = [] ∧
      parsed.document.includes = [] ∧ parsed.document.declarations = list := by
  have hsentence : source.tokens.dropLast.map Token.kind ∈ Grammar.document := by
    have hyields := Yields.items Declaration.yields list _ hlist
    exact Language.append_mem_mul (Language.nil_mem_kstar _) hyields
  obtain ⟨parsed, hparsed⟩ := parse_of_mem_grammar hfault hsentence
  have hspec := source.parse_spec
  rw [hparsed] at hspec
  have hheaders := headers_eq_nil hspec.1 hlist
  have hspelled := hspec.1
  rw [Document.spellings, hheaders] at hspelled
  have hnone := (List.merge_perm_append ..).symm.trans (.of_eq hheaders)
  rw [List.perm_nil, List.append_eq_nil_iff] at hnone
  refine ⟨parsed, hparsed, List.map_eq_nil_iff.1 hnone.1, List.map_eq_nil_iff.1 hnone.2, ?_⟩
  rw [items, List.map_nil, List.prod_nil, one_mul] at hspelled
  exact declarations_unique hspelled hlist

end Source
end Idl
