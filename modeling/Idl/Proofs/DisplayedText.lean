import Idl.Proofs.DeclarationSlices

/-!
# Displayed text

What is displayed of a type or an expression is read back. In front of text that no word goes on
with it is a run of tokens, and these spell a type or an expression that is the same but for where
its nodes lie. A constant that is written with displayed text is therefore parsed as what was
displayed, and what is displayed alike is alike.
-/
namespace Idl
open Spelling

/-- A word that is no keyword. -/
def IsIdentifier (text : String) : Prop :=
  (Lexeme.identifier text).WrittenAs text.toList

def Name.IsPlain (name : Name) : Prop :=
  ∀ identifier ∈ name.path, IsIdentifier identifier.text

/-- The names in the type consist of identifiers. -/
def TypeRef.IsPlain : TypeRef → Prop
  | builtin _ _ => True
  | list element _ => element.IsPlain
  | map key value _ => key.IsPlain ∧ value.IsPlain
  | name n => n.IsPlain

mutual

/-- The names in the expression consist of identifiers, its strings hold no quote and its numbers
have 64 bits. -/
def Expr.IsPlain : Expr → Prop
  | .integer literal => IsInt64 literal.value
  | .string literal => '"' ∉ literal.text.toList
  | .bool _ _ => True
  | .list elements _ => Expr.AllPlain elements
  | .map entries _ => Expr.EntriesPlain entries
  | .name n => n.IsPlain

def Expr.AllPlain : List Expr → Prop
  | [] => True
  | element :: elements => element.IsPlain ∧ Expr.AllPlain elements

def Expr.EntriesPlain : List (Expr × Expr) → Prop
  | [] => True
  | (key, value) :: entries => key.IsPlain ∧ value.IsPlain ∧ Expr.EntriesPlain entries

end

/-! ### Trees without places -/

/-- The places of a tree are forgotten by moving them all to the start. -/
def Identifier.bare (identifier : Identifier) : Identifier := identifier.move fun _ => 0

def Name.bare (name : Name) : Name := name.move fun _ => 0

def TypeRef.bare (type : TypeRef) : TypeRef := type.move fun _ => 0

def Expr.bare (expr : Expr) : Expr := expr.move fun _ => 0

def Expr.bareAll (exprs : List Expr) : List Expr := Expr.moveAll (fun _ => 0) exprs

def Expr.bareEntries (entries : List (Expr × Expr)) : List (Expr × Expr) :=
  Expr.moveEntries (fun _ => 0) entries

section

variable {f : Nat → Nat}

theorem Name.text_move (name : Name) : (name.move f).text = name.text := by
  simp [text, dotted, path, move, Identifier.move, Function.comp_def]

/-- Where a type lies is not displayed. -/
theorem TypeRef.text_move (type : TypeRef) : (type.move f).text = type.text := by
  induction type with
  | builtin => rfl
  | list element span ih => rw [move, text, text, ih]
  | map key value span ihKey ihValue => rw [move, text, text, ihKey, ihValue]
  | name name => exact name.text_move

mutual

/-- Where an expression lies is not displayed. -/
theorem Expr.text_move : ∀ expr : Expr, (expr.move f).text = expr.text
  | .integer _ | .string _ | .bool _ _ => by simp [Expr.move, Expr.text, IntegerLiteral.move,
      StringLiteral.move]
  | .list elements _ => by rw [Expr.move, Expr.text, Expr.text, Expr.texts_move elements]
  | .map entries _ => by rw [Expr.move, Expr.text, Expr.text, Expr.entryTexts_move entries]
  | .name path => by rw [Expr.move, Expr.text, Expr.text, path.text_move]

theorem Expr.texts_move : ∀ elements : List Expr,
    Expr.texts (Expr.moveAll f elements) = Expr.texts elements
  | [] => by rw [Expr.moveAll]
  | element :: elements => by
    rw [Expr.moveAll, Expr.texts, Expr.texts, Expr.text_move element, Expr.texts_move elements]

theorem Expr.entryTexts_move : ∀ entries : List (Expr × Expr),
    Expr.entryTexts (Expr.moveEntries f entries) = Expr.entryTexts entries
  | [] => by rw [Expr.moveEntries]
  | (key, value) :: entries => by
    rw [Expr.moveEntries, Expr.entryTexts, Expr.entryTexts, Expr.text_move key,
      Expr.text_move value, Expr.entryTexts_move entries]

end

end

theorem TypeRef.text_eq_of_bare {type other : TypeRef} (h : type.bare = other.bare) :
    type.text = other.text := by
  rw [← type.text_move, ← other.text_move]
  exact congrArg text h

theorem Expr.text_eq_of_bare {expr other : Expr} (h : expr.bare = other.bare) :
    expr.text = other.text := by
  rw [← expr.text_move, ← other.text_move]
  exact congrArg text h

/-! ### Reading what is displayed -/

theorem Lexeme.WrittenAs.lexical {lexeme : Lexeme} {written rest : List Char}
    (h : lexeme.WrittenAs written) (hrest : Reading.Apart rest) (offset : Nat) :
    Lexical offset written rest lexeme := by
  obtain ⟨c, cs, rfl, hopens⟩ := Reading.exists_cons_writtenAs h
  simp only [Gap.Opens, not_or] at hopens
  have hlexical := @Reading.lexical_ofChars offset c (cs ++ rest) hopens.1 hopens.2.1
    (fun heq => absurd heq hopens.2.2.1) fun heq => absurd heq hopens.2.2.2
  rwa [← List.cons_append, Reading.ofChars_writtenAs h hrest] at hlexical

theorem Lexeme.WrittenAs.isWhole {lexeme : Lexeme} {written : List Char}
    (h : lexeme.WrittenAs written) : Token.IsWhole lexeme :=
  ⟨by cases h <;> rfl, h.ne_finish⟩

namespace Spelling

/-- Wherever the characters begin, they are read as some tokens of the language, if no word goes on
behind them. -/
def ReadAs (text : List Char) (language : Language Token) : Prop :=
  ∀ offset after, Reading.Apart after → ∃ tokens ∈ language, Token.Run after offset text tokens

namespace ReadAs

variable {text text' : List Char} {language language' : Language Token}

theorem mono (h : ReadAs text language) (hle : ∀ tokens ∈ language, tokens ∈ language') :
    ReadAs text language' := by
  intro offset after hafter
  obtain ⟨tokens, htokens, hrun⟩ := h offset after hafter
  exact ⟨tokens, hle tokens htokens, hrun⟩

theorem one : ReadAs [] 1 :=
  fun _ _ _ => ⟨[], rfl, .nil⟩

theorem lexeme {lexeme : Lexeme} (h : lexeme.WrittenAs text) :
    ReadAs text (Spelling.lexeme lexeme) := by
  intro offset after hafter
  refine ⟨[⟨lexeme, ⟨offset, offset + Text.size text⟩⟩], ⟨_, rfl⟩, ?_⟩
  have hrun := @Token.Run.token after offset text [] lexeme [] h.isWhole (h.lexical hafter offset)
    .nil
  rwa [List.append_nil] at hrun

theorem mul (h : ReadAs text language) (h' : ReadAs text' language')
    (hapart : ∀ after, Reading.Apart (text' ++ after)) :
    ReadAs (text ++ text') (language * language') := by
  intro offset after hafter
  obtain ⟨later, hlater, hrun'⟩ := h' (offset + Text.size text) after hafter
  obtain ⟨tokens, htokens, hrun⟩ := h offset (text' ++ after) (hapart after)
  exact ⟨_, Language.append_mem_mul htokens hlater, hrun.append hrun'⟩

theorem mark (mark : Mark) (h : ReadAs text language) :
    ReadAs (mark.char :: text) (Spelling.mark mark * language) := by
  intro offset after hafter
  obtain ⟨tokens, htokens, hrun⟩ := h (offset + Text.size [mark.char]) after hafter
  have hmark := (Lexeme.WrittenAs.mark mark).isWhole
  exact ⟨_, Language.append_mem_mul ⟨_, rfl⟩ htokens, .token hmark (.mark mark) hrun⟩

theorem mul_mark (h : ReadAs text language) (mark : Mark) (h' : ReadAs text' language') :
    ReadAs (text ++ mark.char :: text') (language * (Spelling.mark mark * language')) := by
  refine h.mul (h'.mark mark) fun after c hc => ?_
  obtain rfl := Option.some.inj hc
  cases mark <;> decide

theorem blank (h : ReadAs text language) : ReadAs (' ' :: text) language := by
  intro offset after hafter
  obtain ⟨tokens, htokens, hrun⟩ := h (offset + Text.size [' ']) after hafter
  exact ⟨tokens, htokens, .gap (.of_piece (.blank rfl)) hrun⟩

theorem mul_blank (h : ReadAs text language) (h' : ReadAs text' language') :
    ReadAs (text ++ ' ' :: text') (language * language') := by
  refine h.mul h'.blank fun after c hc => ?_
  obtain rfl := Option.some.inj hc
  decide

end ReadAs

/-- The sequences that spell what is the same as an item but for where it lies. -/
def copies {α β : Type} (bare : α → β) (spell : α → Language Token) (item : α) : Language Token :=
  {tokens | ∃ other, bare other = bare item ∧ tokens ∈ spell other}

/-- A sequence spells a node that lies where the tokens do. -/
theorem exists_spanning {language : Language Token} {tokens : List Token}
    (hopens : Opens (fun _ => True) language) (h : tokens ∈ language) :
    ∃ span, tokens ∈ spanning span language := by
  obtain ⟨token, rest, rfl, -⟩ := hopens tokens h
  refine ⟨⟨token.span.start, ((token :: rest).getLast nofun).span.stop⟩, h, rfl, ?_⟩
  rw [List.getLast?_eq_some_getLast (List.cons_ne_nil _ _)]
  rfl

theorem ReadAs.enclosed {α β : Type} {bare : α → β} {spell : α → Language Token} {item : α}
    {text : List Char} (h : ReadAs text (copies bare spell item)) (opening closing : Mark) :
    ReadAs (opening.char :: (text ++ closing.char :: []))
      {tokens | ∃ other span, bare other = bare item ∧
        tokens ∈ spanning span (Spelling.enclosed opening (spell other) closing)} := by
  have hread := (h.mul_mark closing .one).mark opening
  simp only [mul_one, ← mul_assoc] at hread
  refine hread.mono ?_
  rintro _ ⟨_, ⟨first, hfirst, inner, ⟨other, hother, hinner⟩, rfl⟩, last, hlast, rfl⟩
  obtain ⟨span, hspan⟩ := exists_spanning (((Opens.lexeme trivial).mul _).mul _)
    (Language.append_mem_mul (Language.append_mem_mul hfirst hinner) hlast)
  exact ⟨other, span, hother, hspan⟩

/-- Items that are displayed with commas between them. -/
theorem ReadAs.cons_intercalate {text : String} {texts : List String}
    {language language' : Language Token} (h : ReadAs text.toList language)
    (h' : ReadAs (", ".intercalate texts).toList language') (hnil : texts = [] → [] ∈ language') :
    ReadAs (", ".intercalate (text :: texts)).toList (language * separator * language') := by
  cases texts with
  | nil =>
    rw [String.intercalate_singleton]
    refine h.mono fun tokens htokens => ?_
    exact ⟨tokens, ⟨tokens, htokens, [], .inl rfl, List.append_nil _⟩, [], hnil rfl,
      List.append_nil _⟩
  | cons next texts =>
    have htext : (", ".intercalate (text :: next :: texts)).toList =
        text.toList ++ ',' :: ' ' :: (", ".intercalate (next :: texts)).toList := by
      simp [String.intercalate_cons_cons]
    rw [htext]
    refine (h.mul_mark .comma h'.blank).mono ?_
    rintro _ ⟨first, hfirst, _, ⟨comma, hcomma, later, hlater, rfl⟩, rfl⟩
    exact ⟨_, ⟨first, hfirst, comma, .inr (.inl hcomma), rfl⟩, later, hlater,
      List.append_assoc ..⟩

end Spelling

theorem Identifier.readAs_text {identifier : Identifier} (h : IsIdentifier identifier.text) :
    ReadAs identifier.text.toList (copies bare spellings identifier) := by
  refine (ReadAs.lexeme h).mono ?_
  rintro _ ⟨span, rfl⟩
  exact ⟨⟨identifier.text, span⟩, rfl, ⟨span, rfl⟩, rfl, rfl⟩

theorem Name.readAs_dotted {head : Identifier} {tail : List Identifier}
    (h : ∀ identifier ∈ head :: tail, IsIdentifier identifier.text) :
    ReadAs (dotted (head :: tail)).toList {tokens | ∃ head' tail', head'.bare = head.bare ∧
      tail'.map Identifier.bare = tail.map Identifier.bare ∧
      tokens ∈ joined Identifier.spellings head' tail'} := by
  induction tail generalizing head with
  | nil =>
    have hdotted : (dotted [head]).toList = head.text.toList := by
      rw [dotted, List.map_singleton, String.intercalate_singleton]
    rw [hdotted]
    refine (Identifier.readAs_text (h head List.mem_cons_self)).mono ?_
    rintro tokens ⟨head', hhead, htokens⟩
    exact ⟨head', [], hhead, rfl, tokens, htokens, [], rfl, List.append_nil _⟩
  | cons next tail ih =>
    have hdotted : (dotted (head :: next :: tail)).toList =
        head.text.toList ++ '.' :: (dotted (next :: tail)).toList := by
      simp [dotted, String.intercalate_cons_cons]
    obtain ⟨hhead, hrest⟩ := List.forall_mem_cons.1 h
    rw [hdotted]
    refine ((Identifier.readAs_text hhead).mul_mark .dot (ih hrest)).mono ?_
    rintro _ ⟨first, ⟨head', hhead, hfirst⟩, _, ⟨dot, hdot, _, ⟨next', tail', hnext, htail,
      second, hsecond, later, hlater, rfl⟩, rfl⟩, rfl⟩
    refine ⟨head', next' :: tail', hhead, by rw [List.map_cons, hnext, htail, List.map_cons],
      first, hfirst, dot ++ second ++ later, ?_, by simp⟩
    rw [List.map_cons, List.prod_cons]
    exact ⟨_, ⟨dot, hdot, second, hsecond, rfl⟩, later, hlater, rfl⟩

theorem Name.readAs_text {name : Name} (h : name.IsPlain) :
    ReadAs name.text.toList (copies bare spellings name) := by
  refine (Name.readAs_dotted h).mono ?_
  rintro tokens ⟨head, tail, hhead, htail, htokens⟩
  obtain ⟨span, hspan⟩ := exists_spanning ((head.opens.mono fun _ _ => trivial).mul _) htokens
  refine ⟨⟨head, tail, span⟩, ?_, hspan⟩
  change (⟨head.bare, tail.map Identifier.bare, _⟩ : Name) = ⟨name.head.bare, _, _⟩
  rw [hhead, htail]
  rfl

theorem Builtin.spelling_keyword (type : Builtin) : type.keyword.spelling = type.text := by
  cases type <;> rfl

theorem TypeRef.readAs_text {type : TypeRef} (h : type.IsPlain) :
    ReadAs type.text.toList (copies bare spellings type) := by
  induction type with
  | builtin type span =>
    have hword := ReadAs.lexeme (.keyword type.keyword)
    rw [type.spelling_keyword] at hword
    refine hword.mono ?_
    rintro _ ⟨place, rfl⟩
    exact ⟨.builtin type place, rfl, ⟨place, rfl⟩, rfl, rfl⟩
  | list element span ih =>
    have htext : (list element span).text.toList =
        Keyword.list.spelling.toList ++ '<' :: (element.text.toList ++ '>' :: []) := by
      simp [text, Keyword.spelling]
    rw [htext]
    have hread := (ReadAs.lexeme (.keyword .list)).mul_mark .less
      ((ih h).mul_mark .greater .one)
    simp only [mul_one, ← mul_assoc] at hread
    refine hread.mono ?_
    rintro _ ⟨_, ⟨opening, hopening, inner, ⟨other, hother, hinner⟩, rfl⟩, closing, hclosing, rfl⟩
    -- the pieces make up a type, though not where the first one was written
    obtain ⟨place, hplace⟩ := exists_spanning ((((Opens.lexeme trivial).mul _).mul _).mul _)
      (Language.append_mem_mul (Language.append_mem_mul hopening hinner) hclosing)
    refine ⟨.list other place, ?_, hplace⟩
    change list other.bare _ = list element.bare _
    rw [hother]
    rfl
  | map key value span ihKey ihValue =>
    have htext : (map key value span).text.toList = Keyword.map.spelling.toList ++
        '<' :: (key.text.toList ++ ',' :: (value.text.toList ++ '>' :: [])) := by
      simp [text, Keyword.spelling]
    rw [htext]
    have hread := (ReadAs.lexeme (.keyword .map)).mul_mark .less
      ((ihKey h.1).mul_mark .comma ((ihValue h.2).mul_mark .greater .one))
    simp only [mul_one, ← mul_assoc] at hread
    refine hread.mono ?_
    rintro _ ⟨_, ⟨_, ⟨_, ⟨opening, hopening, _, ⟨key', hkey, hkeyTokens⟩, rfl⟩, comma, hcomma,
      rfl⟩, _, ⟨value', hvalue, hvalueTokens⟩, rfl⟩, closing, hclosing, rfl⟩
    obtain ⟨place, hplace⟩ := exists_spanning
      ((((((Opens.lexeme trivial).mul _).mul _).mul _).mul _).mul _)
      (Language.append_mem_mul (Language.append_mem_mul (Language.append_mem_mul
        (Language.append_mem_mul hopening hkeyTokens) hcomma) hvalueTokens) hclosing)
    refine ⟨.map key' value' place, ?_, hplace⟩
    change map key'.bare value'.bare _ = map key.bare value.bare _
    rw [hkey, hvalue]
    rfl
  | name name =>
    refine (Name.readAs_text h).mono ?_
    rintro tokens ⟨other, hother, htokens⟩
    exact ⟨.name other, congrArg TypeRef.name hother, htokens⟩

theorem Expr.mem_copies_cons {element : Expr} {elements : List Expr} {tokens : List Token}
    (h : tokens ∈ copies bare spellings element * separator *
      copies bareAll elementSpellings elements) :
    tokens ∈ copies bareAll elementSpellings (element :: elements) := by
  obtain ⟨_, ⟨first, ⟨other, hother, hfirst⟩, sep, hsep, rfl⟩, later, ⟨others, hothers, hlater⟩,
    rfl⟩ := h
  refine ⟨other :: others, ?_,
    Language.append_mem_mul (Language.append_mem_mul hfirst hsep) hlater⟩
  rw [bareAll, bareAll, moveAll, moveAll]
  exact congrArg₂ List.cons hother hothers

theorem Expr.mem_copies_entries_cons {key value : Expr} {entries : List (Expr × Expr)}
    {tokens : List Token}
    (h : tokens ∈ copies bare spellings key * mark .colon * copies bare spellings value *
      separator * copies bareEntries entrySpellings entries) :
    tokens ∈ copies bareEntries entrySpellings ((key, value) :: entries) := by
  obtain ⟨_, ⟨_, ⟨_, ⟨first, ⟨key', hkey, hfirst⟩, colon, hcolon, rfl⟩, second,
    ⟨value', hvalue, hsecond⟩, rfl⟩, sep, hsep, rfl⟩, later, ⟨others, hothers, hlater⟩, rfl⟩ := h
  refine ⟨(key', value') :: others, ?_, Language.append_mem_mul (Language.append_mem_mul
    (Language.append_mem_mul (Language.append_mem_mul hfirst hcolon) hsecond) hsep) hlater⟩
  rw [bareEntries, bareEntries, moveEntries, moveEntries]
  exact congrArg₂ List.cons (Prod.ext hkey hvalue) hothers

mutual

theorem Expr.readAs_text : ∀ expr : Expr, expr.IsPlain →
    ReadAs expr.text.toList (copies Expr.bare Expr.spellings expr)
  | .integer literal, h => by
    have hwritten := Lexeme.WrittenAs.integer h.1 h.2
    refine (ReadAs.lexeme hwritten).mono ?_
    rintro _ ⟨place, rfl⟩
    exact ⟨.integer ⟨literal.value, place⟩, rfl, ⟨place, rfl⟩, rfl, rfl⟩
  | .string literal, h => by
    have htext : (Expr.string literal).text.toList = '"' :: (literal.text.toList ++ ['"']) := by
      simp [Expr.text]
    rw [htext]
    refine (ReadAs.lexeme (.string h)).mono ?_
    rintro _ ⟨place, rfl⟩
    exact ⟨.string ⟨literal.text, place⟩, rfl, ⟨place, by rw [String.ofList_toList]⟩, rfl, rfl⟩
  | .bool value span, _ => by
    have hword := ReadAs.lexeme (.keyword (if value then .truth else .falsehood))
    have htext : (Expr.bool value span).text =
        (if value then Keyword.truth else .falsehood).spelling := by
      cases value <;> rfl
    rw [htext]
    refine hword.mono ?_
    rintro _ ⟨place, rfl⟩
    exact ⟨.bool value place, rfl, ⟨place, rfl⟩, rfl, rfl⟩
  | .list elements span, h => by
    have ih := Expr.readAs_texts elements h
    have htext : (Expr.list elements span).text.toList =
        '[' :: ((", ".intercalate (Expr.texts elements)).toList ++ ']' :: []) := by
      simp [Expr.text]
    rw [htext]
    refine (ih.enclosed .openBracket .closeBracket).mono ?_
    rintro tokens ⟨others, place, hothers, htokens⟩
    refine ⟨.list others place, ?_, htokens⟩
    rw [Expr.bare, Expr.bare, Expr.move, Expr.move]
    exact congrArg (Expr.list · _) hothers
  | .map entries span, h => by
    have ih := Expr.readAs_entryTexts entries h
    have htext : (Expr.map entries span).text.toList =
        '\x7b' :: ((", ".intercalate (Expr.entryTexts entries)).toList ++ '\x7d' :: []) := by
      simp [Expr.text]
    rw [htext]
    refine (ih.enclosed .openBrace .closeBrace).mono ?_
    rintro tokens ⟨others, place, hothers, htokens⟩
    refine ⟨.map others place, ?_, htokens⟩
    rw [Expr.bare, Expr.bare, Expr.move, Expr.move]
    exact congrArg (Expr.map · _) hothers
  | .name path, h => by
    refine (Name.readAs_text h).mono ?_
    rintro tokens ⟨other, hother, htokens⟩
    refine ⟨.name other, ?_, htokens⟩
    rw [Expr.bare, Expr.bare, Expr.move, Expr.move]
    exact congrArg Expr.name hother

theorem Expr.readAs_texts : ∀ elements : List Expr, Expr.AllPlain elements →
    ReadAs (", ".intercalate (Expr.texts elements)).toList
      (copies Expr.bareAll Expr.elementSpellings elements)
  | [], _ => ReadAs.one.mono fun tokens h => ⟨[], rfl, h⟩
  | element :: elements, h => by
    have ih := Expr.readAs_text element h.1
    have ih' := Expr.readAs_texts elements h.2
    rw [Expr.texts]
    refine (ih.cons_intercalate ih' fun hnil => ?_).mono fun _ => Expr.mem_copies_cons
    cases elements with
    | nil => exact ⟨[], rfl, rfl⟩
    | cons => cases hnil

theorem Expr.readAs_entryTexts : ∀ entries : List (Expr × Expr), Expr.EntriesPlain entries →
    ReadAs (", ".intercalate (Expr.entryTexts entries)).toList
      (copies Expr.bareEntries Expr.entrySpellings entries)
  | [], _ => ReadAs.one.mono fun tokens h => ⟨[], rfl, h⟩
  | (key, value) :: entries, h => by
    have hentry := (Expr.readAs_text key h.1).mul_mark .colon (Expr.readAs_text value h.2.1).blank
    have ih := Expr.readAs_entryTexts entries h.2.2
    have htext : (key.text ++ ": " ++ value.text).toList =
        key.text.toList ++ Mark.colon.char :: ' ' :: value.text.toList := by
      simp [Mark.char]
    rw [← htext, ← mul_assoc] at hentry
    rw [Expr.entryTexts]
    refine (hentry.cons_intercalate ih fun hnil => ?_).mono
      fun _ => Expr.mem_copies_entries_cons
    cases entries with
    | nil => exact ⟨[], rfl, rfl⟩
    | cons => cases hnil

end

/-! ### Constants that are written with displayed text -/

/-- A constant with its type and its value as they are displayed. -/
def constantText (type : TypeRef) (name : String) (value : Expr) : String :=
  "const " ++ type.text ++ " " ++ name ++ " = " ++ value.text

theorem readAs_constantText {type : TypeRef} {name : String} {value : Expr}
    (htype : type.IsPlain) (hname : IsIdentifier name) (hvalue : value.IsPlain) :
    ReadAs (constantText type name value).toList {tokens | ∃ decl : ConstantDecl,
      decl.type.bare = type.bare ∧ decl.name.text = name ∧ decl.value.bare = value.bare ∧
        tokens ∈ decl.spellings} := by
  have htext : (constantText type name value).toList = Keyword.const.spelling.toList ++
      ' ' :: (type.text.toList ++ ' ' :: (name.toList ++
        ' ' :: '=' :: ' ' :: value.text.toList)) := by
    simp [constantText, Keyword.spelling]
  rw [htext]
  have hread := (ReadAs.lexeme (.keyword .const)).mul_blank ((TypeRef.readAs_text htype).mul_blank
    ((ReadAs.lexeme hname).mul_blank (ReadAs.mark .equals (Expr.readAs_text value hvalue).blank)))
  simp only [← mul_assoc] at hread
  refine hread.mono ?_
  rintro _ ⟨_, ⟨_, ⟨_, ⟨word, hword, _, ⟨type', htype', htokens⟩, rfl⟩, _, ⟨place, rfl⟩, rfl⟩,
    equals, hequals, rfl⟩, _, ⟨value', hvalue', hlater⟩, rfl⟩
  have hidentifier : [⟨.identifier name, place⟩] ∈ (Identifier.mk name place).spellings :=
    ⟨⟨place, rfl⟩, rfl, rfl⟩
  obtain ⟨span, hspan⟩ := exists_spanning
    (((((Opens.lexeme trivial).mul _).mul _).mul _).mul _)
    (Language.append_mem_mul (Language.append_mem_mul (Language.append_mem_mul
      (Language.append_mem_mul hword htokens) hidentifier) hequals) hlater)
  exact ⟨⟨type', ⟨name, place⟩, value', span⟩, htype', rfl, hvalue', hspan⟩

namespace Source

/-- The text of a constant is parsed as one that has the type, the name and the value. -/
theorem exists_parse_constantText {type : TypeRef} {name : String} {value : Expr}
    (htype : type.IsPlain) (hname : IsIdentifier name) (hvalue : value.IsPlain) (path : String) :
    ∃ parsed decl, Source.parse ⟨path, constantText type name value⟩ = .ok parsed ∧
      parsed.document.namespaces = [] ∧ parsed.document.includes = [] ∧
      parsed.document.declarations = [.constant decl] ∧
      decl.type.bare = type.bare ∧ decl.name.text = name ∧ decl.value.bare = value.bare := by
  obtain ⟨tokens, ⟨decl, hdeclType, hdeclName, hdeclValue, htokens⟩, hrun⟩ :=
    readAs_constantText htype hname hvalue 0 [] nofun
  obtain ⟨parsed, hparsed, hnamespaces, hincludes, hdeclarations⟩ :=
    @parse_of_run_spelled ⟨path, constantText type name value⟩ tokens [.constant decl] hrun
      (mem_items_singleton htokens)
  exact ⟨parsed, decl, hparsed, hnamespaces, hincludes, hdeclarations, hdeclType, hdeclName,
    hdeclValue⟩

/-- What the same text is displayed for is the same. -/
theorem bare_eq_of_constantText_eq {type type' : TypeRef} {name : String} {value value' : Expr}
    (htype : type.IsPlain) (htype' : type'.IsPlain) (hname : IsIdentifier name)
    (hvalue : value.IsPlain) (hvalue' : value'.IsPlain)
    (htext : constantText type name value = constantText type' name value') :
    type.bare = type'.bare ∧ value.bare = value'.bare := by
  obtain ⟨parsed, decl, hparsed, -, -, hdeclarations, hdeclType, -, hdeclValue⟩ :=
    exists_parse_constantText htype hname hvalue ""
  obtain ⟨parsed', decl', hparsed', -, -, hdeclarations', hdeclType', -, hdeclValue'⟩ :=
    exists_parse_constantText htype' hname hvalue' ""
  rw [htext, hparsed'] at hparsed
  obtain rfl := Except.ok.inj hparsed
  obtain rfl := Declaration.constant.inj
    (List.singleton_inj.1 (hdeclarations.symm.trans hdeclarations'))
  exact ⟨hdeclType.symm.trans hdeclType', hdeclValue.symm.trans hdeclValue'⟩

/-- Displayed types and expressions parse back. A constant that is written with a type and a value
as they are displayed is parsed, and its type and value are those but for their places. They are
displayed in the same way again. So types that are displayed alike are the same but for their
places, and so are expressions. -/
theorem parse_constantText {type : TypeRef} {name : String} {value : Expr}
    (htype : type.IsPlain) (hname : IsIdentifier name) (hvalue : value.IsPlain) (path : String) :
    (∃ parsed decl, Source.parse ⟨path, constantText type name value⟩ = .ok parsed ∧
      parsed.document.namespaces = [] ∧ parsed.document.includes = [] ∧
      parsed.document.declarations = [.constant decl] ∧
      decl.type.bare = type.bare ∧ decl.name.text = name ∧ decl.value.bare = value.bare ∧
      decl.type.text = type.text ∧ decl.value.text = value.text) ∧
    (∀ other : TypeRef, other.IsPlain → other.text = type.text → other.bare = type.bare) ∧
    ∀ other : Expr, other.IsPlain → other.text = value.text → other.bare = value.bare := by
  refine ⟨?_, fun other hother htext => ?_, fun other hother htext => ?_⟩
  · obtain ⟨parsed, decl, hparsed, hnamespaces, hincludes, hdeclarations, hdeclType, hdeclName,
      hdeclValue⟩ := exists_parse_constantText htype hname hvalue path
    exact ⟨parsed, decl, hparsed, hnamespaces, hincludes, hdeclarations, hdeclType, hdeclName,
      hdeclValue, TypeRef.text_eq_of_bare hdeclType, Expr.text_eq_of_bare hdeclValue⟩
  · exact (bare_eq_of_constantText_eq hother htype hname hvalue hvalue
      (by rw [constantText, htext, ← constantText])).1
  · exact (bare_eq_of_constantText_eq htype htype hname hother hvalue
      (by rw [constantText, htext, ← constantText])).2

/-- The type `map<string,list<a.b>>`. -/
def nestedType : TypeRef :=
  .map (.builtin .string ⟨4, 10⟩)
    (.list (.name ⟨⟨"a", ⟨16, 17⟩⟩, [⟨"b", ⟨18, 19⟩⟩], ⟨16, 19⟩⟩) ⟨11, 20⟩) ⟨0, 21⟩

/-- A map with a string that looks like a comment, the least number and an empty list. -/
def nestedValue : Expr :=
  .map [(.string ⟨"/*\n", ⟨0, 0⟩⟩, .integer ⟨-9223372036854775808, ⟨0, 0⟩⟩),
    (.name ⟨⟨"c", ⟨0, 0⟩⟩, [], ⟨0, 0⟩⟩, .list [.list [] ⟨0, 0⟩, .bool true ⟨0, 0⟩] ⟨0, 0⟩)] ⟨0, 0⟩

theorem isIdentifier_singleton {c : Char} (h : Reading.isWordStart c)
    (hkeyword : Keyword.ofSpelling? (String.ofList [c]) = none) :
    IsIdentifier (String.ofList [c]) := by
  rw [IsIdentifier, String.toList_ofList]
  exact .identifier h (by simp) hkeyword

theorem isPlain_nestedType : nestedType.IsPlain := by
  refine ⟨trivial, ?_⟩
  change ∀ identifier ∈ [_, _], _
  simp only [List.forall_mem_cons, List.not_mem_nil, false_imp_iff, implies_true, and_true]
  exact ⟨isIdentifier_singleton (c := 'a') (by decide) (by decide),
    isIdentifier_singleton (c := 'b') (by decide) (by decide)⟩

theorem isPlain_nestedValue : nestedValue.IsPlain := by
  have hname : IsIdentifier "c" := isIdentifier_singleton (c := 'c') (by decide) (by decide)
  have hrange : IsInt64 (-9223372036854775808) := ⟨by decide, by decide⟩
  have hunquoted : '"' ∉ "/*\n".toList := by decide
  have hpath : Name.IsPlain ⟨⟨"c", ⟨0, 0⟩⟩, [], ⟨0, 0⟩⟩ := List.forall_mem_singleton.2 hname
  exact ⟨hunquoted, hrange, hpath, ⟨trivial, trivial, trivial⟩, trivial⟩

theorem parse_constantText_nested :
    constantText nestedType "X" nestedValue =
      "const map<string,list<a.b>> X = \x7b\"/*\n\": -9223372036854775808, c: [[], true]\x7d" ∧
      ∃ parsed decl, Source.parse ⟨"nested.thrift", constantText nestedType "X" nestedValue⟩ =
          .ok parsed ∧
        parsed.document.declarations = [.constant decl] ∧ decl.name.text = "X" ∧
        decl.type.bare = nestedType.bare ∧ decl.value.bare = nestedValue.bare := by
  have hname : IsIdentifier "X" := isIdentifier_singleton (c := 'X') (by decide) (by decide)
  obtain ⟨⟨parsed, decl, hparsed, -, -, hdeclarations, hdeclType, hdeclName, hdeclValue, -⟩, -⟩ :=
    parse_constantText isPlain_nestedType hname isPlain_nestedValue "nested.thrift"
  exact ⟨by decide, parsed, decl, hparsed, hdeclarations, hdeclName, hdeclType, hdeclValue⟩

end Source
end Idl
