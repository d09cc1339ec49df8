import Idl.Proofs.ParserSteps

/-!
# What the parser reads

Each parsing function, started with at least as much fuel as there are tokens left, either blames
a token or takes off a spelling of the construct that it gives back.
-/
namespace Idl

theorem Lexeme.eq_of_kind_keyword {lexeme : Lexeme} {word : Keyword}
    (h : lexeme.kind = .keyword word) : lexeme = .keyword word := by
  cases lexeme <;> cases h
  rfl

theorem Lexeme.eq_of_kind_mark {lexeme : Lexeme} {mark : Mark} (h : lexeme.kind = .mark mark) :
    lexeme = .mark mark := by
  cases lexeme <;> cases h
  rfl

namespace Parser
open Spelling (lexeme keyword mark items enclosed joined spanning)

variable {α β : Type} {input : List Token} {s : ParserState}

/-- With at most so many tokens left, the parser blames one of them or takes off a spelling of its
result. -/
def Reads (input : List Token) (bound : Nat) (parser : Parser α) (spell : α → Language Token) :
    Prop :=
  ∀ s : ParserState, s.Ready input → s.tokens.length ≤ bound →
    Ensures (Blames input) parser s fun result next => s.Consumes input next (spell result)

theorem Reads.mono {bound bound' : Nat} {parser : Parser α} {spell : α → Language Token}
    (h : Reads input bound parser spell) (hle : bound' ≤ bound) :
    Reads input bound' parser spell :=
  fun s hs hlength => h s hs (hlength.trans hle)

theorem ensures_advance_keyword (hs : s.Ready input) {word : Keyword}
    (h : s.current.kind = .keyword word) :
    Ensures (Blames input) advance s fun _ next => s.Consumes input next (keyword word) := by
  have hlexeme := Lexeme.eq_of_kind_keyword h
  have hadvance := ensures_advance hs (hlexeme ▸ Lexeme.noConfusion)
  rwa [hlexeme] at hadvance

theorem ensures_advance_mark (hs : s.Ready input) {sign : Mark}
    (h : s.current.kind = .mark sign) :
    Ensures (Blames input) advance s fun _ next => s.Consumes input next (mark sign) := by
  have hlexeme := Lexeme.eq_of_kind_mark h
  have hadvance := ensures_advance hs (hlexeme ▸ Lexeme.noConfusion)
  rwa [hlexeme] at hadvance

/-- The kind is that of a keyword or mark, which it determines. -/
inductive Spells : TokenKind → Language Token → Prop
  | keyword (word : Keyword) : Spells (.keyword word) (Spelling.keyword word)
  | mark (sign : Mark) : Spells (.mark sign) (Spelling.mark sign)

theorem ensures_accept (hs : s.Ready input) {wanted : TokenKind} {spelling : Language Token}
    (hwanted : Spells wanted spelling) :
    Ensures (Blames input) (accept wanted) s fun taken next =>
      taken = true ∧ s.Consumes input next spelling ∨ taken = false ∧ next = s := by
  unfold accept
  refine .kind ?_
  split
  · next h =>
    cases hwanted with
    | keyword word => exact (ensures_advance_keyword hs h).bind fun _ _ h => .pure (.inl ⟨rfl, h⟩)
    | mark sign => exact (ensures_advance_mark hs h).bind fun _ _ h => .pure (.inl ⟨rfl, h⟩)
  · exact .pure (.inr ⟨rfl, rfl⟩)

theorem ensures_expect (hs : s.Ready input) {wanted : TokenKind} {spelling : Language Token}
    (hwanted : Spells wanted spelling) (what : String) :
    Ensures (Blames input) (expect wanted what) s fun _ next => s.Consumes input next spelling := by
  unfold expect
  refine (ensures_accept hs hwanted).bind fun taken next h => ?_
  rcases h with ⟨rfl, h⟩ | ⟨rfl, rfl⟩
  · exact .pure h
  · exact ensures_expected hs what

theorem ensures_separator (hs : s.Ready input) :
    Ensures (Blames input) separator s fun _ next =>
      s.Consumes input next Spelling.separator := by
  unfold separator
  refine .kind ?_
  split
  · next h =>
    rcases List.mem_pair.1 h with h | h
    · exact (ensures_advance_mark hs h).mono fun _ _ h => h.mono fun _ h => .inr (.inl h)
    · exact (ensures_advance_mark hs h).mono fun _ _ h => h.mono fun _ h => .inr (.inr h)
  · exact .pure ((ParserState.Consumes.refl hs).mono fun _ h => .inl h)

theorem ensures_clause (hs : s.Ready input) {wanted : TokenKind} {spelling : Language Token}
    (hwanted : Spells wanted spelling) {bound : Nat} (hbound : s.tokens.length ≤ bound)
    {item : Parser α} {spell : α → Language Token} (hitem : Reads input bound item spell) :
    Ensures (Blames input) (clause wanted item) s fun result next =>
      s.Consumes input next (result.elim 1 fun result => spelling * spell result) := by
  unfold clause
  refine (ensures_accept hs hwanted).bind fun taken next h => ?_
  rcases h with ⟨rfl, h⟩ | ⟨rfl, rfl⟩
  · refine (hitem next h.ready (h.length_le.trans hbound)).map fun result last hlast => ?_
    exact h.mul hlast
  · exact .pure (.refl hs)

/-- A leaf is made of the token that is next. -/
theorem ensures_leaf (hs : s.Ready input) (hne : s.current.lexeme ≠ .finish)
    (make : Span → α) :
    Ensures (Blames input)
      (do
        advance
        return make (← node s.current.span.start)) s fun result next =>
      ∃ span, result = make span ∧
        s.Consumes input next (spanning span (lexeme s.current.lexeme)) := by
  refine (ensures_advance hs hne).bind fun _ next h => .node (.pure ?_)
  exact ⟨_, rfl, h.node (h.length_lt (Spelling.nil_notMem_lexeme _)) _⟩

theorem reads_identifier (bound : Nat) (what : String) :
    Reads input bound (identifier what) Identifier.spellings := by
  intro s hs _
  unfold identifier
  refine .current ?_
  split
  · next text h =>
    refine (ensures_leaf hs (h ▸ Lexeme.noConfusion) _).mono ?_
    rintro _ next ⟨span, rfl, hnext⟩
    rwa [h] at hnext
  · exact ensures_expected hs what

theorem reads_integerLiteral (bound : Nat) (what : String) :
    Reads input bound (integerLiteral what) IntegerLiteral.spellings := by
  intro s hs _
  unfold integerLiteral
  refine .current ?_
  split
  · next value h =>
    refine (ensures_leaf hs (h ▸ Lexeme.noConfusion) _).mono ?_
    rintro _ next ⟨span, rfl, hnext⟩
    rwa [h] at hnext
  · exact ensures_expected hs what

theorem reads_stringLiteral (bound : Nat) (what : String) :
    Reads input bound (stringLiteral what) StringLiteral.spellings := by
  intro s hs _
  unfold stringLiteral
  refine .current ?_
  split
  · next text h =>
    refine (ensures_leaf hs (h ▸ Lexeme.noConfusion) _).mono ?_
    rintro _ next ⟨span, rfl, hnext⟩
    rwa [h] at hnext
  · exact ensures_expected hs what

/-- Every item takes at least one token, so the fuel lasts for all of them. -/
theorem reads_terminated {bound : Nat} {item : Parser α} {spell : α → Language Token}
    (hitem : Reads input bound item spell) (hnil : ∀ result, [] ∉ spell result) (closing : Mark)
    (what : String) :
    Reads input bound (terminated item closing what bound) fun list =>
      items spell list * mark closing := by
  suffices h : ∀ fuel s, s.Ready input → s.tokens.length ≤ fuel → s.tokens.length ≤ bound →
      Ensures (Blames input) (terminated item closing what fuel) s fun list next =>
        s.Consumes input next (items spell list * mark closing) from
    fun s hs hlength => h bound s hs hlength hlength
  intro fuel
  induction fuel with
  | zero =>
    intro s hs hfuel
    have := hs.length_pos
    omega
  | succ fuel ih =>
    intro s hs hfuel hbound
    rw [terminated]
    refine (ensures_accept hs (.mark closing)).bind fun taken next h => ?_
    rcases h with ⟨rfl, h⟩ | ⟨rfl, rfl⟩
    · exact .pure (h.mono fun tokens htokens => ⟨[], rfl, tokens, htokens, rfl⟩)
    refine .kind ?_
    split
    · have hfail : Ensures (Blames input) (expected what : Parser Unit) next fun _ _ => False :=
        ensures_expected hs what
      exact hfail.bind fun _ _ h => h.elim
    refine (hitem next hs hbound).bind fun first s1 h1 => ?_
    refine (ensures_separator h1.ready).bind fun _ s2 h2 => ?_
    have hlt := h1.length_lt (hnil first)
    have hle := h2.length_le
    refine (ih s2 h2.ready (by omega) (by omega)).bind fun rest s3 h3 => .pure ?_
    rw [items, List.map_cons, List.prod_cons, mul_assoc]
    exact (h1.mul h2).mul h3

theorem reads_dotted {bound : Nat} {item : Parser α} {spell : α → Language Token}
    (hitem : Reads input bound item spell) :
    Reads input bound (dotted item bound) fun list =>
      (list.map fun next => mark .dot * spell next).prod := by
  suffices h : ∀ fuel s, s.Ready input → s.tokens.length ≤ fuel → s.tokens.length ≤ bound →
      Ensures (Blames input) (dotted item fuel) s fun list next =>
        s.Consumes input next (list.map fun next => mark .dot * spell next).prod from
    fun s hs hlength => h bound s hs hlength hlength
  intro fuel
  induction fuel with
  | zero =>
    intro s hs hfuel
    have := hs.length_pos
    omega
  | succ fuel ih =>
    intro s hs hfuel hbound
    rw [dotted]
    refine (ensures_clause hs (.mark .dot) hbound hitem).bind fun first s1 h1 => ?_
    cases first with
    | none => exact .pure h1
    | some first =>
      have hlt : s1.tokens.length < s.tokens.length := by
        apply h1.length_lt
        rintro ⟨tokens, htokens, _, -, happend⟩
        exact Spelling.nil_notMem_lexeme _ ((List.append_eq_nil_iff.1 happend).1 ▸ htokens)
      refine (ih s1 h1.ready (by omega) (by omega)).bind fun rest s2 h2 => .pure ?_
      rw [List.map_cons, List.prod_cons]
      exact h1.mul h2

/-- The first identifier of a name takes no fuel. -/
theorem reads_name (fuel : Nat) : Reads input (fuel + 1) (name fuel) Name.spellings := by
  intro s hs hfuel
  unfold name
  refine .position ?_
  refine (reads_identifier _ _ s hs hfuel).bind fun head s1 h1 => ?_
  have hlt := h1.length_lt (Spelling.nil_notMem_spanning _ _)
  refine (reads_dotted (reads_identifier fuel _) s1 h1.ready (by omega)).bind fun tail s2 h2 => ?_
  have hle := h2.length_le
  exact .node (.pure ((h1.mul h2).node (by omega) _))

theorem keyword_of_builtin? {word : Keyword} {type : Builtin} (h : builtin? word = some type) :
    type.keyword = word := by
  cases word <;> cases h <;> rfl

theorem reads_typeRef (fuel : Nat) : Reads input fuel (typeRef fuel) TypeRef.spellings := by
  induction fuel with
  | zero =>
    intro s hs hfuel
    have := hs.length_pos
    omega
  | succ fuel ih =>
    intro s hs hfuel
    rw [typeRef]
    refine .position (.kind ?_)
    split
    · next hkind =>
      refine (ensures_advance_keyword hs hkind).bind fun _ s1 h1 => ?_
      -- the keyword takes a token, so the fuel is enough for the types inside
      have hlt := h1.length_lt (Spelling.nil_notMem_lexeme _)
      refine (ensures_expect h1.ready (.mark .less) _).bind fun _ s2 h2 => ?_
      have hle := h2.length_le
      refine (ih s2 h2.ready (by omega)).bind fun element s3 h3 => ?_
      have hle' := h3.length_le
      refine (ensures_expect h3.ready (.mark .greater) _).bind fun _ s4 h4 => ?_
      have hle'' := h4.length_le
      exact .node (.pure ((((h1.mul h2).mul h3).mul h4).node (by omega) _))
    · next hkind =>
      refine (ensures_advance_keyword hs hkind).bind fun _ s1 h1 => ?_
      have hlt := h1.length_lt (Spelling.nil_notMem_lexeme _)
      refine (ensures_expect h1.ready (.mark .less) _).bind fun _ s2 h2 => ?_
      have hle := h2.length_le
      refine (ih s2 h2.ready (by omega)).bind fun key s3 h3 => ?_
      have hkey := h3.length_le
      refine (ensures_expect h3.ready (.mark .comma) _).bind fun _ s4 h4 => ?_
      have hcomma := h4.length_le
      refine (ih s4 h4.ready (by omega)).bind fun value s5 h5 => ?_
      have hvalue := h5.length_le
      refine (ensures_expect h5.ready (.mark .greater) _).bind fun _ s6 h6 => ?_
      have hgreater := h6.length_le
      exact .node (.pure ((((((h1.mul h2).mul h3).mul h4).mul h5).mul h6).node (by omega) _))
    · next word _ _ hkind =>
      split
      · next type htype =>
        obtain rfl := keyword_of_builtin? htype
        refine (ensures_advance_keyword hs hkind).bind fun _ s1 h1 => ?_
        have hlt := h1.length_lt (Spelling.nil_notMem_lexeme _)
        exact .node (.pure (h1.node hlt _))
      · exact ensures_expected hs _
    · exact (reads_name fuel s hs hfuel).bind fun path _ h => .pure h
    · exact ensures_expected hs _

theorem TypeRef.nil_notMem_spellings (type : TypeRef) : [] ∉ type.spellings := by
  cases type <;> exact Spelling.nil_notMem_spanning _ _

theorem Expr.nil_notMem_spellings (expr : Expr) : [] ∉ expr.spellings := by
  cases expr <;> exact Spelling.nil_notMem_spanning _ _

theorem Expr.elementSpellings_eq (elements : List Expr) :
    Expr.elementSpellings elements = items Expr.spellings elements := by
  induction elements with
  | nil => rfl
  | cons element elements ih =>
    rw [Expr.elementSpellings, ih, items, items, List.map_cons, List.prod_cons]

/-- The key and the value of an entry, with a colon between them. -/
def entrySpellings (entry : Expr × Expr) : Language Token :=
  entry.1.spellings * mark .colon * entry.2.spellings

theorem Expr.entrySpellings_eq (entries : List (Expr × Expr)) :
    Expr.entrySpellings entries = items entrySpellings entries := by
  induction entries with
  | nil => rfl
  | cons entry entries ih =>
    obtain ⟨key, value⟩ := entry
    rw [Expr.entrySpellings, ih, items, items, List.map_cons, List.prod_cons]
    rfl

theorem nil_notMem_entrySpellings (entry : Expr × Expr) : [] ∉ entrySpellings entry := by
  rintro ⟨_, -, value, hvalue, happend⟩
  exact Expr.nil_notMem_spellings entry.2 ((List.append_eq_nil_iff.1 happend).2 ▸ hvalue)

theorem reads_mapEntry {bound : Nat} {expr : Parser Expr}
    (hexpr : Reads input bound expr Expr.spellings) :
    Reads input bound (mapEntry expr) entrySpellings := by
  intro s hs hbound
  unfold mapEntry
  refine (hexpr s hs hbound).bind fun key s1 h1 => ?_
  have hkey := h1.length_le
  refine (ensures_expect h1.ready (.mark .colon) _).bind fun _ s2 h2 => ?_
  have hcolon := h2.length_le
  refine (hexpr s2 h2.ready (by omega)).bind fun value s3 h3 => .pure ?_
  exact (h1.mul h2).mul h3

theorem reads_expr (fuel : Nat) : Reads input fuel (expr fuel) Expr.spellings := by
  induction fuel with
  | zero =>
    intro s hs hfuel
    have := hs.length_pos
    omega
  | succ fuel ih =>
    intro s hs hfuel
    rw [expr]
    refine .position (.kind ?_)
    split
    · exact (reads_integerLiteral _ _ s hs hfuel).bind fun literal _ h => .pure h
    · exact (reads_stringLiteral _ _ s hs hfuel).bind fun literal _ h => .pure h
    · next hkind =>
      refine (ensures_advance_keyword hs hkind).bind fun _ s1 h1 => ?_
      exact .node (.pure (h1.node (h1.length_lt (Spelling.nil_notMem_lexeme _)) _))
    · next hkind =>
      refine (ensures_advance_keyword hs hkind).bind fun _ s1 h1 => ?_
      exact .node (.pure (h1.node (h1.length_lt (Spelling.nil_notMem_lexeme _)) _))
    · next hkind =>
      refine (ensures_advance_mark hs hkind).bind fun _ s1 h1 => ?_
      have hlt := h1.length_lt (Spelling.nil_notMem_lexeme _)
      refine (reads_terminated ih Expr.nil_notMem_spellings _ _ s1 h1.ready (by omega)).bind
        fun elements s2 h2 => ?_
      have hle := h2.length_le
      have h := (h1.mul h2).node (by omega) (s2.nodes + 1)
      rw [← mul_assoc, ← Expr.elementSpellings_eq] at h
      exact .node (.pure h)
    · next hkind =>
      refine (ensures_advance_mark hs hkind).bind fun _ s1 h1 => ?_
      have hlt := h1.length_lt (Spelling.nil_notMem_lexeme _)
      refine (reads_terminated (reads_mapEntry ih) nil_notMem_entrySpellings _ _ s1 h1.ready
        (by omega)).bind fun entries s2 h2 => ?_
      have hle := h2.length_le
      have h := (h1.mul h2).node (by omega) (s2.nodes + 1)
      rw [← mul_assoc, ← Expr.entrySpellings_eq] at h
      exact .node (.pure h)
    · exact (reads_name fuel s hs hfuel).bind fun path _ h => .pure h
    · exact ensures_expected hs _

theorem reads_order (bound : Nat) :
    Reads input bound order IntegerLiteral.orderSpellings := by
  intro s hs hbound
  unfold order
  refine .kind ?_
  split
  · refine (reads_integerLiteral bound _ s hs hbound).bind fun literal s1 h1 => ?_
    refine (ensures_expect h1.ready (.mark .colon) _).bind fun _ s2 h2 => .pure ?_
    exact h1.mul h2
  · exact .pure (.refl hs)

theorem reads_enumEntry (bound : Nat) : Reads input bound enumEntry EnumEntry.spellings := by
  intro s hs hbound
  unfold enumEntry
  refine .position ?_
  refine (reads_identifier bound _ s hs hbound).bind fun name s1 h1 => ?_
  have hlt := h1.length_lt (Spelling.nil_notMem_spanning _ _)
  refine (ensures_clause h1.ready (.mark .equals) (by omega)
    (reads_integerLiteral bound _)).bind fun value s2 h2 => ?_
  have hle := h2.length_le
  exact .node (.pure ((h1.mul h2).node (by omega) _))

theorem reads_requiredness (bound : Nat) :
    Reads input bound requiredness fun result =>
      result.elim 1 fun requiredness => keyword requiredness.keyword := by
  intro s hs hbound
  unfold requiredness
  refine (ensures_accept hs (.keyword .required)).bind fun taken s1 h1 => ?_
  rcases h1 with ⟨rfl, h1⟩ | ⟨rfl, rfl⟩
  · exact .pure h1
  refine (ensures_accept hs (.keyword .optional)).bind fun taken s1 h1 => ?_
  rcases h1 with ⟨rfl, h1⟩ | ⟨rfl, rfl⟩
  · exact .pure h1
  · exact .pure (.refl hs)

theorem reads_field (fuel : Nat) : Reads input fuel (field fuel) Field.spellings := by
  intro s hs hfuel
  unfold field
  refine .position ?_
  refine (reads_order fuel s hs hfuel).bind fun order s1 h1 => ?_
  have horder := h1.length_le
  refine (reads_requiredness fuel s1 h1.ready (by omega)).bind fun requiredness s2 h2 => ?_
  have hrequiredness := h2.length_le
  refine (reads_typeRef fuel s2 h2.ready (by omega)).bind fun type s3 h3 => ?_
  have htype := h3.length_lt (TypeRef.nil_notMem_spellings type)
  refine (reads_identifier fuel _ s3 h3.ready (by omega)).bind fun name s4 h4 => ?_
  have hname := h4.length_le
  refine (ensures_clause h4.ready (.mark .equals) (by omega) (reads_expr fuel)).bind
    fun default s5 h5 => ?_
  have hdefault := h5.length_le
  exact .node (.pure (((((h1.mul h2).mul h3).mul h4).mul h5).node (by omega) _))

theorem reads_argument (fuel : Nat) : Reads input fuel (argument fuel) Argument.spellings := by
  intro s hs hfuel
  unfold argument
  refine .position ?_
  refine (reads_order fuel s hs hfuel).bind fun order s1 h1 => ?_
  have horder := h1.length_le
  refine (reads_typeRef fuel s1 h1.ready (by omega)).bind fun type s2 h2 => ?_
  have htype := h2.length_lt (TypeRef.nil_notMem_spellings type)
  refine (reads_identifier fuel _ s2 h2.ready (by omega)).bind fun name s3 h3 => ?_
  have hname := h3.length_le
  exact .node (.pure (((h1.mul h2).mul h3).node (by omega) _))

theorem reads_enclosed {bound : Nat} {item : Parser α} {spell : α → Language Token}
    (hitem : Reads input bound item spell) (hnil : ∀ result, [] ∉ spell result)
    (opening closing : Mark) (what what' : String) :
    Reads input bound
      (do
        expect (.mark opening) what
        terminated item closing what' bound)
      fun list => enclosed opening (items spell list) closing := by
  intro s hs hbound
  refine (ensures_expect hs (.mark opening) what).bind fun _ s1 h1 => ?_
  have hle := h1.length_le
  refine (reads_terminated hitem hnil closing what' s1 h1.ready (by omega)).mono
    fun list s2 h2 => ?_
  change s.Consumes input s2 (mark opening * items spell list * mark closing)
  rw [mul_assoc]
  exact h1.mul h2

/-- The closing mark of what a declaration encloses is the last token of the declaration. -/
theorem ensures_enclosed {bound : Nat} (hs : s.Ready input) (hbound : s.tokens.length ≤ bound)
    {item : Parser α} {spell : α → Language Token} (hitem : Reads input bound item spell)
    (hnil : ∀ result, [] ∉ spell result) (opening closing : Mark) (what what' : String)
    {next : List α → Parser β} {post : β → ParserState → Prop}
    (hnext : ∀ list last, s.Consumes input last (enclosed opening (items spell list) closing) →
      Ensures (Blames input) (next list) last post) :
    Ensures (Blames input)
      (do
        expect (.mark opening) what
        let list ← terminated item closing what' bound
        next list) s post := by
  have h := (reads_enclosed hitem hnil opening closing what what' s hs hbound).bind hnext
  rwa [bind_assoc] at h

theorem reads_method (fuel : Nat) : Reads input fuel (method fuel) Method.spellings := by
  intro s hs hfuel
  unfold method
  refine .position ?_
  refine (ensures_accept hs (.keyword .oneway)).bind fun oneway s1 h1 => ?_
  replace h1 : s.Consumes input s1 (if oneway then keyword .oneway else 1) := by
    rcases h1 with ⟨rfl, h1⟩ | ⟨rfl, rfl⟩
    · exact h1
    · exact .refl hs
  have honeway := h1.length_le
  refine (reads_typeRef fuel s1 h1.ready (by omega)).bind fun returns s2 h2 => ?_
  have hreturns := h2.length_lt (TypeRef.nil_notMem_spellings returns)
  refine (reads_identifier fuel _ s2 h2.ready (by omega)).bind fun name s3 h3 => ?_
  have hname := h3.length_le
  refine ensures_enclosed h3.ready (by omega) (reads_argument fuel)
    (fun _ => Spelling.nil_notMem_spanning _ _) _ _ _ _ fun arguments s4 h4 => ?_
  have harguments := h4.length_le
  refine (ensures_clause h4.ready (.keyword .throws) (by omega)
    (reads_enclosed (reads_argument fuel) (fun _ => Spelling.nil_notMem_spanning _ _)
      .openParen .closeParen _ _)).bind
      fun throws s5 h5 => ?_
  have hthrows := h5.length_le
  refine .node (.pure (((((h1.mul h2).mul h3).mul h4).mul (h5.mono ?_)).node (by omega) _))
  intro tokens htokens
  cases throws with
  | none => exact .inl htokens
  | some throws => exact .inr htokens

theorem reads_constantDecl (fuel : Nat) (hs : s.Ready input) (hfuel : s.tokens.length ≤ fuel)
    (hkind : s.current.kind = .keyword .const) :
    Ensures (Blames input) (constantDecl fuel) s fun decl next =>
      s.Consumes input next decl.spellings := by
  unfold constantDecl
  refine .position ?_
  refine (ensures_advance_keyword hs hkind).bind fun _ s1 h1 => ?_
  have hkeyword := h1.length_lt (Spelling.nil_notMem_lexeme _)
  refine (reads_typeRef fuel s1 h1.ready (by omega)).bind fun type s2 h2 => ?_
  have htype := h2.length_le
  refine (reads_identifier fuel _ s2 h2.ready (by omega)).bind fun name s3 h3 => ?_
  have hname := h3.length_le
  refine (ensures_expect h3.ready (.mark .equals) _).bind fun _ s4 h4 => ?_
  have hequals := h4.length_le
  refine (reads_expr fuel s4 h4.ready (by omega)).bind fun value s5 h5 => ?_
  have hvalue := h5.length_le
  exact .node (.pure (((((h1.mul h2).mul h3).mul h4).mul h5).node (by omega) _))

theorem reads_typedefDecl (fuel : Nat) (hs : s.Ready input) (hfuel : s.tokens.length ≤ fuel)
    (hkind : s.current.kind = .keyword .typedef) :
    Ensures (Blames input) (typedefDecl fuel) s fun decl next =>
      s.Consumes input next decl.spellings := by
  unfold typedefDecl
  refine .position ?_
  refine (ensures_advance_keyword hs hkind).bind fun _ s1 h1 => ?_
  have hkeyword := h1.length_lt (Spelling.nil_notMem_lexeme _)
  refine (reads_typeRef fuel s1 h1.ready (by omega)).bind fun type s2 h2 => ?_
  have htype := h2.length_le
  refine (reads_identifier fuel _ s2 h2.ready (by omega)).bind fun name s3 h3 => ?_
  have hname := h3.length_le
  exact .node (.pure (((h1.mul h2).mul h3).node (by omega) _))

theorem reads_enumDecl (fuel : Nat) (hs : s.Ready input) (hfuel : s.tokens.length ≤ fuel)
    (hkind : s.current.kind = .keyword .enum) :
    Ensures (Blames input) (enumDecl fuel) s fun decl next =>
      s.Consumes input next decl.spellings := by
  unfold enumDecl
  refine .position ?_
  refine (ensures_advance_keyword hs hkind).bind fun _ s1 h1 => ?_
  have hkeyword := h1.length_lt (Spelling.nil_notMem_lexeme _)
  refine (reads_identifier fuel _ s1 h1.ready (by omega)).bind fun name s2 h2 => ?_
  have hname := h2.length_le
  refine ensures_enclosed h2.ready (by omega) (reads_enumEntry fuel)
    (fun _ => Spelling.nil_notMem_spanning _ _) _ _ _ _ fun entries s3 h3 => ?_
  have hentries := h3.length_le
  exact .node (.pure (((h1.mul h2).mul h3).node (by omega) _))

theorem reads_structDecl (kind : StructKind) (fuel : Nat) (hs : s.Ready input)
    (hfuel : s.tokens.length ≤ fuel) (hkind : s.current.kind = .keyword kind.keyword) :
    Ensures (Blames input) (structDecl kind fuel) s fun decl next =>
      s.Consumes input next decl.spellings := by
  unfold structDecl
  refine .position ?_
  refine (ensures_advance_keyword hs hkind).bind fun _ s1 h1 => ?_
  have hkeyword := h1.length_lt (Spelling.nil_notMem_lexeme _)
  refine (reads_identifier fuel _ s1 h1.ready (by omega)).bind fun name s2 h2 => ?_
  have hname := h2.length_le
  refine ensures_enclosed h2.ready (by omega) (reads_field fuel)
    (fun _ => Spelling.nil_notMem_spanning _ _) _ _ _ _ fun fields s3 h3 => ?_
  have hfields := h3.length_le
  exact .node (.pure (((h1.mul h2).mul h3).node (by omega) _))

theorem reads_serviceDecl (fuel : Nat) (hs : s.Ready input) (hfuel : s.tokens.length ≤ fuel)
    (hkind : s.current.kind = .keyword .service) :
    Ensures (Blames input) (serviceDecl fuel) s fun decl next =>
      s.Consumes input next decl.spellings := by
  unfold serviceDecl
  refine .position ?_
  refine (ensures_advance_keyword hs hkind).bind fun _ s1 h1 => ?_
  have hkeyword := h1.length_lt (Spelling.nil_notMem_lexeme _)
  refine (reads_identifier fuel _ s1 h1.ready (by omega)).bind fun name s2 h2 => ?_
  have hname := h2.length_le
  refine (ensures_clause h2.ready (.keyword .extending) (by omega)
    ((reads_name fuel).mono (Nat.le_succ fuel))).bind fun parent s3 h3 => ?_
  have hparent := h3.length_le
  refine ensures_enclosed h3.ready (by omega) (reads_method fuel)
    (fun _ => Spelling.nil_notMem_spanning _ _) _ _ _ _ fun methods s4 h4 => ?_
  have hmethods := h4.length_le
  exact .node (.pure ((((h1.mul h2).mul h3).mul h4).node (by omega) _))

theorem reads_declaration (fuel : Nat) :
    Reads input fuel (declaration fuel) Declaration.spellings := by
  intro s hs hfuel
  unfold declaration
  refine .kind ?_
  split
  · next hkind => exact (reads_constantDecl fuel hs hfuel hkind).map fun _ _ h => h
  · next hkind => exact (reads_typedefDecl fuel hs hfuel hkind).map fun _ _ h => h
  · next hkind => exact (reads_enumDecl fuel hs hfuel hkind).map fun _ _ h => h
  · next hkind => exact (reads_structDecl .struct fuel hs hfuel hkind).map fun _ _ h => h
  · next hkind => exact (reads_structDecl .exception fuel hs hfuel hkind).map fun _ _ h => h
  · next hkind => exact (reads_serviceDecl fuel hs hfuel hkind).map fun _ _ h => h
  · exact ensures_fail hs rfl
  · exact ensures_fail hs rfl
  · exact ensures_expected hs _

/-- A part of a package: not the star that stands for all languages, and without dots. -/
def IsSegment (word : String) : Prop :=
  word ≠ "*" ∧ '.' ∉ word.toList

theorem isSegment_of_isProper {word : String} (h : (Lexeme.identifier word).IsProper) :
    IsSegment word := by
  obtain ⟨-, hparts⟩ := h word rfl
  constructor
  · rintro rfl
    exact absurd (hparts '*' (by decide)) (by decide)
  · exact fun hdot => absurd (hparts '.' hdot) (by decide)

theorem isSegment_spelling (word : Keyword) : IsSegment word.spelling := by
  unfold IsSegment
  cases word <;> decide

/-- The spellings of a word that is a part of a package. -/
def segmentSpellings (word : String) : Language Token :=
  {tokens | tokens ∈ lexeme (Reading.wordLexeme word) ∧ IsSegment word}

theorem reads_namespaceSegment (hinput : ∀ token ∈ input, token.lexeme.IsProper) (bound : Nat)
    (what : String) : Reads input bound (namespaceSegment what) segmentSpellings := by
  intro s hs _
  unfold namespaceSegment
  refine .current ?_
  split
  · next word hword =>
    refine (ensures_advance hs (hword ▸ Lexeme.noConfusion)).bind fun _ s1 h1 => .pure ?_
    have hproper := hinput _ hs.current_mem
    rw [hword] at h1 hproper
    refine h1.mono fun tokens htokens => ⟨?_, isSegment_of_isProper hproper⟩
    rwa [Reading.wordLexeme_of_isProper hproper]
  · next word hword =>
    refine (ensures_advance hs (hword ▸ Lexeme.noConfusion)).bind fun _ s1 h1 => .pure ?_
    rw [hword] at h1
    refine h1.mono fun tokens htokens => ⟨?_, isSegment_spelling word⟩
    rwa [Reading.wordLexeme, Keyword.ofSpelling?_spelling]
  · exact ensures_expected hs what

theorem reads_namespaceScope (hinput : ∀ token ∈ input, token.lexeme.IsProper) (bound : Nat) :
    Reads input bound namespaceScope fun scope =>
      lexeme (if scope = "*" then .mark .star else Reading.wordLexeme scope) := by
  intro s hs hbound
  unfold namespaceScope
  refine (ensures_accept hs (.mark .star)).bind fun taken s1 h1 => ?_
  rcases h1 with ⟨rfl, h1⟩ | ⟨rfl, rfl⟩
  · exact .pure h1
  · refine (reads_namespaceSegment hinput bound _ s1 hs hbound).mono fun word s2 h2 => ?_
    refine h2.mono fun tokens ⟨htokens, hword⟩ => ?_
    change tokens ∈ lexeme (if word = "*" then .mark .star else Reading.wordLexeme word)
    rwa [if_neg hword.1]

/-- The parts of a package are found again in its name. -/
theorem splitOn_intercalate_segments {head : String} {tail : List String}
    (hhead : IsSegment head) (htail : ∀ word ∈ tail, IsSegment word) :
    ((".".intercalate (head :: tail)).toList.splitOn '.').map String.ofList = head :: tail := by
  have hdot : ".".toList = ['.'] := rfl
  rw [String.toList_intercalate, hdot, List.splitOn_intercalate]
  · simp
  · intro word hword
    obtain ⟨segment, hsegment, rfl⟩ := List.mem_map.1 hword
    rcases List.mem_cons.1 hsegment with rfl | hsegment
    · exact hhead.2
    · exact (htail segment hsegment).2
  · simp

theorem mem_joined_segments {head : String} {tail : List String} {tokens : List Token}
    (h : tokens ∈ joined segmentSpellings head tail) :
    (IsSegment head ∧ ∀ word ∈ tail, IsSegment word) ∧
      tokens ∈ joined (fun word => lexeme (Reading.wordLexeme word)) head tail := by
  obtain ⟨first, hfirst, rest, hrest, rfl⟩ := h
  suffices hsuffices : (∀ word ∈ tail, IsSegment word) ∧
      rest ∈ (tail.map fun word => mark .dot * lexeme (Reading.wordLexeme word)).prod from
    ⟨⟨hfirst.2, hsuffices.1⟩, Language.append_mem_mul hfirst.1 hsuffices.2⟩
  clear hfirst first
  induction tail generalizing rest with
  | nil => exact ⟨by simp, hrest⟩
  | cons word tail ih =>
    rw [List.map_cons, List.prod_cons] at hrest ⊢
    obtain ⟨_, ⟨dot, hdot, token, htoken, rfl⟩, rest, hrest, rfl⟩ := hrest
    obtain ⟨hsegments, hrest⟩ := ih rest hrest
    exact ⟨List.forall_mem_cons.2 ⟨htoken.2, hsegments⟩,
      Language.append_mem_mul (Language.append_mem_mul hdot htoken.1) hrest⟩

theorem reads_namespaceDirective (hinput : ∀ token ∈ input, token.lexeme.IsProper) (fuel : Nat)
    (hs : s.Ready input) (hfuel : s.tokens.length ≤ fuel)
    (hkind : s.current.kind = .keyword .naming) :
    Ensures (Blames input) (namespaceDirective fuel) s fun directive next =>
      s.Consumes input next directive.spellings := by
  unfold namespaceDirective
  refine .position ?_
  refine (ensures_advance_keyword hs hkind).bind fun _ s1 h1 => ?_
  have hkeyword := h1.length_lt (Spelling.nil_notMem_lexeme _)
  refine (reads_namespaceScope hinput fuel s1 h1.ready (by omega)).bind fun scope s2 h2 => ?_
  have hscope := h2.length_le
  refine (reads_namespaceSegment hinput fuel _ s2 h2.ready (by omega)).bind fun head s3 h3 => ?_
  have hhead := h3.length_le
  refine (reads_dotted (reads_namespaceSegment hinput fuel _) s3 h3.ready (by omega)).bind
    fun tail s4 h4 => ?_
  have htail := h4.length_le
  refine .node (.pure (((h1.mul h2).mul ((h3.mul h4).mono ?_)).node (by omega) _))
  intro tokens htokens
  obtain ⟨⟨hhead, htail⟩, htokens⟩ := mem_joined_segments htokens
  simp only [NamespaceDirective.segments, splitOn_intercalate_segments hhead htail]
  exact htokens

theorem reads_includeDirective (hs : s.Ready input)
    (hkind : s.current.kind = .keyword .inclusion) :
    Ensures (Blames input) includeDirective s fun directive next =>
      s.Consumes input next directive.spellings := by
  unfold includeDirective
  refine .position ?_
  refine (ensures_advance_keyword hs hkind).bind fun _ s1 h1 => ?_
  have hkeyword := h1.length_lt (Spelling.nil_notMem_lexeme _)
  refine (reads_stringLiteral _ _ s1 h1.ready le_rfl).bind fun path s2 h2 => ?_
  have hpath := h2.length_le
  exact .node (.pure ((h1.mul h2).node (by omega) _))

/-- The directives of the one sort and of the other among headers. -/
def partitionHeaders (list : List Header) : List NamespaceDirective × List IncludeDirective :=
  match list with
  | [] => ([], [])
  | .naming directive :: list =>
    (directive :: (partitionHeaders list).1, (partitionHeaders list).2)
  | .inclusion directive :: list =>
    ((partitionHeaders list).1, directive :: (partitionHeaders list).2)

theorem nil_notMem_declarationSpellings (declaration : Declaration) :
    [] ∉ declaration.spellings := by
  cases declaration <;> exact Spelling.nil_notMem_spanning _ _

theorem ensures_headers (hinput : ∀ token ∈ input, token.lexeme.IsProper) (fuel rounds : Nat)
    (hs : s.Ready input) (hrounds : s.tokens.length ≤ rounds) (hfuel : s.tokens.length ≤ fuel) :
    Ensures (Blames input) (headers fuel rounds) s fun result next =>
      ∃ list, result = partitionHeaders list ∧
        s.Consumes input next (items Header.spellings list) := by
  induction rounds generalizing s with
  | zero =>
    have := hs.length_pos
    omega
  | succ rounds ih =>
    rw [headers]
    refine .kind ?_
    split
    · next hkind =>
      refine (reads_namespaceDirective hinput fuel hs hfuel hkind).bind
        fun directive s1 h1 => ?_
      have hlt := h1.length_lt (Spelling.nil_notMem_spanning _ _)
      refine (ensures_separator h1.ready).bind fun _ s2 h2 => ?_
      have hle := h2.length_le
      refine (ih h2.ready (by omega) (by omega)).bind ?_
      rintro _ s3 ⟨list, rfl, h3⟩
      exact .pure ⟨.naming directive :: list, rfl, (h1.mul h2).mul h3⟩
    · next hkind =>
      refine (reads_includeDirective hs hkind).bind fun directive s1 h1 => ?_
      have hlt := h1.length_lt (Spelling.nil_notMem_spanning _ _)
      refine (ensures_separator h1.ready).bind fun _ s2 h2 => ?_
      have hle := h2.length_le
      refine (ih h2.ready (by omega) (by omega)).bind ?_
      rintro _ s3 ⟨list, rfl, h3⟩
      exact .pure ⟨.inclusion directive :: list, rfl, (h1.mul h2).mul h3⟩
    · exact .pure ⟨[], rfl, .refl hs⟩

theorem ensures_declarations (fuel rounds : Nat) (hs : s.Ready input)
    (hrounds : s.tokens.length ≤ rounds) (hfuel : s.tokens.length ≤ fuel) :
    Ensures (Blames input) (declarations fuel rounds) s fun list next =>
      s.Consumes input next (items Declaration.spellings list) ∧
        next.current.lexeme = .finish := by
  induction rounds generalizing s with
  | zero =>
    have := hs.length_pos
    omega
  | succ rounds ih =>
    rw [declarations]
    refine .kind ?_
    split
    · next hkind => exact .pure ⟨.refl hs, finish_of_kind hkind⟩
    · refine (reads_declaration fuel s hs hfuel).bind fun first s1 h1 => ?_
      have hlt := h1.length_lt (nil_notMem_declarationSpellings first)
      refine (ensures_separator h1.ready).bind fun _ s2 h2 => ?_
      have hle := h2.length_le
      refine (ih h2.ready (by omega) (by omega)).bind fun rest s3 ⟨h3, hfinish⟩ =>
        .pure ⟨?_, hfinish⟩
      exact (h1.mul h2).mul h3

theorem ensures_document (hinput : ∀ token ∈ input, token.lexeme.IsProper) (fuel : Nat)
    (hwithin : ∀ token ∈ s.tokens, token ∈ input) (hclosed : Token.Closed s.tokens)
    (hfuel : s.tokens.length ≤ fuel) :
    Ensures (Blames input) (document fuel) s fun document next =>
      (∃ list, (document.namespaces, document.includes) = partitionHeaders list ∧
        s.Consumes input next
          (items Header.spellings list * items Declaration.spellings document.declarations)) ∧
        next.current.lexeme = .finish := by
  have hcurrent : s.current ∈ input := hwithin _ (ParserState.current_mem_tokens hclosed)
  unfold document
  refine (ensures_checkCurrent hcurrent).bind ?_
  rintro _ _ ⟨rfl, hfault⟩
  refine .position ?_
  refine (ensures_headers hinput fuel fuel ⟨hwithin, hclosed, hfault⟩ hfuel hfuel).bind ?_
  rintro _ s1 ⟨list, rfl, h1⟩
  have hheaders := h1.length_le
  refine (ensures_declarations fuel fuel h1.ready (by omega) (by omega)).bind ?_
  rintro declarations s2 ⟨h2, hfinish⟩
  have h := h1.mul h2
  have hready : ParserState.Ready input { s2 with nodes := s2.nodes + 1 } :=
    ⟨h.ready.within, h.ready.closed, h.ready.noFault⟩
  exact .node (.pure ⟨⟨list, rfl, hready, h.exists_tokens⟩, hfinish⟩)

end Parser
end Idl
