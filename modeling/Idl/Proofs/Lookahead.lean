import Idl.Proofs.Grammar

/-!
# One token of lookahead

Which kinds of tokens the items of lists begin with, and which may follow an item. No kind does
both jobs of continuing an item and beginning the next one, so the next token alone decides.
-/
namespace Idl

namespace Grammar

/-- An item may be followed by a token of this kind: it continues no construct. -/
def Ends (kind : TokenKind) : Prop :=
  kind ≠ .mark .dot ∧ kind ≠ .mark .equals ∧ kind ≠ .keyword .throws

def IsSeparator (kind : TokenKind) : Prop :=
  kind ∈ [.mark .comma, .mark .semicolon]

/-- The kinds that items of lists begin with. -/
def Starts : TokenKind → Prop
  | .keyword word => word ≠ .throws
  | .integer => True
  | .string => True
  | .identifier => True
  | .mark sign => sign = .openBracket ∨ sign = .openBrace
  | _ => False

/-- The kinds that lists of items end with. -/
def Closes (kind : TokenKind) : Prop :=
  kind ∈ [.mark .closeBrace, .mark .closeBracket, .mark .closeParen, .finish]

theorem Starts.ends {kind : TokenKind} (h : Starts kind) : Ends kind := by
  unfold Ends
  refine ⟨?_, ?_, ?_⟩ <;> rintro rfl <;> simp [Starts] at h

theorem Starts.not_isSeparator {kind : TokenKind} (h : Starts kind) : ¬ IsSeparator kind := by
  intro hseparator
  rcases List.mem_pair.1 hseparator with rfl | rfl <;> simp [Starts] at h

theorem Starts.not_closes {kind : TokenKind} (h : Starts kind) : ¬ Closes kind := by
  intro hcloses
  simp only [Closes, List.mem_cons, List.not_mem_nil, or_false] at hcloses
  rcases hcloses with rfl | rfl | rfl | rfl <;> simp [Starts] at h

theorem Closes.ends {kind : TokenKind} (h : Closes kind) : Ends kind := by
  simp only [Closes, List.mem_cons, List.not_mem_nil, or_false] at h
  rcases h with rfl | rfl | rfl | rfl <;> simp [Ends]

theorem Closes.not_isSeparator {kind : TokenKind} (h : Closes kind) : ¬ IsSeparator kind := by
  simp only [Closes, List.mem_cons, List.not_mem_nil, or_false] at h
  rcases h with rfl | rfl | rfl | rfl <;> simp [IsSeparator]

/-- The kinds that types begin with. -/
def StartsType (kind : TokenKind) : Prop :=
  kind = .identifier ∨ kind = .keyword .list ∨ kind = .keyword .map ∨
    ∃ builtin : Builtin, kind = .keyword builtin.keyword

theorem StartsType.starts {kind : TokenKind} (h : StartsType kind) : Starts kind := by
  rcases h with rfl | rfl | rfl | ⟨builtin, rfl⟩
  · exact True.intro
  · exact Keyword.noConfusion
  · exact Keyword.noConfusion
  · cases builtin <;> exact Keyword.noConfusion

/-- What may stand in front of a type is no part of it. -/
theorem StartsType.ne_of_prefix {kind : TokenKind} (h : StartsType kind) :
    kind ≠ .integer ∧ kind ≠ .keyword .required ∧ kind ≠ .keyword .optional ∧
      kind ≠ .keyword .oneway := by
  rcases h with rfl | rfl | rfl | ⟨builtin, rfl⟩
  · simp
  · simp
  · simp
  · cases builtin <;> simp [Builtin.keyword]

/-- Sentences are not empty, and begin with a kind of this sort. -/
def Begins (sort : TokenKind → Prop) (language : Language TokenKind) : Prop :=
  ∀ sentence ∈ language, ∃ kind rest, sentence = kind :: rest ∧ sort kind

namespace Begins

variable {sort sort' : TokenKind → Prop} {language language' : Language TokenKind}

theorem mono (h : Begins sort language) (hsort : ∀ kind, sort kind → sort' kind) :
    Begins sort' language := by
  intro sentence hsentence
  obtain ⟨kind, rest, rfl, hkind⟩ := h sentence hsentence
  exact ⟨kind, rest, rfl, hsort kind hkind⟩

theorem mul (h : Begins sort language) (language' : Language TokenKind) :
    Begins sort (language * language') := by
  rintro _ ⟨sentence, hsentence, rest', -, rfl⟩
  obtain ⟨kind, rest, rfl, hkind⟩ := h sentence hsentence
  exact ⟨kind, rest ++ rest', rfl, hkind⟩

theorem add (h : Begins sort language) (h' : Begins sort language') :
    Begins sort (language + language') := by
  rintro sentence (hsentence | hsentence)
  · exact h sentence hsentence
  · exact h' sentence hsentence

theorem optional_mul (h : Begins sort language) (h' : Begins sort language') :
    Begins sort (optional language * language') := by
  rintro _ ⟨sentence, rfl | hsentence, rest, hrest, rfl⟩
  · exact h' rest hrest
  · exact h.mul language' _ (Language.append_mem_mul hsentence hrest)

theorem token {kind : TokenKind} (h : sort kind) : Begins sort (token kind) := by
  rintro _ rfl
  exact ⟨kind, [], rfl, h⟩

theorem keyword {word : Keyword} (h : word ≠ .throws) : Begins Starts (keyword word) :=
  .token h

end Begins

theorem begins_type : Begins StartsType type := by
  rw [type_eq]
  refine .add (.add (.add ?_ ?_) ?_) ((Begins.token (.inl rfl)).mul _)
  · intro sentence hsentence
    obtain ⟨builtin, rfl⟩ := Language.mem_iSup.1 hsentence
    exact ⟨_, [], rfl, .inr (.inr (.inr ⟨builtin, rfl⟩))⟩
  · exact (((Begins.token (.inr (.inl rfl))).mul _).mul _).mul _
  · exact (((((Begins.token (.inr (.inr (.inl rfl)))).mul _).mul _).mul _).mul _).mul _

theorem begins_value : Begins Starts value := by
  have hinteger : Begins Starts (token .integer) := .token True.intro
  have hstring : Begins Starts (token .string) := .token True.intro
  have hidentifier : Begins Starts (token .identifier) := .token True.intro
  have hbracket : Begins Starts (mark .openBracket) := .token (.inl rfl)
  have hbrace : Begins Starts (mark .openBrace) := .token (.inr rfl)
  rw [value_eq]
  refine .add (.add (.add (.add (.add (.add hinteger hstring) ?_) ?_) ?_) ?_) ?_
  · exact .keyword Keyword.noConfusion
  · exact .keyword Keyword.noConfusion
  · exact hidentifier.mul _
  · exact (hbracket.mul _).mul _
  · exact (hbrace.mul _).mul _

theorem begins_entry : Begins Starts entry := (begins_value.mul _).mul _

theorem begins_order : Begins Starts (token .integer * mark .colon) := by
  have hinteger : Begins Starts (token .integer) := .token True.intro
  exact hinteger.mul _

theorem begins_argument : Begins Starts argument :=
  (Begins.optional_mul begins_order (begins_type.mono fun _ h => h.starts)).mul _

theorem begins_enumEntry : Begins Starts enumEntry := by
  have hidentifier : Begins Starts (token .identifier) := .token True.intro
  exact hidentifier.mul _

theorem begins_field : Begins Starts field := by
  have hrequiredness : Begins Starts (optional (keyword .required + keyword .optional) * type) :=
    .optional_mul (.add (.keyword Keyword.noConfusion) (.keyword Keyword.noConfusion))
      (begins_type.mono fun _ h => h.starts)
  have h := ((Begins.optional_mul begins_order hrequiredness).mul (token .identifier)).mul
    (optional (mark .equals * value))
  rw [← mul_assoc] at h
  exact h

theorem begins_method : Begins Starts method :=
  (((Begins.optional_mul (.keyword Keyword.noConfusion)
    (begins_type.mono fun _ h => h.starts)).mul _).mul _).mul _

/-- The kinds that definitions begin with. -/
def StartsDefinition (kind : TokenKind) : Prop :=
  Starts kind ∧ kind ≠ .keyword .naming ∧ kind ≠ .keyword .inclusion

theorem begins_definition : Begins StartsDefinition definition := by
  have hkeyword : ∀ word : Keyword, word ∉ [.throws, .naming, .inclusion] →
      Begins StartsDefinition (keyword word) := by
    intro word hword
    refine Begins.token ⟨?_, ?_, ?_⟩
    · exact fun h => hword (h ▸ by simp)
    · exact fun h => hword (TokenKind.keyword.inj h ▸ by simp)
    · exact fun h => hword (TokenKind.keyword.inj h ▸ by simp)
  refine .add (.add (.add (.add ?_ ?_) ?_) ?_) ?_
  · exact ((((hkeyword _ (by decide)).mul _).mul _).mul _).mul _
  · exact ((hkeyword _ (by decide)).mul _).mul _
  · exact ((hkeyword _ (by decide)).mul _).mul _
  · exact ((Begins.add (hkeyword _ (by decide)) (hkeyword _ (by decide))).mul _).mul _
  · exact (((hkeyword _ (by decide)).mul _).mul _).mul _

theorem begins_header : Begins Starts header :=
  .add ((Begins.keyword Keyword.noConfusion).mul _)
    (((Begins.keyword Keyword.noConfusion).mul _).mul _)

end Grammar
end Idl
