import Idl.Proofs.Coercion
import Idl.Proofs.Reports

/-!
# What is said about a struct initializer

Each entry of an initializer is looked at whatever is wrong with the entries before it: a key that
names no new field is reported, and the value behind any other key is checked against the type of
its field. After the entries come the required fields that no key names, whether the value behind a
key was good or not.
-/
namespace Idl

/-- A string literal is the key of the field that has its text. -/
def Expr.isKey (text : String) : Expr → Bool
  | string literal => literal.text == text
  | integer _ => false
  | bool _ _ => false
  | list _ _ => false
  | map _ _ => false
  | name _ => false

/-- Some of the entries have the key of a field. -/
def hasKey (entries : List (Expr × Expr)) (text : String) : Bool :=
  entries.any (·.1.isKey text)

@[simp] theorem hasKey_append (entries others : List (Expr × Expr)) (text : String) :
    hasKey (entries ++ others) text = (hasKey entries text || hasKey others text) :=
  List.any_append

namespace StructDecl

variable (decl : StructDecl)

/-- The field that a key names. -/
def named? (key : Expr) : Option Field :=
  decl.fields.find? fun field => key.isKey field.name.text

/-- What is wrong with a key behind some other entries. -/
def keyReport? (before : List (Expr × Expr)) (key : Expr) : Option Report :=
  match key with
  | .string literal =>
    if (decl.named? key).isNone then
      some (.error literal.span (.unknownField literal.text decl.name.text))
    else if hasKey before literal.text then
      some (.error literal.span (.duplicateInitializer literal.text))
    else none
  | _ => some (.error key.span .expectedFieldName)

/-- What a check says about the value of an entry behind some others for the field that the key
names. If there is something wrong with the key, the value is not looked at. -/
def valueReports (check : Field → Expr → List Report) (before : List (Expr × Expr))
    (entry : Expr × Expr) : List Report :=
  match decl.keyReport? before entry.1 with
  | some _ => []
  | none => (decl.named? entry.1).toList.flatMap fun field => check field entry.2

/-- What is said about an entry: about its key, or else about its value. -/
def entryReports (check : Field → Expr → List Report) (before : List (Expr × Expr))
    (entry : Expr × Expr) : List Report :=
  (decl.keyReport? before entry.1).toList ++ decl.valueReports check before entry

/-- The reports about required fields that no entry names. -/
def missingReports (span : Span) (entries : List (Expr × Expr)) : List Report :=
  (decl.fields.filter fun field =>
    field.requiredness ≠ some .optional ∧ field.default.isNone ∧
      ¬ hasKey entries field.name.text).map fun field =>
    .error span (.missingRequiredField field.name.text decl.name.text)

end StructDecl

namespace Coercion

variable {resolver : Resolver} {here : Nat} {decl : StructDecl}

/-- The fields that count as given are those that the entries name. -/
def Tracks (decl : StructDecl) (given : List Nat) (before : List (Expr × Expr)) : Prop :=
  ∀ (index : Nat) (field : Field), decl.fields[index]? = some field →
    (index ∈ given ↔ hasKey before field.name.text)

theorem tracks_nil (decl : StructDecl) : Tracks decl [] [] := by
  intro index field hfield
  simp [hasKey]

theorem named?_string (decl : StructDecl) (literal : StringLiteral) :
    decl.named? (.string literal) = decl.fields.find? (·.name.text == literal.text) := by
  refine congrArg (decl.fields.find? ·) (funext fun field => ?_)
  simp [Expr.isKey, Bool.beq_comm]

theorem span_of_keyReport? {before : List (Expr × Expr)} {key : Expr} {report : Report}
    (h : decl.keyReport? before key = some report) : report.span = key.span := by
  cases key with
  | string literal =>
    rw [StructDecl.keyReport?] at h
    split at h
    · cases h
      rfl
    · split at h
      · cases h
        rfl
      · cases h
  | _ =>
    cases h
    rfl

theorem span_of_mem_missingReports {span : Span} {entries : List (Expr × Expr)} {report : Report}
    (h : report ∈ decl.missingReports span entries) : report.span = span := by
  obtain ⟨field, -, rfl⟩ := List.mem_map.1 h
  rfl

/-- There is nothing wrong with the first key that names a field. -/
theorem keyReport?_eq_none (hnodup : (decl.fields.map (·.name.text)).Nodup)
    {before : List (Expr × Expr)} {literal : StringLiteral} {field : Field}
    (hknown : field ∈ decl.fields) (hnamed : field.name.text = literal.text)
    (hnew : hasKey before literal.text = false) :
    decl.named? (.string literal) = some field ∧
      decl.keyReport? before (.string literal) = none := by
  have hfound : decl.named? (.string literal) = some field := by
    rw [named?_string]
    exact (find?_key_eq_some_iff hnodup literal.text field).2 ⟨hknown, hnamed⟩
  refine ⟨hfound, ?_⟩
  simp [StructDecl.keyReport?, hfound, hnew]

/-- Looking up a key says what is wrong with it, or finds the field that it names. -/
theorem fieldKey_eq {fields : Scope}
    (hlookup : ∀ name, fields.lookup name = decl.fields.findIdx? (·.name.text == name))
    {given : List Nat} {before : List (Expr × Expr)} (hgiven : Tracks decl given before)
    (key : Expr) :
    (∃ report, decl.keyReport? before key = some report ∧
        fieldKey decl fields given key = ⟨none, [report]⟩) ∨
      ∃ (index : Nat) (field : Field) (literal : StringLiteral),
        key = .string literal ∧ decl.keyReport? before key = none ∧
        decl.named? key = some field ∧ decl.fields[index]? = some field ∧
          fieldKey decl fields given key = pure (some (literal.text, index)) := by
  cases key with
  | string literal =>
    have hnamed := named?_string decl literal
    rw [List.find?_eq_bind_findIdx?_getElem?] at hnamed
    cases hindex : decl.fields.findIdx? (·.name.text == literal.text) with
    | none =>
      rw [hindex] at hnamed
      refine .inl ⟨.error literal.span (.unknownField literal.text decl.name.text), ?_, ?_⟩
      · simp [StructDecl.keyReport?, hnamed]
      · simp only [fieldKey, hlookup, hindex]
        rfl
    | some index =>
      obtain ⟨hlt, htext, -⟩ := List.findIdx?_eq_some_iff_getElem.1 hindex
      have hfield : decl.fields[index]? = some decl.fields[index] := List.getElem?_eq_getElem hlt
      rw [hindex, Option.bind_some, hfield] at hnamed
      have htracked : index ∈ given ↔ hasKey before literal.text := by
        rw [hgiven index _ hfield, eq_of_beq htext]
      by_cases hmem : index ∈ given
      · refine .inl ⟨.error literal.span (.duplicateInitializer literal.text), ?_, ?_⟩
        · simp [StructDecl.keyReport?, hnamed, htracked.1 hmem]
        · simp only [fieldKey, hlookup, hindex, hmem, if_true]
          rfl
      · refine .inr ⟨index, _, literal, rfl, ?_, hnamed, hfield, ?_⟩
        · simp [StructDecl.keyReport?, hnamed, mt htracked.2 hmem]
        · simp only [fieldKey, hlookup, hindex, hmem, if_false]
  | _ => exact .inl ⟨_, rfl, rfl⟩

theorem isKey_string (literal : StringLiteral) (text : String) :
    (Expr.string literal).isKey text = (literal.text == text) := rfl

/-- A refused key names no field that was not given before. -/
theorem Tracks.refused {given : List Nat} {before : List (Expr × Expr)}
    (hgiven : Tracks decl given before) {entry : Expr × Expr} {report : Report}
    (hreport : decl.keyReport? before entry.1 = some report) :
    Tracks decl given (before ++ [entry]) := by
  intro index field hfield
  rw [hgiven index field hfield, hasKey_append, Bool.or_eq_true, iff_self_or]
  intro hkey
  have hkey : entry.1.isKey field.name.text := by simpa [hasKey] using hkey
  obtain ⟨key, value⟩ := entry
  cases key with
  | string literal =>
    have htext : literal.text = field.name.text := eq_of_beq hkey
    have hnamed : (decl.named? (.string literal)).isSome :=
      List.find?_isSome.2 ⟨field, List.mem_of_getElem? hfield, hkey⟩
    -- The string names a field, so it can only have been refused because it was given before.
    simp only [StructDecl.keyReport?, Option.isNone_iff_eq_none, ← Option.not_isSome_iff_eq_none,
      hnamed, not_true_eq_false, if_false] at hreport
    split at hreport
    · next hbefore => exact htext ▸ hbefore
    · cases hreport
  | _ => cases hkey

/-- A key that names a field gives that field and no other, as their names are different. -/
theorem Tracks.given (hnodup : (decl.fields.map (·.name.text)).Nodup) {given : List Nat}
    {before : List (Expr × Expr)} (hgiven : Tracks decl given before) {literal : StringLiteral}
    {value : Expr} {index : Nat} {field : Field}
    (hnamed : decl.named? (.string literal) = some field)
    (hfield : decl.fields[index]? = some field) :
    Tracks decl (index :: given) (before ++ [(.string literal, value)]) := by
  intro other otherField hother
  have hkey : (Expr.string literal).isKey field.name.text := by
    simpa using List.find?_some hnamed
  have htext : literal.text = field.name.text := eq_of_beq hkey
  rw [List.mem_cons, hgiven other otherField hother, hasKey_append, Bool.or_eq_true, or_comm]
  refine or_congr_right ?_
  simp only [hasKey, List.any_cons, List.any_nil, Bool.or_false, isKey_string, beq_iff_eq, htext]
  constructor
  · rintro rfl
    rw [Option.some.inj (hother.symm.trans hfield)]
  · intro h
    have hsame : otherField = field := List.inj_on_of_nodup_map hnodup
      (List.mem_of_getElem? hother) (List.mem_of_getElem? hfield) h.symm
    exact getElem?_inj_of_nodup hnodup (hsame ▸ hother) hfield

/-- The entries of an initializer are looked at one after the other, whatever is wrong with them. -/
theorem reports_coerceFields (hnodup : (decl.fields.map (·.name.text)).Nodup) (ref : DeclRef)
    {fields : Scope}
    (hlookup : ∀ name, fields.lookup name = decl.fields.findIdx? (·.name.text == name))
    (entries before : List (Expr × Expr)) (progress : FieldProgress)
    (hgiven : Tracks decl progress.given before) :
    (coerceFields resolver here ref decl fields progress entries).reports =
        (entries.zipIdx.flatMap fun (entry, place) => decl.entryReports
          (fun field value => (coerce resolver here ⟨ref.tree, field.type⟩ value).reports)
          (before ++ entries.take place) entry) ∧
      Tracks decl (coerceFields resolver here ref decl fields progress entries).value.given
        (before ++ entries) := by
  induction entries generalizing before progress with
  | nil =>
    rw [coerceFields, List.append_nil]
    exact ⟨rfl, hgiven⟩
  | cons entry entries ih =>
    obtain ⟨key, value⟩ := entry
    have hsplit := List.append_cons before (key, value) entries
    rw [Reporting.flatMap_zipIdx_take_cons, hsplit, coerceFields]
    rcases fieldKey_eq hlookup hgiven key with
      ⟨report, hreport, hkey⟩ | ⟨index, field, literal, rfl, hreport, hnamed, hfield, hkey⟩
    · obtain ⟨hreports, htracks⟩ :=
        ih (before ++ [(key, value)]) { progress with values := none } (hgiven.refused hreport)
      simp only [Reporting.reports_bind, Reporting.value_bind, hkey, hreports,
        StructDecl.entryReports, StructDecl.valueReports, hreport]
      exact ⟨rfl, htracks⟩
    · have hrest := fun found => ih (before ++ [(Expr.string literal, value)])
        (({ progress with given := index :: progress.given } : FieldProgress).add literal.text
          found)
        (Tracks.given hnodup hgiven hnamed hfield)
      simp only [hkey, pure_bind, fieldType?, hfield, Option.map_some, Reporting.reports_bind,
        Reporting.value_bind, (hrest _).1, StructDecl.entryReports, StructDecl.valueReports,
        hreport, hnamed]
      exact ⟨by simp, (hrest _).2⟩

theorem reports_missingFields (span : Span) {given : List Nat} {entries : List (Expr × Expr)}
    (hgiven : Tracks decl given entries) :
    (missingFields span decl given).reports = decl.missingReports span entries := by
  let absent : Field → Bool := fun field => field.requiredness ≠ some .optional ∧
    field.default.isNone ∧ ¬ hasKey entries field.name.text
  have hfilter : (decl.fields.zipIdx.filter fun item =>
      item.1.requiredness ≠ some .optional ∧ item.1.default.isNone ∧ item.2 ∉ given) =
      decl.fields.zipIdx.filter (absent ∘ Prod.fst) := by
    refine List.filter_congr fun item hitem => ?_
    simp only [absent, Function.comp_apply,
      hgiven item.2 item.1 (List.mem_zipIdx_iff_getElem?.1 hitem)]
  have hfields : (decl.fields.zipIdx.filter (absent ∘ Prod.fst)).map Prod.fst =
      decl.fields.filter absent := by
    rw [← List.filter_map, List.zipIdx_map_fst]
  rw [missingFields, Reporting.reports_bind, Reporting.reports_pure, List.append_nil,
    Reporting.reports_forM, StructDecl.missingReports, List.map_eq_flatMap, ← hfields,
    List.flatMap_map]
  exact congrArg (List.flatMap _) hfilter

theorem reports_coerce_of_unwrap {ref : DeclRef} (hdecl : resolver.struct? ref = some decl)
    {fields : Scope} (hmembers : resolver.structMembers? ref = some fields)
    (hlookup : ∀ name, fields.lookup name = decl.fields.findIdx? (·.name.text == name))
    (hnodup : (decl.fields.map (·.name.text)).Nodup) {type : LocatedType} {home : Nat} {name : Name}
    {last : Option DeclRef}
    (htype : resolver.unwrap type = .ok ⟨⟨home, .name name⟩, some ref, last⟩)
    (entries : List (Expr × Expr)) (span : Span) :
    (coerce resolver here type (.map entries span)).reports =
      (entries.zipIdx.flatMap fun (entry, place) => decl.entryReports
        (fun field value => (coerce resolver here ⟨ref.tree, field.type⟩ value).reports)
        (entries.take place) entry) ++ decl.missingReports span entries := by
  obtain ⟨hreports, hgiven⟩ := @reports_coerceFields resolver here decl hnodup ref fields hlookup
    entries [] ⟨[], some []⟩ (tracks_nil decl)
  have hdeclaration := (Resolver.struct?_eq_some_iff ref decl).1 hdecl
  rw [coerce]
  simp only [htype, Option.bind_some, hdeclaration, Option.map_some, hmembers]
  rw [Reporting.reports_bind, Reporting.reports_bind, Reporting.reports_pure, List.append_nil,
    hreports, reports_missingFields span hgiven]
  rfl

/-- Diagnostics of struct initializers are complete. In a program that knows the fields of a struct
by different names, coercing an initializer to the struct reports, entry by entry, the key that is
no string, names no field or repeats a key before it, and behind any other key what checking its
value against the field reports; and then, whatever was reported, each field that is not optional,
has no default and is named by no key, in the order of the struct. -/
theorem reports_coerce_struct {ref : DeclRef} {tree : SourceTree}
    (htree : resolver.program.trees[ref.tree]? = some tree)
    (hsymbols : resolver.symbols.lookup ref.tree = some (enterSymbols tree.document).value)
    (hdecl : tree.document.declarations[ref.index]? = some (.struct decl))
    (hnodup : (decl.fields.map (·.name.text)).Nodup) {type : LocatedType} {home : Nat} {name : Name}
    {last : Option DeclRef}
    (htype : resolver.unwrap type = .ok ⟨⟨home, .name name⟩, some ref, last⟩)
    (entries : List (Expr × Expr)) (span : Span) :
    (coerce resolver here type (.map entries span)).reports =
      (entries.zipIdx.flatMap fun (entry, place) => decl.entryReports
        (fun field value => (coerce resolver here ⟨ref.tree, field.type⟩ value).reports)
        (entries.take place) entry) ++ decl.missingReports span entries := by
  obtain ⟨fields, hvalue, hlookup⟩ := lookup_enterStruct decl
  have hdeclaration : resolver.declaration? ref = some (.struct decl) := by
    rw [Resolver.declaration?, Program.declaration?, htree, Option.bind_some, hdecl]
  have hmembers : resolver.structMembers? ref = some fields := by
    have hget := members_enterSymbols tree.document ref.index
    rw [hdecl] at hget
    rw [Resolver.structMembers?, hsymbols, Option.bind_some]
    exact Resolver.struct?_of_getElem? (hget.trans (congrArg some hvalue))
  exact reports_coerce_of_unwrap ((Resolver.struct?_eq_some_iff ref decl).2 hdeclaration) hmembers
    hlookup hnodup htype entries span

/-- A file with a struct and a constant of it whose initializer has an entry of each kind. -/
def partialTree : SourceTree where
  package := "partial"
  source := ⟨"partial.thrift",
    "struct S \x7b required i32 a optional i32 b i32 c = 1 i32 d \x7d " ++
      "const S X = \x7b5: 1, \"e\": 1, \"a\": \"w\", \"a\": 2, \"b\": 3\x7d"⟩
  document :=
    { namespaces := []
      includes := []
      declarations := [
        .struct ⟨.struct, ⟨"S", ⟨7, 8⟩⟩,
          [⟨none, some .required, .builtin .i32 ⟨20, 23⟩, ⟨"a", ⟨24, 25⟩⟩, none, ⟨11, 25⟩⟩,
            ⟨none, some .optional, .builtin .i32 ⟨35, 38⟩, ⟨"b", ⟨39, 40⟩⟩, none, ⟨26, 40⟩⟩,
            ⟨none, none, .builtin .i32 ⟨41, 44⟩, ⟨"c", ⟨45, 46⟩⟩,
              some (.integer ⟨1, ⟨49, 50⟩⟩), ⟨41, 50⟩⟩,
            ⟨none, none, .builtin .i32 ⟨51, 54⟩, ⟨"d", ⟨55, 56⟩⟩, none, ⟨51, 56⟩⟩], ⟨0, 58⟩⟩,
        .constant ⟨.name ⟨⟨"S", ⟨65, 66⟩⟩, [], ⟨65, 66⟩⟩, ⟨"X", ⟨67, 68⟩⟩,
          .map [(.integer ⟨5, ⟨72, 73⟩⟩, .integer ⟨1, ⟨75, 76⟩⟩),
            (.string ⟨"e", ⟨78, 81⟩⟩, .integer ⟨1, ⟨83, 84⟩⟩),
            (.string ⟨"a", ⟨86, 89⟩⟩, .string ⟨"w", ⟨91, 94⟩⟩),
            (.string ⟨"a", ⟨96, 99⟩⟩, .integer ⟨2, ⟨101, 102⟩⟩),
            (.string ⟨"b", ⟨104, 107⟩⟩, .integer ⟨3, ⟨109, 110⟩⟩)] ⟨71, 111⟩, ⟨59, 111⟩⟩]
      span := ⟨0, 111⟩ }
  includes := []

/-- Four entries are reported, the third at its value, and `d` is missing; `a` is not, although its
value was wrong. -/
theorem reports_partialTree :
    (coerce (.ofTree partialTree) 0 ⟨0, .name ⟨⟨"S", ⟨65, 66⟩⟩, [], ⟨65, 66⟩⟩⟩
      (.map [(.integer ⟨5, ⟨72, 73⟩⟩, .integer ⟨1, ⟨75, 76⟩⟩),
        (.string ⟨"e", ⟨78, 81⟩⟩, .integer ⟨1, ⟨83, 84⟩⟩),
        (.string ⟨"a", ⟨86, 89⟩⟩, .string ⟨"w", ⟨91, 94⟩⟩),
        (.string ⟨"a", ⟨96, 99⟩⟩, .integer ⟨2, ⟨101, 102⟩⟩),
        (.string ⟨"b", ⟨104, 107⟩⟩, .integer ⟨3, ⟨109, 110⟩⟩)] ⟨71, 111⟩)).reports =
      [.error ⟨72, 73⟩ .expectedFieldName, .error ⟨78, 81⟩ (.unknownField "e" "S"),
        .error ⟨91, 94⟩ (.cannotCoerce "string" "i32"), .error ⟨96, 99⟩ (.duplicateInitializer "a"),
        .error ⟨71, 111⟩ (.missingRequiredField "d" "S")] := by
  have htype : (Resolver.ofTree partialTree).unwrap ⟨0, .name ⟨⟨"S", ⟨65, 66⟩⟩, [], ⟨65, 66⟩⟩⟩ =
      .ok ⟨⟨0, .name ⟨⟨"S", ⟨65, 66⟩⟩, [], ⟨65, 66⟩⟩⟩, some ⟨0, 0⟩, none⟩ := by
    decide +kernel
  refine (@reports_coerce_struct (.ofTree partialTree) 0 _ ⟨0, 0⟩ partialTree rfl rfl rfl
    (by decide) _ _ _ _ htype _ _).trans ?_
  decide +kernel

end Coercion
end Idl
