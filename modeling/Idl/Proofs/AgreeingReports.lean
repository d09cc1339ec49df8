import Idl.Check.Ordering
import Idl.Proofs.Matching
import Idl.Proofs.Reports
import Idl.Proofs.Symbols

/-!
# Computations that report the same

Two computations agree if they report the same, be it in other places, and have related results.
What is reported about the names that a declaration declares and about its orders depends on
neither positions nor types nor the names that it refers to.
-/
namespace Idl

/-- What a report says, wherever it says it. -/
def Report.gist (report : Report) : Message × List Message :=
  (report.message, report.also.map (·.message))

namespace Reporting

variable {α β γ δ : Type} {p : α → β → Prop} {q : γ → δ → Prop}

/-- The computations report the same, and their results are related. -/
structure Agree (p : α → β → Prop) (x : Reporting α) (y : Reporting β) : Prop where
  reports : x.reports.map Report.gist = y.reports.map Report.gist
  value : p x.value y.value

theorem agree_pure {a : α} {b : β} (h : p a b) : Agree p (pure a) (pure b) :=
  ⟨rfl, h⟩

theorem Agree.bind {x : Reporting α} {y : Reporting β} {f : α → Reporting γ} {g : β → Reporting δ}
    (h : Agree p x y) (hrest : ∀ a b, p a b → Agree q (f a) (g b)) :
    Agree q (x >>= f) (y >>= g) := by
  obtain ⟨hreports, hvalue⟩ := hrest _ _ h.value
  exact ⟨by rw [reports_bind, reports_bind, List.map_append, List.map_append, h.reports, hreports],
    hvalue⟩

theorem Agree.silent_iff {x : Reporting α} {y : Reporting β} (h : Agree p x y) :
    x.Silent ↔ y.Silent := by
  rw [Silent, Silent, ← List.map_eq_nil_iff (f := Report.gist), h.reports, List.map_eq_nil_iff]

theorem agree_report {p : Unit → Unit → Prop} {report other : Report} (h : report.gist = other.gist)
    (hp : p () ()) : Agree p (Reporting.report report) (Reporting.report other) :=
  ⟨congrArg (fun gist => [gist]) h, hp⟩

theorem agree_error {p : Unit → Unit → Prop} {span span' : Span} {message message' : Message}
    (h : message = message') (hp : p () ()) : Agree p (error span message) (error span' message') :=
  agree_report (h ▸ rfl) hp

theorem Agree.ite {x x' : Reporting α} {y y' : Reporting β} {c c' : Prop} [Decidable c]
    [Decidable c'] (hc : c ↔ c') (h : c → Agree p x y) (h' : ¬ c → Agree p x' y') :
    Agree p (if c then x else x') (if c' then y else y') := by
  by_cases hcond : c
  · rw [if_pos hcond, if_pos (hc.1 hcond)]
    exact h hcond
  · rw [if_neg hcond, if_neg (mt hc.2 hcond)]
    exact h' hcond

theorem agree_foldlM {ι κ : Type} {r : ι → κ → Prop} {f : α → ι → Reporting α}
    {g : β → κ → Reporting β} {items : List ι} {others : List κ}
    (hitems : List.Forall₂ r items others) {a : α} {b : β} (hp : p a b)
    (hstep : ∀ a b item other, p a b → r item other → Agree p (f a item) (g b other)) :
    Agree p (items.foldlM f a) (others.foldlM g b) := by
  induction hitems generalizing a b with
  | nil => exact agree_pure hp
  | cons head _ ih => exact (hstep a b _ _ hp head).bind fun _ _ hp => ih hp

theorem agree_forM {ι κ : Type} {r : ι → κ → Prop} {f : ι → Reporting Unit}
    {g : κ → Reporting Unit} {items : List ι} {others : List κ}
    (hitems : List.Forall₂ r items others)
    (hstep : ∀ item other, r item other → Agree (fun _ _ => True) (f item) (g other)) :
    Agree (fun _ _ => True) (items.forM f) (others.forM g) := by
  induction hitems with
  | nil => exact agree_pure trivial
  | cons head _ ih => exact (hstep _ _ head).bind fun _ _ _ => ih

end Reporting

open Reporting

theorem forall₂_zipIdx {α β : Type} {r : α → β → Prop} {list : List α} {other : List β}
    (h : List.Forall₂ r list other) (start : Nat) :
    List.Forall₂ (fun item item' => r item.1 item'.1 ∧ item.2 = item'.2) (list.zipIdx start)
      (other.zipIdx start) := by
  induction h generalizing start with
  | nil => exact .nil
  | cons head _ ih => exact .cons ⟨head, rfl⟩ (ih (start + 1))

/-! ### Scopes -/

namespace Scope

/-- Symbols of the same names and kinds. -/
def Alike (scope other : Scope) : Prop :=
  List.Forall₂ (fun symbol symbol' : Symbol =>
    symbol.name.text = symbol'.name.text ∧ symbol.kind = symbol'.kind) scope other

variable {scope other : Scope} {symbol symbol' : Symbol}

theorem Alike.find? (h : scope.Alike other) (name : String) :
    Option.Rel (fun symbol symbol' : Symbol => symbol.kind = symbol'.kind) (scope.find? name)
      (other.find? name) := by
  induction h with
  | nil => exact .none
  | @cons first first' _ _ head _ ih =>
    unfold Scope.find? at ih ⊢
    rw [List.find?_cons, List.find?_cons, head.1]
    cases first'.name.text == name with
    | true => exact .some head.2
    | false => exact ih

theorem agree_declare (h : scope.Alike other) (hname : symbol.name.text = symbol'.name.text)
    (hkind : symbol.kind = symbol'.kind) :
    Agree Alike (scope.declare symbol) (other.declare symbol') := by
  have hfirst := h.find? symbol.name.text
  unfold declare
  rw [← hname]
  rcases optionRel_cases hfirst with ⟨hnone, hnone'⟩ | ⟨first, first', hsome, hsome', hkinds⟩
  · rw [hnone, hnone']
    exact agree_pure (List.rel_append h (.cons ⟨hname, hkind⟩ .nil))
  · rw [hsome, hsome']
    refine (agree_report (p := fun _ _ => True) ?_ trivial).bind fun _ _ _ => agree_pure h
    simp [Report.gist, redeclaration, Report.error, Report.note, hname, hkinds]

theorem agree_ofNames (kind : String) {names others : List Identifier}
    (h : names.map (·.text) = others.map (·.text)) :
    Agree Alike (Scope.ofNames kind names) (Scope.ofNames kind others) := by
  have hnames : List.Forall₂ (fun name other : Identifier => name.text = other.text)
      names others := by
    rwa [← List.forall₂_eq_eq_eq, List.forall₂_map_left_iff, List.forall₂_map_right_iff] at h
  refine agree_foldlM (forall₂_zipIdx hnames 0) .nil fun scope other item item' hscope hitem => ?_
  exact agree_declare hscope hitem.1 rfl

end Scope

/-! ### Members -/

theorem EnumProgress.agree_enter {progress other : EnumProgress}
    (hscope : progress.scope.Alike other.scope) (hnext : progress.next = other.next)
    {entry entry' : EnumEntry} (h : entry.Matches entry') (index : Nat) :
    Agree (fun progress other : EnumProgress =>
      progress.scope.Alike other.scope ∧ progress.next = other.next)
      (progress.enter entry index) (other.enter entry' index) := by
  unfold enter
  rw [← h.value, ← hnext]
  have hdeclare : Agree Scope.Alike (progress.scope.declare ⟨entry.name, "enum entry", index⟩)
      (other.scope.declare ⟨entry'.name, "enum entry", index⟩) :=
    Scope.agree_declare hscope h.name rfl
  refine Agree.ite Iff.rfl (fun _ => ?_) fun _ => ?_
  · exact hdeclare.bind fun _ _ hscope => agree_pure ⟨hscope, rfl⟩
  · exact (agree_error (p := fun _ _ => True) rfl trivial).bind fun _ _ _ =>
      hdeclare.bind fun _ _ hscope => agree_pure ⟨hscope, rfl⟩

theorem map_text_of_matches {α : Type} {r : α → α → Prop} {name : α → Identifier}
    {items others : List α} (h : List.Forall₂ r items others)
    (hname : ∀ item other, r item other → (name item).text = (name other).text) :
    (items.map name).map (·.text) = (others.map name).map (·.text) := by
  induction h with
  | nil => rfl
  | cons head _ ih => simp only [List.map_cons, hname _ _ head, ih]

section

variable {names : Name → Name → Prop} {types : TypeRef → TypeRef → Prop}
  {declaration other : Declaration}

/-- Declarations that match have the same problems with the names that they declare. -/
theorem agree_enterMembers (h : declaration.Matches names types other) :
    Agree (fun _ _ => True) (enterMembers declaration) (enterMembers other) := by
  cases h with
  | constant h => exact agree_pure trivial
  | typedef h => exact agree_pure trivial
  | enum h =>
    refine (agree_foldlM (p := fun progress other : EnumProgress =>
      progress.scope.Alike other.scope ∧ progress.next = other.next)
      (forall₂_zipIdx h.entries 0) (a := ⟨[], [], 0⟩) (b := ⟨[], [], 0⟩)
      ⟨List.Forall₂.nil, rfl⟩ ?_).bind fun _ _ _ => agree_pure trivial
    rintro progress other ⟨entry, index⟩ ⟨entry', _⟩ ⟨hscope, hnext⟩ ⟨hentry, rfl⟩
    exact EnumProgress.agree_enter hscope hnext hentry index
  | struct h =>
    refine (Scope.agree_ofNames "field" ?_).bind fun _ _ _ => agree_pure trivial
    exact map_text_of_matches h.fields fun _ _ h => h.name
  | service h =>
    refine (agree_foldlM (p := Scope.Alike) (forall₂_zipIdx h.methods 0) .nil ?_).bind
      fun _ _ _ => agree_pure trivial
    rintro scope other ⟨method, index⟩ ⟨method', _⟩ hscope ⟨hmethod, rfl⟩
    have hdeclare : Agree Scope.Alike (scope.declare ⟨method.name, "method", index⟩)
        (other.declare ⟨method'.name, "method", index⟩) :=
      Scope.agree_declare hscope hmethod.name rfl
    refine hdeclare.bind fun _ _ hscope => ?_
    refine (Scope.agree_ofNames "argument" ?_).bind fun _ _ _ => agree_pure hscope
    exact map_text_of_matches (List.rel_append hmethod.arguments hmethod.throws) fun _ _ h => h.name

end

/-! ### Top-level names -/

theorem silent_foldlM_symbols_enter_iff (symbols : Symbols) (start : Nat)
    (declarations : List Declaration) :
    ((declarations.zipIdx start).foldlM
        (fun symbols (declaration, index) => Symbols.enter symbols declaration index)
        symbols).Silent ↔
      ((Scope.placed (·.name) (·.kind) start declarations).foldlM Scope.declare
        symbols.names).Silent ∧
      ∀ declaration ∈ declarations, (enterMembers declaration).Silent := by
  induction declarations generalizing symbols start with
  | nil => simp [silent_pure]
  | cons declaration declarations ih =>
    rw [List.zipIdx_cons, Scope.placed_cons, List.foldlM_cons, List.foldlM_cons, silent_bind_iff,
      silent_bind_iff, ih]
    simp only [Symbols.enter, silent_bind_iff, silent_pure, value_bind, value_pure, and_true,
      List.forall_mem_cons]
    tauto

/-- A file has no problem with the names that it declares exactly if its declarations have
different names and none has a problem with the names that it declares inside. -/
theorem silent_enterSymbols_iff (document : Document) :
    (enterSymbols document).Silent ↔
      (document.declarations.map (·.name.text)).Nodup ∧
        ∀ declaration ∈ document.declarations, (enterMembers declaration).Silent := by
  refine (silent_foldlM_symbols_enter_iff ⟨[], []⟩ 0 document.declarations).trans ?_
  rw [Scope.silent_declareAll_iff, Scope.map_text_placed]
  simp [Scope.find?]

theorem reports_foldlM_symbols_enter (symbols : Symbols) (start : Nat)
    (declarations : List Declaration)
    (h : ((Scope.placed (·.name) (·.kind) start declarations).foldlM Scope.declare
      symbols.names).Silent) :
    ((declarations.zipIdx start).foldlM
        (fun symbols (declaration, index) => Symbols.enter symbols declaration index)
        symbols).reports =
      declarations.flatMap fun declaration => (enterMembers declaration).reports := by
  induction declarations generalizing symbols start with
  | nil => rfl
  | cons declaration declarations ih =>
    rw [Scope.placed_cons, List.foldlM_cons] at h
    rw [List.zipIdx_cons, List.foldlM_cons, reports_bind, List.flatMap_cons, ih _ _ h.rest]
    have hdeclare :
        (symbols.names.declare ⟨declaration.name, declaration.kind, start⟩).reports = [] :=
      h.first
    simp [Symbols.enter, hdeclare]

/-- If no two declarations of a file have the same name, only names inside of them can be wrong. -/
theorem reports_enterSymbols_of_nodup (document : Document)
    (h : (document.declarations.map (·.name.text)).Nodup) :
    (enterSymbols document).reports =
      document.declarations.flatMap fun declaration => (enterMembers declaration).reports := by
  refine reports_foldlM_symbols_enter ⟨[], []⟩ 0 document.declarations ?_
  rw [Scope.silent_declareAll_iff, Scope.map_text_placed]
  exact ⟨h, fun symbol _ => rfl⟩

/-! ### Orders -/

theorem OrderedName.agree_check (item : OrderedItem) (seen : OrderedName.Seen)
    {entry other : OrderedName} (horder : entry.order.map (·.value) = other.order.map (·.value))
    (hname : entry.name.text = other.name.text) :
    Agree (· = ·) (OrderedName.check item seen entry) (OrderedName.check item seen other) := by
  obtain ⟨order, text, span⟩ := entry
  obtain ⟨order', text', span'⟩ := other
  obtain rfl : text = text' := hname
  cases order with
  | none =>
    cases order' with
    | none =>
      exact Agree.bind (p := fun _ _ => True) (agree_error rfl trivial) fun _ _ _ => agree_pure rfl
    | some literal => cases horder
  | some literal =>
    cases order' with
    | none => cases horder
    | some literal' =>
      obtain ⟨value, place⟩ := literal
      obtain ⟨value', place'⟩ := literal'
      obtain rfl : value = value' := Option.some.inj horder
      have hpositive (seen : Seen) : Agree (· = ·)
          (if value ≤ 0 then do
            error place (.nonPositiveOrder item text)
            return seen
          else return seen)
          (if value ≤ 0 then do
            error place' (.nonPositiveOrder item text)
            return seen
          else return seen) :=
        Agree.ite Iff.rfl (fun _ => Agree.bind (p := fun _ _ => True) (agree_error rfl trivial)
          fun _ _ _ => agree_pure rfl) fun _ => agree_pure rfl
      simp only [OrderedName.check]
      refine Agree.ite Iff.rfl (fun _ => ?_) fun _ => ?_
      · exact Agree.bind (p := fun _ _ => True) (agree_error rfl trivial)
          fun _ _ _ => agree_pure rfl
      · cases seen.lookup value with
        | none => exact hpositive _
        | some previous =>
          exact Agree.bind (p := fun _ _ => True) (agree_error rfl trivial)
            fun _ _ _ => hpositive _

theorem agree_checkOrdering (item : OrderedItem) {entries others : List OrderedName}
    (h : List.Forall₂ (fun entry other : OrderedName =>
      entry.order.map (·.value) = other.order.map (·.value) ∧ entry.name.text = other.name.text)
      entries others) :
    Agree (fun _ _ => True) (checkOrdering item entries) (checkOrdering item others) := by
  refine (agree_foldlM (p := (· = ·)) h rfl ?_).bind fun _ _ _ => agree_pure trivial
  rintro seen _ entry other rfl ⟨horder, hname⟩
  exact OrderedName.agree_check item seen horder hname

theorem agree_checkOrdering_fields {names : Name → Name → Prop} {types : TypeRef → TypeRef → Prop}
    {fields others : List Field} (h : List.Forall₂ (Field.Matches names types) fields others) :
    Agree (fun _ _ => True) (checkOrdering .field (fields.map Field.ordered))
      (checkOrdering .field (others.map Field.ordered)) := by
  refine agree_checkOrdering _ ?_
  rw [List.forall₂_map_left_iff, List.forall₂_map_right_iff]
  exact h.imp fun _ _ h => ⟨h.order, h.name⟩

theorem agree_checkOrdering_arguments (item : OrderedItem) {types : TypeRef → TypeRef → Prop}
    {arguments others : List Argument}
    (h : List.Forall₂ (Argument.Matches types) arguments others) :
    Agree (fun _ _ => True) (checkOrdering item (arguments.map Argument.ordered))
      (checkOrdering item (others.map Argument.ordered)) := by
  refine agree_checkOrdering _ ?_
  rw [List.forall₂_map_left_iff, List.forall₂_map_right_iff]
  exact h.imp fun _ _ h => ⟨h.order, h.name⟩

end Idl
