import Idl.Proofs.RearrangedCompilations

/-!
# Typedefs are transparent

A type may be written out or be named by a typedef for it. Everything that looks at a type looks
through typedefs, so that it makes no difference which of the two stands in a file.
-/
namespace Idl

/-- In one file, some of the types that `decl` stands for are replaced by its name, and `decl` is
added. The other files are kept. -/
structure MemoryFiles.Abbreviates (path : String) (decl : TypedefDecl)
    (files files' : MemoryFiles) : Prop where
  changed : ∃ text text' parsed parsed', files.lookup path = .ok text ∧
    files'.lookup path = .ok text' ∧ parsed.document.Abbreviates [decl] parsed'.document ∧
      ∀ place, Source.parse ⟨place, text⟩ = .ok parsed ∧ Source.parse ⟨place, text'⟩ = .ok parsed'
  kept : ∀ other, other ≠ path → files'.lookup other = files.lookup other

/-- A type other than `void` may be abbreviated by a new typedef wherever it stands: the files are
compiled to the same as before. -/
theorem compile_abbreviates (files files' : MemoryFiles) (includePaths : List String)
    (root path : String) (decl : TypedefDecl) (h : files.Abbreviates path decl files')
    (hnew : files.Avoids includePaths root [decl.name.text]) :
    (∀ failure, compile files.loader includePaths root = .error failure ↔
      compile files'.loader includePaths root = .error failure) ∧
    ∀ compilation compilation', compile files.loader includePaths root = .ok compilation →
      compile files'.loader includePaths root = .ok compilation' →
        compilation.SameOutcome compilation' := by
  have hpairs : files.Pairs
      (Document.AbbreviatesBy fun typedefs => typedefs = [] ∨ typedefs = [decl]) files' := by
    intro other
    by_cases hother : other = path
    · obtain ⟨text, text', parsed, parsed', htext, htext', habbreviates, hparsed⟩ := h.changed
      subst hother
      exact .inr ⟨text, text', htext, htext',
        .inr ⟨parsed, parsed', ⟨[decl], .inr rfl, habbreviates⟩, hparsed⟩⟩
    · rw [h.kept other hother]
      cases hlookup : files.lookup other with
      | error error => exact .inl ⟨error, rfl, rfl⟩
      | ok text => exact .inr ⟨text, text, rfl, rfl, .inl rfl⟩
  have hdistinct : ∀ typedefs : List TypedefDecl, typedefs = [] ∨ typedefs = [decl] →
      (∀ decl' ∈ typedefs, decl'.name.text ∈ [decl.name.text]) ∧
        (typedefs.map (·.name.text)).Nodup := by
    rintro _ (rfl | rfl)
    · exact ⟨nofun, .nil⟩
    · exact ⟨List.forall_mem_singleton.2 List.mem_cons_self, List.nodup_singleton _⟩
  obtain ⟨herror, hok⟩ := compile_of_pairs hpairs (.inl rfl) hdistinct hnew
  exact ⟨herror, fun compilation compilation' hcompile hcompile' =>
    (hok compilation compilation' hcompile hcompile').1⟩

/-- The type of the constant is named by a typedef. -/
def namedSource : Source := ⟨"e.thrift", "enum E \x7b A \x7d const T X = E.A typedef E T"⟩

def namedFiles : MemoryFiles := .ofList [(namedSource.path, namedSource.text)]

def entryTypedef : TypedefDecl :=
  ⟨.name ⟨⟨"E", ⟨37, 38⟩⟩, [], ⟨37, 38⟩⟩, ⟨"T", ⟨39, 40⟩⟩, ⟨29, 40⟩⟩

def namedDocument : ParsedDocument where
  document :=
    { namespaces := []
      includes := []
      declarations := [
        .enum ⟨⟨"E", ⟨5, 6⟩⟩, [⟨⟨"A", ⟨9, 10⟩⟩, none, ⟨9, 10⟩⟩], ⟨0, 12⟩⟩,
        .constant ⟨.name ⟨⟨"T", ⟨19, 20⟩⟩, [], ⟨19, 20⟩⟩, ⟨"X", ⟨21, 22⟩⟩,
          .name ⟨⟨"E", ⟨25, 26⟩⟩, [⟨"A", ⟨27, 28⟩⟩], ⟨25, 28⟩⟩, ⟨13, 28⟩⟩,
        .typedef entryTypedef]
      span := ⟨0, 40⟩ }
  nodes := 16

theorem parse_namedSource : namedSource.parse = .ok namedDocument := by
  decide +kernel

theorem abbreviates_namedDocument :
    entryDocument.document.Abbreviates [entryTypedef] namedDocument.document where
  rearranges :=
    { includes := .nil
      declarations := by
        refine ⟨namedDocument.document.declarations.take 2, .cons (.enum ⟨rfl, ?_⟩)
          (.cons (.constant ⟨?_, rfl, .name rfl⟩) .nil), .refl _⟩
        · exact .cons ⟨rfl, rfl⟩ .nil
        · exact .typedef List.mem_cons_self (.name rfl) nofun rfl }
  written := List.forall_mem_singleton.2
    ⟨_, List.mem_cons_self, nofun, .name rfl⟩

theorem abbreviates_namedFiles : entryFiles.Abbreviates "e.thrift" entryTypedef namedFiles where
  changed := ⟨_, _, entryDocument, namedDocument, rfl, rfl, abbreviates_namedDocument,
    fun _ => ⟨parse_entrySource, parse_namedSource⟩⟩
  kept other hother := by
    rw [entryFiles, namedFiles, MemoryFiles.lookup_ofList_singleton,
      MemoryFiles.lookup_ofList_singleton]
    exact (if_neg hother).trans (if_neg hother).symm

theorem avoids_entryTree : entryTree.document.Avoids [entryTypedef.name.text] where
  declared := by decide
  referenced := by decide

theorem abbreviates_entryFiles :
    entryFiles.Abbreviates "e.thrift" entryTypedef namedFiles ∧
      entryFiles.Avoids [] "e.thrift" [entryTypedef.name.text] ∧
      ∃ compilation compilation', compile entryFiles.loader [] "e.thrift" = .ok compilation ∧
        compile namedFiles.loader [] "e.thrift" = .ok compilation' ∧
        compilation.succeeded = true ∧ compilation.SameOutcome compilation' := by
  have havoids : entryFiles.Avoids [] "e.thrift" [entryTypedef.name.text] :=
    MemoryFiles.avoids_of_loadProgram loadProgram_entryFiles
      (List.forall_mem_singleton.2 avoids_entryTree)
  refine ⟨abbreviates_namedFiles, havoids, ?_⟩
  have hcompile := compile_of_loadProgram loadProgram_entryFiles
  obtain ⟨herror, hok⟩ := compile_abbreviates entryFiles namedFiles [] "e.thrift" "e.thrift"
    entryTypedef abbreviates_namedFiles havoids
  cases hcompile' : compile namedFiles.loader [] "e.thrift" with
  | error failure => cases hcompile.symm.trans ((herror failure).2 hcompile')
  | ok compilation' =>
    exact ⟨_, compilation', hcompile, rfl, (Analysis.succeeded_iff _).2 completed_entryTree,
      hok _ _ hcompile hcompile'⟩

end Idl
