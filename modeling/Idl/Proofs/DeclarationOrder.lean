import Idl.Proofs.RearrangedCompilations

/-!
# The order of declarations

Names may be used before they are declared, so the order of the declarations in a file does not
matter.
-/
namespace Idl

/-- Files whose declarations come in other orders are compiled to the same. If no file declares a
name twice, the same is reported about the same files, in another order. -/
theorem compile_reorders (files files' : MemoryFiles) (includePaths : List String) (root : String)
    (h : files.Pairs Document.Reorders files') :
    (∀ failure, compile files.loader includePaths root = .error failure ↔
      compile files'.loader includePaths root = .error failure) ∧
    ∀ compilation compilation', compile files.loader includePaths root = .ok compilation →
      compile files'.loader includePaths root = .ok compilation' →
        compilation.SameOutcome compilation' ∧
        ((∀ program, compilation.program = some program → program.NamesDistinct) →
          (compilation.diagnostics.map Diagnostic.gist).Perm
            (compilation'.diagnostics.map Diagnostic.gist)) := by
  have hpairs : files.Pairs (Document.AbbreviatesBy (· = [])) files' :=
    h.imp fun _ _ hreorders => ⟨[], rfl, hreorders.abbreviates⟩
  have hnew : ∀ typedefs : List TypedefDecl, typedefs = [] →
      (∀ decl ∈ typedefs, decl.name.text ∈ ([] : List String)) ∧
        (typedefs.map (·.name.text)).Nodup := by
    rintro _ rfl
    exact ⟨nofun, .nil⟩
  have havoids : files.Avoids includePaths root [] := fun _ _ _ _ =>
    ⟨fun _ _ => List.not_mem_nil, fun _ _ _ _ => List.not_mem_nil⟩
  obtain ⟨herror, hok⟩ := compile_of_pairs hpairs rfl hnew havoids
  refine ⟨herror, fun compilation compilation' hcompile hcompile' => ?_⟩
  obtain ⟨houtcome, hgists⟩ := hok compilation compilation' hcompile hcompile'
  exact ⟨houtcome, hgists fun _ hnil => hnil⟩

/-- The constant comes before its enum. -/
def lateSource : Source := ⟨"e.thrift", "const E X = E.A enum E \x7b A \x7d"⟩

def lateFiles : MemoryFiles := .ofList [(lateSource.path, lateSource.text)]

def lateDocument : ParsedDocument where
  document :=
    { namespaces := []
      includes := []
      declarations := [
        .constant ⟨.name ⟨⟨"E", ⟨6, 7⟩⟩, [], ⟨6, 7⟩⟩, ⟨"X", ⟨8, 9⟩⟩,
          .name ⟨⟨"E", ⟨12, 13⟩⟩, [⟨"A", ⟨14, 15⟩⟩], ⟨12, 15⟩⟩, ⟨0, 15⟩⟩,
        .enum ⟨⟨"E", ⟨21, 22⟩⟩, [⟨⟨"A", ⟨25, 26⟩⟩, none, ⟨25, 26⟩⟩], ⟨16, 28⟩⟩]
      span := ⟨0, 28⟩ }
  nodes := 12

theorem parse_lateSource : lateSource.parse = .ok lateDocument := by
  decide +kernel

theorem reorders_lateDocument : entryDocument.document.Reorders lateDocument.document where
  includes := .nil
  declarations := by
    refine ⟨lateDocument.document.declarations.reverse, .cons (.enum ⟨rfl, ?_⟩)
      (.cons (.constant ⟨.name rfl, rfl, .name rfl⟩) .nil), ?_⟩
    · exact .cons ⟨rfl, rfl⟩ .nil
    · exact (List.append_nil _).symm ▸ List.reverse_perm _

theorem pairs_lateFiles : entryFiles.Pairs Document.Reorders lateFiles := by
  refine MemoryFiles.pairs_ofList_singleton _ (.inr ⟨entryDocument, lateDocument,
    reorders_lateDocument, fun _ => ⟨parse_entrySource, parse_lateSource⟩⟩)

theorem reorders_lateFiles :
    ∃ compilation compilation', compile entryFiles.loader [] "e.thrift" = .ok compilation ∧
      compile lateFiles.loader [] "e.thrift" = .ok compilation' ∧
      compilation.succeeded = true ∧ compilation.SameOutcome compilation' ∧
        (compilation.diagnostics.map Diagnostic.gist).Perm
          (compilation'.diagnostics.map Diagnostic.gist) := by
  have hcompile := compile_of_loadProgram loadProgram_entryFiles
  obtain ⟨herror, hok⟩ := compile_reorders entryFiles lateFiles [] "e.thrift" pairs_lateFiles
  cases hcompile' : compile lateFiles.loader [] "e.thrift" with
  | error failure => cases hcompile.symm.trans ((herror failure).2 hcompile')
  | ok compilation' =>
    obtain ⟨houtcome, hgists⟩ := hok _ _ hcompile hcompile'
    refine ⟨_, compilation', hcompile, rfl, ?_, houtcome, hgists ?_⟩
    · exact (Analysis.succeeded_iff _).2 completed_entryTree
    · rintro _ ⟨⟩ tree htree
      obtain rfl := List.mem_singleton.1 htree
      decide

end Idl
