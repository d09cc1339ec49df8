import Idl.Diagnostic.Log
import Idl.Loader.Memory
import Idl.Main
import Idl.Proofs.Scopes
import Idl.Proofs.Symbols
import Idl.Proofs.Bindings
import Idl.Proofs.WrittenTypes
import Idl.Proofs.Tables
import Idl.Proofs.Typedefs
import Idl.Proofs.Coercion
import Idl.Proofs.Grammar
import Idl.Proofs.Spelling
import Idl.Proofs.Derivation
import Idl.Proofs.Tokens
import Idl.Proofs.ParserSteps
import Idl.Proofs.ParserSoundness
import Idl.Proofs.Lookahead
import Idl.Proofs.ParserCompleteness
import Idl.Proofs.Parsing
import Idl.Proofs.Located
import Idl.Proofs.Paths
import Idl.Proofs.IncludeClosure
import Idl.Proofs.Loading
import Idl.Proofs.LoadedProgram
import Idl.Proofs.NodeSpellings
import Idl.Proofs.ReportSpans
import Idl.Proofs.CheckedValues
import Idl.Proofs.CompiledValues
import Idl.Proofs.Reports
import Idl.Proofs.Severity
import Idl.Proofs.Unfolding
import Idl.Proofs.CheckedTypes
import Idl.Proofs.Containment
import Idl.Proofs.StructCycles
import Idl.Proofs.FiniteTypes
import Idl.Proofs.Outcomes
import Idl.Proofs.NameResolution
import Idl.Proofs.DiagnosticPlaces
import Idl.Proofs.Matching
import Idl.Proofs.AgreeingReports
import Idl.Proofs.Agreement
import Idl.Proofs.AgreeingValues
import Idl.Proofs.AgreeingChecks
import Idl.Proofs.StructSearch
import Idl.Proofs.AgreeingCycles
import Idl.Proofs.AgreeingTypes
import Idl.Proofs.PairedLoading
import Idl.Proofs.Rearranging
import Idl.Proofs.RearrangedPrograms
import Idl.Proofs.RearrangedPhases
import Idl.Proofs.RearrangedAnalyses
import Idl.Proofs.RearrangedCompilations
import Idl.Proofs.DeclarationOrder
import Idl.Proofs.TransparentTypedefs
import Idl.Proofs.Gaps
import Idl.Proofs.TokenStream
import Idl.Proofs.WrittenTokens
import Idl.Proofs.ParallelParsing
import Idl.Proofs.Layouts
import Idl.Proofs.LinkedPrograms
import Idl.Proofs.PhaseDriver
import Idl.Proofs.EmbeddedPrograms
import Idl.Proofs.IncludedFiles
import Idl.Proofs.UnusedIncludes
import Idl.Proofs.HermeticCompilations
import Idl.Proofs.LoadTrace
import Idl.Proofs.StrictPhases
import Idl.Proofs.CharacterBoundaries
import Idl.Proofs.Visits
import Idl.Proofs.LexicalGrammar
import Idl.Proofs.OffsetLexer
import Idl.Proofs.MeasuredParser
import Idl.Proofs.ViablePrefixes
import Idl.Proofs.StoppingPlaces
import Idl.Proofs.SyntaxErrors
import Idl.Proofs.NodeDerivations
import Idl.Proofs.NodeSpans
import Idl.Proofs.Unambiguity
import Idl.Proofs.MovedTrees
import Idl.Proofs.DeclarationSlices
import Idl.Proofs.DisplayedText
import Idl.Proofs.TypedefWalks
import Idl.Proofs.ServiceCycles
import Idl.Proofs.IncludeCycles
import Idl.Proofs.TopologicalOrder
import Idl.Proofs.Redeclarations
import Idl.Proofs.StructInitializers
import Idl.Proofs.UnmaskedParts
import Idl.Proofs.Orders
import Idl.Proofs.Ways
import Idl.Proofs.StoredTexts
import Idl.Proofs.IncludeTargets
import Idl.Proofs.PaintedText
import Idl.Proofs.LinesAndColumns
import Idl.Proofs.TreeDumps
import Idl.Proofs.NodeViews
import Idl.Proofs.FaithfulDumps
import Idl.Proofs.FilledArenas
import Idl.Proofs.HeldTrees
import Idl.Proofs.ArenaPaths
