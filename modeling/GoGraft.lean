import GoGraft.Command.Store
import GoGraft.Main
import GoGraft.Proofs.BodyComments
import GoGraft.Proofs.BodyFields
import GoGraft.Proofs.BraceDepth
import GoGraft.Proofs.ByteOffsets
import GoGraft.Proofs.CheckRuns
import GoGraft.Proofs.CheckedEmission
import GoGraft.Proofs.Columns
import GoGraft.Proofs.CommentSurvival
import GoGraft.Proofs.Comments
import GoGraft.Proofs.DeclaredImports
import GoGraft.Proofs.DirectiveTraces
import GoGraft.Proofs.EditConflicts
import GoGraft.Proofs.EmissionFrame
import GoGraft.Proofs.EnclosingStruct
import GoGraft.Proofs.Encoding
import GoGraft.Proofs.ExactReports
import GoGraft.Proofs.FileEdits
import GoGraft.Proofs.FileLayout
import GoGraft.Proofs.FilePreamble
import GoGraft.Proofs.HeaderLines
import GoGraft.Proofs.ImportDeclarations
import GoGraft.Proofs.ImportEdits
import GoGraft.Proofs.ImportGroups
import GoGraft.Proofs.ImportLines
import GoGraft.Proofs.ImportLists
import GoGraft.Proofs.ImportSpecs
import GoGraft.Proofs.InjectionSteps
import GoGraft.Proofs.ItemLists
import GoGraft.Proofs.Leaves
import GoGraft.Proofs.Lexemes
import GoGraft.Proofs.Lexing
import GoGraft.Proofs.LineBraces
import GoGraft.Proofs.Openings
import GoGraft.Proofs.Places
import GoGraft.Proofs.Reading
import GoGraft.Proofs.ReadingDepth
import GoGraft.Proofs.ScanHistory
import GoGraft.Proofs.Scattered
import GoGraft.Proofs.SecondRun
import GoGraft.Proofs.SettledFiles
import GoGraft.Proofs.Splicing
import GoGraft.Proofs.TagMerging
import GoGraft.Proofs.TagRoundTrip
import GoGraft.Proofs.Texts
import GoGraft.Proofs.TreeShapes
import GoGraft.Proofs.Trivia
import GoGraft.Proofs.VerbatimSpans
import GoGraft.Proofs.InsertedImports
import GoGraft.Proofs.ImportsReadBack
import GoGraft.Proofs.GraftFailures
import GoGraft.Proofs.AddedFields
import GoGraft.Proofs.ColumnBlocks
import GoGraft.Proofs.MergedTags
import GoGraft.Proofs.SpecsReadBack
import GoGraft.Proofs.StringLiterals
import GoGraft.Proofs.TagTargets
import GoGraft.Proofs.SoleFields
import GoGraft.Proofs.LastRuns
import GoGraft.Proofs.ListEndings
import GoGraft.Proofs.GroupGrowth
import GoGraft.Proofs.LegalAdditions
import GoGraft.Proofs.Marks
import GoGraft.Proofs.StableTargets
import GoGraft.Proofs.TokenStreams
import GoGraft.Proofs.BareTokens
import GoGraft.Proofs.FieldTokens
import GoGraft.Proofs.HeaderGrammar
import GoGraft.Proofs.TypeGroups
import GoGraft.Proofs.PathOrder
import GoGraft.Proofs.CollectedInputs
import GoGraft.Proofs.VerbatimTags
import GoGraft.Proofs.CodePieces
