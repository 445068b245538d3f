import WorkflowCompiler.Builder.Arguments
import WorkflowCompiler.Builder.Composition
import WorkflowCompiler.Builder.Directive
import WorkflowCompiler.Builder.Event
import WorkflowCompiler.Builder.EventMaker
import WorkflowCompiler.Builder.Job
import WorkflowCompiler.Builder.Known
import WorkflowCompiler.Builder.Methods
import WorkflowCompiler.Builder.Preset
import WorkflowCompiler.Builder.Reference
import WorkflowCompiler.Builder.Rendering
import WorkflowCompiler.Builder.Step
import WorkflowCompiler.Builder.Store
import WorkflowCompiler.Builder.Wording
import WorkflowCompiler.Builder.Workflow
import WorkflowCompiler.Builder.Workspace
import WorkflowCompiler.Choice
import WorkflowCompiler.Command.Console
import WorkflowCompiler.Command.Run
import WorkflowCompiler.Command.Terminal
import WorkflowCompiler.Command.Usage
import WorkflowCompiler.Diff.Hunk
import WorkflowCompiler.Diff.Matching
import WorkflowCompiler.Diff.Report
import WorkflowCompiler.Diff.Resemblance
import WorkflowCompiler.Disk
import WorkflowCompiler.Failure
import WorkflowCompiler.Main
import WorkflowCompiler.Number.Binary64
import WorkflowCompiler.Number.Decimal
import WorkflowCompiler.Number.Size
import WorkflowCompiler.Path.Address
import WorkflowCompiler.Path.Host
import WorkflowCompiler.Path.Posix
import WorkflowCompiler.Proofs.Annotations
import WorkflowCompiler.Proofs.AwaitedWorkflows
import WorkflowCompiler.Proofs.BlockMeaning
import WorkflowCompiler.Proofs.BlockPlaces
import WorkflowCompiler.Proofs.BlockScanning
import WorkflowCompiler.Proofs.BuildFrames
import WorkflowCompiler.Proofs.BuildRuns
import WorkflowCompiler.Proofs.BuiltObjects
import WorkflowCompiler.Proofs.BuiltRecords
import WorkflowCompiler.Proofs.CallArguments
import WorkflowCompiler.Proofs.CallFrames
import WorkflowCompiler.Proofs.CallbackNames
import WorkflowCompiler.Proofs.CheckEndings
import WorkflowCompiler.Proofs.CheckOrder
import WorkflowCompiler.Proofs.CheckedFiles
import WorkflowCompiler.Proofs.CommandLines
import WorkflowCompiler.Proofs.Comparison
import WorkflowCompiler.Proofs.ComparisonLines
import WorkflowCompiler.Proofs.CursorMoves
import WorkflowCompiler.Proofs.CutRuns
import WorkflowCompiler.Proofs.DanglingNeeds
import WorkflowCompiler.Proofs.DecimalRounding
import WorkflowCompiler.Proofs.DeclaredNames
import WorkflowCompiler.Proofs.DefaultNames
import WorkflowCompiler.Proofs.DiskPaths
import WorkflowCompiler.Proofs.DiskPlaces
import WorkflowCompiler.Proofs.DocumentNodes
import WorkflowCompiler.Proofs.DocumentTokens
import WorkflowCompiler.Proofs.EmptyReports
import WorkflowCompiler.Proofs.EventEntries
import WorkflowCompiler.Proofs.ExpressionTexts
import WorkflowCompiler.Proofs.FailedCalls
import WorkflowCompiler.Proofs.FileAddresses
import WorkflowCompiler.Proofs.FilesApart
import WorkflowCompiler.Proofs.FiniteValues
import WorkflowCompiler.Proofs.FloatTexts
import WorkflowCompiler.Proofs.Formula
import WorkflowCompiler.Proofs.FormulaBuilding
import WorkflowCompiler.Proofs.FormulaReading
import WorkflowCompiler.Proofs.FormulaSpelling
import WorkflowCompiler.Proofs.FormulaTokens
import WorkflowCompiler.Proofs.FractionRounding
import WorkflowCompiler.Proofs.GenerateEndings
import WorkflowCompiler.Proofs.GeneratedFiles
import WorkflowCompiler.Proofs.HeldObjects
import WorkflowCompiler.Proofs.HopLimits
import WorkflowCompiler.Proofs.Interpolations
import WorkflowCompiler.Proofs.JobFaults
import WorkflowCompiler.Proofs.JobRecords
import WorkflowCompiler.Proofs.JoinedEvents
import WorkflowCompiler.Proofs.KebabCase
import WorkflowCompiler.Proofs.KebabWords
import WorkflowCompiler.Proofs.LastPuts
import WorkflowCompiler.Proofs.LiteralBlocks
import WorkflowCompiler.Proofs.MakingDirectories
import WorkflowCompiler.Proofs.MatchedLines
import WorkflowCompiler.Proofs.MatrixAxes
import WorkflowCompiler.Proofs.MethodOutcomes
import WorkflowCompiler.Proofs.NamedEntries
import WorkflowCompiler.Proofs.NestedFailures
import WorkflowCompiler.Proofs.NumberTexts
import WorkflowCompiler.Proofs.OperandGrouping
import WorkflowCompiler.Proofs.PatchReports
import WorkflowCompiler.Proofs.PathAttributes
import WorkflowCompiler.Proofs.PathTexts
import WorkflowCompiler.Proofs.PlainFailures
import WorkflowCompiler.Proofs.PlainRecords
import WorkflowCompiler.Proofs.PlainScalars
import WorkflowCompiler.Proofs.PreparingRoot
import WorkflowCompiler.Proofs.Publishing
import WorkflowCompiler.Proofs.QuotedScalars
import WorkflowCompiler.Proofs.ReachingRoot
import WorkflowCompiler.Proofs.ReadingFiles
import WorkflowCompiler.Proofs.RenderedFiles
import WorkflowCompiler.Proofs.RenderingAgreement
import WorkflowCompiler.Proofs.Results
import WorkflowCompiler.Proofs.RootDirectories
import WorkflowCompiler.Proofs.RunnerGrammar
import WorkflowCompiler.Proofs.RunnerLabels
import WorkflowCompiler.Proofs.ScalarScanning
import WorkflowCompiler.Proofs.ScalarStyles
import WorkflowCompiler.Proofs.ScriptHistories
import WorkflowCompiler.Proofs.ServiceNames
import WorkflowCompiler.Proofs.SessionChanges
import WorkflowCompiler.Proofs.SoundBuilding
import WorkflowCompiler.Proofs.SoundCalls
import WorkflowCompiler.Proofs.SoundMakers
import WorkflowCompiler.Proofs.SoundMethods
import WorkflowCompiler.Proofs.SpelledBuilding
import WorkflowCompiler.Proofs.SpelledEvents
import WorkflowCompiler.Proofs.SpelledMakers
import WorkflowCompiler.Proofs.SpelledMethods
import WorkflowCompiler.Proofs.SpelledPrograms
import WorkflowCompiler.Proofs.SpelledRecords
import WorkflowCompiler.Proofs.SpelledSessions
import WorkflowCompiler.Proofs.SpelledTexts
import WorkflowCompiler.Proofs.SpelledValues
import WorkflowCompiler.Proofs.StoreChanges
import WorkflowCompiler.Proofs.TextRuns
import WorkflowCompiler.Proofs.TokenScanning
import WorkflowCompiler.Proofs.UpToDate
import WorkflowCompiler.Proofs.Utf8Decoding
import WorkflowCompiler.Proofs.ValueTrees
import WorkflowCompiler.Proofs.WorkflowFaults
import WorkflowCompiler.Proofs.WritingFiles
import WorkflowCompiler.Proofs.WrittenFiles
import WorkflowCompiler.Publish.Bundle
import WorkflowCompiler.Publish.Checking
import WorkflowCompiler.Publish.Destination
import WorkflowCompiler.Publish.Files
import WorkflowCompiler.Publish.Note
import WorkflowCompiler.Publish.Writing
import WorkflowCompiler.Script.Evaluate
import WorkflowCompiler.Script.Recipe
import WorkflowCompiler.Script.Report
import WorkflowCompiler.Script.Session
import WorkflowCompiler.Script.Task
import WorkflowCompiler.Script.View
import WorkflowCompiler.Text.Blank
import WorkflowCompiler.Text.Kebab
import WorkflowCompiler.Text.Lines
import WorkflowCompiler.Text.Printable
import WorkflowCompiler.Text.Quoted
import WorkflowCompiler.Text.Utf8
import WorkflowCompiler.Tree
import WorkflowCompiler.Value
import WorkflowCompiler.Value.Equality
import WorkflowCompiler.Yaml.Cursor
import WorkflowCompiler.Yaml.Document
import WorkflowCompiler.Yaml.Load
import WorkflowCompiler.Yaml.Node
import WorkflowCompiler.Yaml.Resolution
import WorkflowCompiler.Yaml.ScalarText
import WorkflowCompiler.Yaml.Style
import WorkflowCompiler.Yaml.Token
import WorkflowCompiler.Yaml.Tokens
