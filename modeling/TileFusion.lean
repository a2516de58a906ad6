import TileFusion.Build
import TileFusion.Build.Check
import TileFusion.Build.Error
import TileFusion.Build.Resolve
import TileFusion.Command
import TileFusion.Command.Action
import TileFusion.Command.Disk
import TileFusion.Command.Options
import TileFusion.Description.Check
import TileFusion.Description.Loading
import TileFusion.Description.Reader
import TileFusion.Description.Schema
import TileFusion.Format
import TileFusion.FormatPlan
import TileFusion.Log
import TileFusion.Main
import TileFusion.Named
import TileFusion.Operand
import TileFusion.Pipeline
import TileFusion.Placement
import TileFusion.Platform
import TileFusion.Program.Batch
import TileFusion.Program.Call
import TileFusion.Program.Index
import TileFusion.Program.Lowering
import TileFusion.Program.StageNames
import TileFusion.Program.Statement
import TileFusion.Proofs.Acceptance
import TileFusion.Proofs.AcceptedDescriptions
import TileFusion.Proofs.AccumulatorPlaces
import TileFusion.Proofs.AccumulatorReuse
import TileFusion.Proofs.AccumulatorWidth
import TileFusion.Proofs.AppendedStage
import TileFusion.Proofs.BatchWalk
import TileFusion.Proofs.Blame
import TileFusion.Proofs.BufferFormats
import TileFusion.Proofs.BuiltStages
import TileFusion.Proofs.CallWords
import TileFusion.Proofs.CheckedBuild
import TileFusion.Proofs.CheckedCode
import TileFusion.Proofs.CheckedStages
import TileFusion.Proofs.Clashes
import TileFusion.Proofs.CommandRuns
import TileFusion.Proofs.DeclarationOrder
import TileFusion.Proofs.Derivation
import TileFusion.Proofs.DescribedNames
import TileFusion.Proofs.DescribedSettings
import TileFusion.Proofs.Device
import TileFusion.Proofs.ErrorReports
import TileFusion.Proofs.FirstFit
import TileFusion.Proofs.FullReports
import TileFusion.Proofs.FusedForms
import TileFusion.Proofs.FusedStages
import TileFusion.Proofs.Handshakes
import TileFusion.Proofs.Identifiers
import TileFusion.Proofs.LegibleCalls
import TileFusion.Proofs.LowestPlaces
import TileFusion.Proofs.MemoryLayout
import TileFusion.Proofs.NameIndependence
import TileFusion.Proofs.PlannedFormats
import TileFusion.Proofs.Registries
import TileFusion.Proofs.RegistryGrowth
import TileFusion.Proofs.RelaxedBatches
import TileFusion.Proofs.Renaming
import TileFusion.Proofs.Rendering
import TileFusion.Proofs.Schedule
import TileFusion.Proofs.Scopes
import TileFusion.Proofs.Sections
import TileFusion.Proofs.Sessions
import TileFusion.Proofs.StageErrors
import TileFusion.Proofs.StageHandoff
import TileFusion.Proofs.ThreadAgreement
import TileFusion.Proofs.TileBounds
import TileFusion.Proofs.TileOrder
import TileFusion.Proofs.TileWalks
import TileFusion.Proofs.UniformBatches
import TileFusion.Proofs.Unrolling
import TileFusion.Proofs.Validity
import TileFusion.Proofs.Words
import TileFusion.Proofs.Writing
import TileFusion.Proofs.WrittenLoops
import TileFusion.Registry
import TileFusion.Scalar.Decimal
import TileFusion.Scalar.Layout
import TileFusion.Source.CallText
import TileFusion.Source.Kernel
import TileFusion.Source.Line
import TileFusion.Stage
import TileFusion.Stage.Arithmetic
import TileFusion.Stage.Loader
import TileFusion.Stage.Nonlinear
import TileFusion.Text.Quoted
import TileFusion.Text.Unprintable
import TileFusion.Toml.Document
import TileFusion.Toml.Number
import TileFusion.Toml.Text
import TileFusion.Toml.Value
