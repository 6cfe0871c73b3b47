import ObjectLang.Proofs.Inheritance
import ObjectLang.Proofs.Runs
import ObjectLang.Main
import ObjectLang.CommandLine.Tool
import ObjectLang.CommandLine.Invocation
import ObjectLang.CommandLine.Menu
import ObjectLang.CommandLine.Flag
import ObjectLang.Package.Install
import ObjectLang.Package.Checksum
import ObjectLang.Package.Repository
import ObjectLang.Package.Clone
import ObjectLang.Package.Bundle
import ObjectLang.Digest.Sha256
import ObjectLang.Package.Lockfile
import ObjectLang.Yaml.ScalarText
import ObjectLang.Yaml.RecordText
import ObjectLang.Package.Source
import ObjectLang.Yaml.Decode
import ObjectLang.Yaml.Node
import ObjectLang.Yaml.Token
import ObjectLang.Document.JsonText
import ObjectLang.Interpreter
import ObjectLang.Layout
import ObjectLang.Allocator
import ObjectLang.Syntax.Decode
import ObjectLang.Syntax.Encode
import ObjectLang.Document.Json
import ObjectLang.Number.Binary64
import ObjectLang.Number.Integer
import ObjectLang.Text.Quoted
import ObjectLang.Text.Slug
import ObjectLang.Proofs.Placement
import ObjectLang.Proofs.PlacedTable
import ObjectLang.Proofs.Discipline
import ObjectLang.Proofs.Frames
import ObjectLang.Proofs.Allocation
import ObjectLang.Proofs.Lexical
import ObjectLang.Proofs.Scoping
import ObjectLang.Proofs.RoundTrip
import ObjectLang.Proofs.CompleteRuns
import ObjectLang.Proofs.Effects
import ObjectLang.Proofs.FaultTrace
import ObjectLang.Proofs.LocalSlots
import ObjectLang.Proofs.HeapGrowth
import ObjectLang.Proofs.OpenCode
import ObjectLang.Proofs.FaultSpan
import ObjectLang.Proofs.Lockstep
import ObjectLang.Proofs.DepthLimit
import ObjectLang.Proofs.OutputChannels
import ObjectLang.Proofs.Linking
import ObjectLang.Proofs.DeclarationOrder
import ObjectLang.Proofs.CommandSequences
import ObjectLang.Proofs.CheckedPrograms
import ObjectLang.Proofs.Dispatch
import ObjectLang.Proofs.DependencyGraph
import ObjectLang.Proofs.RootDependencies
import ObjectLang.Proofs.StableInstall
import ObjectLang.Proofs.StructuralChecks
import ObjectLang.Proofs.InstalledLocks
import ObjectLang.Proofs.AllocatorWalks
import ObjectLang.Proofs.ScopeRule
import ObjectLang.Proofs.RepeatedLayout
import ObjectLang.Proofs.AncestorWalks
import ObjectLang.Proofs.InheritanceReports
import ObjectLang.Proofs.AlikeReadings
import ObjectLang.Proofs.ChildLists
import ObjectLang.Proofs.Shorthands
import ObjectLang.Proofs.NumberForms
import ObjectLang.Proofs.LockRoundTrip
import ObjectLang.Proofs.ContentChecksum
import ObjectLang.Proofs.CheckoutDirectories
import ObjectLang.Proofs.StackHistories
import ObjectLang.Proofs.HeapHistories
import ObjectLang.Proofs.ManifestChecks
