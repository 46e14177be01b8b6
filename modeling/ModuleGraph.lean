import ModuleGraph.BuildError
import ModuleGraph.ClassList
import ModuleGraph.CommandLine.Arguments
import ModuleGraph.CommandLine.Environment
import ModuleGraph.CommandLine.Failure
import ModuleGraph.CommandLine.Run
import ModuleGraph.CommandLine.Style
import ModuleGraph.CommandLine.Summary
import ModuleGraph.Config.Declaration
import ModuleGraph.Config.File
import ModuleGraph.Config.ModuleSpec
import ModuleGraph.Config.Record
import ModuleGraph.Config.Validation
import ModuleGraph.Dependence
import ModuleGraph.Document.Json
import ModuleGraph.Document.Toml.Number
import ModuleGraph.Document.Toml.Reading
import ModuleGraph.Document.Toml.Text
import ModuleGraph.Document.Toml.Tree
import ModuleGraph.Document.Toml.Writing
import ModuleGraph.Document.Value
import ModuleGraph.Event
import ModuleGraph.FileSystem
import ModuleGraph.FileTree
import ModuleGraph.LoadOrder
import ModuleGraph.Main
import ModuleGraph.Members
import ModuleGraph.Modifiers
import ModuleGraph.ModuleInfo
import ModuleGraph.ModuleTable
import ModuleGraph.Optionality
import ModuleGraph.Package
import ModuleGraph.Partition.Claim
import ModuleGraph.Partition.Closure
import ModuleGraph.Pattern.Basic
import ModuleGraph.Pattern.Reading
import ModuleGraph.Pattern.Set
import ModuleGraph.Platform
import ModuleGraph.QualifiedName
import ModuleGraph.Registry.Basic
import ModuleGraph.Registry.Classes
import ModuleGraph.Registry.Resources
import ModuleGraph.Report.Actions
import ModuleGraph.Report.Basic
import ModuleGraph.Report.Descriptor
import ModuleGraph.Report.Document
import ModuleGraph.Resolution.Build
import ModuleGraph.Resolution.Evidence
import ModuleGraph.Resolution.Exporters
import ModuleGraph.Resolution.Finish
import ModuleGraph.Resolution.Options
import ModuleGraph.Resolution.Surface
import ModuleGraph.ServiceDescriptor
import ModuleGraph.SplitPackages
import ModuleGraph.Text.Blank
import ModuleGraph.Text.Bytes
import ModuleGraph.Text.Ends
import ModuleGraph.Text.Letter
import ModuleGraph.Text.Quoted
import ModuleGraph.Text.Split
import ModuleGraph.View
import ModuleGraph.Proofs.Ends
import ModuleGraph.Proofs.Ownership.Chains
import ModuleGraph.Proofs.Ownership.Claims
import ModuleGraph.Proofs.TreeMap
import ModuleGraph.Proofs.Members.Links
import ModuleGraph.Proofs.Ownership.Closure
import ModuleGraph.Proofs.Members.Trees
import ModuleGraph.Proofs.Members.Merging
import ModuleGraph.Proofs.Dependences.Summary
import ModuleGraph.Proofs.Ownership.Division
import ModuleGraph.Proofs.Ownership.Following
import ModuleGraph.Proofs.Ownership.Runs
import ModuleGraph.Proofs.Dependences.Evidence
import ModuleGraph.Proofs.Packages
import ModuleGraph.Proofs.SplitPackages
import ModuleGraph.Proofs.Dependences.Sorting
import ModuleGraph.Proofs.Dependences.Finish
import ModuleGraph.Proofs.ModuleInfos
import ModuleGraph.Proofs.LoadOrder
import ModuleGraph.Proofs.Resolution
import ModuleGraph.Proofs.Preparation
import ModuleGraph.Proofs.Builder
import ModuleGraph.Proofs.Registry.Population
import ModuleGraph.Proofs.Order
import ModuleGraph.Proofs.Failures
import ModuleGraph.Proofs.Reports
import ModuleGraph.Proofs.Requires
import ModuleGraph.Proofs.Ownership.Takes
import ModuleGraph.Proofs.Ownership.Search
import ModuleGraph.Proofs.Ownership.Completion
import ModuleGraph.Proofs.PermitPasses
import ModuleGraph.Proofs.Stages
import ModuleGraph.Proofs.Permits
import ModuleGraph.Proofs.Exporters
import ModuleGraph.Proofs.Redirection
import ModuleGraph.Proofs.Alike
import ModuleGraph.Proofs.Registry.Knowledge
import ModuleGraph.Proofs.ClassList
import ModuleGraph.Proofs.Dependences.Exact
import ModuleGraph.Proofs.Renaming.Partitions
import ModuleGraph.Proofs.Renaming.Claims
import ModuleGraph.Proofs.Renaming.Members
import ModuleGraph.Proofs.Renaming.Preparation
import ModuleGraph.Proofs.Renaming.Evidence
import ModuleGraph.Proofs.Renaming.Surfaces
import ModuleGraph.Proofs.Renaming.Resolution
import ModuleGraph.Proofs.Renaming.Builder
import ModuleGraph.Proofs.Renaming.LineOrder
import ModuleGraph.Proofs.RedirectedEdges
import ModuleGraph.Proofs.Privileges
import ModuleGraph.Proofs.Aggregates
import ModuleGraph.Proofs.Members.Declarations
import ModuleGraph.Proofs.Members.Combining
import ModuleGraph.Proofs.Members.Rearranging
import ModuleGraph.Proofs.RelatedMaps
import ModuleGraph.Proofs.Easing.Dependences
import ModuleGraph.Proofs.Easing.Modules
import ModuleGraph.Proofs.Easing.Builds
import ModuleGraph.Proofs.Dependences.Settled
import ModuleGraph.Proofs.Specifications
import ModuleGraph.Proofs.Views.Binding
import ModuleGraph.Proofs.Views.Names
import ModuleGraph.Proofs.Lookups
import ModuleGraph.Proofs.Paths
import ModuleGraph.Proofs.FileActions
import ModuleGraph.Proofs.ModuleNames
import ModuleGraph.Proofs.ReportFiles
import ModuleGraph.Proofs.Views.Surfaces
import ModuleGraph.Proofs.Views.Exports
import ModuleGraph.Proofs.Members.Quotient
import ModuleGraph.Proofs.Cycles
import ModuleGraph.Proofs.Ownership.FirstMatch
import ModuleGraph.Proofs.Unresolved
import ModuleGraph.Proofs.Config.Files
import ModuleGraph.Proofs.Members.Cycles
import ModuleGraph.Proofs.Registry.Refusals
import ModuleGraph.Proofs.Registry.Extension
import ModuleGraph.Proofs.Registry.Soundness
import ModuleGraph.Proofs.Registry.Histories
import ModuleGraph.Proofs.Promotion
import ModuleGraph.Proofs.PermitFixpoint
import ModuleGraph.Proofs.Ownership.Shares
import ModuleGraph.Proofs.Tallies
import ModuleGraph.Proofs.ClassList.Readings
import ModuleGraph.Proofs.ClassList.Files
import ModuleGraph.Proofs.ClassList.Denotation
import ModuleGraph.Proofs.Patterns
import ModuleGraph.Proofs.Patterns.Texts
import ModuleGraph.Proofs.ServiceDescriptors
import ModuleGraph.Proofs.Dependences.Totals
import ModuleGraph.Proofs.Clauses
import ModuleGraph.Proofs.Descriptors
