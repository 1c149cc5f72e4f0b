import ContinuousQuery.Algebra.Growth
import ContinuousQuery.Algebra.Lowering
import ContinuousQuery.Algebra.Operator
import ContinuousQuery.Algebra.Tree
import ContinuousQuery.CommandLine.Arguments
import ContinuousQuery.CommandLine.Directory
import ContinuousQuery.CommandLine.Execution
import ContinuousQuery.CommandLine.FileName
import ContinuousQuery.CommandLine.Help
import ContinuousQuery.GraphPattern
import ContinuousQuery.Join
import ContinuousQuery.Lexical.Iri
import ContinuousQuery.Lexical.LanguageTag
import ContinuousQuery.Lexical.MediaType
import ContinuousQuery.Lexical.Name
import ContinuousQuery.Lexical.Number
import ContinuousQuery.Lexical.Quoted
import ContinuousQuery.Lexical.Scanner
import ContinuousQuery.Main
import ContinuousQuery.NameSet
import ContinuousQuery.OrderedMap
import ContinuousQuery.Pattern
import ContinuousQuery.Plan.CompiledQuery
import ContinuousQuery.Plan.JoinKeys
import ContinuousQuery.Plan.StageId
import ContinuousQuery.Projection
import ContinuousQuery.QueryPlan
import ContinuousQuery.Rdf.Format
import ContinuousQuery.Rdf.Lines
import ContinuousQuery.Rdf.Token
import ContinuousQuery.Rdf.Turtle
import ContinuousQuery.Results.Format
import ContinuousQuery.Results.Json
import ContinuousQuery.Results.Table
import ContinuousQuery.Results.Xml
import ContinuousQuery.Solution
import ContinuousQuery.Sparql.Expressions
import ContinuousQuery.Sparql.Groups
import ContinuousQuery.Sparql.Query
import ContinuousQuery.Sparql.Rules
import ContinuousQuery.Sparql.Scope
import ContinuousQuery.Sparql.Select
import ContinuousQuery.Sparql.Triples
import ContinuousQuery.Stream.JoinState
import ContinuousQuery.Stream.Processor
import ContinuousQuery.Stream.Record
import ContinuousQuery.Stream.Store
import ContinuousQuery.Term
import ContinuousQuery.Topology.Assembly
import ContinuousQuery.Topology.Basic
import ContinuousQuery.Topology.Builder
import ContinuousQuery.Topology.Driver
import ContinuousQuery.Visibility
import ContinuousQuery.Proofs.Compatibility
import ContinuousQuery.Proofs.StoreKeys
import ContinuousQuery.Proofs.JoinHistory
import ContinuousQuery.Proofs.JoinRun
import ContinuousQuery.Proofs.JoinProcessor
import ContinuousQuery.Proofs.BuiltTrees
import ContinuousQuery.Proofs.Network
import ContinuousQuery.Proofs.OperatorTrees
import ContinuousQuery.Proofs.StageTrees
import ContinuousQuery.Proofs.Wiring
import ContinuousQuery.Proofs.Delivery
import ContinuousQuery.Proofs.Sessions
import ContinuousQuery.Proofs.Evaluation
import ContinuousQuery.Proofs.NaturalJoins
import ContinuousQuery.Proofs.LoweredTrees
import ContinuousQuery.Proofs.BasicPatterns
import ContinuousQuery.Proofs.Optionals
import ContinuousQuery.Proofs.Duplicates
import ContinuousQuery.Proofs.Noninterference
import ContinuousQuery.Proofs.Safety
import ContinuousQuery.Proofs.Compilation
import ContinuousQuery.Proofs.Readers
import ContinuousQuery.Proofs.StreamablePatterns
import ContinuousQuery.Proofs.StageNames
import ContinuousQuery.Proofs.Repetitions
import ContinuousQuery.Proofs.Builders
import ContinuousQuery.Proofs.OrderedTopologies
import ContinuousQuery.Proofs.MirroredPlans
import ContinuousQuery.Proofs.Candidates
import ContinuousQuery.Proofs.Watching
import ContinuousQuery.Proofs.BoundNames
import ContinuousQuery.Proofs.BuildableQueries
import ContinuousQuery.Proofs.Handling
import ContinuousQuery.Proofs.PlannedProjections
import ContinuousQuery.Proofs.PendingDeliveries
import ContinuousQuery.Proofs.Retention
import ContinuousQuery.Proofs.Additions
import ContinuousQuery.Proofs.Assignments
import ContinuousQuery.Proofs.PrivateBlanks
import ContinuousQuery.Proofs.SpanningTrees
import ContinuousQuery.Proofs.MergedBindings
import ContinuousQuery.Proofs.PlannedKeys
import ContinuousQuery.Proofs.StoreContents
import ContinuousQuery.Proofs.CollectedMaps
import ContinuousQuery.Proofs.EditedBindings
