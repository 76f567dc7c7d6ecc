import JavaCallGraph.Analysis
import JavaCallGraph.Catalog
import JavaCallGraph.CommandLine
import JavaCallGraph.CommandLine.Arguments
import JavaCallGraph.Config
import JavaCallGraph.ConstraintSet
import JavaCallGraph.Descriptor
import JavaCallGraph.Dispatch
import JavaCallGraph.Error
import JavaCallGraph.FileTree
import JavaCallGraph.Graph
import JavaCallGraph.Graph.Artifact
import JavaCallGraph.Graph.Document
import JavaCallGraph.Graph.Walk
import JavaCallGraph.Hierarchy
import JavaCallGraph.Hierarchy.Closure
import JavaCallGraph.Hierarchy.Search
import JavaCallGraph.Hierarchy.View
import JavaCallGraph.Inference.Body
import JavaCallGraph.Inference.Engine
import JavaCallGraph.Inference.Summary
import JavaCallGraph.Inference.Walk
import JavaCallGraph.Json.Reader
import JavaCallGraph.Json.Shape
import JavaCallGraph.Json.Value
import JavaCallGraph.Json.Writer
import JavaCallGraph.Library.Builtin
import JavaCallGraph.Library.MemberText
import JavaCallGraph.Library.Spec
import JavaCallGraph.Library.TypeText
import JavaCallGraph.Main
import JavaCallGraph.Overload
import JavaCallGraph.Pattern
import JavaCallGraph.Pattern.CharSet
import JavaCallGraph.Pattern.Class
import JavaCallGraph.Pattern.CodeRange
import JavaCallGraph.Pattern.Expr
import JavaCallGraph.Pattern.Flags
import JavaCallGraph.Pattern.Reader
import JavaCallGraph.Pattern.Size
import JavaCallGraph.Pattern.Traits
import JavaCallGraph.Program
import JavaCallGraph.Roots
import JavaCallGraph.Run
import JavaCallGraph.Scope
import JavaCallGraph.Signature
import JavaCallGraph.SourceSet
import JavaCallGraph.SourceSet.Glob
import JavaCallGraph.SourceSet.IgnoreFiles
import JavaCallGraph.SourceSet.IgnoreRule
import JavaCallGraph.SourceSet.Scan
import JavaCallGraph.StaticType
import JavaCallGraph.Stats
import JavaCallGraph.Text.Alphanumeric
import JavaCallGraph.Text.Blank
import JavaCallGraph.Text.Digest
import JavaCallGraph.Text.Digits
import JavaCallGraph.Text.LetterCase
import JavaCallGraph.Text.Place
import JavaCallGraph.Text.Split
import JavaCallGraph.Text.Utf8
import JavaCallGraph.Text.WordChar
import JavaCallGraph.Tree
import JavaCallGraph.TypeNode
import JavaCallGraph.Unit
import JavaCallGraph.Unit.Document
import JavaCallGraph.Unit.Lowering
import JavaCallGraph.Unit.Types
import JavaCallGraph.Value
import JavaCallGraph.Proofs.SignatureCodec
import JavaCallGraph.Proofs.HierarchyClosure
import JavaCallGraph.Proofs.VirtualDispatch
import JavaCallGraph.Proofs.Unrolled
import JavaCallGraph.Proofs.QueryHistory
import JavaCallGraph.Proofs.EngineMachine
import JavaCallGraph.Proofs.EngineDiscipline
import JavaCallGraph.Proofs.SupertypeCycles
import JavaCallGraph.Proofs.CyclePolicies
import JavaCallGraph.Proofs.GraphEdges
import JavaCallGraph.Proofs.ListedMethods
import JavaCallGraph.Proofs.WalkCallees
import JavaCallGraph.Proofs.EdgeEnds
import JavaCallGraph.Proofs.GraphMerges
import JavaCallGraph.Proofs.Placement
import JavaCallGraph.Proofs.UnitOrder
import JavaCallGraph.Proofs.DuplicateUnits
import JavaCallGraph.Proofs.DocumentRoundTrip
import JavaCallGraph.Proofs.ScopeNames
import JavaCallGraph.Proofs.LibraryNames
import JavaCallGraph.Proofs.TreeNames
import JavaCallGraph.Proofs.LoweredNames
import JavaCallGraph.Proofs.TreeCalls
import JavaCallGraph.Proofs.TreeGrammar
import JavaCallGraph.Proofs.CallAccounts
import JavaCallGraph.Proofs.ExpressionCalls
import JavaCallGraph.Proofs.LoweredCalls
import JavaCallGraph.Proofs.DeclaredMethods
import JavaCallGraph.Proofs.ReadableGraph
import JavaCallGraph.Proofs.ArtifactFiles
import JavaCallGraph.Proofs.InheritedMethods
import JavaCallGraph.Proofs.FirstDeclarations
import JavaCallGraph.Proofs.OverrideExpansion
import JavaCallGraph.Proofs.ConversionOrder
import JavaCallGraph.Proofs.OverloadCycles
import JavaCallGraph.Proofs.ConversionPhases
import JavaCallGraph.Proofs.LoweredComments
import JavaCallGraph.Proofs.DispatchSets
import JavaCallGraph.Proofs.InvocationConversion
import JavaCallGraph.Proofs.TypeRenaming
import JavaCallGraph.Proofs.GenericMethods
import JavaCallGraph.Proofs.DeclarationHeads
import JavaCallGraph.Proofs.SharedTypes
import JavaCallGraph.Proofs.WalkFrames
import JavaCallGraph.Proofs.ReplacedBodies
import JavaCallGraph.Proofs.SiblingScopes
import JavaCallGraph.Proofs.CycleReports
import JavaCallGraph.Proofs.Narrowing
import JavaCallGraph.Proofs.SettledAnswers
import JavaCallGraph.Proofs.WalkGrowth
import JavaCallGraph.Proofs.WalkSteps
import JavaCallGraph.Proofs.PassFixedPoint
import JavaCallGraph.Proofs.SteadyValues
import JavaCallGraph.Proofs.DirectCalls
import JavaCallGraph.Proofs.DirectBodies
import JavaCallGraph.Proofs.DeclaredBounds
import JavaCallGraph.Proofs.PassLimit
import JavaCallGraph.Proofs.RecordedMembers
import JavaCallGraph.Proofs.MethodMasking
import JavaCallGraph.Proofs.LostOverloads
import JavaCallGraph.Proofs.RootReachability
import JavaCallGraph.Proofs.BreadthFirstOrder
import JavaCallGraph.Proofs.BoundedWalks
import JavaCallGraph.Proofs.WalkQueue
import JavaCallGraph.Proofs.PersistedGraphs
import JavaCallGraph.Proofs.SourceNodes
import JavaCallGraph.Proofs.SignatureClashes
import JavaCallGraph.Proofs.ArtifactNames
import JavaCallGraph.Proofs.GenericViews
import JavaCallGraph.Proofs.KnownNames
import JavaCallGraph.Proofs.TypeGrammar
import JavaCallGraph.Proofs.WrittenTypes
import JavaCallGraph.Proofs.MemberCuts
import JavaCallGraph.Proofs.BodyTables
import JavaCallGraph.Proofs.DeclaredTypes
import JavaCallGraph.Proofs.LoweredTypes
import JavaCallGraph.Proofs.TypeNaming
import JavaCallGraph.Proofs.CoherentMethods
