import Caap.Lib.Run
import Caap.Lib.Result
import Caap.Lib.OrdMap
import Caap.Lib.VersionedCell
import Caap.Lib.Sorting
import Caap.Lib.Chain
import Caap.Lib.Worklist
import Caap.Lib.Action
import Caap.Lib.Forest
import Caap.Lib.Coloring
import Caap.Lib.DepGraph
import Caap.Lib.Layering
import Caap.Lib.Delimited
import Caap.Lib.Passes
import Caap.Lib.Effects
import Caap.Lib.Closure
import Caap.Lib.Assoc
import Caap.Lib.Handlers
import Caap.Lib.Outcome
import Caap.Lib.Positional
import Caap.Lib.Backtrack
import Caap.Lib.GraphSearch
import Caap.Lib.Loop
import Caap.Lib.Trail
import Caap.Error
import Caap.Artifacts.Key
import Caap.Artifacts.Cache
import Caap.Artifacts.Reload
import Caap.Artifacts.Runs
import Caap.Artifacts.Invalidation
import Caap.Semantic.Value
import Caap.Runtime.Value
import Caap.Semantic.FactGraph
import Caap.Semantic.FactViews
import Caap.Semantic.Entry
import Caap.Semantic.Registry
import Caap.Semantic.Unified
import Caap.Semantic.Snapshot
import Caap.Semantic.UnifiedOps
import Caap.Semantic.Generations
import Caap.Ir.Node
import Caap.Ir.Graph
import Caap.Ir.Integrity
import Caap.Ir.Insertion
import Caap.Ir.Removal
import Caap.Ir.Mutators
import Caap.Ir.Template
import Caap.Ir.Forms
import Caap.Unit.Rewrite
import Caap.Unit.State
import Caap.Unit.Template
import Caap.Unit.Ops
import Caap.Unit.IrRuns
import Caap.Unit.Atomicity
import Caap.Query.Provider
import Caap.Query.WriteTracking
import Caap.Query.WriteDetection
import Caap.Query.IrChange
import Caap.Query.Schedule
import Caap.Query.Registry
import Caap.Query.Record
import Caap.Query.StageArtifact
import Caap.Query.StageReplay
import Caap.Query.IdentityToken
import Caap.Query.InitialBindings
import Caap.Peg.Expr
import Caap.Peg.Analysis
import Caap.Peg.Text
import Caap.Peg.Skip
import Caap.Peg.Terminals
import Caap.Peg.Engine
import Caap.Peg.Evaluator
import Caap.Peg.Loops
import Caap.Peg.Bounds
import Caap.Peg.BoundsRun
import Caap.Peg.Simulation
import Caap.Peg.Backtracking
import Caap.Peg.Compile
import Caap.Peg.LeftRecursion
import Caap.Kernel.Code
import Caap.Kernel.Value
import Caap.Kernel.Builtins
import Caap.Kernel.Eval
import Caap.Kernel.Discipline
import Caap.Kernel.DisciplineRun
import Caap.Kernel.Limits
import Caap.Kernel.Leave
import Caap.Kernel.Scopes
import Caap.Stdlib.Prims
import Caap.Stdlib.Bignum
import Caap.Stdlib.BignumMag
import Caap.Stdlib.BignumDiv
import Caap.Stdlib.BignumArith
import Caap.Stdlib.BignumInt
import Caap.Stdlib.BignumText
import Caap.Stdlib.BignumRoundTrip
import Caap.Frontend.Literal
import Caap.Stdlib.Regex
import Caap.Stdlib.RegexLanguage
import Caap.Stdlib.RegexMatch
import Caap.Stdlib.RegexParse
import Caap.Artifacts.Atomicity
import Caap.Ir.Replacement
import Caap.Ir.Readback
import Caap.Unit.Substitution
import Caap.Unit.NodeIdentity
import Caap.Query.Route
import Caap.Peg.FixedText
import Caap.Peg.Shadowing
import Caap.Peg.Rounds
import Caap.Peg.Trivia
import Caap.Peg.Edits
import Caap.Kernel.Names
import Caap.Unit.RewriteChain
