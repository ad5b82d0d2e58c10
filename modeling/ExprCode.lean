import ExprCode.Number.Word
import ExprCode.Number.Binary
import ExprCode.Decimal.Shortest
import ExprCode.Decimal.Text
import ExprCode.Text.Hex
import ExprCode.Text.Ranges
import ExprCode.Text.Unassigned
import ExprCode.Text.Unprintable
import ExprCode.Text.Quoted
import ExprCode.Ty
import ExprCode.Ty.Promotion
import ExprCode.Opcode
import ExprCode.Instruction
import ExprCode.Expr
import ExprCode.Message
import ExprCode.Value
import ExprCode.Heap
import ExprCode.RuntimeError
import ExprCode.Value.Arithmetic
import ExprCode.Host
import ExprCode.Bytes
import ExprCode.Layout
import ExprCode.Code
import ExprCode.Code.Listing
import ExprCode.Action
import ExprCode.Machine
import ExprCode.Defect
import ExprCode.Operators
import ExprCode.Environment
import ExprCode.Emitter.Table
import ExprCode.Emitter
import ExprCode.Emitter.Encoding
import ExprCode.Operators.Overload
import ExprCode.Typing
import ExprCode.Chain.Branches
import ExprCode.Chain
import ExprCode.Codegen
import ExprCode.Text.Lines
import ExprCode.Evaluation
import ExprCode.Report
import ExprCode.Host.Table
import ExprCode.Host.Stock
import ExprCode.Emitter.Command
import ExprCode.Chain.Formula
import ExprCode.Ty.Order
import ExprCode.Workshop
import ExprCode.Semantics
import ExprCode.Proofs.ExprTree
import ExprCode.Proofs.Runs
import ExprCode.Proofs.TypeJudgement
import ExprCode.Proofs.TypingTables
import ExprCode.Proofs.Environments
import ExprCode.Proofs.CodeShape
import ExprCode.Proofs.Placement
import ExprCode.Proofs.EmitterSteps
import ExprCode.Proofs.Generation
import ExprCode.Proofs.OperatorRules
import ExprCode.Proofs.ChainLowering
import ExprCode.Proofs.Traversal
import ExprCode.Proofs.FramePool
import ExprCode.Proofs.ChainEmission
import ExprCode.Proofs.ChainLabels
import ExprCode.Proofs.Emission
import ExprCode.Proofs.LayoutPasses
import ExprCode.Proofs.Decoding
import ExprCode.Proofs.ShortestLayout
import ExprCode.Proofs.ReachableEmitters
import ExprCode.Proofs.Compilation
import ExprCode.Proofs.Execution
import ExprCode.Proofs.SemanticPreservation
import ExprCode.Proofs.CodeParts
import ExprCode.Proofs.SafeEvaluation
import ExprCode.Proofs.TypeSoundness
import ExprCode.Proofs.Agreement
import ExprCode.Proofs.StackEffects
import ExprCode.Proofs.StackDiscipline
import ExprCode.Proofs.RoundTrip
import ExprCode.Proofs.ExpectedErrors
import ExprCode.Proofs.CleanOperations
import ExprCode.Proofs.CleanGeneration
import ExprCode.Proofs.LoweredChains
import ExprCode.Proofs.StraightCode
import ExprCode.Proofs.ShortCircuit
import ExprCode.Proofs.Splices
import ExprCode.Proofs.ParallelPaths
import ExprCode.Proofs.StaleForks
import ExprCode.Proofs.EmitterInvariant
import ExprCode.Proofs.ForwardEmission
import ExprCode.Proofs.ForwardGeneration
import ExprCode.Proofs.ClosedCode
import ExprCode.Proofs.FailedOperations
import ExprCode.Proofs.RegistrationOrder
import ExprCode.Proofs.Conditions
import ExprCode.Proofs.SharedTyping
import ExprCode.Proofs.Unfolding
import ExprCode.Proofs.SharedChains
import ExprCode.Proofs.Sharing
import ExprCode.Proofs.IntegerArithmetic
import ExprCode.Proofs.BareMachine
import ExprCode.Proofs.MachineSafety
import ExprCode.Proofs.Renaming
import ExprCode.Proofs.LexicalBindings
import ExprCode.Proofs.ArrayOwnership
import ExprCode.Proofs.ShiftCounts
import ExprCode.Proofs.SlotLimits
import ExprCode.Proofs.LocalSlots
import ExprCode.Proofs.OverloadPriority
import ExprCode.Proofs.CallTokens
import ExprCode.Proofs.LayoutClosure
import ExprCode.Proofs.TypedArrays
import ExprCode.Proofs.DeclaredNames
import ExprCode.Proofs.TableTokens
import ExprCode.Proofs.Listings
import ExprCode.Proofs.Placeholders
import ExprCode.Proofs.BranchTargets
import ExprCode.Proofs.IntegerConversions
