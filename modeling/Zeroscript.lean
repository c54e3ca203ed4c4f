import Zeroscript.Ast
import Zeroscript.Instruction
import Zeroscript.FunctionKind
import Zeroscript.ExpressionCompiler
import Zeroscript.Number
import Zeroscript.FrameMachine
import Zeroscript.RegisterTable
import Zeroscript.Evaluation
import Zeroscript.ProtectedRegisters
import Zeroscript.ExpressionInversion
import Zeroscript.PlainExpressions
import Zeroscript.PlainWrites
import Zeroscript.LocalAssignment
import Zeroscript.CallArguments
import Zeroscript.BytecodeOptimizer
import Zeroscript.CodeRun
import Zeroscript.Fusion
import Zeroscript.Collapse
import Zeroscript.AddressCalculator
import Zeroscript.Compiler
import Zeroscript.InstructionShapes
import Zeroscript.Map
import Zeroscript.Object
import Zeroscript.Control
import Zeroscript.NativeFunctions
import Zeroscript.Interpreter
import Zeroscript.Program
import Zeroscript.Privacy
import Zeroscript.Lib.Bytes
import Zeroscript.SymbolTable
import Zeroscript.Assembler
import Zeroscript.Steps
import Zeroscript.Frames
import Zeroscript.CurrentContext
import Zeroscript.Uncaught
import Zeroscript.Collector
import Zeroscript.Heap
import Zeroscript.ObjectsList
import Zeroscript.Marking
import Zeroscript.ClassCode
import Zeroscript.SavedState
import Zeroscript.LiveObjects
import Zeroscript.Buffers
import Zeroscript.StackTally
import Zeroscript.CatchDepth
import Zeroscript.StraightCode
import Zeroscript.CompilerSteps
import Zeroscript.Locations
import Zeroscript.Assignments
import Zeroscript.RefusedWrites
import Zeroscript.FrameEntry
import Zeroscript.Imports
import Zeroscript.Outline
import Zeroscript.LabelNames
import Zeroscript.Resolution
import Zeroscript.ControlFlow
import Zeroscript.Roots
import Zeroscript.FieldWrites
import Zeroscript.GarbageCollector
import Zeroscript.GcBarrier
import Zeroscript.Lib.Runs
import Zeroscript.GcProgress
import Zeroscript.OtherCalls
import Zeroscript.ContextHomes
import Zeroscript.Lib.ReadModifyWrite
import Zeroscript.SharedIncrement
import Zeroscript.KeyLists
import Zeroscript.Lib.LongestMatch
import Zeroscript.Tokens
import Zeroscript.ParseTree
import Zeroscript.Relexing
import Zeroscript.Respacing
import Zeroscript.AstGenerator
import Zeroscript.UnbracedBodies
import Zeroscript.BasicBlocks
import Zeroscript.Termination
import Zeroscript.ParameterRegisters
import Zeroscript.ArrayList
import Zeroscript.Lib.Chaining
import Zeroscript.MapBags
import Zeroscript.OperandEffects
import Zeroscript.TreeValues
import Zeroscript.Increments
import Zeroscript.LabelNumbers
import Zeroscript.Loops
import Zeroscript.AppendedStatements
import Zeroscript.LoopHeaders
import Zeroscript.SilentCode
import Zeroscript.Jumps
import Zeroscript.RegisterRuns
import Zeroscript.FrameBounds
import Zeroscript.FunctionLayout
import Zeroscript.ControlIntegrity
import Zeroscript.FrameWrites
import Zeroscript.ClassLoading
import Zeroscript.MapSizes
import Zeroscript.MapRefinement
import Zeroscript.ByteLists
import Zeroscript.UsedHeap
import Zeroscript.EventQueue
