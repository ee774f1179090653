import Art.Machine.Store
import Art.Machine.Loop
import Art.Compiler.Optimizing.Locations
import Art.Compiler.Optimizing.MoveOperands
import Art.Compiler.Optimizing.ParallelMoveResolverNoSwap
import Art.Compiler.Optimizing.CodeGeneratorArm64
import Art.Compiler.Optimizing.ParallelMoveResolverNoSwap.Correct
import Art.Compiler.Optimizing.ReferenceTypePropagation
import Art.Machine.Base128
import Art.Runtime.Leb128
import Art.Runtime.Leb128.Encoder
import Art.Runtime.DexFileVerifier
import Art.Machine.Rotate
import Art.Compiler.Optimizing.Nodes
import Art.Compiler.Optimizing.InstructionSimplifier
import Art.Compiler.Optimizing.ParallelMoveResolverWithSwap
import Art.Compiler.Optimizing.InductionVarRange
import Art.Machine.ArmEncoding
import Art.Compiler.Linker.ArmRelativePatcher
import Art.Arithmetic.DivisionByInvariant
import Art.Machine.Word
import Art.Machine.A64
import Art.Machine.X86
import Art.Compiler.Optimizing.CodeGeneratorUtils
import Art.Compiler.Optimizing.CodeGeneratorArm64.DivRem
import Art.Compiler.Optimizing.CodeGeneratorX86
import Art.Compiler.Optimizing.DivRemByConstant
import Art.Machine.BitField
import Art.Text.ModifiedUtf8
import Art.Runtime.Utf
import Art.Machine.RangeCopy
import Art.Runtime.Mirror.Array
import Art.Runtime.Native.JavaLangSystem
import Art.Runtime.IndirectReferenceTable
import Art.Runtime.IndirectReferenceTable.Segments
import Art.Machine.Binary64
import Art.Machine.RangeCount
import Art.Runtime.Base.HashSet
import Art.Machine.OrderedSet
import Art.Machine.A64.Flags
import Art.Machine.X86.Flags
import Art.Compiler.Optimizing.BoundsCheckElimination
import Art.Machine.BinarySearch
import Art.Machine.LexOrder
import Art.Runtime.Utf.Compare
import Art.Runtime.DexFile
import Art.Compiler.Optimizing.InductionVarAnalysis
import Art.Compiler.Optimizing.LoadStoreAnalysis
import Art.Runtime.Utils
import Art.Runtime.TypeLookupTable
import Art.Machine.LittleEndian
import Art.Machine.BitMemory
import Art.Runtime.MemoryRegion
import Art.Runtime.BitMemoryRegion
import Art.Runtime.StackMap
import Art.Machine.MapMerge
import Art.Runtime.Jit.ProfileCompilationInfo
import Art.Runtime.Jit.ProfileCompilationInfo.Load
import Art.Runtime.Jit.ProfileCompilationInfo.Merge
import Art.Runtime.Verifier.RegisterLine
import Art.Runtime.Base.BitVector
import Art.Machine.WordScan
import Art.Runtime.Gc.Accounting.SpaceBitmap
import Art.Runtime.Gc.Accounting.SweepWalk
import Art.Runtime.Gc.Accounting.CardTable
import Art.Runtime.Gc.Collector.ImmuneSpaces
import Art.Compiler.Utils.SwapSpace
import Art.Compiler.Optimizing.Gvn
import Art.Compiler.Optimizing.SsaLivenessAnalysis
import Art.Runtime.Gc.Space.LargeObjectSpace
import Art.Runtime.Gc.Space.LargeObjectSpace.Layout
import Art.Runtime.Gc.Space.LargeObjectSpace.AllocStep
import Art.Runtime.Gc.Space.LargeObjectSpace.FreeStep
import Art.Runtime.Gc.Space.LargeObjectSpace.Runs
