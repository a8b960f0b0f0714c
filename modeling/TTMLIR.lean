import TTMLIR.GatherMcast
import TTMLIR.UndoConstEval
import TTMLIR.LayoutRequest
import TTMLIR.StreamIndex
import TTMLIR.Deallocate
import TTMLIR.RetainedTensors
import TTMLIR.CachedConstants
import TTMLIR.InPlaceCache
import TTMLIR.OperandWorkarounds
import TTMLIR.CoalescingFactor
import TTMLIR.LowerToLayout
import TTMLIR.SoftmaxFusion
import TTMLIR.Conv2dMultiplyFusion
import TTMLIR.KernelArguments
import TTMLIR.GreedyL1InterleavedPolicy
import TTMLIR.ReduceWindow
import TTMLIR.CollectivePermuteFold
import TTMLIR.LinalgStructural
import TTMLIR.LegalLayouts
import TTMLIR.AllReduce
import TTMLIR.RankWorkarounds
import TTMLIR.MeshShard
import TTMLIR.ControlDstSection
import TTMLIR.CoreIndexFold
import TTMLIR.BooleanReduction
import TTMLIR.ShardedBufferConfig
import TTMLIR.QuantStorage
import TTMLIR.TensorSpecConversion
import TTMLIR.ArangeLastDimension
import TTMLIR.CpuCall
import TTMLIR.ForwardFuncs
import TTMLIR.ElementTypeNormalization
import TTMLIR.ShardSolver
