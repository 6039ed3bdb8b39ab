import LongCtxSpecDecode.BlockPoolRuns
import LongCtxSpecDecode.PrefixCacheSoundness
import LongCtxSpecDecode.GreedyDecoding
import LongCtxSpecDecode.VegasOverrider
import LongCtxSpecDecode.RandomRejectionLaw
import LongCtxSpecDecode.DraftProbs
import LongCtxSpecDecode.InputBatchConsistency
import LongCtxSpecDecode.LogitsProcessorRuns
import LongCtxSpecDecode.ShmRingSafety
import LongCtxSpecDecode.MessageQueueRuns
import LongCtxSpecDecode.ExpertExchangeRows
import LongCtxSpecDecode.KVCacheLayout
import LongCtxSpecDecode.KVCacheRuns
import LongCtxSpecDecode.DraftStart
import LongCtxSpecDecode.StreamingLLM
import LongCtxSpecDecode.DraftKV
import LongCtxSpecDecode.PackedVerify
import LongCtxSpecDecode.ScoreReduce
import LongCtxSpecDecode.GpuRuns
import LongCtxSpecDecode.MassSelect
import LongCtxSpecDecode.SwapStates
import LongCtxSpecDecode.SlotMapping
import LongCtxSpecDecode.GrammarBitmask
import LongCtxSpecDecode.NgramProposer
import LongCtxSpecDecode.ChunkedLocalHit
import LongCtxSpecDecode.StopStringGrouping
import LongCtxSpecDecode.DraftPlanning
import LongCtxSpecDecode.KernelAddresses
