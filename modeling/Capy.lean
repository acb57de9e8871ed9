import Capy.CallStack
import Capy.FrameProjection
import Capy.StrandService
import Capy.StrandExclusion
import Capy.StrandFate
import Capy.StrandDrain
import Capy.StrandQueue
import Capy.StrandServiceImpl
import Capy.StrandServiceStrands
import Capy.ThreadPoolWork
import Capy.Coroutine
import Capy.CoroutineRefinement
import Capy.CoroutineGuarantees
import Capy.AsyncMutex
import Capy.AsyncMutexAwaiter
import Capy.AsyncMutexLock
import Capy.AsyncMutexGuarantees
import Capy.AsyncWaker
import Capy.AsyncWakerWait
import Capy.AsyncWakerSlot
import Capy.AsyncWakerGuarantees
import Capy.AsyncEvent
import Capy.AsyncEventWait
import Capy.AsyncEventLists
import Capy.AsyncEventBroadcast
import Capy.AsyncEventGuarantees
import Capy.Join
import Capy.JoinShares
import Capy.WhenAll
import Capy.WhenAllRecords
import Capy.WhenAllGuarantees
import Capy.WhenAny
import Capy.WhenAnyRace
import Capy.WhenAnyGuarantees
import Capy.IntrusiveQueue
import Capy.IntrusiveList
import Capy.ThreadPool
import Capy.ThreadPoolFate
import Capy.ThreadPoolThreads
import Capy.ThreadPoolWaits
import Capy.ThreadPoolVariant
import Capy.ThreadPoolSettles
import Capy.Buffers
import Capy.Transfer
import Capy.WriteNow
import Capy.AnyStream
import Capy.AnyStreamLifetimeGuarantees
import Capy.RecyclingPool
import Capy.RecyclingPoolBlocks
import Capy.RecyclingPoolGuarantees
import Capy.ExecutionContext
import Capy.ExecutionContextServices
import Capy.ExecutionContextGuarantees
import Capy.ExecutionContextKeys
import Capy.Token
import Capy.RunAsync
import Capy.RunAsyncGuarantees
import Capy.Run
import Capy.RunGuarantees
import Capy.StrandFrameCache
import Capy.RunBlocking
import Capy.RunBlockingOutcome
import Capy.RunBlockingSettles
import Capy.BufferSlice
import Capy.ConsumingBuffers
import Capy.BufferCopy
import Capy.BufferParam
import Capy.Bufgrind
import Capy.Fuse
import Capy.TestStream
import Capy.TestStreamSteps
import Capy.TestStreamSound
import Capy.TestStreamGuarantees
import Capy.TestReadWriteStream
import Capy.TestStreamConformance
import Capy.FrameAllocator
import Capy.FrameAllocatorWindow
import Capy.FrameAllocatorSound
import Capy.FrameAllocatorGuarantees
