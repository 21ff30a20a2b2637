import FramePool.Bench.Suite
import FramePool.Churn
import FramePool.Proofs.Arena.BothEnds
import FramePool.Proofs.Arena.Handles
import FramePool.Proofs.Backlog
import FramePool.Proofs.Bench.ElapsedTime
import FramePool.Proofs.Bench.Exhausted
import FramePool.Proofs.Bench.Measurement
import FramePool.Proofs.LastTouch
import FramePool.Proofs.Lru.Agreement
import FramePool.Proofs.Lru.Epochs
import FramePool.Proofs.Lru.Exhaustion
import FramePool.Proofs.Lru.Fifo
import FramePool.Proofs.Lru.Records
import FramePool.Proofs.Lru.SecondChance
import FramePool.Proofs.Lru.Survival
import FramePool.Proofs.Lru.Verdict
import FramePool.Proofs.Pacer.Pace
import FramePool.Proofs.Pool.Accesses
import FramePool.Proofs.Pool.Advice
import FramePool.Proofs.Pool.Drain
import FramePool.Proofs.Pool.Lives
import FramePool.Proofs.Pool.Opening
import FramePool.Proofs.Pool.Refaults
import FramePool.Proofs.Pool.Reports
import FramePool.Proofs.Pool.Shortage
import FramePool.Proofs.Pool.Slots
import FramePool.Proofs.Pool.Watermarks
import FramePool.Random.Xoshiro256
