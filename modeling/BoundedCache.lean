import BoundedCache.Main
import BoundedCache.Engine.Run
import BoundedCache.Config.Document
import BoundedCache.Proofs.Lru.Check
import BoundedCache.Proofs.Lru.Recency
import BoundedCache.Proofs.Lru.Inclusion
import BoundedCache.Proofs.Lfu.Check
import BoundedCache.Proofs.Lfu.Frequency
import BoundedCache.Proofs.Engine.Soundness
import BoundedCache.Proofs.Batches
import BoundedCache.Proofs.Engine.Batches
import BoundedCache.Proofs.Engine.Interleaving
import BoundedCache.Proofs.Session.Soundness
import BoundedCache.Proofs.Session.Staleness
import BoundedCache.Proofs.Session.Batching
import BoundedCache.Proofs.Engine.Order
import BoundedCache.Proofs.Engine.Sweeping
import BoundedCache.Proofs.Session.Closing
import BoundedCache.Proofs.Engine.Storage
import BoundedCache.Proofs.Engine.Twins
import BoundedCache.Proofs.Session.Rereading
import BoundedCache.Proofs.Lru.Verdict
import BoundedCache.Proofs.Lfu.Verdict
import BoundedCache.Proofs.Config.Document
import BoundedCache.Proofs.Engine.Exactness
import BoundedCache.Proofs.Engine.Changes
import BoundedCache.Proofs.Engine.Recycling
import BoundedCache.Proofs.Lfu.Scan
import BoundedCache.Proofs.Lfu.Intact
import BoundedCache.Proofs.Pool
import BoundedCache.Proofs.Engine.Range
import BoundedCache.Proofs.Session.Sleeping
import BoundedCache.Proofs.Units
import BoundedCache.Proofs.Policy
import BoundedCache.Proofs.Numeral
import BoundedCache.Proofs.Config.Environment
import BoundedCache.Proofs.Lru.Walk
