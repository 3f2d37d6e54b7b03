import Aether.Agreement
import Aether.AtomicService
import Aether.BPlusTree
import Aether.BufferPool
import Aether.BufferPoolFrames
import Aether.Bytes
import Aether.Catalog
import Aether.Cells
import Aether.ClientRules
import Aether.ClockVictim
import Aether.Codecs
import Aether.Databases
import Aether.DiskCrash
import Aether.DiskIds
import Aether.DiskManager
import Aether.DiskStore
import Aether.FreeList
import Aether.HeapChain
import Aether.HeapDebts
import Aether.HeapInsert
import Aether.HeapMap
import Aether.HeapOnPool
import Aether.HeapOperations
import Aether.HeapPins
import Aether.HostedClients
import Aether.InternalPage
import Aether.Latches
import Aether.LeafPage
import Aether.Monitors
import Aether.PageLayout
import Aether.PageStore
import Aether.PageUpdates
import Aether.PoolAccounting
import Aether.PoolClients
import Aether.PoolContents
import Aether.PoolEviction
import Aether.PoolHolders
import Aether.PoolLatches
import Aether.PoolRestarts
import Aether.Programs
import Aether.Replacers
import Aether.Runs
import Aether.Separators
import Aether.ServiceCapacity
import Aether.ServiceContents
import Aether.ServiceDeallocation
import Aether.ServiceFraming
import Aether.ServiceHistories
import Aether.ServiceMetadata
import Aether.ServiceOwnership
import Aether.ServiceSockets
import Aether.ServiceSteps
import Aether.ServiceWrites
import Aether.Simulations
import Aether.SortedLists
import Aether.SpaceChecks
import Aether.SpareFrames
import Aether.StorageService
import Aether.StoreRules
import Aether.TableHeap
import Aether.TablePages
import Aether.Tenants
import Aether.TreeBytes
import Aether.TreeDebts
import Aether.TreeDelete
import Aether.TreeFailures
import Aether.TreeFrames
import Aether.TreeHeight
import Aether.TreeInsert
import Aether.TreeInvariant
import Aether.TreeIterators
import Aether.TreeLeaks
import Aether.TreeMap
import Aether.TreeModel
import Aether.TreeNullPages
import Aether.TreeOnPool
import Aether.TreePages
import Aether.TreePins
import Aether.TreeRanks
import Aether.TreeRebalance
import Aether.TreeRouting
import Aether.TreeScan
import Aether.TreeSearch
import Aether.TreeUses
import Aether.TupleReads
import Aether.Tuples
import Aether.TwoLevels
import Aether.Types
