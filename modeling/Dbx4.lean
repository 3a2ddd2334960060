import Dbx4.Loops
import Dbx4.Runs
import Dbx4.Word32
import Dbx4.Frames
import Dbx4.WalModel
import Dbx4.WalLog
import Dbx4.WalSafe
import Dbx4.WalCut
import Dbx4.WalCrash
import Dbx4.WalReader
import Dbx4.Maps
import Dbx4.TxModel
import Dbx4.TxSim
import Dbx4.TxnModel
import Dbx4.TxnPhases
import Dbx4.MvccModel
import Dbx4.MvccStable
import Dbx4.ForEach
import Dbx4.SqlAst
import Dbx4.SqlValue
import Dbx4.SqlEval
import Dbx4.SqlExec
import Dbx4.SqlAtomic
import Dbx4.SqlRows
import Dbx4.SqlConstraints
import Dbx4.SqlKeys
import Dbx4.SqlTypes
import Dbx4.Assign
import Dbx4.SqlUpdate
import Dbx4.TxnAlone
import Dbx4.Kleene
import Dbx4.LockTable
import Dbx4.MvccLocks
import Dbx4.LockWaiters
import Dbx4.WalReaders
import Dbx4.Memory
import Dbx4.StorageModel
import Dbx4.StorageLayout
import Dbx4.XorFold
import Dbx4.StorageChecksum
import Dbx4.StorageSafe
import Dbx4.EngineModel
import Dbx4.EnginePage
import Dbx4.EngineCrc
import Dbx4.EngineRestart
import Dbx4.EnginePoolModel
import Dbx4.EnginePool
import Dbx4.EventModel
import Dbx4.ParentLinks
import Dbx4.EventDepth
import Dbx4.EventDispatch
import Dbx4.EventOnce
import Dbx4.EventCycle
import Dbx4.SqlWhere
import Dbx4.SqlArith
import Dbx4.SqlNames
import Dbx4.SqlPage
import Dbx4.TxnWrites
import Dbx4.SqlInsert
import Dbx4.SqlDefaults
import Dbx4.WeakOrder
import Dbx4.SqlOrder
import Dbx4.MvccReads
import Dbx4.TxLatest
import Dbx4.TxnUndo
import Dbx4.WalEntries
import Dbx4.WalResync
import Dbx4.WalCodec
import Dbx4.WalIntegrity
import Dbx4.ShiftRegister
import Dbx4.EngineBurst
import Dbx4.EngineExpiry
import Dbx4.EngineEvict
import Dbx4.StorageVerify
import Dbx4.Prefixed
import Dbx4.RowCodec
import Dbx4.CacheOrder
import Dbx4.IndexKeys
import Dbx4.EventSearch
import Dbx4.EventCounts
import Dbx4.ApprovalOrder
import Dbx4.CacheInsert
import Dbx4.DepthFirst
import Dbx4.HopDistance
import Dbx4.BreadthFirst
import Dbx4.GraphModel
import Dbx4.GraphTraversal
import Dbx4.GraphFrame
import Dbx4.GraphCost
import Dbx4.SqlLexer
import Dbx4.LexCover
import Dbx4.LexPlaces
import Dbx4.LexPrint
import Dbx4.SelectModel
import Dbx4.WherePrecedence
import Dbx4.WhereOperators
import Dbx4.SelectRows
import Dbx4.MvccVersions
import Dbx4.ParserTrim
import Dbx4.Catalog
import Dbx4.DatabaseModel
import Dbx4.DatabaseRuns
import Dbx4.PoolCounts
import Dbx4.SqlMeaning
import Dbx4.SqlSelect
import Dbx4.SqlTables
import Dbx4.Footprint
import Dbx4.SqlColumns
import Dbx4.SqlUnseen
import Dbx4.SqlBatch
import Dbx4.MvccLog
import Dbx4.LexLines
import Dbx4.ApprovalHistory
import Dbx4.CacheReads
import Dbx4.WalLive
import Dbx4.SelectQuery
import Dbx4.LexNormal
import Dbx4.GraphHistory
import Dbx4.PoolStore
import Dbx4.TxAtomic
import Dbx4.TxnHistory
import Dbx4.WalCodecCut
