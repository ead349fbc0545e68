import Cci.Lib.Effect
import Cci.Lib.Relations
import Cci.Lib.Runs
import Cci.Lib.Triple
import Cci.Lib.Lens
import Cci.Lib.Ghost
import Cci.Lib.Projection
import Cci.Lib.LockedMap
import Cci.Lib.BackPointers
import Cci.Lib.EraseLoop
import Cci.Lib.Ancestry
import Cci.Lib.VectorLoop
import Cci.Lib.Traversal
import Cci.Lib.Bindings
import Cci.Lib.RefCount
import Cci.Lib.Propagation
import Cci.Lib.SlotPool
import Cci.Lib.Text
import Cci.Lib.Locality
import Cci.Lib.Exceptions
import Cci.Core.FilteredRange
import Cci.Core.RangeIterator
import Cci.Core.RangeCopies
import Cci.Core.RangeSteps
import Cci.Core.NameGen
import Cci.Core.Value
import Cci.Core.ListInsert
import Cci.Core.VectorConverter
import Cci.Core.ArrayConverter
import Cci.Core.IntegerConverter
import Cci.Core.ValueMap
import Cci.Core.ValueStorage
import Cci.Core.ValueSemantics
import Cci.Core.CallbackHeap
import Cci.Cfg.OriginatorOrder
import Cci.Cfg.ParamUntyped
import Cci.Cfg.World
import Cci.Cfg.ParamTyped
import Cci.Cfg.Client
import Cci.Cfg.Operations
import Cci.Cfg.Subsystems
import Cci.Cfg.ReportHandler
import Cci.Cfg.Registrations
import Cci.Cfg.CallbackHolders
import Cci.Cfg.CallbackIdentity
import Cci.Cfg.CallbackCounts
import Cci.Cfg.WriteSpec
import Cci.Cfg.Closure
import Cci.Cfg.Dispatch
import Cci.Cfg.Updates
import Cci.Cfg.Reentrancy
import Cci.Cfg.ForeignCallbacks
import Cci.Cfg.FastFlags
import Cci.Cfg.FastWrite
import Cci.Cfg.Observers
import Cci.Cfg.Locking
import Cci.Cfg.BrokerManager
import Cci.Cfg.ParamHandle
import Cci.Cfg.HandleLists
import Cci.Cfg.WriteByReference
import Cci.Cfg.WriteOutcome
import Cci.Cfg.Consultation
import Cci.Cfg.Reset
import Cci.Cfg.Unconverted
import Cci.Cfg.LockStates
import Cci.Cfg.Provenance
import Cci.Cfg.ValueStatus
import Cci.Utils.ConsumingBroker
import Cci.Utils.BrokerCallbacks
import Cci.Utils.PresetStore
import Cci.Utils.Lifetime
import Cci.Utils.FailedConstruction
import Cci.Utils.Broker
import Cci.Utils.BrokerRouting
import Cci.Utils.BrokerLookup
import Cci.Utils.Unconsumed
import Cci.Utils.ChainWorld
import Cci.Utils.ExposeChanges
import Cci.Utils.DispatchRemoval
import Cci.Utils.ValueByName
import Cci.Utils.BrokerOriginators
import Cci.Utils.BrokerClient
import Cci.Utils.Hiding
import Cci.Examples.ValueSync
import Cci.Examples.ConfigFileTool
import Cci.Examples.WrittenConfig
import Cci.Examples.ConfigPresets
