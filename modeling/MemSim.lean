import MemSim.Machine
import MemSim.BitFields
import MemSim.SystemConfig
import MemSim.While
import MemSim.AddressDecoding
import MemSim.DRAMArray
import MemSim.DRAMBank
import MemSim.BankRefinement
import MemSim.Geometry
import MemSim.CacheConfig
import MemSim.Cache
import MemSim.CacheShape
import MemSim.CacheRun
import MemSim.IndexSafety
import MemSim.Transparency
import MemSim.FifoSets
import MemSim.HitCounts
import MemSim.DRAMRequest
import MemSim.Runs
import MemSim.Sequencing
import MemSim.Dispatcher
import MemSim.DispatchOrder
import MemSim.Quiescence
import MemSim.AddressSplit
import MemSim.VictimOrder
import MemSim.CacheSteps
import MemSim.LineStates
import MemSim.FailedAccess
import MemSim.WriteThrough
import MemSim.WriteBack
import MemSim.Reordering
import MemSim.SetIndependence
import MemSim.SimulatedTime
import MemSim.ByteImage
import MemSim.RequestWire
import MemSim.ResponseWire
import MemSim.PowerOfTwo
import MemSim.MaskLoops
import MemSim.SystemChecks
import MemSim.SystemGeometry
import MemSim.ChipStorage
import MemSim.BankGuarantee
import MemSim.Striping
import MemSim.RankOpening
import MemSim.Connections
import MemSim.MissTypes
import MemSim.ConnectionLeaks
import MemSim.Ownership
import MemSim.Answers
import MemSim.Completion
import MemSim.Replay
import MemSim.Serialisability
import MemSim.Monitor
import MemSim.WakeUps
import MemSim.Unanswered
import MemSim.ConfigChecks
import MemSim.PassThrough
import MemSim.CacheStack
import MemSim.RowBuffer
import MemSim.BlankRank
import MemSim.Rotation
import MemSim.ClockBounds
import MemSim.Undisturbed
import MemSim.OneBank
import MemSim.ServerSocket
import MemSim.CacheChecks
import MemSim.Shutdown
import MemSim.Timings
