import Ar8030Transport.Library.LittleEndian
import Ar8030Transport.Library.GreedyParser
import Ar8030Transport.Library.HexText
import Ar8030Transport.Library.Search
import Ar8030Transport.Library.ShiftRegister
import Ar8030Transport.Library.Mealy
import Ar8030Transport.Library.Pieces
import Ar8030Transport.Library.Trace
import Ar8030Transport.Library.Window
import Ar8030Transport.Library.DropOldest
import Ar8030Transport.Library.AtomicQueue
import Ar8030Transport.Library.Packing
import Ar8030Transport.Library.Leases
import Ar8030Transport.Library.FormText
import Ar8030Transport.Wire.Chunk
import Ar8030Transport.Wire.Chunker
import Ar8030Transport.Wire.Frame
import Ar8030Transport.Wire.Sender
import Ar8030Transport.Wire.ChunkStream
import Ar8030Transport.Wire.Resync
import Ar8030Transport.Wire.StreamRefinement
import Ar8030Transport.Wire.StreamReference
import Ar8030Transport.Wire.Reassembly
import Ar8030Transport.Wire.AnyHeader
import Ar8030Transport.Wire.FrameRun
import Ar8030Transport.Wire.Loss
import Ar8030Transport.Wire.DropCount
import Ar8030Transport.Wire.Transport
import Ar8030Transport.Wire.BurstErrors
import Ar8030Transport.Wire.ChunkerContract
import Ar8030Transport.Wire.Control
import Ar8030Transport.Wire.Hole
import Ar8030Transport.Rx.Timestamps
import Ar8030Transport.Rx.ClockSync
import Ar8030Transport.H265.AnnexB
import Ar8030Transport.H265.Rtp
import Ar8030Transport.H265.TimingSei
import Ar8030Transport.H265.SeiNal
import Ar8030Transport.H265.Scanners
import Ar8030Transport.H265.NalInsert
import Ar8030Transport.H265.ScannerAgreement
import Ar8030Transport.H265.SeiRoundTrip
import Ar8030Transport.Rx.Forward
import Ar8030Transport.Rx.Handover
import Ar8030Transport.Rx.CaptureTime
import Ar8030Transport.Rx.ClockLoop
import Ar8030Transport.Rx.FramesLost
import Ar8030Transport.Rx.SidecarSrv
import Ar8030Transport.Tx.SendLoop
import Ar8030Transport.Tx.Discipline
import Ar8030Transport.Tx.Statistics
import Ar8030Transport.Tx.FrameRing
import Ar8030Transport.Tx.RingLayout
import Ar8030Transport.Tx.SharedRing
import Ar8030Transport.Tx.RingRefinement
import Ar8030Transport.Tx.Outq
import Ar8030Transport.Tx.CombinedWrites
import Ar8030Transport.Tx.Waybeam
import Ar8030Transport.Tx.PiControl
import Ar8030Transport.Tx.RulesControl
import Ar8030Transport.Tx.RulesRamp
import Ar8030Transport.Tx.LowWater
import Ar8030Transport.Tx.PiBelief
import Ar8030Transport.Tx.FloorLearning
import Ar8030Transport.Tx.RefusedRates
import Ar8030Transport.Tx.RetxEvents
import Ar8030Transport.Tx.RingAttach
import Ar8030Transport.Tx.IdrFilter
import Ar8030Transport.Tx.FocusMode
import Ar8030Transport.Kmod.Netdev
import Ar8030Transport.Kmod.BootRom
import Ar8030Transport.Kmod.Datagrams
import Ar8030Transport.Kmod.StreamPosition
import Ar8030Transport.Kmod.RxQueue
import Ar8030Transport.Kmod.Demux
import Ar8030Transport.Kmod.TxQueue
import Ar8030Transport.Kmod.FifoWrite
import Ar8030Transport.Kmod.Firmware
import Ar8030Transport.Lifecycled.Tuning
import Ar8030Transport.Lifecycled.Thread
import Ar8030Transport.Lifecycled.Daemon
import Ar8030Transport.Lifecycled.Debounce
import Ar8030Transport.Lifecycled.Standby
import Ar8030Transport.Lifecycled.ChannelCheck
import Ar8030Transport.Lifecycled.ChannelRequest
import Ar8030Transport.Lifecycled.Peers
import Ar8030Transport.Lifecycled.PeersFile
import Ar8030Transport.Lifecycled.PeersOrder
import Ar8030Transport.Lifecycled.PowerCap
import Ar8030Transport.Lifecycled.Relink
import Ar8030Transport.Lifecycled.QueryParam
import Ar8030Transport.Audio.Bridge
import Ar8030Transport.Library.DecimalText
import Ar8030Transport.Lifecycled.Sidecars
import Ar8030Transport.Lifecycled.Restart
import Ar8030Transport.Lifecycled.HttpReply
import Ar8030Transport.Tx.PiRamp
import Ar8030Transport.Link.Programs
