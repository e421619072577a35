import FrameTransporter.Intrusive.Chain
import FrameTransporter.Intrusive.Doubly
import FrameTransporter.Intrusive.Buckets
import FrameTransporter.Intrusive.Memory
import FrameTransporter.Intervals.Tiling
import FrameTransporter.Codecs.Basic
import FrameTransporter.Codecs.Regroup
import FrameTransporter.Formats.Rfc5424
import FrameTransporter.Hoare.Wp
import FrameTransporter.Basic
import FrameTransporter.Mempool.Frame
import FrameTransporter.Mempool.Pool
import FrameTransporter.Mempool.File
import FrameTransporter.Mempool.Zone
import FrameTransporter.Mempool.Hugetlb
import FrameTransporter.Mempool.Layout
import FrameTransporter.Mempool.Append
import FrameTransporter.Mempool.Tiling
import FrameTransporter.Mempool.Ownership
import FrameTransporter.Mempool.Grace
import FrameTransporter.Mempool.Capacity
import FrameTransporter.Mempool.Regrowth
import FrameTransporter.Mempool.Fini
import FrameTransporter.Pubsub.Subscribers
import FrameTransporter.Pubsub.History
import FrameTransporter.Pubsub.Delivery
import FrameTransporter.Cols.List
import FrameTransporter.Cols.IpHashMap
import FrameTransporter.Cols.FiniteMap
import FrameTransporter.Cols.Ownership
import FrameTransporter.Texts.Lines
import FrameTransporter.Cols.Load
import FrameTransporter.Histories.Stack
import FrameTransporter.Histories.Handles
import FrameTransporter.Histories.Files
import FrameTransporter.Histories.EventLoop
import FrameTransporter.Histories.Outbox
import FrameTransporter.Cols.Stack
import FrameTransporter.Cols.Linearization
import FrameTransporter.LoadStore
import FrameTransporter.Fields
import FrameTransporter.Log.Record
import FrameTransporter.Base32
import FrameTransporter.Ini
import FrameTransporter.Log.Openssl
import FrameTransporter.Log.StructuredData
import FrameTransporter.Log.LogFile
import FrameTransporter.Context
import FrameTransporter.World
import FrameTransporter.Sock.Stream.Basic
import FrameTransporter.Sock.Stream.Write
import FrameTransporter.Sock.Stream.Read
import FrameTransporter.Sock.Stream.Events
import FrameTransporter.Sock.Stream.EnableSsl
import FrameTransporter.Sock.Stream.Run
import FrameTransporter.Sock.Stream.WriteQueue
import FrameTransporter.Sock.Stream.QueueLength
import FrameTransporter.Sock.Stream.ReadSide
import FrameTransporter.Sock.Stream.Discipline
import FrameTransporter.Sock.Stream.ReadWatcher
import FrameTransporter.Sock.Stream.Phase
import FrameTransporter.Sock.Stream.WriteSide
import FrameTransporter.Sock.Stream.Closure
import FrameTransporter.Sock.Stream.Terminal
import FrameTransporter.Sock.Stream.WakeUp
import FrameTransporter.Sock.Stream.EndOfStream
import FrameTransporter.Sock.Stream.Shutdown
import FrameTransporter.Sock.Stream.Feed
import FrameTransporter.Sock.Stream.Frames
import FrameTransporter.Sock.Stream.Release
import FrameTransporter.Sock.Stream.Reply
import FrameTransporter.Sock.Listener
import FrameTransporter.Sock.Descriptors
import FrameTransporter.Sock.Dgram.Basic
import FrameTransporter.Sock.Dgram.Write
import FrameTransporter.Sock.Dgram.Read
import FrameTransporter.Sock.Dgram.Run
import FrameTransporter.Sock.Dgram.Retry
import FrameTransporter.Sock.Dgram.WakeUp
import FrameTransporter.Sock.Dgram.Frames
import FrameTransporter.Sock.Dgram.Release
import FrameTransporter.Sock.Dgram.Datagrams
import FrameTransporter.Sock.Dgram.Sending
import FrameTransporter.Sock.Dgram.Order
import FrameTransporter.Sock.Dgram.Flush
import FrameTransporter.Log.Syslog
import FrameTransporter.Log.Delivery
import FrameTransporter.Log.Decoding
import FrameTransporter.Proto.Socks.Basic
import FrameTransporter.Proto.Socks.Parser
import FrameTransporter.Proto.Socks.Decision
import FrameTransporter.Proto.Socks.Filling
import FrameTransporter.Proto.Socks.Session
import FrameTransporter.Proto.Socks.Simulation
import FrameTransporter.Proto.Socks.Runs
import FrameTransporter.Proto.Socks.Gate
import FrameTransporter.Proto.Socks.Replies
import FrameTransporter.Proto.Socks.Connects
import FrameTransporter.Proto.Socks.Segmentation
import FrameTransporter.Proto.Socks.Encoding
import FrameTransporter.Proto.Socks.Bounds
import FrameTransporter.Proto.Socks.Progress
import FrameTransporter.Proto.Socks.Grammar
import FrameTransporter.Proto.Socks.EndOfFile
