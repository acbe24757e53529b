import Yarf.Lib.Bytes
import Yarf.Lib.Cyclic
import Yarf.Lib.Delivery
import Yarf.Lib.Descent
import Yarf.Lib.Fallible
import Yarf.Lib.Integral
import Yarf.Lib.Machine
import Yarf.Lib.Record
import Yarf.Lib.Sized
import Yarf.Lib.Substring
import Yarf.Lib.Template
import Yarf.Err
import Yarf.Channel.Pack
import Yarf.Channel.UnlockQueue
import Yarf.Channel.Sizes
import Yarf.Channel.Layout
import Yarf.Channel.Fifo
import Yarf.Channel.Creation
import Yarf.Channel.SendLimits
import Yarf.Channel.Receiver
import Yarf.Channel.Drained
import Yarf.Channel.Interleave
import Yarf.Channel.Channel
import Yarf.Channel.Source
import Yarf.Channel.Service
import Yarf.Channel.Config
import Yarf.Channel.Wiring
import Yarf.Channel.Segments
import Yarf.Channel.Publish
import Yarf.Channel.Mailbox
import Yarf.Channel.World
import Yarf.Channel.Delivery
import Yarf.Channel.Capacity
import Yarf.Channel.Multiplex
import Yarf.Channel.Control
import Yarf.Channel.Announce
import Yarf.Channel.ZeroCopy
import Yarf.Channel.Opening
import Yarf.Thread.ThreadPool
import Yarf.Thread.Protocol
import Yarf.Thread.WakeUp
import Yarf.Thread.FreeThread
import Yarf.Thread.Progress
import Yarf.Thread.Growth
import Yarf.Thread.Stranded
import Yarf.Thread.Collect
import Yarf.Thread.Stop
import Yarf.Thread.Lifecycle
import Yarf.Net.BinPacker
import Yarf.Net.SizeChecks
import Yarf.Net.Codec
import Yarf.Net.RoundTrip
import Yarf.Net.ReadBounds
import Yarf.Net.WriteBounds
import Yarf.Net.DecodeLimits
import Yarf.Net.Rawdata
import Yarf.Net.Exact
import Yarf.Net.Repeated
import Yarf.Net.StringField
import Yarf.Net.Evolution
import Yarf.Net.Primitive
import Yarf.Memory.FixedLenPool
import Yarf.Memory.Blocks
import Yarf.Memory.Allocator
import Yarf.Memory.Frees
import Yarf.Memory.Traverse
import Yarf.Memory.Shm
import Yarf.Memory.ShmRuns
import Yarf.Memory.ShmPrivate
import Yarf.Memory.History
import Yarf.Memory.HashPool
import Yarf.Memory.HashMap
import Yarf.Memory.HashIndex
import Yarf.Memory.HashFree
import Yarf.Tools.ReadProto
import Yarf.Tools.FieldOpt
import Yarf.Tools.Template
import Yarf.Tools.GenCode
import Yarf.Tools.BinTemplate
import Yarf.Tools.ObjTemplate
import Yarf.Tools.GenProgram
import Yarf.Tools.Agreement
import Yarf.Tools.GenFile
import Yarf.Tools.GenSchema
import Yarf.Tools.ConfTemplate
import Yarf.Tools.ConfText
