import Xv6Rv32im.Log.CrashAtomicity
import Xv6Rv32im.Log.Reservation
import Xv6Rv32im.Tcp.Release
import Xv6Rv32im.Process.OpenFiles
import Xv6Rv32im.Net.MbufBounds
import Xv6Rv32im.Net.ArpTable
import Xv6Rv32im.Net.Conservation
import Xv6Rv32im.Net.DuplicatePeers
import Xv6Rv32im.Net.RoundTrip
import Xv6Rv32im.Sched.Interleavings
import Xv6Rv32im.Pipe.Fifo
import Xv6Rv32im.Pipe.FaultingRead
import Xv6Rv32im.Pipe.Sleepers
import Xv6Rv32im.Timer.Deadlines
import Xv6Rv32im.Virtio.Interference
import Xv6Rv32im.Itable.Orphans
import Xv6Rv32im.Sock.Ownership
import Xv6Rv32im.Fs.FaultingWrite
import Xv6Rv32im.Vm.Translation
import Xv6Rv32im.Vm.Growth
import Xv6Rv32im.Bio.Links
import Xv6Rv32im.Log.BufferSupply
import Xv6Rv32im.Fs.SharedWrite
import Xv6Rv32im.Fs.Paths
import Xv6Rv32im.Fs.DirectoryMap
import Xv6Rv32im.Tcp.Acknowledgements
import Xv6Rv32im.Sched.Kill
import Xv6Rv32im.User.Grep
import Xv6Rv32im.User.DnsNames
import Xv6Rv32im.User.Netlib
import Xv6Rv32im.Tcp.Rand
import Xv6Rv32im.Utils.Memmove
import Xv6Rv32im.Uart.Transmit
import Xv6Rv32im.Sync.Sleeplock
import Xv6Rv32im.Utils.Queue
import Xv6Rv32im.Library.WeakestPre
import Xv6Rv32im.Net.Locks
