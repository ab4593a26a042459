import Laplus.Lib.Run
import Laplus.Lib.Memory
import Laplus.Tcp.Output
import Laplus.Tcp.Table
import Laplus.Tcp.Arrives
import Laplus.Tcp.User
import Laplus.Tcp.Burst
import Laplus.Tcp.Handled
import Laplus.Tcp.Edit
import Laplus.Tcp.ReceiveBuffer
import Laplus.Tcp.InOrder
import Laplus.Tcp.SendWindow
import Laplus.Lib.Outbox
import Laplus.Tcp.Retransmit
import Laplus.Tcp.Course
import Laplus.Tcp.Shift
import Laplus.Tcp.Wakeup
import Laplus.Lib.Census
import Laplus.Lib.Network
import Laplus.Port.Cond
import Laplus.Tcp.Conform
import Laplus.Tcp.Handshake
import Laplus.Tcp.Sleepers
import Laplus.Lib.Doorbell
import Laplus.Lib.OnesComplement
import Laplus.Net.Bytes
import Laplus.Net.Contain
import Laplus.Net.Ethernet
import Laplus.Net.Route
import Laplus.Net.Softirq
import Laplus.Net.Wire
import Laplus.Tcp.Demux
import Laplus.Lib.Placed
import Laplus.Socket.Apart
import Laplus.Socket.Leak
import Laplus.Fat.Create
import Laplus.Fat.Full
import Laplus.Udp.Ports
import Laplus.Lib.Radix
import Laplus.Paging.Memory
import Laplus.Paging.Clean
import Laplus.Paging.Ownership
import Laplus.Lib.Lanes
import Laplus.Lib.Laps
import Laplus.Memory.Bitmap
import Laplus.Memory.Boot
import Laplus.Tasks.ExecuteLine
import Laplus.Xhci.EventRing
import Laplus.Paging.Regions
import Laplus.Terminal.LoadElf
import Laplus.Graphics.Desktop
import Laplus.Graphics.Mouse
import Laplus.Graphics.Syscall
import Laplus.Memory.Touched
import Laplus.Lib.Population
import Laplus.Memory.Stat
import Laplus.Socket.Failure
import Laplus.Tcp.Backoff
import Laplus.Tcp.SourcePort
import Laplus.Tcp.WindowUpdate
import Laplus.Xhci.Ports
import Laplus.Xhci.Waiting
import Laplus.Fat.Path
import Laplus.Fat.Shared
import Laplus.Fat.Resolve
import Laplus.Fat.Listing
import Laplus.Lib.CString
import Laplus.Lib.Since
import Laplus.Lib.Slots
import Laplus.Net.Altered
import Laplus.Net.Arp
import Laplus.Net.ArpCache
import Laplus.Net.Broadcast
import Laplus.Net.E1000
import Laplus.Net.LongestPrefix
import Laplus.Net.Text
import Laplus.Udp.Receive
import Laplus.Paging.Fault
import Laplus.Paging.Exact
import Laplus.Lib.PriorityQueue
import Laplus.Timers.Manager
import Laplus.Timers.Calls
import Laplus.Timers.Blink
import Laplus.Graphics.Stack
import Laplus.Lib.Transfer
import Laplus.Graphics.Stored
import Laplus.Graphics.Shadow
import Laplus.Lib.Loop
import Laplus.Graphics.Text
import Laplus.Terminal.Print
import Laplus.Terminal.InputKey
import Laplus.Lib.Words
import Laplus.Terminal.Argv
import Laplus.Lib.Bump
import Laplus.Usb.Memory
import Laplus.Lib.Preorder
import Laplus.Pci.Scan
import Laplus.Terminal.Cat
import Laplus.Terminal.CommandLine
import Laplus.Lib.Ahead
import Laplus.Usb.Configuration
import Laplus.Lib.ArrayMap
import Laplus.Xhci.Dispatch
import Laplus.Net.Checksum
import Laplus.Lib.Segment
import Laplus.Net.Queue
import Laplus.Lib.Reserve
import Laplus.Paging.Sbrk
import Laplus.Paging.Isolation
import Laplus.Lib.Routine
import Laplus.Paging.Account
import Laplus.Terminal.ExecuteFile
import Laplus.Lib.Amd64
import Laplus.Tasks.Context
import Laplus.Tasks.Interrupt
import Laplus.Tasks.Switch
import Laplus.Tasks.CallApp
import Laplus.Net.Icmp
import Laplus.Net.Lan
import Laplus.Lib.Fifo
import Laplus.Tcp.Link
import Laplus.Lib.Changes
import Laplus.Usb.Hid
import Laplus.Usb.Keyboard
