import MesaOS.MachineWord
import MesaOS.Bitmap
import MesaOS.Runs
import MesaOS.Ledger
import MesaOS.PMM
import MesaOS.MemoryMap
import MesaOS.MemoryMapEnds
import MesaOS.PMMRuns
import MesaOS.VMM
import MesaOS.VMMOwnership
import MesaOS.AddressSpaces
import MesaOS.CopyOnWrite
import MesaOS.PageTables
import MesaOS.PageAllocation
import MesaOS.FreshSpaces
import MesaOS.CloneCopies
import MesaOS.CloneProtection
import MesaOS.SpaceLeaks
import MesaOS.KHeap
import MesaOS.Boot
import MesaOS.IdentityMap
import MesaOS.FileStore
import MesaOS.DirectoryWalk
import MesaOS.VFS
import MesaOS.Paths
import MesaOS.RAMFS
import MesaOS.MesaFS
import MesaOS.ATA
import MesaOS.IDE
import MesaOS.FileExtents
import MesaOS.MountedDrive
import MesaOS.FileSystem
import MesaOS.Directories
import MesaOS.FileContents
import MesaOS.FileRanges
import MesaOS.Redirection
import MesaOS.Nano
import MesaOS.Shell
import MesaOS.SubstringSearch
import MesaOS.Pipeline
import MesaOS.Removal
import MesaOS.CreateCommands
import MesaOS.ByteField
import MesaOS.AESStandard
import MesaOS.Crypto
import MesaOS.AESInverse
import MesaOS.Decryption
import MesaOS.KeyManager
import MesaOS.RingBuffer
import MesaOS.TCP
import MesaOS.TCPLookup
import MesaOS.TCPReceive
import MesaOS.TCPCalls
import MesaOS.TCPTrace
import MesaOS.TCPTuples
import MesaOS.FifoNetwork
import MesaOS.NetworkOrder
import MesaOS.OnesComplement
import MesaOS.RFC793
import MesaOS.TCPSegment
import MesaOS.TCPChecksum
import MesaOS.TCPListen
import MesaOS.TCPSend
import MesaOS.TCPStream
import MesaOS.Firewall
import MesaOS.ARP
import MesaOS.MetadataSector
import MesaOS.ByteMemory
import MesaOS.RegistryBytes
import MesaOS.SHA256Standard
import MesaOS.HMAC
import MesaOS.Integrity
import MesaOS.TCPNetwork
import MesaOS.TCPHandshake
import MesaOS.TCPClose
import MesaOS.TCPDataOffset
import MesaOS.SynLimiter
import MesaOS.IPv4
import MesaOS.IPChecksum
import MesaOS.Routing
import MesaOS.IA32
import MesaOS.PIC8259
import MesaOS.IPv6
import MesaOS.StoreLog
import MesaOS.NeighborAdvertisement
import MesaOS.BoundedTable
import MesaOS.NeighborCache
import MesaOS.SSHPacket
import MesaOS.DHCP
import MesaOS.RFC2132
import MesaOS.DHCPOptions
import MesaOS.Mediation
import MesaOS.Itoa
import MesaOS.MC146818
import MesaOS.RTC
import MesaOS.DottedDecimal
import MesaOS.PCI
import MesaOS.PCNet
import MesaOS.PCNetReceive
import MesaOS.PCNetInterrupts
import MesaOS.UDPLink
import MesaOS.NetworkHeap
import MesaOS.RTL8139
import MesaOS.Download
import MesaOS.Install
import MesaOS.Packages
import MesaOS.ChunkBuffer
import MesaOS.PipeCapture
import MesaOS.PipeGrep
import MesaOS.RoundRobin
import MesaOS.Scheduler
import MesaOS.DescriptorTables
import MesaOS.Interrupts
import MesaOS.ContextSwitch
import MesaOS.Keyboard
import MesaOS.CheckedArray
import MesaOS.Memmove
import MesaOS.CStrings
import MesaOS.VGA
import MesaOS.Terminals
import MesaOS.Scrollback
import MesaOS.AnsiColors
import MesaOS.NanoArrays
import MesaOS.ShellBuffers
import MesaOS.ShellHistory
import MesaOS.Keystrokes
import MesaOS.EarlierSessions
