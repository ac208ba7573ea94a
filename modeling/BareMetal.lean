import BareMetal.Runs
import BareMetal.FatFs.Defs
import BareMetal.LibcIo.Errno
import BareMetal.LibcIo.Sbrk
import BareMetal.LibcIo.MallocLock
import BareMetal.Usb.Drives
import BareMetal.Usb.Routing
import BareMetal.Usb.Transfer
import BareMetal.Ring
import BareMetal.Net.RxRing
import BareMetal.DirectMapped
import BareMetal.Sd.Cache
import BareMetal.FatFs.Volume
import BareMetal.FatFs.File
import BareMetal.LibcIo.Descriptors
import BareMetal.Sd.Detect
import BareMetal.LibcIo.FsLock
import BareMetal.Handover
import BareMetal.Smp.Startup
import BareMetal.Dma.Memcpy
import BareMetal.Rtc.Clock
import BareMetal.Display.ScanOut
import BareMetal.Gdb.Packet
import BareMetal.Gdb.Breakpoints
import BareMetal.Memory
import BareMetal.LibcIo.Bounce
import BareMetal.FatFs.Seek
import BareMetal.LibcIo.Lseek
import BareMetal.Usb.HidHost
import BareMetal.Usb.HidReport
import BareMetal.Usb.Bulk
import BareMetal.Usb.Outcome
import BareMetal.Mmu.Dram
import BareMetal.BitField
import BareMetal.Cells
import BareMetal.Ports.Pins
import BareMetal.Ports.Fields
import BareMetal.Sys.Timer
import BareMetal.LibcIo.Dirent
import BareMetal.Rtc.Setting
import BareMetal.Civil
import BareMetal.Rtc.WallClock
import BareMetal.LibcIo.Stat
import BareMetal.Sd.Presence
import BareMetal.FatFs.Write
import BareMetal.LibcIo.OpenMode
import BareMetal.LibcIo.Append
import BareMetal.FatFs.MountId
import BareMetal.LibcIo.Dead
import BareMetal.Smp.Spinlock
import BareMetal.Sd.Sunxi
import BareMetal.Sd.Csd
import BareMetal.Mmu.Dcache
import BareMetal.Display.Swap
import BareMetal.LibcIo.Neutral
import BareMetal.AddressSpace
import BareMetal.Gdb.Monitor
import BareMetal.Numeral
import BareMetal.Gdb.Text
import BareMetal.Gdb.WriteMem
import BareMetal.Gdb.Registers
import BareMetal.Gdb.Receive
import BareMetal.Gdb.Bounds
import BareMetal.Gdb.Agreement
import BareMetal.Gdb.Checksum
import BareMetal.Packed
import BareMetal.FatFs.Words
import BareMetal.FatFs.Disk
import BareMetal.Sd.Disk
import BareMetal.FatFs.Window
import BareMetal.Links
import BareMetal.Fallible
import BareMetal.FatFs.Table
import BareMetal.FatFs.Chain
import BareMetal.FatFs.Sectors
import BareMetal.FatFs.Stream
import BareMetal.FatFs.Frame
import BareMetal.FatFs.Opened
import BareMetal.FatFs.Parts
import BareMetal.FatFs.Marking
import BareMetal.FatFs.Reading
import BareMetal.FatFs.Writing
import BareMetal.FatFs.Seeking
import BareMetal.FatFs.Truncating
import BareMetal.FatFs.Syncing
import BareMetal.FatFs.Opening
import BareMetal.FatFs.Calls
import BareMetal.FatFs.Outcomes
import BareMetal.FatFs.WriteEnding
import BareMetal.FatFs.SeekEnding
import BareMetal.FatFs.Files
