import ReplayFirmware.Lib.Splice
import ReplayFirmware.Lib.Lfsr
import ReplayFirmware.Lib.Paged
import ReplayFirmware.Lib.RangeFold
import ReplayFirmware.Lib.Chunks
import ReplayFirmware.Lib.Segments
import ReplayFirmware.Lib.Nearest
import ReplayFirmware.Lib.Coalesce
import ReplayFirmware.Libc.Ctype
import ReplayFirmware.Heap.Sbrk
import ReplayFirmware.Menu.Popups
import ReplayFirmware.Msg.Info
import ReplayFirmware.Usb.Media
import ReplayFirmware.Rdb.Faithful
import ReplayFirmware.Ini.Verdict
import ReplayFirmware.Ini.Numbers
import ReplayFirmware.Ini.Failing
import ReplayFirmware.Config.Settled
import ReplayFirmware.Config.MenuBits
import ReplayFirmware.Config.Shifted
import ReplayFirmware.Config.Targets
import ReplayFirmware.Config.Terminated
import ReplayFirmware.Config.DataUpload
import ReplayFirmware.Config.RomPlacement
import ReplayFirmware.Config.CrtRom
import ReplayFirmware.Config.SwizzledRom
import ReplayFirmware.Twi.UpdatePll
import ReplayFirmware.Twi.Division
import ReplayFirmware.Fpga.ExecMem
import ReplayFirmware.Filesel.Keys
import ReplayFirmware.FatFs.File
import ReplayFirmware.FatFs.Wrapper
import ReplayFirmware.FatFs.MkDirTree
import ReplayFirmware.FileIO.MChFile
import ReplayFirmware.FileIO.Lifecycle
import ReplayFirmware.FileIO.Mirror
import ReplayFirmware.FileIO.RoundTrip
import ReplayFirmware.FileIO.FloppyProcess
import ReplayFirmware.FileIO.ReadFrame
import ReplayFirmware.FileIO.Answers
import ReplayFirmware.FileIO.ReadExact
import ReplayFirmware.FileIO.AdfReads
import ReplayFirmware.FileIO.UefDrives
import ReplayFirmware.FileIO.UefScan
import ReplayFirmware.Drv08.Read
import ReplayFirmware.Drv08.TaskFile
import ReplayFirmware.Drv08.Index
import ReplayFirmware.Drv08.Geometry
import ReplayFirmware.Drv08.Accelerate
import ReplayFirmware.Drv08.Confine
import ReplayFirmware.Flash.Crc32
import ReplayFirmware.Flash.Handlers
import ReplayFirmware.Flash.Reboot
import ReplayFirmware.Flash.Program
import ReplayFirmware.Flash.Verdict
import ReplayFirmware.Osd.Independence
import ReplayFirmware.Osd.KeyNames
import ReplayFirmware.Menu.DirScan
import ReplayFirmware.Menu.Hosted
import ReplayFirmware.Menu.BackDir
import ReplayFirmware.Menu.Pointers
import ReplayFirmware.Main.Exclusive
import ReplayFirmware.Card.Capacity
import ReplayFirmware.Card.Direction
import ReplayFirmware.Fpga.GzipHeader
import ReplayFirmware.Fpga.Inflate
import ReplayFirmware.Fpga.BitHeader
import ReplayFirmware.Usb.Recv
import ReplayFirmware.Usb.Async
import ReplayFirmware.Usb.HidKeyboard
import ReplayFirmware.Card.Bitstream
import ReplayFirmware.Card.MmcCrc
import ReplayFirmware.Flash.Feed
import ReplayFirmware.Flash.Addresses
import ReplayFirmware.Flash.Updater
import ReplayFirmware.Serial.Putc
import ReplayFirmware.FileIO.NoMemory
import ReplayFirmware.Lib.Store
import ReplayFirmware.FileIO.ByteStore
import ReplayFirmware.Drv08.Disk
import ReplayFirmware.Drv08.Units
import ReplayFirmware.Lib.Tap
import ReplayFirmware.Fpga.Jtag
import ReplayFirmware.Fpga.BoardJtag
import ReplayFirmware.Lib.DirTree
import ReplayFirmware.FatFs.RmDirTree
import ReplayFirmware.Usb.Medium
import ReplayFirmware.Fpga.ClockMon
