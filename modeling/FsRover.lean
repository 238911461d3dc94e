import FsRover.Common.ExtractHost
import FsRover.Common.ExtractWalk
import FsRover.Common.FusefsCache
import FsRover.Common.LostWindow
import FsRover.Common.NaturalSort
import FsRover.Io.CdimageView
import FsRover.Io.EwfView
import FsRover.Fs.FileMapExact
import FsRover.Io.AsifView
import FsRover.Io.FfuView
import FsRover.Io.FfuXpress
import FsRover.Fs.AdfsExact
import FsRover.Fs.DiskRange
import FsRover.Fs.Ext2Map
import FsRover.Fs.FatCursor
import FsRover.Fs.Fatx
import FsRover.Fs.Fbfs
import FsRover.Fs.FshelpMerge
import FsRover.Fs.Jffs2Read
import FsRover.Fs.Jffs2Scan
import FsRover.Fs.UefiShared
import FsRover.Fs.VmaView
import FsRover.Fs.VmfsReads
import FsRover.Fs.XfsMap
import FsRover.Fs.YaffsReplay
import FsRover.Fs.YaffsTree
import FsRover.Fs.LittlefsCtz
import FsRover.Fs.LittlefsMove
import FsRover.Fs.NsisSink
import FsRover.Fs.PkgTree
import FsRover.Fs.RefsExact
import FsRover.Fs.RegfsRead
import FsRover.Fs.SqlitefsTable
import FsRover.Fs.SqlitefsText
import FsRover.Fs.Sysv
import FsRover.Fs.UbifsExact
import FsRover.Fs.VxfsExact
import FsRover.Fs.Wim
import FsRover.Fs.DwarfsExact
import FsRover.Io.GhoFast
import FsRover.Io.GhoMap
import FsRover.Io.NtfscloneMap
import FsRover.Io.PartcloneView
import FsRover.Io.Pmf
import FsRover.Io.Pmfx
import FsRover.Io.Sparse
import FsRover.Io.SnaHuff
import FsRover.Io.TbiView
import FsRover.Io.TibxRead
import FsRover.Io.TibxWalk
import FsRover.Lib.Blocks
import FsRover.Rover.Mdrtf
import FsRover.Rover.ProcDiskstats
import FsRover.Lost.Coverage
import FsRover.Lost.DiskView
import FsRover.Lost.Entries
import FsRover.Lost.Exact
import FsRover.Lost.Least
import FsRover.Lost.Openable
import FsRover.Lost.Overlap
import FsRover.Lost.Settle
import FsRover.Lost.Sweep
import FsRover.Lost.Registry
import FsRover.Lost.Shown
import FsRover.Lost.Termination
import FsRover.Lib.Utf16
import FsRover.Partmap.Xenix
