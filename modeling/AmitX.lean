import AmitX.SmkFs.MrtRun
import AmitX.SmkFs.Cache
import AmitX.SmkFs.AllocExact
import AmitX.SmkFs.ReplayEnds
import AmitX.SmkFs.BtreeEnds
import AmitX.SmkFs.RedoBytes
import AmitX.Sched.ReadyRun
import AmitX.Sched.WheelRun
import AmitX.Sched.Highest
import AmitX.Sched.Queues
import AmitX.Sched.Timeouts
import AmitX.Sched.Expiry
import AmitX.Sync.Spin
import AmitX.Sync.Units
import AmitX.Irq.PicRun
import AmitX.Kernel.KscopeRun
import AmitX.Mm.HeapRun
import AmitX.Mm.HeapSizes
import AmitX.Mm.PagingRun
import AmitX.Mm.PmmInit
import AmitX.Mm.PmmAligned
import AmitX.Mm.Vmm
import AmitX.Hw.E1000
import AmitX.Hw.Ide
import AmitX.Hw.PciRun
import AmitX.Hw.PciScan
import AmitX.Hw.PciSizes
import AmitX.Gfx.Compositor
import AmitX.Gfx.FillRect
import AmitX.Exec.Loader
import AmitX.Exec.Loader2
import AmitX.Exec.Sections
import AmitX.Exec.LoaderBounds
import AmitX.Exec.Shift
import AmitX.Exec.DbData
import AmitX.SmkFs.BtreeLost
import AmitX.Amfs.Owned
import AmitX.Amfs.Memory
import AmitX.Amfs.Indices
import AmitX.SmkFs.Checksum
import AmitX.SmkFs.AttrIds
import AmitX.SmkFs.RecordBytes
import AmitX.SmkFs.FreeEntry
import AmitX.SmkFs.PuncHole
import AmitX.SmkFs.Truncate
import AmitX.Amfs.DirTidy
import AmitX.Amfs.Reading
import AmitX.Amfs.Agree
import AmitX.Amfs.RoundTrip
import AmitX.SmkFs.Sectors
import AmitX.SmkFs.SequentialReads
import AmitX.SmkFs.PathSplit
import AmitX.SmkFs.RemoveEmpty
import AmitX.SmkFs.AttrCountRun
import AmitX.SmkFs.Remount
import AmitX.Ui.EditorFile
import AmitX.Screen.PrintkInt
import AmitX.Screen.Console
import AmitX.Libc.Copy
import AmitX.Libc.Decimal
import AmitX.Drivers.Keyboard
import AmitX.Drivers.Mouse
import AmitX.Hw.E1000Rx
import AmitX.Hw.Madt
import AmitX.Kernel.Clock
import AmitX.Gfx.Present
import AmitX.Gfx.NewWindow
import AmitX.Gfx.Line
import AmitX.Gfx.Arc
import AmitX.Gfx.FxMath
import AmitX.Gfx.FillCircle
import AmitX.Gfx.Polar
import AmitX.Gfx.DrawCircle
