import WindowsGaming.Library.Runs
import WindowsGaming.Library.Toggles
import WindowsGaming.Ownership
import WindowsGaming.UsbLedger
import WindowsGaming.HostGrab
import WindowsGaming.Clientpipe
import WindowsGaming.GuestAgent
import WindowsGaming.HeldKeys
import WindowsGaming.Control
import WindowsGaming.TemporaryEntry
import WindowsGaming.Library.LatestRequest
import WindowsGaming.LinuxPaste
import WindowsGaming.ClipboardBridge
import WindowsGaming.ClientpipeCodec
import WindowsGaming.Library.Leb128
import WindowsGaming.Outbox
import WindowsGaming.SleepingGuest
import WindowsGaming.PendingUpgrade
import WindowsGaming.PingTimeout
import WindowsGaming.SuspendFrames
import WindowsGaming.SuspendWaiters
import WindowsGaming.EntryChannels
import WindowsGaming.EntryDesk
import WindowsGaming.EntrySafety
import WindowsGaming.EntryClosing
import WindowsGaming.ControlCodec
import WindowsGaming.EntryMessages
import WindowsGaming.BackupMode
import WindowsGaming.PowerState
import WindowsGaming.BackupAcks
import WindowsGaming.HeldModifiers
import WindowsGaming.SuspendRequests
import WindowsGaming.HotKeyManager
import WindowsGaming.SelectionClaims
import WindowsGaming.WindowsPaste
import WindowsGaming.BlockJobs
import WindowsGaming.SnapshotFiles
import WindowsGaming.DelayRenderers
import WindowsGaming.FrameRecognition
import WindowsGaming.ClipboardEcho
import WindowsGaming.ClipboardProxies
import WindowsGaming.MonitorKeys
import WindowsGaming.Library.Simulations
import WindowsGaming.HotkeyResolution
import WindowsGaming.WindowListeners
import WindowsGaming.ImageCursor
import WindowsGaming.Library.Numbering
import WindowsGaming.PciPorts
import WindowsGaming.Library.Utf16
import WindowsGaming.ReceivedText
import WindowsGaming.Library.ByteStrings
import WindowsGaming.UsbIds
import WindowsGaming.BusItems
import WindowsGaming.Library.Wakeups
import WindowsGaming.WindowThread
import WindowsGaming.WaylandEventLoop
import WindowsGaming.Library.Overlays
import WindowsGaming.DiskImages
import WindowsGaming.BackupDisks
import WindowsGaming.BackupReads
import WindowsGaming.BackupFreeze
import WindowsGaming.BackupLoops
import WindowsGaming.Library.Utf8
import WindowsGaming.LinuxText
import WindowsGaming.WindowsText
import WindowsGaming.HostSleep
import WindowsGaming.InputListener
import WindowsGaming.ClipboardSync
import WindowsGaming.UsbBindings
import WindowsGaming.GuestHotkeys
import WindowsGaming.Library.Programs
import WindowsGaming.BitmapFiles
