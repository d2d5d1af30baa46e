import WindowsGaming.Config

/- Messages between the driver, the guest agent, control clients and QEMU. -/
namespace Protocol

inductive ClipboardType where
  | invalid | text | image
  deriving DecidableEq, Repr

def ClipboardType.toI32 : ClipboardType → Int32
  | .invalid => 0
  | .text => 1
  | .image => 2

def ClipboardType.fromI32 (n : Int32) : Option ClipboardType :=
  if n = 0 then some .invalid
  else if n = 1 then some .text
  else if n = 2 then some .image
  else none

/-- Protobuf keeps the values of a repeated enumeration as numbers. -/
structure ClipboardTypes where
  raw : List Int32
  deriving DecidableEq, Repr

def ClipboardTypes.types (types : ClipboardTypes) : List ClipboardType :=
  types.raw.filterMap ClipboardType.fromI32

def ClipboardTypes.pushTypes (kind : ClipboardType) (types : ClipboardTypes) : ClipboardTypes :=
  ⟨types.raw ++ [kind.toI32]⟩

inductive ClipboardMessage where
  | grabClipboard (types : ClipboardTypes)
  | requestClipboardContents (kind : Int32)
  | clipboardContents (buf : List UInt8)
  deriving DecidableEq, Repr

structure Point where
  x : Int32
  y : Int32
  deriving DecidableEq, Repr

/-- From the driver to the guest agent. The clipboard message is a message of its own,
    so its oneof may be unset. -/
inductive GaCmdOut where
  | ping
  | clipboard (message : Option ClipboardMessage)
  | releaseModifiers
  | suspend
  | registerHotKey (id modifiers key : UInt32)
  | setMousePosition (point : Point)
  | shutdown
  | enableDebugConsole (rustLog : String)
  deriving DecidableEq, Repr

inductive GaCmdIn where
  | pong
  | reportBoot
  | clipboard (message : Option ClipboardMessage)
  | suspending
  | hotKey (id : UInt32)
  | hotKeyBindingFailed (text : String)
  | mouseEdged (point : Point)
  deriving DecidableEq, Repr

inductive ControlCmdOut where
  | mouseEdged (x y : Int32)
  | temporaryLightAttached
  | temporaryLightDetached
  | ack
  deriving DecidableEq, Repr

inductive ControlCmdIn where
  | ioEntry
  | tryIoEntry
  | lightEntry
  | shutdown
  | forceIoEntry
  | ioExit
  | suspend
  | temporaryLightEntry (x y : Int32)
  | enterBackupMode
  | leaveBackupMode
  deriving DecidableEq, Repr

inductive KeyValue where
  | qcode (name : String)
  deriving DecidableEq, Repr

inductive InputButton where
  | left | middle | right | wheelUp | wheelDown | side | extra
  deriving DecidableEq, Repr

inductive InputEvent where
  | rel (axis : String) (value : Int)
  | btn (button : InputButton) (down : Bool)
  | key (key : KeyValue) (down : Bool)
  deriving DecidableEq, Repr

/-- Commands queued for the monitor. An `ack` is the identity of a oneshot channel. -/
inductive QmpCommand where
  | deviceAdd (driver id bus : String) (port hostbus hostaddr : Nat)
  | deviceDel (id : String)
  | systemPowerdown
  | systemWakeup
  | inputSendEvent (events : List InputEvent)
  | takeSnapshot (diskId : Nat) (snapFile : String) (ack : Nat)
  | commitSnapshot (diskId : Nat) (snapFile : String) (ack : Nat)
  | releaseAllKeys
  | jobReady (device : String)
  deriving DecidableEq, Repr

end Protocol
