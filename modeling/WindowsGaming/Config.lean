import Mathlib.Order.Lattice
import WindowsGaming.Hotkeys

/- The part of the configuration that the driver's controller, its input handling and
   the USB set-up read. -/
namespace Config
open Hotkeys

inductive UsbBus where
  | ohci | uhci | ehci | xhci
  deriving DecidableEq, Repr

/-- Position in the derived order, which the USB set-up sorts by. -/
def UsbBus.order : UsbBus → Nat
  | .ohci => 0
  | .uhci => 1
  | .ehci => 2
  | .xhci => 3

def UsbBus.name : UsbBus → String
  | .ohci => "ohci"
  | .uhci => "uhci"
  | .ehci => "ehci"
  | .xhci => "xhci"

theorem order_injective : Function.Injective UsbBus.order := by
  intro a b h
  cases a <;> cases b <;> simp_all [UsbBus.order]

instance : LinearOrder UsbBus where
  le a b := a.order ≤ b.order
  le_refl a := Nat.le_refl a.order
  le_trans _ _ _ h1 h2 := Nat.le_trans h1 h2
  le_antisymm _ _ h1 h2 := order_injective (Nat.le_antisymm h1 h2)
  le_total a b := Nat.le_total a.order b.order
  toDecidableLE a b := inferInstanceAs (Decidable (a.order ≤ b.order))
  toDecidableEq := inferInstance

def usablePorts : UsbBus → Nat
  | .ohci => 15
  | .uhci => 2
  | .ehci => 6
  | .xhci => 15

theorem usablePorts_pos (bus : UsbBus) : 0 < usablePorts bus := by
  cases bus <;> decide

inductive UsbBinding where
  | byId (vendor product : UInt16)
  | byPort (bus : UInt16) (port : String)
  deriving DecidableEq, Repr

structure UsbDevice where
  binding : UsbBinding
  permanent : Bool
  bus : UsbBus
  deriving DecidableEq, Repr

inductive Action where
  | ioUpgrade | ioEntryForced | ioExit
  deriving DecidableEq, Repr

inductive HotKeyAction where
  | exec (cmd : String)
  | action (action : Action)
  deriving DecidableEq, Repr

structure HotKey where
  key : KeyBinding
  action : HotKeyAction
  deriving DecidableEq, Repr

structure StorageDevice where
  snapshotFile : Option String
  deriving DecidableEq, Repr

structure MachineConfig where
  storage : List StorageDevice
  usbDevices : List UsbDevice
  hotkeys : List HotKey
  deriving DecidableEq, Repr

def MachineConfig.bare : MachineConfig := ⟨[], [], []⟩

def MachineConfig.oneDisk : MachineConfig := { MachineConfig.bare with storage := [⟨some "snap.img"⟩] }

def MachineConfig.keyboard : MachineConfig :=
  { MachineConfig.bare with usbDevices := [⟨.byId 1133 50475, false, .xhci⟩] }

structure HooksConfig where
  attach : Option String
  detach : Option String
  deriving DecidableEq, Repr

def HooksConfig.bare : HooksConfig := ⟨none, none⟩

end Config
