import WindowsGaming.Controller

/- The driver's end of the pipe to the guest agent: what each message makes the
   controller do, and the timers that ping the agent. -/
namespace Clientpipe
open Protocol Controller

/-- Handle one message; `true` when it starts a ping timer. -/
def handle (env : Env) (cmd : GaCmdIn) (controller : Controller) : Controller × Bool :=
  match cmd with
  | .reportBoot => controller.gaHello env
  | .suspending => (controller.gaSuspending, false)
  | .pong => (controller.gaPong, false)
  | .hotKey id => (controller.gaHotkey env id, false)
  | .hotKeyBindingFailed _ => (controller, false)
  | .clipboard message =>
    match message with
    | some (.grabClipboard types) => (controller.grabX11Clipboard types, false)
    | some (.requestClipboardContents kind) =>
      match ClipboardType.fromI32 kind with
      | some kind => (controller.readX11Clipboard kind, false)
      | none => (controller, false)
    | some (.clipboardContents buf) => (controller.respondX11Clipboard buf, false)
    | none => (controller, false)
  | .mouseEdged point => (controller.mouseEdged point.x point.y, false)

def called : GaCmdIn → Option Op
  | .reportBoot => some .gaHello
  | .suspending => some .gaSuspending
  | .pong => some .gaPong
  | .hotKey id => some (.gaHotkey id)
  | .hotKeyBindingFailed _ => none
  | .clipboard (some (.grabClipboard types)) => some (.grabX11Clipboard types)
  | .clipboard (some (.requestClipboardContents kind)) =>
    (ClipboardType.fromI32 kind).map .readX11Clipboard
  | .clipboard (some (.clipboardContents buf)) => some (.respondX11Clipboard buf)
  | .clipboard none => none
  | .mouseEdged point => some (.mouseEdged point.x point.y)

theorem handle_controller (env : Env) (cmd : GaCmdIn) (c : Controller) :
    (handle env cmd c).1 = match called cmd with
      | some op => step env op c
      | none => c := by
  cases cmd with
  | clipboard message =>
    cases message with
    | none => rfl
    | some message =>
      cases message with
      | requestClipboardContents kind =>
        cases known : ClipboardType.fromI32 kind <;> simp [handle, called, known, step]
      | _ => rfl
  | _ => rfl

theorem handle_starts {env : Env} {cmd : GaCmdIn} {c : Controller}
    (starts : (handle env cmd c).2 = true) : cmd = .reportBoot := by
  cases cmd with
  | reportBoot => rfl
  | clipboard message =>
    cases message with
    | none => cases starts
    | some message =>
      cases message with
      | requestClipboardContents kind =>
        cases known : ClipboardType.fromI32 kind <;> simp [handle, known] at starts
      | _ => cases starts
  | _ => cases starts

def toClientpipe : Effect → Option GaCmdOut
  | .clientpipe cmd => some cmd
  | _ => none

end Clientpipe
