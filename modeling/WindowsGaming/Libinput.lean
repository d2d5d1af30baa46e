import WindowsGaming.Controller

/- The handler of the host's input events: it fires hotkeys and forwards everything else
   to the guest through the monitor's command queue. -/
namespace Libinput
open Hotkeys Protocol Controller

/-- The events of the opened devices; scroll events with their whole steps. -/
inductive Event where
  | motion (dx dy : Int)
  | button (button : UInt32) (pressed : Bool)
  | scrollWheel (steps : Int)
  | axis
  | key (code : UInt32) (down : Bool)
  | other
  deriving DecidableEq, Repr

def buttonOf (button : UInt32) : Option InputButton :=
  if button = 0x110 then some .left
  else if button = 0x111 then some .right
  else if button = 0x112 then some .middle
  else if button = 0x113 then some .side
  else if button = 0x114 then some .extra
  else none

def scrollEvents (steps : Int) : List InputEvent :=
  let direction := if steps > 0 then InputButton.wheelDown else .wheelUp
  (List.replicate steps.natAbs direction).flatMap fun b => [.btn b true, .btn b false]

def handle (env : Env) (event : Event) (keyboardState : KeyboardState) (c : Controller) :
    KeyboardState × Controller × Option QmpCommand :=
  match event with
  | .motion dx dy => (keyboardState, c, some (.inputSendEvent [.rel "x" dx, .rel "y" dy]))
  | .button button pressed =>
    (keyboardState, c, (buttonOf button).map fun b => .inputSendEvent [.btn b pressed])
  | .scrollWheel steps =>
    (keyboardState, c, if steps = 0 then none else some (.inputSendEvent (scrollEvents steps)))
  | .axis => (keyboardState, c, none)
  | .key code down =>
    match keyboardState.inputLinux code down with
    | (keyboardState, none) => (keyboardState, c, none)
    | (keyboardState, some resolution) =>
      let c := resolution.hotkeys.foldl (fun c hk => c.gaHotkey env (UInt32.ofNat hk)) c
      -- a key press that triggers a hotkey is not forwarded
      (keyboardState, c,
        if resolution.hotkeys = [] then
          resolution.qcode.map fun qcode => .inputSendEvent [.key (.qcode qcode) down]
        else none)
  | .other => (keyboardState, c, none)

theorem handle_controller (env : Env) (event : Event) (ks : KeyboardState) (c : Controller) :
    (handle env event ks c).2.1 = c ∨
      (handle env event ks c).2.2 = none ∧ ∃ hotkeys : List UInt32,
        (handle env event ks c).2.1 = hotkeys.foldl (fun c hk => step env (.gaHotkey hk) c) c := by
  cases event with
  | key code down =>
    cases resolved : ks.inputLinux code down with
    | mk keyboardState resolution =>
      cases resolution with
      | none => exact Or.inl (by simp [handle, resolved])
      | some resolution =>
        by_cases quiet : resolution.hotkeys = []
        · exact Or.inl (by simp [handle, resolved, quiet])
        · refine Or.inr ⟨by simp [handle, resolved, quiet], ?_⟩
          exact ⟨resolution.hotkeys.map UInt32.ofNat,
            by simp [handle, resolved, List.foldl_map, step]⟩
  | _ => exact Or.inl rfl

end Libinput
