import Mathlib.Data.List.Basic

/- Key codes, modifiers and the key-binding state shared by the host and the guest.
   The tables are the ones of the source; a key that has no arm there has none here. -/
namespace Hotkeys

inductive Key where
  | back | tab | enter | pause | capsLock | escape | space | pageUp | pageDown | endKey | home
  | left | up | right | down | printScreen | insert | delete | d0 | d1 | d2 | d3 | d4 | d5 | d6
  | d7 | d8 | d9 | a | b | c | d | e | f | g | h | i | j | k | l | m | n | o | p | q | r | s
  | t | u | v | w | x | y | z | lWin | rWin | apps | numPad0 | numPad1 | numPad2 | numPad3
  | numPad4 | numPad5 | numPad6 | numPad7 | numPad8 | numPad9 | multiply | add | separator
  | subtract | decimal | divide | f1 | f2 | f3 | f4 | f5 | f6 | f7 | f8 | f9 | f10 | f11 | f12
  | numLock | scroll | lShiftKey | rShiftKey | lControlKey | rControlKey | lMenu | rMenu
  | volumeMute | volumeDown | volumeUp | mediaNextTrack | mediaPreviousTrack | mediaStop
  | mediaPlayPause | oemplus | oemcomma | oemMinus | oemPeriod | oem1 | oem102 | oem2 | oem3
  | oem4 | oem5 | oem6 | oem7
  deriving DecidableEq, Repr

def Key.toU32 : Key → UInt32
  | .back => 0x08 | .tab => 0x09 | .enter => 0x0D | .pause => 0x13 | .capsLock => 0x14
  | .escape => 0x1B | .space => 0x20 | .pageUp => 0x21 | .pageDown => 0x22 | .endKey => 0x23
  | .home => 0x24 | .left => 0x25 | .up => 0x26 | .right => 0x27 | .down => 0x28
  | .printScreen => 0x2C | .insert => 0x2D | .delete => 0x2E | .d0 => 0x30 | .d1 => 0x31
  | .d2 => 0x32 | .d3 => 0x33 | .d4 => 0x34 | .d5 => 0x35 | .d6 => 0x36 | .d7 => 0x37
  | .d8 => 0x38 | .d9 => 0x39 | .a => 0x41 | .b => 0x42 | .c => 0x43 | .d => 0x44 | .e => 0x45
  | .f => 0x46 | .g => 0x47 | .h => 0x48 | .i => 0x49 | .j => 0x4A | .k => 0x4B | .l => 0x4C
  | .m => 0x4D | .n => 0x4E | .o => 0x4F | .p => 0x50 | .q => 0x51 | .r => 0x52 | .s => 0x53
  | .t => 0x54 | .u => 0x55 | .v => 0x56 | .w => 0x57 | .x => 0x58 | .y => 0x59 | .z => 0x5A
  | .lWin => 0x5B | .rWin => 0x5C | .apps => 0x5D | .numPad0 => 0x60 | .numPad1 => 0x61
  | .numPad2 => 0x62 | .numPad3 => 0x63 | .numPad4 => 0x64 | .numPad5 => 0x65
  | .numPad6 => 0x66 | .numPad7 => 0x67 | .numPad8 => 0x68 | .numPad9 => 0x69
  | .multiply => 0x6A | .add => 0x6B | .separator => 0x6C | .subtract => 0x6D
  | .decimal => 0x6E | .divide => 0x6F | .f1 => 0x70 | .f2 => 0x71 | .f3 => 0x72 | .f4 => 0x73
  | .f5 => 0x74 | .f6 => 0x75 | .f7 => 0x76 | .f8 => 0x77 | .f9 => 0x78 | .f10 => 0x79
  | .f11 => 0x7A | .f12 => 0x7B | .numLock => 0x90 | .scroll => 0x91 | .lShiftKey => 0xA0
  | .rShiftKey => 0xA1 | .lControlKey => 0xA2 | .rControlKey => 0xA3 | .lMenu => 0xA4
  | .rMenu => 0xA5 | .volumeMute => 0xAD | .volumeDown => 0xAE | .volumeUp => 0xAF
  | .mediaNextTrack => 0xB0 | .mediaPreviousTrack => 0xB1 | .mediaStop => 0xB2
  | .mediaPlayPause => 0xB3 | .oemplus => 0xBB | .oemcomma => 0xBC | .oemMinus => 0xBD
  | .oemPeriod => 0xBE | .oem1 => 0xBA | .oem102 => 0xE2 | .oem2 => 0xBF | .oem3 => 0xC0
  | .oem4 => 0xDB | .oem5 => 0xDC | .oem6 => 0xDD | .oem7 => 0xDE

inductive Modifier where
  | alt | ctrl | shift | win
  deriving DecidableEq, Repr

def Modifier.toU32 : Modifier → UInt32
  | .alt => 0x0001
  | .ctrl => 0x0002
  | .shift => 0x0004
  | .win => 0x0008

def noRepeat : UInt32 := 0x4000

def Key.modifier : Key → Option Modifier
  | .lMenu | .rMenu => some .alt
  | .lControlKey | .rControlKey => some .ctrl
  | .lShiftKey | .rShiftKey => some .shift
  | .lWin | .rWin => some .win
  | _ => none

structure KeyBinding where
  modifiers : List Modifier
  noRepeat : Bool
  key : Key
  deriving DecidableEq, Repr

def KeyBinding.matches (b : KeyBinding) (modifiers : List Modifier) (key : Key) : Bool :=
  key = b.key && b.modifiers.all fun x => modifiers.contains x

def KeyBinding.toWindows (b : KeyBinding) : UInt32 × UInt32 :=
  let base := if b.noRepeat then Hotkeys.noRepeat else 0
  (b.modifiers.foldl (fun sum x => sum ||| x.toU32) base, b.key.toU32)

/-- The match arms of `linux::key_convert`, as pairs of an evdev code and its key. -/
def linuxKeys : List (UInt32 × Key) :=
  [(42, .lShiftKey), (54, .rShiftKey), (56, .lMenu), (100, .rMenu), (29, .lControlKey),
   (97, .rControlKey), (127, .apps), (1, .escape), (11, .d0), (2, .d1), (3, .d2), (4, .d3),
   (5, .d4), (6, .d5), (7, .d6), (8, .d7), (9, .d8), (10, .d9), (12, .oemMinus),
   (13, .oemplus), (14, .back), (15, .tab), (30, .a), (48, .b), (46, .c), (32, .d), (18, .e),
   (33, .f), (34, .g), (35, .h), (23, .i), (36, .j), (37, .k), (38, .l), (50, .m), (49, .n),
   (24, .o), (25, .p), (16, .q), (19, .r), (31, .s), (20, .t), (22, .u), (47, .v), (17, .w),
   (45, .x), (21, .y), (44, .z), (28, .enter), (39, .oem1), (40, .oem7), (41, .oem3),
   (43, .oem5), (51, .oemcomma), (52, .oemPeriod), (53, .oem2), (57, .space), (58, .capsLock),
   (59, .f1), (60, .f2), (61, .f3), (62, .f4), (63, .f5), (64, .f6), (65, .f7), (66, .f8),
   (67, .f9), (68, .f10), (87, .f11), (88, .f12), (69, .numLock), (70, .scroll), (98, .divide),
   (55, .multiply), (74, .subtract), (78, .add), (96, .separator), (83, .decimal),
   (99, .printScreen), (82, .numPad0), (79, .numPad1), (80, .numPad2), (81, .numPad3),
   (75, .numPad4), (76, .numPad5), (77, .numPad6), (71, .numPad7), (72, .numPad8),
   (73, .numPad9), (86, .oem102), (102, .home), (104, .pageUp), (109, .pageDown),
   (107, .endKey), (105, .left), (103, .up), (108, .down), (106, .right), (110, .insert),
   (111, .delete), (113, .volumeMute), (114, .volumeDown), (115, .volumeUp), (119, .pause),
   (125, .lWin), (126, .rWin), (26, .oem4), (27, .oem6), (163, .mediaNextTrack),
   (164, .mediaPlayPause), (165, .mediaPreviousTrack), (166, .mediaStop)]

def linuxKeyConvert (code : UInt32) : Option Key := linuxKeys.lookup code

def qcodeKeyConvert : Key → Option String
  | .lShiftKey => some "shift" | .rShiftKey => some "shift_r" | .lMenu => some "alt"
  | .rMenu => some "alt_r" | .lControlKey => some "ctrl" | .rControlKey => some "ctrl_r"
  | .apps => some "menu" | .escape => some "esc" | .d0 => some "0" | .d1 => some "1"
  | .d2 => some "2" | .d3 => some "3" | .d4 => some "4" | .d5 => some "5" | .d6 => some "6"
  | .d7 => some "7" | .d8 => some "8" | .d9 => some "9" | .oemMinus => some "minus"
  | .oemplus => some "equal" | .back => some "backspace" | .tab => some "tab" | .a => some "a"
  | .b => some "b" | .c => some "c" | .d => some "d" | .e => some "e" | .f => some "f"
  | .g => some "g" | .h => some "h" | .i => some "i" | .j => some "j" | .k => some "k"
  | .l => some "l" | .m => some "m" | .n => some "n" | .o => some "o" | .p => some "p"
  | .q => some "q" | .r => some "r" | .s => some "s" | .t => some "t" | .u => some "u"
  | .v => some "v" | .w => some "w" | .x => some "x" | .y => some "y" | .z => some "z"
  | .enter => some "ret" | .oem1 => some "semicolon" | .oem7 => some "apostrophe"
  | .oem3 => some "grave_accent" | .oem5 => some "backslash" | .oemcomma => some "comma"
  | .oemPeriod => some "dot" | .oem2 => some "slash" | .space => some "spc"
  | .capsLock => some "caps_lock" | .f1 => some "f1" | .f2 => some "f2" | .f3 => some "f3"
  | .f4 => some "f4" | .f5 => some "f5" | .f6 => some "f6" | .f7 => some "f7"
  | .f8 => some "f8" | .f9 => some "f9" | .f10 => some "f10" | .f11 => some "f11"
  | .f12 => some "f12" | .numLock => some "num_lock" | .scroll => some "scroll_lock"
  | .divide => some "kp_divide" | .multiply => some "kp_multiply"
  | .subtract => some "kp_subtract" | .add => some "kp_add" | .separator => some "kp_enter"
  | .decimal => some "kp_decimal" | .printScreen => some "sysrq" | .numPad0 => some "kp_0"
  | .numPad1 => some "kp_1" | .numPad2 => some "kp_2" | .numPad3 => some "kp_3"
  | .numPad4 => some "kp_4" | .numPad5 => some "kp_5" | .numPad6 => some "kp_6"
  | .numPad7 => some "kp_7" | .numPad8 => some "kp_8" | .numPad9 => some "kp_9"
  | .oem102 => some "less" | .home => some "home" | .pageUp => some "pgup"
  | .pageDown => some "pgdn" | .endKey => some "end" | .left => some "left" | .up => some "up"
  | .down => some "down" | .right => some "right" | .insert => some "insert"
  | .delete => some "delete" | .volumeMute => none | .volumeDown => none | .volumeUp => none
  | .pause => some "pause" | .lWin => some "meta_l" | .rWin => some "meta_r"
  | .oem4 => some "bracket_left" | .oem6 => some "bracket_right" | .mediaNextTrack => none
  | .mediaPreviousTrack => none | .mediaStop => none | .mediaPlayPause => none

structure KeyResolution where
  hotkeys : List Nat
  qcode : Option String
  deriving DecidableEq, Repr

structure KeyboardState where
  modifiers : List Modifier
  bindings : List KeyBinding
  deriving DecidableEq, Repr

def KeyboardState.new (bindings : List KeyBinding) : KeyboardState := ⟨[], bindings⟩

/-- `Vec::swap_remove`: the last element takes the place of the removed one. -/
def swapRemove {α : Type} (xs : List α) (i : Nat) : List α :=
  match xs.getLast? with
  | some last => (xs.set i last).dropLast
  | none => []

def trackModifier (modifiers : List Modifier) (m : Modifier) (down : Bool) : List Modifier :=
  if down then
    if modifiers.contains m then modifiers else modifiers ++ [m]
  else
    match modifiers.findIdx? (· == m) with
    | some i => swapRemove modifiers i
    | none => modifiers

def firedBindings (bindings : List KeyBinding) (modifiers : List Modifier) (key : Key) :
    List Nat :=
  (bindings.zipIdx.filter fun (b, _) => b.matches modifiers key).map Prod.snd

def KeyboardState.inputLinux (ks : KeyboardState) (code : UInt32) (down : Bool) :
    KeyboardState × Option KeyResolution :=
  match linuxKeyConvert code with
  | none => (ks, none)
  | some key =>
    match key.modifier with
    | some m =>
      ({ ks with modifiers := trackModifier ks.modifiers m down }, some ⟨[], qcodeKeyConvert key⟩)
    | none =>
      let hotkeys := if down then firedBindings ks.bindings ks.modifiers key else []
      (ks, some ⟨hotkeys, qcodeKeyConvert key⟩)

end Hotkeys
