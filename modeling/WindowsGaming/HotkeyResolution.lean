import Mathlib.Data.Finset.Dedup
import Mathlib.Data.Finset.Insert
import Mathlib.Data.Finset.Erase
import WindowsGaming.Library.Simulations
import WindowsGaming.HeldModifiers

/- The resolution of hotkeys against a machine that only knows a set of modifiers. Neither the
   order in which they were pressed nor how the vector has been permuted since can be told from
   its answers. -/
namespace HotkeyResolution
open Hotkeys HeldModifiers Simulations

def moveModifier (held : Finset Modifier) (m : Modifier) (down : Bool) : Finset Modifier :=
  if down then insert m held else held.erase m

def referenceStep (held : Finset Modifier) (e : UInt32 × Bool) : Finset Modifier :=
  match modifierOf e.1 with
  | some m => moveModifier held m e.2
  | none => held

def Fires (bindings : List KeyBinding) (held : Finset Modifier) (key : Key) (i : Nat) : Prop :=
  ∃ b, bindings[i]? = some b ∧ b.key = key ∧ b.modifiers.toFinset ⊆ held

/-- What a key event has to be resolved to. -/
def Resolves (bindings : List KeyBinding) (held : Finset Modifier) (e : UInt32 × Bool)
    (answer : Option KeyResolution) : Prop :=
  match linuxKeyConvert e.1 with
  | none => answer = none
  | some key => ∃ hotkeys, answer = some ⟨hotkeys, qcodeKeyConvert key⟩ ∧
      hotkeys.Pairwise (· < ·) ∧
      ∀ i, i ∈ hotkeys ↔ e.2 = true ∧ key.modifier = none ∧ Fires bindings held key i

structure Represents (bindings : List KeyBinding) (ks : KeyboardState) (held : Finset Modifier) :
    Prop where
  bound : ks.bindings = bindings
  distinct : ks.modifiers.Nodup
  same : ks.modifiers.toFinset = held

def reference (bindings : List KeyBinding) :
    Spec KeyboardState (Finset Modifier) (UInt32 × Bool) (Option KeyResolution) where
  rel := Represents bindings
  allowed _ _ := True
  right := Resolves bindings
  next held e _ := referenceStep held e

def keyStep (ks : KeyboardState) (e : UInt32 × Bool) :
    Option (KeyboardState × Option KeyResolution) := some (ks.inputLinux e.1 e.2)

section Firing
variable {bindings : List KeyBinding} {ms : List Modifier} {key : Key}

theorem matches_iff_subset {b : KeyBinding} :
    b.matches ms key = true ↔ b.key = key ∧ b.modifiers.toFinset ⊆ ms.toFinset := by
  rw [@eq_comm _ b.key key]
  simp [KeyBinding.matches, Finset.subset_iff]

theorem mem_firedBindings_iff (i : Nat) :
    i ∈ firedBindings bindings ms key ↔ Fires bindings ms.toFinset key i := by
  constructor
  · intro fired
    obtain ⟨⟨b, j⟩, kept, rfl⟩ := List.mem_map.mp fired
    obtain ⟨at_j, meets⟩ := List.mem_filter.mp kept
    obtain ⟨own, subset⟩ := matches_iff_subset.mp meets
    exact ⟨b, List.mem_zipIdx_iff_getElem?.mp at_j, own, subset⟩
  · rintro ⟨b, bound, own, subset⟩
    exact (mem_firedBindings bound).mpr (matches_iff_subset.mpr ⟨own, subset⟩)

theorem firedBindings_increasing : (firedBindings bindings ms key).Pairwise (· < ·) := by
  have indices : (bindings.zipIdx.map Prod.snd).Pairwise (· < ·) := by
    rw [List.zipIdx_map_snd]
    exact List.pairwise_lt_range'
  exact indices.sublist (List.filter_sublist.map Prod.snd)

end Firing

section Steps
variable {bindings : List KeyBinding} {ks : KeyboardState} {held : Finset Modifier}

theorem toFinset_trackModifier {ms : List Modifier} (distinct : ms.Nodup) (m : Modifier)
    (down : Bool) : (trackModifier ms m down).toFinset = moveModifier ms.toFinset m down := by
  ext x
  rw [List.mem_toFinset, mem_trackModifier distinct, moveModifier]
  cases down with
  | true => simp [or_comm]
  | false => simp

theorem represents_step (represents : Represents bindings ks held) (code : UInt32) (down : Bool) :
    Represents bindings (ks.inputLinux code down).1 (referenceStep held (code, down)) := by
  obtain ⟨rfl, distinct, rfl⟩ := represents
  refine ⟨input_bindings ks code down, ?_, ?_⟩
  · rw [input_modifiers]
    split
    · exact nodup_trackModifier distinct _ _
    · exact distinct
  · rw [input_modifiers, referenceStep]
    cases modifierOf code with
    | some m => exact toFinset_trackModifier distinct m down
    | none => rfl

theorem input_answer (ks : KeyboardState) {code : UInt32} {key : Key}
    (known : linuxKeyConvert code = some key) (down : Bool) :
    (ks.inputLinux code down).2 =
      some ⟨if down ∧ key.modifier = none then firedBindings ks.bindings ks.modifiers key else [],
        qcodeKeyConvert key⟩ := by
  unfold KeyboardState.inputLinux
  cases sort : key.modifier with
  | some m => simp [known, sort]
  | none => simp [known, sort]

theorem resolves_step (ks : KeyboardState) (e : UInt32 × Bool) :
    Resolves ks.bindings ks.modifiers.toFinset e (ks.inputLinux e.1 e.2).2 := by
  obtain ⟨code, down⟩ := e
  unfold Resolves
  cases known : linuxKeyConvert code with
  | none => simp [KeyboardState.inputLinux, known]
  | some key =>
    refine ⟨_, input_answer ks known down, ?_, ?_⟩
    · split
      · exact firedBindings_increasing
      · exact List.Pairwise.nil
    · intro i
      split
      · rename_i pressed
        rw [mem_firedBindings_iff]
        exact ⟨fun fires => ⟨pressed.1, pressed.2, fires⟩, fun h => h.2.2⟩
      · rename_i silent
        constructor
        · intro fired
          cases fired
        · rintro ⟨pressed, plain, _⟩
          exact absurd ⟨pressed, plain⟩ silent

theorem simulates_reference (bindings : List KeyBinding) :
    Simulates (reference bindings) keyStep := by
  rintro ks held ⟨code, down⟩ represents _
  refine ⟨_, _, rfl, ?_, represents_step represents code down⟩
  obtain ⟨rfl, _, rfl⟩ := represents
  exact resolves_step ks (code, down)

/-- An increasing list is known by its elements, so the reference leaves no choice. -/
theorem resolves_unique {e : UInt32 × Bool} {first second : Option KeyResolution}
    (one : Resolves bindings held e first) (other : Resolves bindings held e second) :
    first = second := by
  unfold Resolves at one other
  cases known : linuxKeyConvert e.1 with
  | none =>
    rw [known] at one other
    exact one.trans other.symm
  | some key =>
    rw [known] at one other
    obtain ⟨hotkeys, rfl, increasing, fires⟩ := one
    obtain ⟨others, rfl, increasing', fires'⟩ := other
    have perm : hotkeys.Perm others :=
      (List.perm_ext_iff_of_nodup (increasing.imp Nat.ne_of_lt) (increasing'.imp Nat.ne_of_lt)).mpr
        fun i => (fires i).trans (fires' i).symm
    have same : hotkeys = others :=
      perm.eq_of_pairwise (fun a b _ _ below above => absurd below (Nat.lt_asymm above))
        increasing increasing'
    rw [same]

theorem represents_new (bindings : List KeyBinding) :
    Represents bindings (KeyboardState.new bindings) ∅ := ⟨rfl, List.nodup_nil, rfl⟩

end Steps

/-- The keyboard state answers every sequence of key events as the set of modifiers does, an
    unknown code leaves it alone, and two vectors with the same modifiers answer alike. -/
theorem resolution_refines_sets (bindings : List KeyBinding) :
    (∀ es, Conforms (reference bindings) keyStep (KeyboardState.new bindings) ∅ es) ∧
    (∀ (ks : KeyboardState) (code : UInt32) (down : Bool), linuxKeyConvert code = none →
      ks.inputLinux code down = (ks, none)) ∧
    ∀ (ms others : List Modifier) (code : UInt32) (down : Bool), (∀ m, m ∈ ms ↔ m ∈ others) →
      (KeyboardState.inputLinux ⟨ms, bindings⟩ code down).2 =
        (KeyboardState.inputLinux ⟨others, bindings⟩ code down).2 := by
  refine ⟨conforms_of_simulates (simulates_reference bindings) (represents_new bindings), ?_, ?_⟩
  · intro ks code down unknown
    simp [KeyboardState.inputLinux, unknown]
  · intro ms others code down same
    have sets : ms.toFinset = others.toFinset := List.toFinset.ext same
    have one := resolves_step ⟨ms, bindings⟩ (code, down)
    simp only [sets] at one
    exact resolves_unique one (resolves_step ⟨others, bindings⟩ (code, down))

/-- Code 0 is no key, and Ctrl+Alt+Delete is fired whichever of the two modifiers came first. -/
theorem resolution_ctrl_alt :
    (KeyboardState.new []).inputLinux 0 true = (KeyboardState.new [], none) ∧
    (KeyboardState.inputLinux ⟨[.ctrl, .alt], [⟨[.alt, .ctrl], false, .delete⟩]⟩ 111 true).2 =
      (KeyboardState.inputLinux ⟨[.alt, .ctrl], [⟨[.alt, .ctrl], false, .delete⟩]⟩ 111 true).2 :=
  ⟨(resolution_refines_sets []).2.1 _ 0 true (by decide),
    (resolution_refines_sets _).2.2 [.ctrl, .alt] [.alt, .ctrl] 111 true
      fun m => by simp [or_comm]⟩

end HotkeyResolution
