import Mathlib.Data.List.Perm.Basic
import WindowsGaming.Library.Runs
import WindowsGaming.Hotkeys

/- The modifiers that the driver believes to be held, against the keys that really are. There are
   two keys for each modifier, and one entry for both of them. -/
namespace HeldModifiers
open Hotkeys

structure Typing where
  keyboard : KeyboardState
  history : List (UInt32 × Bool)
  fired : List Nat
  deriving DecidableEq, Repr

def start (bindings : List KeyBinding) : Typing := ⟨KeyboardState.new bindings, [], []⟩

def typingStep (t : Typing) (e : UInt32 × Bool) : Option Typing :=
  let (keyboard, resolution) := t.keyboard.inputLinux e.1 e.2
  some { keyboard, history := t.history ++ [e], fired := (resolution.map KeyResolution.hotkeys).getD [] }

def held (history : List (UInt32 × Bool)) (code : UInt32) : Bool :=
  history.foldl (fun down e => if e.1 = code then e.2 else down) false

def modifierOf (code : UInt32) : Option Modifier := (linuxKeyConvert code).bind Key.modifier

def Held (history : List (UInt32 × Bool)) (m : Modifier) : Prop :=
  ∃ code, modifierOf code = some m ∧ held history code = true

/-- The tracked modifiers are the held ones, and a press of a key has fired exactly the bindings
    for it whose modifiers are all held. -/
structure Faithful (t : Typing) : Prop where
  tracked : ∀ m, m ∈ t.keyboard.modifiers ↔ Held t.history m
  fires : ∀ code key, t.history.getLast? = some (code, true) → linuxKeyConvert code = some key →
    ∀ (i : Nat) (b : KeyBinding), t.keyboard.bindings[i]? = some b → b.key = key →
      (i ∈ t.fired ↔ ∀ m ∈ b.modifiers, Held t.history m)

/-- A modifier key is released while no other key of its modifier is held, and is pressed only
    while no binding for the key itself has all its modifiers held. -/
def separate (t : Typing) (e : UInt32 × Bool) : Prop :=
  ∀ m, modifierOf e.1 = some m →
    if e.2 then ∀ b ∈ t.keyboard.bindings, linuxKeyConvert e.1 = some b.key →
      ∃ x ∈ b.modifiers, x ≠ m ∧ ¬ Held t.history x
    else ∀ other, other ≠ e.1 → modifierOf other = some m → held t.history other = false

section Tracking
variable {ms : List Modifier}

theorem swapRemove_perm {α : Type} {xs : List α} {i : Nat} (inside : i < xs.length) :
    (swapRemove xs i).Perm (xs.eraseIdx i) := by
  rcases List.eq_nil_or_concat xs with rfl | ⟨ys, last, rfl⟩
  · cases inside
  · rw [List.concat_eq_append] at inside ⊢
    simp only [swapRemove, List.getLast?_concat]
    by_cases early : i < ys.length
    · rw [List.set_append_left _ _ early, List.dropLast_concat, List.eraseIdx_append_of_lt_length early]
      exact (List.set_perm_cons_eraseIdx early last).trans
        (List.perm_append_singleton last _).symm
    · have at_end : i = ys.length := by
        rw [List.length_append, List.length_singleton] at inside
        omega
      subst at_end
      rw [List.set_append_right _ _ (Nat.le_refl _), List.eraseIdx_append_of_length_le (Nat.le_refl _)]
      simp

theorem trackModifier_release (m : Modifier) : (trackModifier ms m false).Perm (ms.erase m) := by
  simp only [trackModifier, Bool.false_eq_true, if_false]
  cases found : ms.findIdx? (· == m) with
  | none =>
    have absent : m ∉ ms := by
      intro member
      have none_there := List.findIdx?_eq_none_iff.mp found m member
      simp at none_there
    rw [List.erase_of_not_mem absent]
  | some i =>
    obtain ⟨inside, rfl⟩ := List.findIdx?_eq_some_iff_findIdx_eq.mp found
    rw [← List.eraseIdx_idxOf_eq_erase]
    exact swapRemove_perm inside

theorem mem_trackModifier (distinct : ms.Nodup) (m x : Modifier) (down : Bool) :
    x ∈ trackModifier ms m down ↔ if down then x ∈ ms ∨ x = m else x ≠ m ∧ x ∈ ms := by
  cases down with
  | true =>
    simp only [trackModifier, if_true]
    split
    · rename_i present
      have member : m ∈ ms := by simpa using present
      constructor
      · exact Or.inl
      · rintro (old | rfl)
        · exact old
        · exact member
    · simp
  | false =>
    rw [(trackModifier_release m).mem_iff, distinct.mem_erase_iff]
    simp

theorem nodup_trackModifier (distinct : ms.Nodup) (m : Modifier) (down : Bool) :
    (trackModifier ms m down).Nodup := by
  cases down with
  | true =>
    simp only [trackModifier, if_true]
    split
    · exact distinct
    · rename_i absent
      have fresh : m ∉ ms := by simpa using absent
      refine List.nodup_append.mpr ⟨distinct, by simp, ?_⟩
      intro a member b new same
      rw [List.mem_singleton.mp new] at same
      exact fresh (same ▸ member)
  | false => exact (trackModifier_release m).nodup_iff.mpr (distinct.erase m)

end Tracking

section Holding
variable (history : List (UInt32 × Bool)) (code : UInt32) (m : Modifier)

theorem held_append (e : UInt32 × Bool) :
    held (history ++ [e]) code = if e.1 = code then e.2 else held history code := by
  simp [held, List.foldl_append]

theorem held_press :
    Held (history ++ [(code, true)]) m ↔ Held history m ∨ modifierOf code = some m := by
  constructor
  · rintro ⟨other, sort, down⟩
    rw [held_append] at down
    split at down
    · rename_i same
      cases same
      exact Or.inr sort
    · exact Or.inl ⟨other, sort, down⟩
  · rintro (⟨other, sort, down⟩ | sort)
    · refine ⟨other, sort, ?_⟩
      rw [held_append]
      split
      · rfl
      · exact down
    · exact ⟨code, sort, by simp [held_append]⟩

theorem held_release : Held (history ++ [(code, false)]) m ↔
    ∃ other, other ≠ code ∧ modifierOf other = some m ∧ held history other = true := by
  constructor
  · rintro ⟨other, sort, down⟩
    rw [held_append] at down
    split at down
    · cases down
    · rename_i different
      exact ⟨other, fun same => different same.symm, sort, down⟩
  · rintro ⟨other, different, sort, down⟩
    refine ⟨other, sort, ?_⟩
    rw [held_append, if_neg fun same => different same.symm]
    exact down

theorem held_other {down : Bool} (sort : modifierOf code ≠ some m) :
    Held (history ++ [(code, down)]) m ↔ Held history m := by
  cases down with
  | true =>
    rw [held_press]
    simp [sort]
  | false =>
    rw [held_release]
    constructor
    · rintro ⟨other, _, same, pressed⟩
      exact ⟨other, same, pressed⟩
    · rintro ⟨other, same, pressed⟩
      exact ⟨other, fun equal => sort (equal ▸ same), same, pressed⟩

end Holding

section Steps
variable {t next : Typing} {e : UInt32 × Bool}

theorem typingStep_next (taken : typingStep t e = some next) :
    next =
      { keyboard := (t.keyboard.inputLinux e.1 e.2).1
        history := t.history ++ [e]
        fired := ((t.keyboard.inputLinux e.1 e.2).2.map KeyResolution.hotkeys).getD [] } :=
  (Option.some.inj taken).symm

theorem input_modifiers (ks : KeyboardState) (code : UInt32) (down : Bool) :
    (ks.inputLinux code down).1.modifiers = match modifierOf code with
      | some m => trackModifier ks.modifiers m down
      | none => ks.modifiers := by
  unfold KeyboardState.inputLinux modifierOf
  cases linuxKeyConvert code with
  | none => rfl
  | some key => cases modifier : key.modifier <;> simp [modifier]

theorem input_bindings (ks : KeyboardState) (code : UInt32) (down : Bool) :
    (ks.inputLinux code down).1.bindings = ks.bindings := by
  unfold KeyboardState.inputLinux
  cases linuxKeyConvert code with
  | none => rfl
  | some key => cases modifier : key.modifier <;> simp [modifier]

theorem input_fires (ks : KeyboardState) {code : UInt32} {key : Key}
    (known : linuxKeyConvert code = some key) :
    ((ks.inputLinux code true).2.map KeyResolution.hotkeys).getD [] =
      if key.modifier = none then firedBindings ks.bindings ks.modifiers key else [] := by
  unfold KeyboardState.inputLinux
  cases modifier : key.modifier <;> simp [known, modifier]

theorem mem_firedBindings {bindings : List KeyBinding} {ms : List Modifier} {key : Key} {i : Nat}
    {b : KeyBinding} (bound : bindings[i]? = some b) :
    i ∈ firedBindings bindings ms key ↔ b.matches ms key = true := by
  simp only [firedBindings, List.mem_map, List.mem_filter, List.mem_zipIdx_iff_getElem?]
  constructor
  · rintro ⟨⟨found, j⟩, ⟨same, fires⟩, rfl⟩
    rw [bound] at same
    cases same
    exact fires
  · intro fires
    exact ⟨(b, i), ⟨bound, fires⟩, rfl⟩

theorem matches_iff {b : KeyBinding} {ms : List Modifier} {key : Key} (own : b.key = key) :
    b.matches ms key = true ↔ ∀ m ∈ b.modifiers, m ∈ ms := by
  simp [KeyBinding.matches, own]

theorem sort_of_known {code : UInt32} {key : Key} (known : linuxKeyConvert code = some key) :
    modifierOf code = key.modifier := by
  simp [modifierOf, known]

theorem tracked_step (distinct : t.keyboard.modifiers.Nodup)
    (tracked : ∀ m, m ∈ t.keyboard.modifiers ↔ Held t.history m) (ok : separate t e) (m : Modifier) :
    m ∈ (t.keyboard.inputLinux e.1 e.2).1.modifiers ↔ Held (t.history ++ [e]) m := by
  obtain ⟨code, down⟩ := e
  rw [input_modifiers]
  cases sort : modifierOf code with
  | none =>
    rw [held_other t.history code m (by simp [sort])]
    exact tracked m
  | some own =>
    simp only
    rw [mem_trackModifier distinct]
    cases down with
    | true =>
      rw [held_press, sort, if_pos rfl, tracked]
      simp [eq_comm]
    | false =>
      rw [if_neg (by simp), tracked]
      by_cases same : m = own
      · subst same
        -- the released key was the only one of its modifier
        have alone := ok m sort
        simp only [Bool.false_eq_true, if_false] at alone
        rw [held_release]
        constructor
        · rintro ⟨different, _⟩
          exact absurd rfl different
        · rintro ⟨other, different, kind, pressed⟩
          rw [alone other different kind] at pressed
          cases pressed
      · rw [held_other t.history code m (by simpa [sort] using fun equal => same equal.symm)]
        exact ⟨fun h => h.2, fun h => ⟨same, h⟩⟩

theorem fires_step (tracked : ∀ m, m ∈ t.keyboard.modifiers ↔ Held t.history m) {code : UInt32}
    {key : Key} (known : linuxKeyConvert code = some key) (ok : separate t (code, true)) {i : Nat}
    {b : KeyBinding} (bound : t.keyboard.bindings[i]? = some b) (own : b.key = key) :
    i ∈ ((t.keyboard.inputLinux code true).2.map KeyResolution.hotkeys).getD [] ↔
      ∀ m ∈ b.modifiers, Held (t.history ++ [(code, true)]) m := by
  rw [input_fires t.keyboard known]
  cases sort : key.modifier with
  | none =>
    have plain : ∀ m, modifierOf code ≠ some m := by simp [sort_of_known known, sort]
    rw [if_pos rfl, mem_firedBindings bound, matches_iff own]
    simp only [held_other _ _ _ (plain _), tracked]
  | some m =>
    obtain ⟨x, needed, different, free⟩ :=
      ok m ((sort_of_known known).trans sort) b (List.mem_of_getElem? bound) (own ▸ known)
    rw [if_neg (by simp)]
    constructor
    · intro fired
      cases fired
    · intro all
      have missing := all x needed
      rw [held_press, sort_of_known known, sort] at missing
      rcases missing with pressed | same
      · exact absurd pressed free
      · exact absurd (Option.some.inj same).symm different

def Sound (t : Typing) : Prop := Faithful t ∧ t.keyboard.modifiers.Nodup

theorem nodup_step (distinct : t.keyboard.modifiers.Nodup) (taken : typingStep t e = some next) :
    next.keyboard.modifiers.Nodup := by
  rw [typingStep_next taken]
  simp only [input_modifiers]
  split
  · exact nodup_trackModifier distinct _ _
  · exact distinct

theorem sound_step (sound : Sound t) (ok : separate t e) (taken : typingStep t e = some next) :
    Sound next := by
  obtain ⟨⟨tracked, _⟩, distinct⟩ := sound
  refine ⟨⟨?_, ?_⟩, nodup_step distinct taken⟩
  · rw [typingStep_next taken]
    exact tracked_step distinct tracked ok
  · rw [typingStep_next taken]
    intro code key last known i b bound own
    rw [List.getLast?_concat, Option.some.injEq] at last
    subst last
    simp only [input_bindings] at bound
    exact fires_step tracked known ok bound own

/-- A release while another key of the modifier is held loses the modifier, and a press of a bound
    modifier key fires nothing. -/
theorem separate_of_faithful (sound : Sound t) (taken : typingStep t e = some next)
    (after : Faithful next) : separate t e := by
  obtain ⟨⟨tracked, _⟩, distinct⟩ := sound
  obtain ⟨code, down⟩ := e
  rw [typingStep_next taken] at after
  intro m sort
  cases down with
  | true =>
    simp only [if_true]
    intro b bound known
    obtain ⟨i, at_i⟩ := List.getElem?_of_mem bound
    by_contra held_all
    have every : ∀ x ∈ b.modifiers, Held (t.history ++ [(code, true)]) x := by
      intro x needed
      rw [held_press, sort]
      by_cases own : x = m
      · exact Or.inr (by rw [own])
      · by_contra free
        exact held_all ⟨x, needed, own, fun pressed => free (Or.inl pressed)⟩
    have fired := (after.fires code b.key (by simp) known i b (by rwa [input_bindings]) rfl).mpr every
    simp only [input_fires t.keyboard known, ← sort_of_known known, sort] at fired
    simp at fired
  | false =>
    simp only [Bool.false_eq_true, if_false]
    intro other different kind
    by_contra pressed
    have still : Held (t.history ++ [(code, false)]) m :=
      (held_release _ _ _).mpr ⟨other, different, kind, by simpa using pressed⟩
    have kept := (after.tracked m).mpr still
    simp only [input_modifiers, sort] at kept
    rw [mem_trackModifier distinct] at kept
    simp at kept

theorem sound_start (bindings : List KeyBinding) : Sound (start bindings) := by
  refine ⟨⟨?_, nofun⟩, List.nodup_nil⟩
  intro m
  simp [start, KeyboardState.new, Held, held]

end Steps

/-- The modifiers are tracked and the bindings fire as they should along a run of key events
    exactly when every event of it is separate. -/
theorem modifiers_held_iff (bindings : List KeyBinding) (es : List (UInt32 × Bool)) :
    Runs.Always typingStep Faithful (start bindings) es ↔
      Runs.Meets typingStep separate (start bindings) es :=
  Runs.always_iff_meets Sound (fun _ _ _ => sound_step) (fun _ sound => sound.1)
    (fun _ _ _ => separate_of_faithful) (sound_start bindings) es

/-- Both shift keys are pressed and one is released: no shift is tracked any more. -/
theorem second_shift_forgotten :
    ¬ Runs.Always typingStep Faithful (start []) [(42, true), (54, true), (54, false)] := by
  intro always
  have faithful := Runs.always_last always rfl
  have still : Held [(42, true), (54, true), (54, false)] .shift := ⟨42, by decide, by decide⟩
  exact absurd ((faithful.tracked .shift).mpr still) (by decide)

end HeldModifiers
