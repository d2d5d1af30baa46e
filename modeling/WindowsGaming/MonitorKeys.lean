import Mathlib.Data.List.Count
import Mathlib.Data.List.Induction
import Mathlib.Data.List.Nodup
import WindowsGaming.Library.Runs
import WindowsGaming.Monitor

/- The keys that the command handler holds, against everything it ever sent to the guest. Each
   command may come in any order, and QEMU executes each of them. -/
namespace MonitorKeys
open Protocol Monitor

structure Session where
  handler : CommandHandler
  sent : List InputEvent
  deriving DecidableEq, Repr

def start : Session := ⟨CommandHandler.new, []⟩

def sessionStep (s : Session) (cmd : QmpCommand) : Option Session :=
  (s.handler.take .ok cmd).map fun taken =>
    { handler := taken.1, sent := s.sent ++ inputEvents taken.2 }

def keyEvent (key : KeyValue) : InputEvent → Option Bool
  | .key k down => if k = key then some down else none
  | _ => none

def lastEvent (sent : List InputEvent) (key : KeyValue) : Option Bool :=
  sent.reverse.findSome? (keyEvent key)

/-- The held keys are those last pressed, and releasing them all sends one batch with exactly
    one release for each of them, and nothing else. -/
structure Mirrors (s : Session) : Prop where
  held : ∀ key, key ∈ s.handler.heldKeys ↔ lastEvent s.sent key = some true
  releases : ∃ next batch,
    s.handler.take .ok .releaseAllKeys = some (next, [.qmp (.inputSendEvent batch)]) ∧
    next.heldKeys = [] ∧
    (∀ e ∈ batch, ∃ key, e = .key key false) ∧
    ∀ key, batch.count (.key key false) = if lastEvent s.sent key = some true then 1 else 0

section Events
variable {held : List KeyValue}

theorem lastEvent_concat (sent : List InputEvent) (e : InputEvent) (key : KeyValue) :
    lastEvent (sent ++ [e]) key = (keyEvent key e).or (lastEvent sent key) := by
  rw [lastEvent, List.reverse_append, List.reverse_singleton, List.singleton_append,
    List.findSome?_cons]
  cases keyEvent key e <;> rfl

theorem keyAfter_eq (key : KeyValue) (down : Bool) (e : InputEvent) :
    keyAfter key down e = (keyEvent key e).getD down := by
  cases e with
  | key k pressed =>
    rw [keyAfter, keyEvent]
    split <;> rfl
  | _ => rfl

theorem guestHolds_eq (sent : List InputEvent) (key : KeyValue) :
    guestHolds sent key = (lastEvent sent key).getD false := by
  induction sent using List.reverseRecOn with
  | nil => rfl
  | append_singleton sent e ih =>
    rw [lastEvent_concat, guestHolds, List.foldl_append]
    change keyAfter key (guestHolds sent key) e = _
    rw [keyAfter_eq, ih]
    cases keyEvent key e <;> rfl

theorem guestHolds_iff (sent : List InputEvent) (key : KeyValue) :
    guestHolds sent key = true ↔ lastEvent sent key = some true := by
  rw [guestHolds_eq]
  cases lastEvent sent key <;> simp

theorem nodup_holdKey (distinct : held.Nodup) (e : InputEvent) : (holdKey held e).Nodup := by
  cases e with
  | key k pressed =>
    cases pressed with
    | true => exact distinct.insert
    | false => exact distinct.filter _
  | _ => exact distinct

theorem nodup_foldl_holdKey (distinct : held.Nodup) (events : List InputEvent) :
    (events.foldl holdKey held).Nodup := by
  induction events generalizing held with
  | nil => exact distinct
  | cons e events ih => exact ih (nodup_holdKey distinct e)

theorem nodup_heldAfter (distinct : held.Nodup) (cmd : QmpCommand) :
    (heldAfter held cmd).Nodup := by
  cases cmd with
  | inputSendEvent events => exact nodup_foldl_holdKey distinct events
  | releaseAllKeys => exact List.nodup_nil
  | _ => exact distinct

theorem release_injective : Function.Injective fun key => InputEvent.key key false := by
  intro first second same
  cases same
  rfl

theorem count_releases (distinct : held.Nodup) (key : KeyValue) :
    (held.map fun k => InputEvent.key k false).count (.key key false) =
      if key ∈ held then 1 else 0 := by
  rw [List.count_map_of_injective held _ release_injective key]
  exact distinct.count

end Events

section Sessions
variable {s next : Session} {cmd : QmpCommand}

def Tracked (s : Session) : Prop := Agrees s.handler s.sent ∧ s.handler.heldKeys.Nodup

theorem tracked_start : Tracked start := by
  refine ⟨?_, List.nodup_nil⟩
  intro key
  simp [start, CommandHandler.new, guestHolds]

theorem tracked_step (tracked : Tracked s) (taken : sessionStep s cmd = some next) :
    Tracked next := by
  obtain ⟨⟨handler, actions⟩, executed, rfl⟩ := Option.map_eq_some_iff.mp taken
  refine ⟨take_agrees tracked.1 executed, ?_⟩
  rw [take_heldKeys executed]
  exact nodup_heldAfter tracked.2 cmd

theorem mirrors_of_tracked (tracked : Tracked s) : Mirrors s := by
  obtain ⟨agrees, distinct⟩ := tracked
  have held : ∀ key, key ∈ s.handler.heldKeys ↔ lastEvent s.sent key = some true :=
    fun key => (agrees key).trans (guestHolds_iff s.sent key)
  refine ⟨held, _, _, rfl, rfl, ?_, ?_⟩
  · intro e sent
    obtain ⟨key, _, rfl⟩ := List.mem_map.mp sent
    exact ⟨key, rfl⟩
  · intro key
    rw [count_releases distinct]
    simp only [held]

end Sessions

/-- In every state that any sequence of commands leads through, the handler's set is the guest's,
    and releasing all keys releases exactly these. -/
theorem held_keys_mirror_guest (cmds : List QmpCommand) :
    Runs.Always sessionStep Mirrors start cmds :=
  Runs.always_mono (fun _ => mirrors_of_tracked)
    (Runs.always_of_preserved Tracked (fun _ _ _ => tracked_step) tracked_start cmds)

/-- A batch that presses a key twice, releases another never pressed and moves the pointer. -/
example : (Runs.run sessionStep start
    [.inputSendEvent [.key (.qcode "a") true, .key (.qcode "a") true, .rel "x" 3,
      .key (.qcode "b") false], .releaseAllKeys]).map Session.sent =
    some [.key (.qcode "a") true, .key (.qcode "a") true, .rel "x" 3, .key (.qcode "b") false,
      .key (.qcode "a") false] := by decide

end MonitorKeys
