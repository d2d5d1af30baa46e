import Mathlib.Algebra.GroupWithZero.Nat
import WindowsGaming.ClipboardBridge
import WindowsGaming.Library.Runs

/- Announcements of what is copied. A side announces the copies of others and not what it put into its
   clipboard itself, but learns of either in the same way, and later. -/
namespace ClipboardEcho
open Config (MachineConfig HooksConfig)
open Protocol Controller Clientpipe ClipboardBridge

/-- The copies of others are numbered on each side; what a side put there itself has no number. -/
structure Echo where
  controller : Controller
  selections : List (Option (Selection × Option Nat))
  linux : Option (Selection × Option Nat)
  linuxChanged : Bool
  linuxCopies : Nat
  grabs : List ClipboardTypes
  toGuest : List GaCmdOut
  toDriver : List GaCmdIn
  clipboard : Option (Offer × Option Nat)
  updates : Nat
  windows : Option (Offer × Option Nat)
  windowsChanged : Bool
  windowsCopies : Nat
  /-- All messages that the driver sent, each with the copy that it sent it for. -/
  driverSent : List (Option Nat)
  guestSent : List (Option Nat)
  deriving DecidableEq, Repr

def start (machine : MachineConfig) (hooks : HooksConfig) : Echo :=
  { controller := new machine hooks (Input.new machine)
    selections := []
    linux := none
    linuxChanged := true
    linuxCopies := 0
    grabs := []
    toGuest := []
    toDriver := []
    clipboard := none
    updates := 0
    windows := none
    windowsChanged := false
    windowsCopies := 0
    driverSent := []
    guestSent := [] }

inductive Event where
  | linuxCopy (mimeTypes : List String)
  | linuxClear
  | selection
  | listener
  | windowsCopy (hasString hasImage : Bool)
  | windowsClear
  | coalesce
  | update
  | clipWatch
  | guestReceives
  | driverReceives (env : Env)
  | cmdHandler

/-- The messages of the controller leave it; they were sent for the copy, if for any. -/
def Echo.handOn (copy : Option Nat) (s : Echo) : Echo :=
  let sent := s.controller.out.filterMap toClientpipe
  { s with
    controller := { s.controller with out := [] }
    toGuest := s.toGuest ++ sent
    driverSent := s.driverSent ++ sent.map fun _ => copy
    grabs := s.grabs ++ s.controller.out.filterMap toGrabber }

def echoStep (s : Echo) : Event → Option Echo
  | .linuxCopy mimeTypes =>
    let selection := (foreignSelection mimeTypes, some s.linuxCopies)
    some { s with selections := s.selections ++ [some selection], linuxCopies := s.linuxCopies + 1 }
  | .linuxClear => some { s with selections := s.selections ++ [none] }
  | .selection =>
    match s.selections with
    | linux :: selections => some { s with selections, linux, linuxChanged := true }
    | [] => none
  | .listener =>
    if s.linuxChanged then
      let controller := clipboardListener (s.linux.map Prod.fst) s.controller
      some ({ s with controller, linuxChanged := false }.handOn (s.linux.bind Prod.snd))
    else none
  | .windowsCopy hasString hasImage =>
    some { s with
      clipboard := some (foreignOffer hasString hasImage, some s.windowsCopies)
      updates := s.updates + 1
      windowsCopies := s.windowsCopies + 1 }
  | .windowsClear => some { s with clipboard := none, updates := s.updates + 1 }
  | .coalesce => if 1 < s.updates then some { s with updates := s.updates - 1 } else none
  | .update =>
    -- the clipboard is read as it is now, not as it was when the notification was posted
    if 0 < s.updates then
      some { s with updates := s.updates - 1, windows := s.clipboard, windowsChanged := true }
    else none
  | .clipWatch =>
    if s.windowsChanged then
      let sent := (clipWatch (s.windows.map Prod.fst)).toList
      some { s with
        toDriver := s.toDriver ++ sent
        guestSent := s.guestSent ++ sent.map fun _ => s.windows.bind Prod.snd
        windowsChanged := false }
    else none
  | .guestReceives =>
    match s.toGuest with
    | .clipboard (some (.grabClipboard types)) :: toGuest =>
      (delayRendered types).map fun offer =>
        let clipboard := if types.types = [] then none else some (offer, none)
        { s with toGuest, clipboard, updates := s.updates + 1 }
    | _ => none
  | .driverReceives env =>
    match s.toDriver with
    | cmd :: toDriver =>
      let controller := (handle env cmd s.controller).1
      some ({ s with controller, toDriver }.handOn none)
    | [] => none
  | .cmdHandler =>
    match s.grabs with
    | types :: grabs =>
      some { s with grabs, selections := s.selections ++ [some (claim types, none)] }
    | [] => none

def proxy (types : ClipboardTypes) : Option (Offer × Option Nat) :=
  (delayRendered types).bind fun offer => if types.types = [] then none else some (offer, none)

/-- Every message was sent for a copy of somebody else on that side, and no two for the same one. -/
structure NoEcho (s : Echo) : Prop where
  driver : ∀ copy ∈ s.driverSent, ∃ n < s.linuxCopies, copy = some n
  guest : ∀ copy ∈ s.guestSent, ∃ n < s.windowsCopies, copy = some n
  driverOnce : s.driverSent.Nodup
  guestOnce : s.guestSent.Nodup
  few : s.driverSent.length + s.guestSent.length ≤ s.linuxCopies + s.windowsCopies

/-- The notification finds a copy that was announced before. -/
def late (s : Echo) : Bool :=
  s.clipboard.any fun item => item.2.isSome && s.guestSent.contains item.2

def timely (s : Echo) : Event → Prop
  | .update => late s = false
  | _ => True

instance (s : Echo) : DecidablePred (timely s)
  | .update => inferInstanceAs (Decidable (late s = false))
  | .linuxCopy _ | .linuxClear | .selection | .listener | .windowsCopy _ _ | .windowsClear |
    .coalesce | .clipWatch | .guestReceives | .driverReceives _ | .cmdHandler =>
    inferInstanceAs (Decidable True)

/-- Nobody copies or clears anything. -/
def isInternal : Event → Bool
  | .linuxCopy _ | .linuxClear | .windowsCopy _ _ | .windowsClear => false
  | _ => true

def selectionWork : Option (Selection × Option Nat) → Nat
  | some (_, some _) => 8
  | _ => 1

def Echo.work (s : Echo) : Nat :=
  (s.selections.map fun item => selectionWork item + 1).sum +
    (if s.linuxChanged then selectionWork s.linux else 0) + 7 * s.toGuest.length +
    6 * s.updates + (if s.windowsChanged then 5 else 0) + 4 * s.toDriver.length + 3 * s.grabs.length

structure Marked (s : Echo) : Prop where
  toDriver : ∀ cmd ∈ s.toDriver, ∃ types, cmd = .clipboard (some (.grabClipboard types))
  out : s.controller.out = []
  linux : ∀ item : Selection × Option Nat, some item ∈ s.linux :: s.selections → item.2 = none →
    item.1.ours = true
  windows : ∀ item : Offer × Option Nat, some item ∈ [s.clipboard, s.windows] → item.2 = none →
    item.1.owner = .eventLoop

section Steps
variable {s next : Echo}

theorem selection_next (taken : echoStep s .selection = some next) :
    ∃ linux selections, s.selections = linux :: selections ∧
      next = { s with selections, linux, linuxChanged := true } := by
  simp only [echoStep] at taken
  split at taken
  · rename_i linux selections waiting
    cases taken
    exact ⟨linux, selections, waiting, rfl⟩
  · cases taken

theorem coalesce_next (taken : echoStep s .coalesce = some next) :
    1 < s.updates ∧ next = { s with updates := s.updates - 1 } := by
  obtain ⟨several, rfl⟩ := Option.ite_some_none_eq_some.mp taken
  exact ⟨several, rfl⟩

theorem update_next (taken : echoStep s .update = some next) : 0 < s.updates ∧
    next = { s with updates := s.updates - 1, windows := s.clipboard, windowsChanged := true } := by
  obtain ⟨posted, rfl⟩ := Option.ite_some_none_eq_some.mp taken
  exact ⟨posted, rfl⟩

theorem cmdHandler_next (taken : echoStep s .cmdHandler = some next) :
    ∃ types grabs, s.grabs = types :: grabs ∧
      next = { s with grabs, selections := s.selections ++ [some (claim types, none)] } := by
  simp only [echoStep] at taken
  split at taken
  · rename_i types grabs waiting
    cases taken
    exact ⟨types, grabs, waiting, rfl⟩
  · cases taken

theorem listener_next (marked : Marked s) (taken : echoStep s .listener = some next) :
    s.linuxChanged = true ∧ (next = { s with linuxChanged := false } ∨
      ∃ (offer : Selection) (n : Nat), s.linux = some (offer, some n) ∧ next = { s with
        linuxChanged := false
        toGuest := s.toGuest ++ [.clipboard (some (.grabClipboard offer.types))]
        driverSent := s.driverSent ++ [some n] }) := by
  simp only [echoStep] at taken
  split at taken
  · rename_i changed
    cases taken
    refine ⟨changed, ?_⟩
    rcases listener_cases (s.linux.map Prod.fst) s.controller with
      ⟨_, quiet⟩ | ⟨offer, found, foreign, sent⟩
    · left
      simp [Echo.handOn, quiet, marked.out, without_out marked.out]
    · right
      obtain ⟨⟨selection, copy⟩, there, rfl⟩ := Option.map_eq_some_iff.mp found
      cases copy with
      | none =>
        have ours := marked.linux (selection, none) (by simp [there]) rfl
        exact absurd (selection.marked ours) foreign
      | some n =>
        refine ⟨selection, n, there, ?_⟩
        rw [sent]
        simp [Echo.handOn, there, grabWinClipboard, writeGa, emit, emitAll, marked.out,
          toClientpipe, toGrabber, without_out marked.out]
  · cases taken

theorem clipWatch_next (marked : Marked s) (taken : echoStep s .clipWatch = some next) :
    s.windowsChanged = true ∧ (next = { s with windowsChanged := false } ∨
      ∃ (offer : Offer) (n : Nat), s.windows = some (offer, some n) ∧ next = { s with
        windowsChanged := false
        toDriver := s.toDriver ++ [.clipboard (some (.grabClipboard offer.types))]
        guestSent := s.guestSent ++ [some n] }) := by
  simp only [echoStep] at taken
  split at taken
  · rename_i changed
    cases taken
    refine ⟨changed, ?_⟩
    rcases clipWatch_cases (s.windows.map Prod.fst) with ⟨_, quiet⟩ | ⟨offer, found, foreign, sent⟩
    · left
      simp [quiet]
    · right
      obtain ⟨⟨offer, copy⟩, there, rfl⟩ := Option.map_eq_some_iff.mp found
      cases copy with
      | none => exact absurd (marked.windows (offer, none) (by simp [there]) rfl) foreign
      | some n => exact ⟨offer, n, there, by rw [sent]; simp [there]⟩
  · cases taken

theorem guestReceives_next (taken : echoStep s .guestReceives = some next) :
    ∃ cmd toGuest clipboard, s.toGuest = cmd :: toGuest ∧
      (∀ item : Offer × Option Nat, clipboard = some item → item.2 = none ∧
        item.1.owner = .eventLoop) ∧
      next = { s with toGuest, clipboard, updates := s.updates + 1 } := by
  simp only [echoStep] at taken
  split at taken
  · rename_i types toGuest pipe
    obtain ⟨offer, rendered, rfl⟩ := Option.map_eq_some_iff.mp taken
    refine ⟨_, toGuest, _, pipe, ?_, rfl⟩
    intro item put
    split at put
    · cases put
    · cases put
      exact ⟨rfl, delayRendered_owner rendered⟩
  · cases taken

theorem driverReceives_next {env : Env} (marked : Marked s)
    (taken : echoStep s (.driverReceives env) = some next) :
    ∃ types toDriver, s.toDriver = .clipboard (some (.grabClipboard types)) :: toDriver ∧
      next = { s with toDriver, grabs := s.grabs ++ [types] } := by
  simp only [echoStep] at taken
  split at taken
  · rename_i cmd toDriver pipe
    obtain ⟨types, rfl⟩ := marked.toDriver cmd (by simp [pipe])
    refine ⟨types, toDriver, pipe, ?_⟩
    cases taken
    simp [Echo.handOn, handle, grabX11Clipboard, emit, emitAll, marked.out, toClientpipe, toGrabber,
      without_out marked.out]
  · cases taken

theorem listener_announces {selection : Selection} {n : Nat} (out : s.controller.out = [])
    (changed : s.linuxChanged = true) (found : s.linux = some (selection, some n))
    (unmarked : ourMimeMarker ∉ selection.mimeTypes) :
    echoStep s .listener = some { s with
      linuxChanged := false
      toGuest := s.toGuest ++ [.clipboard (some (.grabClipboard selection.types))]
      driverSent := s.driverSent ++ [some n] } := by
  simp [echoStep, changed, found, clipboardListener, unmarked, Echo.handOn, grabWinClipboard, writeGa,
    emit, emitAll, out, toClientpipe, toGrabber, without_out out]

theorem clipWatch_announces {offer : Offer} {n : Nat} (changed : s.windowsChanged = true)
    (found : s.windows = some (offer, some n)) (owner : offer.owner ≠ .eventLoop) :
    echoStep s .clipWatch = some { s with
      windowsChanged := false
      toDriver := s.toDriver ++ [.clipboard (some (.grabClipboard offer.types))]
      guestSent := s.guestSent ++ [some n] } := by
  simp [echoStep, changed, found, clipWatch, owner]

theorem guestReceives_announced {selection : Selection} {toGuest : List GaCmdOut}
    (pipe : s.toGuest = .clipboard (some (.grabClipboard selection.types)) :: toGuest) :
    echoStep s .guestReceives = some { s with
      toGuest
      clipboard := proxy selection.types
      updates := s.updates + 1 } := by
  have valid := types_valid selection
  by_cases empty : selection.types.types = []
  · simp [echoStep, pipe, proxy, delayRendered, empty]
  · simp [echoStep, pipe, proxy, delayRendered, empty, valid]

theorem linux_appended {linux event : Option (Selection × Option Nat)}
    {selections : List (Option (Selection × Option Nat))}
    (known : ∀ item : Selection × Option Nat, some item ∈ linux :: selections → item.2 = none →
      item.1.ours = true)
    (right : ∀ item : Selection × Option Nat, event = some item → item.2 = none →
      item.1.ours = true) (item : Selection × Option Nat)
    (member : some item ∈ linux :: (selections ++ [event])) (own : item.2 = none) :
    item.1.ours = true := by
  rw [← List.cons_append] at member
  rcases List.mem_append.mp member with old | new
  · exact known item old own
  · exact right item (List.mem_singleton.mp new).symm own

theorem windows_replaced {clipboard windows before : Option (Offer × Option Nat)}
    (known : ∀ item : Offer × Option Nat, some item ∈ [before, windows] → item.2 = none →
      item.1.owner = .eventLoop)
    (right : ∀ item : Offer × Option Nat, clipboard = some item → item.2 = none →
      item.1.owner = .eventLoop) (item : Offer × Option Nat)
    (member : some item ∈ [clipboard, windows]) (own : item.2 = none) :
    item.1.owner = .eventLoop := by
  rcases List.mem_cons.mp member with now | later
  · exact right item now.symm own
  · exact known item (List.mem_cons_of_mem _ later) own

theorem marked_step {e : Event} (marked : Marked s) (taken : echoStep s e = some next) :
    Marked next := by
  obtain ⟨toDriver, out, linux, windows⟩ := marked
  cases e with
  | linuxCopy mimeTypes =>
    cases taken
    refine ⟨toDriver, out, linux_appended linux ?_, windows⟩
    intro item copied own
    cases copied
    cases own
  | linuxClear =>
    cases taken
    exact ⟨toDriver, out, linux_appended linux nofun, windows⟩
  | selection =>
    obtain ⟨first, selections, waiting, rfl⟩ := selection_next taken
    rw [waiting] at linux
    exact ⟨toDriver, out, fun item member => linux item (List.mem_cons_of_mem _ member), windows⟩
  | listener =>
    rcases (listener_next ⟨toDriver, out, linux, windows⟩ taken).2 with rfl | ⟨_, _, _, rfl⟩
    · exact ⟨toDriver, out, linux, windows⟩
    · exact ⟨toDriver, out, linux, windows⟩
  | windowsCopy hasString hasImage =>
    cases taken
    refine ⟨toDriver, out, linux, windows_replaced windows ?_⟩
    intro item copied own
    cases copied
    cases own
  | windowsClear =>
    cases taken
    exact ⟨toDriver, out, linux, windows_replaced windows nofun⟩
  | coalesce =>
    obtain ⟨_, rfl⟩ := coalesce_next taken
    exact ⟨toDriver, out, linux, windows⟩
  | update =>
    obtain ⟨_, rfl⟩ := update_next taken
    refine ⟨toDriver, out, linux, ?_⟩
    intro item member own
    exact windows item (by simpa using Or.inl member) own
  | clipWatch =>
    rcases (clipWatch_next ⟨toDriver, out, linux, windows⟩ taken).2 with rfl | ⟨offer, _, _, rfl⟩
    · exact ⟨toDriver, out, linux, windows⟩
    · refine ⟨?_, out, linux, windows⟩
      intro cmd member
      rcases List.mem_append.mp member with old | new
      · exact toDriver cmd old
      · exact ⟨offer.types, List.mem_singleton.mp new⟩
  | guestReceives =>
    obtain ⟨cmd, toGuest, clipboard, _, put, rfl⟩ := guestReceives_next taken
    exact ⟨toDriver, out, linux, windows_replaced windows fun item now _ => (put item now).2⟩
  | driverReceives env =>
    obtain ⟨types, rest, pipe, rfl⟩ := driverReceives_next ⟨toDriver, out, linux, windows⟩ taken
    rw [pipe] at toDriver
    exact ⟨fun cmd member => toDriver cmd (List.mem_cons_of_mem _ member), out, linux, windows⟩
  | cmdHandler =>
    obtain ⟨types, grabs, _, rfl⟩ := cmdHandler_next taken
    refine ⟨toDriver, out, linux_appended linux ?_, windows⟩
    intro item claimed _
    cases claimed
    rfl

theorem known_step {e : ClipboardEcho.Event} (marked : Marked s)
    (known : ∀ cmd ∈ s.toGuest, ∃ selection : Selection,
      cmd = .clipboard (some (.grabClipboard selection.types)))
    (taken : echoStep s e = some next) :
    ∀ cmd ∈ next.toGuest, ∃ selection : Selection,
      cmd = .clipboard (some (.grabClipboard selection.types)) := by
  cases e with
  | selection =>
    obtain ⟨_, _, -, rfl⟩ := selection_next taken
    exact known
  | listener =>
    obtain ⟨-, rfl | ⟨selection, _, -, rfl⟩⟩ := listener_next marked taken
    · exact known
    · intro cmd member
      rcases List.mem_append.mp member with old | new
      · exact known cmd old
      · exact ⟨selection, List.mem_singleton.mp new⟩
  | coalesce =>
    obtain ⟨-, rfl⟩ := coalesce_next taken
    exact known
  | update =>
    obtain ⟨-, rfl⟩ := update_next taken
    exact known
  | clipWatch =>
    obtain ⟨-, rfl | ⟨_, _, -, rfl⟩⟩ := clipWatch_next marked taken
    · exact known
    · exact known
  | guestReceives =>
    obtain ⟨_, _, _, pipe, -, rfl⟩ := guestReceives_next taken
    exact fun cmd member => known cmd (by simp [pipe, member])
  | driverReceives env =>
    obtain ⟨_, _, -, rfl⟩ := driverReceives_next marked taken
    exact known
  | cmdHandler =>
    obtain ⟨_, _, -, rfl⟩ := cmdHandler_next taken
    exact known
  | _ =>
    cases taken
    exact known

end Steps

section Accounts
variable {sent : List (Option Nat)} {due : List Nat} {copies n : Nat}

def Account (sent : List (Option Nat)) (due : List Nat) (copies : Nat) : Prop :=
  ∃ told : List Nat, sent = told.map some ∧ (told ++ due).Nodup ∧ ∀ n ∈ told ++ due, n < copies

theorem account_less {fewer : List Nat} (account : Account sent due copies)
    (part : fewer.Sublist due) : Account sent fewer copies := by
  obtain ⟨told, same, nodup, known⟩ := account
  have shorter := part.append_left told
  exact ⟨told, same, nodup.sublist shorter, fun n member => known n (shorter.subset member)⟩

theorem account_send (account : Account sent (n :: due) copies) :
    Account (sent ++ [some n]) due copies := by
  obtain ⟨told, rfl, nodup, known⟩ := account
  rw [← List.singleton_append, ← List.append_assoc] at nodup known
  exact ⟨told ++ [n], by simp, nodup, known⟩

theorem account_later (account : Account sent due copies) : Account sent due (copies + 1) := by
  obtain ⟨told, same, nodup, known⟩ := account
  exact ⟨told, same, nodup, fun n member => Nat.lt_succ_of_lt (known n member)⟩

theorem account_copy (account : Account sent due copies) :
    Account sent (due ++ [copies]) (copies + 1) := by
  obtain ⟨told, same, nodup, known⟩ := account
  refine ⟨told, same, ?_, ?_⟩
  · rw [← List.append_assoc]
    refine nodup.append (List.nodup_singleton _) ?_
    intro n old new
    rw [List.mem_singleton.mp new] at old
    exact Nat.lt_irrefl _ (known _ old)
  · intro n member
    rw [← List.append_assoc] at member
    rcases List.mem_append.mp member with old | new
    · exact Nat.lt_succ_of_lt (known n old)
    · rw [List.mem_singleton.mp new]
      exact Nat.lt_succ_self _

theorem account_due (account : Account sent due copies) (known : n < copies)
    (untold : some n ∉ sent) : Account sent [n] copies := by
  obtain ⟨told, rfl, nodup, bounded⟩ := account
  refine ⟨told, rfl, ?_, ?_⟩
  · refine (nodup.sublist (List.sublist_append_left told due)).append (List.nodup_singleton n) ?_
    intro m old new
    rw [List.mem_singleton.mp new] at old
    exact untold (List.mem_map_of_mem old)
  · intro m member
    rcases List.mem_append.mp member with old | new
    · exact bounded m (List.mem_append_left _ old)
    · rw [List.mem_singleton.mp new]
      exact known

theorem account_audit (account : Account sent due copies) :
    (∀ copy ∈ sent, ∃ n < copies, copy = some n) ∧ sent.Nodup ∧ sent.length ≤ copies := by
  obtain ⟨told, rfl, nodup, known⟩ := account
  have once : told.Nodup := nodup.sublist (List.sublist_append_left told due)
  refine ⟨?_, once.map (Option.some_injective _), ?_⟩
  · intro copy member
    obtain ⟨n, old, rfl⟩ := List.mem_map.mp member
    exact ⟨n, known n (List.mem_append_left _ old), rfl⟩
  · have inside : told ⊆ List.range copies := by
      intro n member
      exact List.mem_range.mpr (known n (List.mem_append_left _ member))
    simpa using once.length_le_of_subset inside

end Accounts

def numbers {α : Type} (items : List (Option (α × Option Nat))) : List Nat :=
  items.filterMap fun item => item.bind Prod.snd

def linuxDue (s : Echo) : List Nat :=
  numbers ((if s.linuxChanged then [s.linux] else []) ++ s.selections)

def windowsDue (s : Echo) : List Nat := numbers (if s.windowsChanged then [s.windows] else [])

structure Linux (s : Echo) : Prop where
  marked : Marked s
  account : Account s.driverSent (linuxDue s) s.linuxCopies

structure Windows (s : Echo) : Prop where
  account : Account s.guestSent (windowsDue s) s.windowsCopies
  known : ∀ (offer : Offer) (n : Nat), s.clipboard = some (offer, some n) →
    n < s.windowsCopies ∧ offer.owner ≠ .eventLoop

section Invariants
variable {s next : Echo}

theorem numbers_append {α : Type} (xs ys : List (Option (α × Option Nat))) :
    numbers (xs ++ ys) = numbers xs ++ numbers ys := List.filterMap_append

theorem linux_step {e : Event} (linux : Linux s) (taken : echoStep s e = some next) : Linux next := by
  obtain ⟨marked, account⟩ := linux
  refine ⟨marked_step marked taken, ?_⟩
  cases e with
  | linuxCopy mimeTypes =>
    cases taken
    have copied := account_copy account
    unfold linuxDue at copied ⊢
    rw [← List.append_assoc, numbers_append]
    exact copied
  | linuxClear =>
    cases taken
    unfold linuxDue at account ⊢
    rw [← List.append_assoc, numbers_append]
    simpa [numbers] using account
  | selection =>
    obtain ⟨first, selections, waiting, rfl⟩ := selection_next taken
    refine account_less account ?_
    unfold linuxDue
    rw [waiting]
    exact (List.sublist_append_right _ (first :: selections)).filterMap _
  | listener =>
    obtain ⟨changed, rfl | ⟨offer, n, found, rfl⟩⟩ := listener_next marked taken
    · refine account_less account ?_
      unfold linuxDue
      rw [numbers_append, numbers_append]
      exact List.sublist_append_right _ _
    · refine account_send ?_
      unfold linuxDue at account
      rw [changed, found] at account
      exact account
  | windowsCopy hasString hasImage => cases taken; exact account
  | windowsClear => cases taken; exact account
  | clipWatch =>
    rcases (clipWatch_next marked taken).2 with rfl | ⟨_, _, _, rfl⟩
    · exact account
    · exact account
  | guestReceives =>
    obtain ⟨_, _, _, _, _, rfl⟩ := guestReceives_next taken
    exact account
  | driverReceives env =>
    obtain ⟨_, _, _, rfl⟩ := driverReceives_next marked taken
    exact account
  | cmdHandler =>
    obtain ⟨types, grabs, _, rfl⟩ := cmdHandler_next taken
    unfold linuxDue at account ⊢
    rw [← List.append_assoc, numbers_append]
    simpa [numbers] using account
  | coalesce =>
    obtain ⟨_, rfl⟩ := coalesce_next taken
    exact account
  | update =>
    obtain ⟨_, rfl⟩ := update_next taken
    exact account

theorem windows_step {e : Event} (marked : Marked s) (windows : Windows s) (ok : timely s e)
    (taken : echoStep s e = some next) : Windows next := by
  obtain ⟨account, known⟩ := windows
  cases e with
  | windowsCopy hasString hasImage =>
    cases taken
    refine ⟨account_later account, ?_⟩
    intro offer n put
    cases put
    exact ⟨Nat.lt_succ_self _, nofun⟩
  | windowsClear =>
    cases taken
    exact ⟨account, nofun⟩
  | update =>
    obtain ⟨_, rfl⟩ := update_next taken
    refine ⟨?_, known⟩
    cases there : s.clipboard with
    | none => exact account_less account (by simp [windowsDue, numbers])
    | some item =>
      obtain ⟨offer, copy⟩ := item
      cases copy with
      | none => exact account_less account (by simp [windowsDue, numbers])
      | some n =>
        have untold : some n ∉ s.guestSent := by simpa [timely, late, there] using ok
        have due := account_due account (known offer n there).1 untold
        simpa [windowsDue, numbers, there] using due
  | clipWatch =>
    obtain ⟨changed, rfl | ⟨offer, n, found, rfl⟩⟩ := clipWatch_next marked taken
    · exact ⟨account_less account (List.nil_sublist _), known⟩
    · refine ⟨account_send ?_, known⟩
      unfold windowsDue at account
      rw [changed, found] at account
      exact account
  | guestReceives =>
    obtain ⟨_, _, clipboard, _, put, rfl⟩ := guestReceives_next taken
    refine ⟨account, ?_⟩
    intro offer n placed
    cases (put _ placed).1
  | listener =>
    rcases (listener_next marked taken).2 with rfl | ⟨_, _, _, rfl⟩
    · exact ⟨account, known⟩
    · exact ⟨account, known⟩
  | driverReceives env =>
    obtain ⟨_, _, _, rfl⟩ := driverReceives_next marked taken
    exact ⟨account, known⟩
  | linuxCopy mimeTypes => cases taken; exact ⟨account, known⟩
  | linuxClear => cases taken; exact ⟨account, known⟩
  | selection =>
    obtain ⟨_, _, _, rfl⟩ := selection_next taken
    exact ⟨account, known⟩
  | coalesce =>
    obtain ⟨_, rfl⟩ := coalesce_next taken
    exact ⟨account, known⟩
  | cmdHandler =>
    obtain ⟨_, _, _, rfl⟩ := cmdHandler_next taken
    exact ⟨account, known⟩

theorem noEcho_of_accounts (linux : Linux s) (windows : Windows s) : NoEcho s := by
  obtain ⟨driver, driverOnce, fewDriver⟩ := account_audit linux.account
  obtain ⟨guest, guestOnce, fewGuest⟩ := account_audit windows.account
  exact ⟨driver, guest, driverOnce, guestOnce, Nat.add_le_add fewDriver fewGuest⟩

/-- After a late notification the copy is announced again. -/
theorem late_announced {e : Event} (windows : Windows s) (behind : ¬ timely s e)
    (taken : echoStep s e = some next) :
    ∃ after, echoStep next .clipWatch = some after ∧ ¬ NoEcho after := by
  cases e with
  | update =>
    simp only [timely, Bool.not_eq_false, late, Option.any_eq_true, Bool.and_eq_true] at behind
    obtain ⟨⟨offer, copy⟩, there, numbered, told⟩ := behind
    obtain ⟨n, rfl⟩ := Option.isSome_iff_exists.mp numbered
    have foreign := (windows.known offer n there).2
    obtain ⟨_, rfl⟩ := update_next taken
    refine ⟨_, rfl, ?_⟩
    intro noEcho
    have once := noEcho.guestOnce
    simp only [there, clipWatch, Option.map_some, foreign, ne_eq, not_false_eq_true, if_true,
      Option.toList_some, List.map_cons, List.map_nil, Option.bind_some] at once
    rw [List.nodup_append] at once
    exact once.2.2 (some n) (List.contains_iff_mem.mp told) (some n) (by simp) rfl
  | _ => exact absurd trivial behind

theorem work_step {e : Event} (marked : Marked s) (within : isInternal e = true)
    (taken : echoStep s e = some next) : next.work < s.work := by
  cases e with
  | selection =>
    obtain ⟨first, selections, waiting, rfl⟩ := selection_next taken
    simp only [Echo.work, waiting, List.map_cons, List.sum_cons, if_true]
    omega
  | listener =>
    obtain ⟨changed, rfl | ⟨offer, n, found, rfl⟩⟩ := listener_next marked taken
    · have something : 0 < selectionWork s.linux := by
        unfold selectionWork
        split <;> decide
      simp only [Echo.work, changed, if_true, Bool.false_eq_true, if_false]
      omega
    · simp only [Echo.work, changed, found, selectionWork, if_true, Bool.false_eq_true, if_false,
        List.length_append, List.length_singleton]
      omega
  | coalesce =>
    obtain ⟨several, rfl⟩ := coalesce_next taken
    simp only [Echo.work]
    omega
  | update =>
    obtain ⟨posted, rfl⟩ := update_next taken
    simp only [Echo.work, if_true]
    omega
  | clipWatch =>
    obtain ⟨changed, rfl | ⟨offer, n, found, rfl⟩⟩ := clipWatch_next marked taken
    · simp only [Echo.work, changed, if_true, Bool.false_eq_true, if_false]
      omega
    · simp only [Echo.work, changed, if_true, Bool.false_eq_true, if_false, List.length_append,
        List.length_singleton]
      omega
  | guestReceives =>
    obtain ⟨cmd, toGuest, clipboard, pipe, _, rfl⟩ := guestReceives_next taken
    simp only [Echo.work, pipe, List.length_cons]
    omega
  | driverReceives env =>
    obtain ⟨types, toDriver, pipe, rfl⟩ := driverReceives_next marked taken
    simp only [Echo.work, pipe, List.length_cons, List.length_append, List.length_nil]
    omega
  | cmdHandler =>
    obtain ⟨types, grabs, waiting, rfl⟩ := cmdHandler_next taken
    simp only [Echo.work, waiting, List.map_append, List.sum_append, List.map_cons, List.map_nil,
      List.sum_cons, List.sum_nil, selectionWork, List.length_cons]
    omega
  | _ => cases within

theorem exchange_stops {es : List Event} (marked : Marked s) (within : es.all isInternal = true)
    (reached : Runs.run echoStep s es = some next) : es.length + next.work ≤ s.work := by
  induction es generalizing s with
  | nil =>
    cases reached
    simp
  | cons e es ih =>
    obtain ⟨t, first, rest⟩ := Option.bind_eq_some_iff.mp reached
    rw [List.all_cons, Bool.and_eq_true] at within
    have less := work_step marked within.1 first
    have later := ih (marked_step marked first) within.2 rest
    rw [List.length_cons]
    omega

end Invariants

theorem linux_start (machine : MachineConfig) (hooks : HooksConfig) : Linux (start machine hooks) := by
  refine ⟨⟨nofun, rfl, ?_, ?_⟩, [], rfl, List.nodup_nil, nofun⟩
  · intro item member
    simp [start] at member
  · intro item member
    simp [start] at member

/-- In every run without a late notification each message is caused by a copy of its own; a late one
    has the copy announced again. In every run the exchange stops when nobody copies any more. -/
theorem no_echo (machine : MachineConfig) (hooks : HooksConfig) (es : List Event) :
    (Runs.Meets echoStep timely (start machine hooks) es →
      Runs.Always echoStep NoEcho (start machine hooks) es ∧
        ∀ s e next, Runs.run echoStep (start machine hooks) es = some s → ¬ timely s e →
          echoStep s e = some next →
          ∃ after, echoStep next .clipWatch = some after ∧ ¬ NoEcho after) ∧
      ∀ s more last, Runs.run echoStep (start machine hooks) es = some s →
        more.all isInternal = true → Runs.run echoStep s more = some last →
        more.length ≤ s.work := by
  have windows : Windows (start machine hooks) := ⟨⟨[], rfl, List.nodup_nil, nofun⟩, nofun⟩
  constructor
  · intro ok
    have always : Runs.Always echoStep (fun s => Linux s ∧ Windows s) (start machine hooks) es := by
      refine Runs.always_of_invariant _ ?_ ⟨linux_start machine hooks, windows⟩ ok
      rintro s e next ⟨linux, windows⟩ timely taken
      exact ⟨linux_step linux taken, windows_step linux.marked windows timely taken⟩
    refine ⟨Runs.always_mono (fun s inv => noEcho_of_accounts inv.1 inv.2) always, ?_⟩
    intro s e next reached behind taken
    exact late_announced (Runs.always_last always reached).2 behind taken
  · intro s more last reached within run
    have marked := (Runs.always_last (Runs.always_of_preserved Linux (fun _ _ _ => linux_step)
      (linux_start machine hooks) es) reached).marked
    exact Nat.le_trans (Nat.le_add_right _ _) (exchange_stops marked within run)

/-- Text is copied on Linux, and when that has arrived an image is copied in Windows. -/
theorem no_echo_in_turn : Runs.Always echoStep NoEcho (start .bare .bare)
    [.linuxCopy ["text/plain;charset=utf-8"], .selection, .listener, .guestReceives, .update,
      .clipWatch, .windowsCopy false true, .windowsClear, .coalesce, .windowsCopy false true, .coalesce,
      .update, .clipWatch, .driverReceives .bare, .cmdHandler, .selection, .listener] :=
  ((no_echo .bare .bare _).1 (by decide +kernel)).1

/-- Text is copied on Linux and arrives in Windows, and then text is copied there; the notification
    of the former comes after the latter. -/
theorem copy_announced_twice :
    ¬ Runs.Always echoStep NoEcho (start .bare .bare)
      [.linuxCopy ["text/plain;charset=utf-8"], .selection, .listener, .guestReceives,
        .windowsCopy true false, .update, .clipWatch, .update, .clipWatch] := by
  intro always
  have reached : ∃ s, Runs.run echoStep (start .bare .bare)
      [.linuxCopy ["text/plain;charset=utf-8"], .selection, .listener, .guestReceives,
        .windowsCopy true false, .update, .clipWatch, .update, .clipWatch] = some s ∧
      s.guestSent = [some 0, some 0] := ⟨_, rfl, by decide +kernel⟩
  obtain ⟨s, run, sent⟩ := reached
  have once := (Runs.always_last always run).guestOnce
  rw [sent] at once
  exact absurd once (by decide)

end ClipboardEcho
