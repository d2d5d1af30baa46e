import WindowsGaming.ClipboardEcho

/- What the two clipboards show in the end. Announcements pass through queues and through cells that
   keep the newest value only; as long as no two copies cross, the newest one comes out at the end. -/
namespace ClipboardSync
open Config (MachineConfig HooksConfig)
open Protocol Controller Clientpipe ClipboardBridge ClipboardEcho

/-- The newest copy, unless a clipboard was cleared since or the copy carries the driver's marker. -/
inductive Newest where
  | unknown
  | linux (selection : Selection) (copy : Nat)
  | windows (offer : Offer) (copy : Nat)
  deriving DecidableEq, Repr

structure Sync where
  echo : Echo
  newest : Newest
  deriving DecidableEq, Repr

def start (machine : MachineConfig) (hooks : HooksConfig) : Sync :=
  ⟨ClipboardEcho.start machine hooks, .unknown⟩

def newestAfter (s : Sync) : ClipboardEcho.Event → Newest
  | .linuxCopy mimeTypes =>
    if ourMimeMarker ∈ mimeTypes then .unknown
    else .linux (foreignSelection mimeTypes) s.echo.linuxCopies
  | .windowsCopy hasString hasImage =>
    .windows (foreignOffer hasString hasImage) s.echo.windowsCopies
  | .linuxClear | .windowsClear => .unknown
  | _ => s.newest

def syncStep (s : Sync) (e : ClipboardEcho.Event) : Option Sync :=
  (echoStep s.echo e).map fun echo => ⟨echo, newestAfter s e⟩

def foreign {α : Type} (item : Option (α × Option Nat)) : Bool := item.any fun x => x.2.isSome

def pending (s : Echo) : List (Option (Selection × Option Nat)) :=
  (if s.linuxChanged then [s.linux] else []) ++ s.selections

def TowardsLinux (s : Echo) : Prop :=
  0 < s.updates ∧ foreign s.clipboard = true ∨ s.windowsChanged = true ∧ foreign s.windows = true ∨
    s.toDriver ≠ [] ∨ s.grabs ≠ []

def TowardsWindows (s : Echo) : Prop := (pending s).any foreign = true ∨ s.toGuest ≠ []

instance (s : Echo) : Decidable (TowardsLinux s) := by unfold TowardsLinux; infer_instance

instance (s : Echo) : Decidable (TowardsWindows s) := by unfold TowardsWindows; infer_instance

/-- Nothing is copied while a copy of the other side is on its way. -/
def inTurn (s : Sync) : ClipboardEcho.Event → Bool
  | .linuxCopy _ => !decide (TowardsLinux s.echo)
  | .windowsCopy _ _ => !decide (TowardsWindows s.echo)
  | _ => true

structure Quiet (s : Echo) : Prop where
  pending : pending s = []
  grabs : s.grabs = []
  toGuest : s.toGuest = []
  toDriver : s.toDriver = []
  updates : s.updates = 0
  windowsChanged : s.windowsChanged = false

/-- Both clipboards show the newest copy: its own side as it was made, the other side a proxy for it
    with the types that the bridge knows. -/
def Agreed (s : Sync) : Prop :=
  match s.newest with
  | .unknown => True
  | .linux selection n =>
    s.echo.linux = some (selection, some n) ∧ s.echo.clipboard = proxy selection.types
  | .windows offer n =>
    s.echo.clipboard = some (offer, some n) ∧ s.echo.linux = some (claim offer.types, none)

structure LinuxFirst (s : Echo) (selection : Selection) (n : Nat) : Prop where
  unmarked : ourMimeMarker ∉ selection.mimeTypes
  alone : ¬ TowardsLinux s
  newest : (pending s).getLast? = some (some (selection, some n)) ∨
    pending s = [] ∧ s.linux = some (selection, some n) ∧
      (s.toGuest.getLast? = some (.clipboard (some (.grabClipboard selection.types))) ∨
        s.toGuest = [] ∧ s.clipboard = proxy selection.types)

structure WindowsFirst (s : Echo) (offer : Offer) (n : Nat) : Prop where
  owner : offer.owner ≠ .eventLoop
  alone : ¬ TowardsWindows s
  clipboard : s.clipboard = some (offer, some n)
  newest : 0 < s.updates ∨ s.windows = some (offer, some n) ∧
    (s.windowsChanged = true ∨
      s.toDriver.getLast? = some (.clipboard (some (.grabClipboard offer.types))) ∨
      s.toDriver = [] ∧ (s.grabs.getLast? = some offer.types ∨
        s.grabs = [] ∧ ((pending s).getLast? = some (some (claim offer.types, none)) ∨
          pending s = [] ∧ s.linux = some (claim offer.types, none))))

def Leads (s : Echo) : Newest → Prop
  | .unknown => True
  | .linux selection n => LinuxFirst s selection n
  | .windows offer n => WindowsFirst s offer n

structure Sound (s : Sync) : Prop where
  marked : Marked s.echo
  toGuest : ∀ cmd ∈ s.echo.toGuest, ∃ selection : Selection,
    cmd = .clipboard (some (.grabClipboard selection.types))
  leads : Leads s.echo s.newest

section Stages
variable {s t : Echo} {selection : Selection} {offer : Offer} {n : Nat}

theorem last_tail {α : Type} {x a : α} {rest : List α} (last : (x :: rest).getLast? = some a) :
    rest = [] ∧ x = a ∨ rest.getLast? = some a := by
  cases rest with
  | nil => exact Or.inl ⟨rfl, by simpa using last⟩
  | cons y rest => exact Or.inr (by rwa [List.getLast?_cons_cons] at last)

theorem not_towardsLinux_iff : ¬ TowardsLinux s ↔ (0 < s.updates → foreign s.clipboard = false) ∧
    (s.windowsChanged = true → foreign s.windows = false) ∧ s.toDriver = [] ∧ s.grabs = [] := by
  simp only [TowardsLinux, not_or, not_and, ne_eq, not_not, Bool.not_eq_true]

theorem not_towardsWindows_iff :
    ¬ TowardsWindows s ↔ (∀ item ∈ pending s, foreign item = false) ∧ s.toGuest = [] := by
  simp [TowardsWindows]

theorem foreign_proxy (types : ClipboardTypes) : foreign (proxy types) = false := by
  unfold proxy
  cases delayRendered types with
  | none => rfl
  | some offer =>
    by_cases empty : types.types = []
    · simp [empty, foreign]
    · simp [empty, foreign]

theorem pending_changed (changed : s.linuxChanged = true) :
    pending s = s.linux :: s.selections := by
  simp [pending, changed]

theorem last_pending_of_selections (waiting : s.selections ≠ []) :
    (pending s).getLast? = s.selections.getLast? := by
  rw [pending, List.getLast?_append]
  cases last : s.selections.getLast? with
  | none => exact absurd (List.getLast?_eq_none_iff.mp last) waiting
  | some item => rfl

theorem linux_kept {e : ClipboardEcho.Event} (marked : Marked s)
    (known : ∀ cmd ∈ s.toGuest, ∃ selection : Selection,
      cmd = .clipboard (some (.grabClipboard selection.types)))
    (first : LinuxFirst s selection n) (within : isInternal e = true)
    (taken : echoStep s e = some t) : LinuxFirst t selection n := by
  obtain ⟨unmarked, alone, newest⟩ := first
  obtain ⟨clipboard, windows, toDriver, grabs⟩ := not_towardsLinux_iff.mp alone
  cases e with
  | selection =>
    obtain ⟨linux, selections, waiting, rfl⟩ := selection_next taken
    have some_left : s.selections ≠ [] := by simp [waiting]
    rcases newest with last | ⟨empty, -⟩
    · rw [last_pending_of_selections some_left, waiting] at last
      refine ⟨unmarked, alone, Or.inl ?_⟩
      rwa [pending_changed rfl]
    · simp [pending, waiting] at empty
  | listener =>
    obtain ⟨changed, moved⟩ := listener_next marked taken
    rcases newest with last | ⟨empty, -⟩
    · rw [pending_changed changed] at last
      rcases last_tail last with ⟨none_left, found⟩ | later
      · rw [listener_announces marked.out changed found unmarked] at taken
        cases taken
        refine ⟨unmarked, alone, Or.inr ⟨by simp [pending, none_left], found, Or.inl ?_⟩⟩
        exact List.getLast?_concat
      · rcases moved with rfl | ⟨_, _, -, rfl⟩
        · exact ⟨unmarked, alone, Or.inl (by simpa [pending] using later)⟩
        · exact ⟨unmarked, alone, Or.inl (by simpa [pending] using later)⟩
    · simp [pending_changed changed] at empty
  | coalesce =>
    obtain ⟨several, rfl⟩ := coalesce_next taken
    refine ⟨unmarked, ?_, newest⟩
    exact not_towardsLinux_iff.mpr ⟨fun _ => clipboard (by omega), windows, toDriver, grabs⟩
  | update =>
    obtain ⟨posted, rfl⟩ := update_next taken
    refine ⟨unmarked, ?_, newest⟩
    exact not_towardsLinux_iff.mpr
      ⟨fun _ => clipboard posted, fun _ => clipboard posted, toDriver, grabs⟩
  | clipWatch =>
    obtain ⟨changed, rfl | ⟨other, m, found, rfl⟩⟩ := clipWatch_next marked taken
    · exact ⟨unmarked, not_towardsLinux_iff.mpr ⟨clipboard, nofun, toDriver, grabs⟩, newest⟩
    · have own := windows changed
      simp [found, foreign] at own
  | guestReceives =>
    obtain ⟨cmd, toGuest, _, pipe, -, -⟩ := guestReceives_next taken
    obtain ⟨other, rfl⟩ := known cmd (by simp [pipe])
    rw [guestReceives_announced pipe] at taken
    cases taken
    refine ⟨unmarked, ?_, ?_⟩
    · exact not_towardsLinux_iff.mpr ⟨fun _ => foreign_proxy _, windows, toDriver, grabs⟩
    · rcases newest with last | ⟨empty, seen, last | ⟨none_left, -⟩⟩
      · exact Or.inl last
      · refine Or.inr ⟨empty, seen, ?_⟩
        rw [pipe] at last
        rcases last_tail last with ⟨none_left, same⟩ | later
        · simp only [GaCmdOut.clipboard.injEq, Option.some.injEq,
            ClipboardMessage.grabClipboard.injEq] at same
          exact Or.inr ⟨none_left, by rw [same]⟩
        · exact Or.inl later
      · simp [pipe] at none_left
  | driverReceives env =>
    obtain ⟨types, rest, pipe, -⟩ := driverReceives_next marked taken
    simp [toDriver] at pipe
  | cmdHandler =>
    obtain ⟨types, rest, waiting, -⟩ := cmdHandler_next taken
    simp [grabs] at waiting
  | _ => cases within

theorem windows_kept {e : ClipboardEcho.Event} (marked : Marked s)
    (first : WindowsFirst s offer n) (within : isInternal e = true)
    (taken : echoStep s e = some t) : WindowsFirst t offer n := by
  obtain ⟨owner, alone, clipboard, newest⟩ := first
  obtain ⟨own, toGuest⟩ := not_towardsWindows_iff.mp alone
  cases e with
  | selection =>
    obtain ⟨linux, selections, waiting, rfl⟩ := selection_next taken
    have some_left : s.selections ≠ [] := by simp [waiting]
    have same : (pending { s with selections, linux, linuxChanged := true }).getLast? =
        (pending s).getLast? := by
      rw [last_pending_of_selections some_left, pending_changed rfl, waiting]
    refine ⟨owner, not_towardsWindows_iff.mpr ⟨?_, toGuest⟩, clipboard, ?_⟩
    · intro item member
      rw [pending_changed rfl] at member
      exact own item (List.mem_append_right _ (by rwa [waiting]))
    · rcases newest with posted | ⟨seen, way⟩
      · exact Or.inl posted
      · refine Or.inr ⟨seen, ?_⟩
        rcases way with changed | last | ⟨empty, last | ⟨none_left, last | ⟨nothing, -⟩⟩⟩
        · exact Or.inl changed
        · exact Or.inr (Or.inl last)
        · exact Or.inr (Or.inr ⟨empty, Or.inl last⟩)
        · exact Or.inr (Or.inr ⟨empty, Or.inr ⟨none_left, Or.inl (same.trans last)⟩⟩)
        · simp [pending, waiting] at nothing
  | listener =>
    obtain ⟨changed, rfl | ⟨other, m, found, rfl⟩⟩ := listener_next marked taken
    · refine ⟨owner, not_towardsWindows_iff.mpr ⟨?_, toGuest⟩, clipboard, ?_⟩
      · intro item member
        rw [pending_changed changed] at own
        exact own item (List.mem_cons_of_mem _ (by simpa [pending] using member))
      · rcases newest with posted | ⟨seen, way⟩
        · exact Or.inl posted
        · refine Or.inr ⟨seen, ?_⟩
          rcases way with changed | last | ⟨empty, last | ⟨none_left, last | ⟨nothing, -⟩⟩⟩
          · exact Or.inl changed
          · exact Or.inr (Or.inl last)
          · exact Or.inr (Or.inr ⟨empty, Or.inl last⟩)
          · refine Or.inr (Or.inr ⟨empty, Or.inr ⟨none_left, ?_⟩⟩)
            rw [pending_changed changed] at last
            rcases last_tail last with ⟨all, here⟩ | later
            · exact Or.inr ⟨by simp [pending, all], here⟩
            · exact Or.inl (by simpa [pending] using later)
          · simp [pending_changed changed] at nothing
    · have mine := own s.linux (by simp [pending_changed changed])
      simp [found, foreign] at mine
  | coalesce =>
    obtain ⟨several, rfl⟩ := coalesce_next taken
    refine ⟨owner, alone, clipboard, ?_⟩
    exact Or.inl (by dsimp only; omega)
  | update =>
    obtain ⟨posted, rfl⟩ := update_next taken
    exact ⟨owner, alone, clipboard, Or.inr ⟨clipboard, Or.inl rfl⟩⟩
  | clipWatch =>
    obtain ⟨changed, moved⟩ := clipWatch_next marked taken
    rcases newest with posted | ⟨seen, -⟩
    · rcases moved with rfl | ⟨_, _, -, rfl⟩
      · exact ⟨owner, alone, clipboard, Or.inl posted⟩
      · exact ⟨owner, alone, clipboard, Or.inl posted⟩
    · rw [clipWatch_announces changed seen owner] at taken
      cases taken
      exact ⟨owner, alone, clipboard, Or.inr ⟨seen, Or.inr (Or.inl List.getLast?_concat)⟩⟩
  | guestReceives =>
    obtain ⟨cmd, rest, _, pipe, -, -⟩ := guestReceives_next taken
    simp [toGuest] at pipe
  | driverReceives env =>
    obtain ⟨types, toDriver, pipe, rfl⟩ := driverReceives_next marked taken
    refine ⟨owner, alone, clipboard, ?_⟩
    rcases newest with posted | ⟨seen, way⟩
    · exact Or.inl posted
    · refine Or.inr ⟨seen, ?_⟩
      rcases way with changed | last | ⟨empty, -⟩
      · exact Or.inl changed
      · rw [pipe] at last
        rcases last_tail last with ⟨none_left, same⟩ | later
        · simp only [GaCmdIn.clipboard.injEq, Option.some.injEq,
            ClipboardMessage.grabClipboard.injEq] at same
          exact Or.inr (Or.inr ⟨none_left, Or.inl (by rw [same]; exact List.getLast?_concat)⟩)
        · exact Or.inr (Or.inl later)
      · simp [pipe] at empty
  | cmdHandler =>
    obtain ⟨types, grabs, waiting, rfl⟩ := cmdHandler_next taken
    refine ⟨owner, not_towardsWindows_iff.mpr ⟨?_, toGuest⟩, clipboard, ?_⟩
    · intro item member
      rw [pending, ← List.append_assoc] at member
      rcases List.mem_append.mp member with old | new
      · exact own item old
      · rw [List.mem_singleton.mp new]
        rfl
    · rcases newest with posted | ⟨seen, way⟩
      · exact Or.inl posted
      · refine Or.inr ⟨seen, ?_⟩
        rcases way with changed | last | ⟨empty, last | ⟨none_left, -⟩⟩
        · exact Or.inl changed
        · exact Or.inr (Or.inl last)
        · refine Or.inr (Or.inr ⟨empty, ?_⟩)
          rw [waiting] at last
          rcases last_tail last with ⟨none_left, same⟩ | later
          · refine Or.inr ⟨none_left, Or.inl ?_⟩
            rw [pending, ← List.append_assoc, List.getLast?_concat, same]
          · exact Or.inl later
        · simp [waiting] at none_left
  | _ => cases within

theorem linux_copied {mimeTypes : List String} (alone : ¬ TowardsLinux s)
    (unmarked : ourMimeMarker ∉ mimeTypes) (taken : echoStep s (.linuxCopy mimeTypes) = some t) :
    LinuxFirst t (foreignSelection mimeTypes) s.linuxCopies := by
  cases taken
  refine ⟨unmarked, alone, Or.inl ?_⟩
  rw [pending, ← List.append_assoc, List.getLast?_concat]

theorem windows_copied {hasString hasImage : Bool} (alone : ¬ TowardsWindows s)
    (taken : echoStep s (.windowsCopy hasString hasImage) = some t) :
    WindowsFirst t (foreignOffer hasString hasImage) s.windowsCopies := by
  cases taken
  exact ⟨by simp [foreignOffer], alone, rfl, Or.inl (Nat.succ_pos _)⟩

theorem quiet_of_resting (known : ∀ cmd ∈ s.toGuest, ∃ selection : Selection,
      cmd = .clipboard (some (.grabClipboard selection.types)))
    (resting : ∀ e, isInternal e = true → echoStep s e = none) : Quiet s := by
  have selections : s.selections = [] := by
    cases waiting : s.selections with
    | nil => rfl
    | cons => simpa [echoStep, waiting] using resting .selection rfl
  refine ⟨?_, ?_, ?_, ?_, ?_, ?_⟩
  · have seen : s.linuxChanged = false := by
      simpa [echoStep] using resting .listener rfl
    simp [pending, selections, seen]
  · cases waiting : s.grabs with
    | nil => rfl
    | cons => simpa [echoStep, waiting] using resting .cmdHandler rfl
  · cases pipe : s.toGuest with
    | nil => rfl
    | cons cmd toGuest =>
      obtain ⟨selection, rfl⟩ := known cmd (by simp [pipe])
      have stuck := resting .guestReceives rfl
      rw [guestReceives_announced pipe] at stuck
      cases stuck
  · cases pipe : s.toDriver with
    | nil => rfl
    | cons => simpa [echoStep, pipe] using resting (.driverReceives .bare) rfl
  · have none_posted := resting .update rfl
    simpa [echoStep] using none_posted
  · simpa [echoStep] using resting .clipWatch rfl

end Stages

section Runs
variable {s t : Sync}

theorem sound_step {e : ClipboardEcho.Event} (sound : Sound s) (ok : inTurn s e = true)
    (taken : syncStep s e = some t) : Sound t := by
  obtain ⟨echo, step, rfl⟩ := Option.map_eq_some_iff.mp taken
  refine ⟨marked_step sound.marked step, known_step sound.marked sound.toGuest step, ?_⟩
  by_cases within : isInternal e = true
  · have same : newestAfter s e = s.newest := by
      cases e with
      | linuxCopy | linuxClear | windowsCopy | windowsClear => cases within
      | _ => rfl
    have leads := sound.leads
    rw [same]
    cases newest : s.newest with
    | unknown => trivial
    | linux selection n =>
      rw [newest] at leads
      exact linux_kept sound.marked sound.toGuest leads within step
    | windows offer n =>
      rw [newest] at leads
      exact windows_kept sound.marked leads within step
  · cases e with
    | linuxCopy mimeTypes =>
      by_cases unmarked : ourMimeMarker ∈ mimeTypes
      · simp [newestAfter, unmarked, Leads]
      · have alone : ¬ TowardsLinux s.echo := by simpa [inTurn] using ok
        rw [newestAfter, if_neg unmarked]
        exact linux_copied alone unmarked step
    | windowsCopy hasString hasImage =>
      have alone : ¬ TowardsWindows s.echo := by simpa [inTurn] using ok
      exact windows_copied alone step
    | linuxClear => trivial
    | windowsClear => trivial
    | _ => exact absurd rfl within

theorem agreed_of_quiet (sound : Sound s) (quiet : Quiet s.echo) : Agreed s := by
  have leads := sound.leads
  unfold Agreed
  cases newest : s.newest with
  | unknown => trivial
  | linux selection n =>
    rw [newest] at leads
    rcases leads.newest with last | ⟨-, seen, last | ⟨-, shown⟩⟩
    · simp [quiet.pending] at last
    · simp [quiet.toGuest] at last
    · exact ⟨seen, shown⟩
  | windows offer n =>
    rw [newest] at leads
    refine ⟨leads.clipboard, ?_⟩
    rcases leads.newest with posted | ⟨-, changed | last | ⟨-, last | ⟨-, last | ⟨-, shown⟩⟩⟩⟩
    · simp [quiet.updates] at posted
    · simp [quiet.windowsChanged] at changed
    · simp [quiet.toDriver] at last
    · simp [quiet.grabs] at last
    · simp [quiet.pending] at last
    · exact shown

/-- Once nothing is on its way any more both clipboards show the newest copy, and that comes soon. -/
structure Follows (s : Sync) : Prop where
  agrees : Quiet s.echo → Agreed s
  settles : Runs.ComesToRest syncStep (fun e => isInternal e = true) s.echo.work
    (fun t => t.newest = s.newest ∧ Quiet t.echo ∧ Agreed t) s

theorem internal_step {e : ClipboardEcho.Event} (sound : Sound s) (within : isInternal e = true)
    (taken : syncStep s e = some t) :
    Sound t ∧ t.newest = s.newest ∧ t.echo.work < s.echo.work := by
  have ok : inTurn s e = true := by
    cases e with
    | linuxCopy | windowsCopy => cases within
    | _ => rfl
  refine ⟨sound_step sound ok taken, ?_⟩
  obtain ⟨echo, step, rfl⟩ := Option.map_eq_some_iff.mp taken
  refine ⟨?_, work_step sound.marked within step⟩
  cases e with
  | linuxCopy | linuxClear | windowsCopy | windowsClear => cases within
  | _ => rfl

theorem follows_of_sound (sound : Sound s) : Follows s := by
  refine ⟨agreed_of_quiet sound, ?_⟩
  let Going (u : Sync) : Prop := Sound u ∧ u.newest = s.newest
  have going : ∀ u e v, Going u → isInternal e = true → syncStep u e = some v → Going v := by
    intro u e v ⟨sound, same⟩ within taken
    obtain ⟨next, still, -⟩ := internal_step sound within taken
    exact ⟨next, still.trans same⟩
  have lighter : ∀ u e v, Going u → isInternal e = true → syncStep u e = some v →
      v.echo.work < u.echo.work :=
    fun _ _ _ inv within taken => (internal_step inv.1 within taken).2.2
  refine Runs.comesToRest going lighter ?_ s ⟨sound, rfl⟩
  rintro t ⟨last, same⟩ resting
  have quiet : Quiet t.echo := by
    refine quiet_of_resting last.toGuest fun e within => ?_
    exact Option.map_eq_none_iff.mp (resting e within)
  exact ⟨same, quiet, agreed_of_quiet last quiet⟩

theorem sound_start (machine : MachineConfig) (hooks : HooksConfig) : Sound (start machine hooks) := by
  refine ⟨(linux_start machine hooks).marked, ?_, trivial⟩
  intro cmd member
  simp [start, ClipboardEcho.start] at member

end Runs

/-- Two copies that cross: each clipboard shows a proxy for the other one in the end. -/
example :
    ((Runs.run syncStep (start .bare .bare)
      [.listener, .linuxCopy ["text/plain;charset=utf-8"], .selection, .listener,
        .windowsCopy true false, .update, .clipWatch, .guestReceives, .driverReceives .bare,
        .cmdHandler, .selection, .listener, .update, .clipWatch]).map fun s =>
      (foreign s.echo.linux, foreign s.echo.clipboard)) = some (false, false) := by
  decide +kernel

end ClipboardSync
