import WindowsGaming.ClipboardEcho

/- Whether the two clipboards come to be proxies for one another. What a clipboard will hold once all
   announcements on their way to it are carried out is already decided, and only a side that announces
   something decides it anew. -/
namespace ClipboardProxies
open Config (MachineConfig HooksConfig)
open Protocol Controller Clientpipe ClipboardBridge ClipboardEcho

/-- Both programs have started, with something in the Windows clipboard or not, which the watch cell
    begins with. What is on the desktop already comes as the first event of the compositor. -/
def start (machine : MachineConfig) (hooks : HooksConfig) (content : Option (Bool × Bool)) : Echo :=
  let clipboard := content.map fun (hasString, hasImage) =>
    (foreignOffer hasString hasImage, some 0)
  { ClipboardEcho.start machine hooks with
    clipboard
    windows := clipboard
    windowsCopies := if content.isSome then 1 else 0 }

def desktop (s : Echo) : Option (Selection × Option Nat) := s.selections.getLast?.getD s.linux

def linuxProxy (s : Echo) : Bool := (desktop s).any fun item => item.1.ours

def windowsProxy (s : Echo) : Bool := s.clipboard.any fun item => item.1.owner = .eventLoop

/-- With both pipes empty, a clipboard is real on one side at least. -/
def NotMutual (s : Echo) : Prop :=
  s.toGuest = [] → s.toDriver = [] → ¬ (linuxProxy s = true ∧ windowsProxy s = true)

def makesProxy : GaCmdOut → Bool
  | .clipboard (some (.grabClipboard types)) => !types.types.isEmpty
  | _ => false

def linuxBound (s : Echo) : Bool := linuxProxy s || !s.toDriver.isEmpty || !s.grabs.isEmpty

def windowsBound (s : Echo) : Bool := (s.toGuest.getLast?.map makesProxy).getD (windowsProxy s)

/-- A side announces a copy only while its own clipboard is not the other side's and is not about to
    become it. The cell that it looks at may be behind the clipboard. -/
def ownsClipboard (s : Echo) : ClipboardEcho.Event → Bool
  | .listener =>
    (s.linux.all fun item => ourMimeMarker ∈ item.1.mimeTypes || item.1.types.types.isEmpty) ||
      !linuxBound s
  | .clipWatch => (s.windows.all fun item => item.1.owner = .eventLoop) || !windowsBound s
  | _ => true

def isDelivery : ClipboardEcho.Event → Bool
  | .guestReceives | .driverReceives _ | .cmdHandler => true
  | _ => false

def inFlight (s : Echo) : Nat := s.toGuest.length + 2 * s.toDriver.length + s.grabs.length

structure Sound (s : Echo) : Prop where
  marked : Marked s
  toGuest : ∀ cmd ∈ s.toGuest, ∃ selection : Selection,
    cmd = .clipboard (some (.grabClipboard selection.types))

section Steps
variable {s t : Echo}

theorem sound_step {e : ClipboardEcho.Event} (sound : Sound s) (taken : echoStep s e = some t) :
    Sound t :=
  ⟨marked_step sound.marked taken, known_step sound.marked sound.toGuest taken⟩

theorem windowsProxy_proxy (types : ClipboardTypes) (valid : .invalid ∉ types.types) :
    ((proxy types).any fun item => item.1.owner = .eventLoop) = !types.types.isEmpty := by
  unfold proxy
  by_cases empty : types.types = []
  · simp [delayRendered, empty]
  · simp [delayRendered, valid, empty]

theorem guestReceives_bound (sound : Sound s) (taken : echoStep s .guestReceives = some t) :
    linuxBound t = linuxBound s ∧ windowsBound t = windowsBound s ∧ inFlight t < inFlight s := by
  obtain ⟨cmd, toGuest, -, pipe, -, -⟩ := guestReceives_next taken
  obtain ⟨selection, rfl⟩ := sound.toGuest cmd (by simp [pipe])
  rw [guestReceives_announced pipe] at taken
  cases taken
  refine ⟨rfl, ?_, by simp [inFlight, pipe]⟩
  simp only [windowsBound, pipe]
  cases last : toGuest.getLast? with
  | none =>
    obtain rfl := List.getLast?_eq_none_iff.mp last
    simp only [List.getLast?_singleton, Option.map_some, Option.getD_some, Option.map_none,
      Option.getD_none, windowsProxy, windowsProxy_proxy _ (types_valid selection), makesProxy]
  | some cmd =>
    rw [List.getLast?_cons, last]
    rfl

theorem driverReceives_bound {env : Env} (sound : Sound s)
    (taken : echoStep s (.driverReceives env) = some t) :
    linuxBound t = linuxBound s ∧ windowsBound t = windowsBound s ∧ inFlight t < inFlight s := by
  obtain ⟨types, toDriver, pipe, rfl⟩ := driverReceives_next sound.marked taken
  refine ⟨by simp [linuxBound, pipe], rfl, ?_⟩
  simp only [inFlight, pipe, List.length_cons, List.length_append, List.length_nil]
  omega

theorem cmdHandler_bound (taken : echoStep s .cmdHandler = some t) :
    linuxBound t = linuxBound s ∧ windowsBound t = windowsBound s ∧ inFlight t < inFlight s := by
  obtain ⟨types, grabs, waiting, rfl⟩ := cmdHandler_next taken
  refine ⟨?_, rfl, by simp [inFlight, waiting]⟩
  simp [linuxBound, linuxProxy, desktop, claim, waiting]

theorem delivery_bound {e : ClipboardEcho.Event} (sound : Sound s) (delivers : isDelivery e = true)
    (taken : echoStep s e = some t) :
    linuxBound t = linuxBound s ∧ windowsBound t = windowsBound s ∧ inFlight t < inFlight s := by
  cases e with
  | guestReceives => exact guestReceives_bound sound taken
  | driverReceives env => exact driverReceives_bound sound taken
  | cmdHandler => exact cmdHandler_bound taken
  | _ => cases delivers

theorem listener_quiet (sound : Sound s)
    (own : (s.linux.all fun item => ourMimeMarker ∈ item.1.mimeTypes) = true)
    (taken : echoStep s .listener = some t) : t = { s with linuxChanged := false } := by
  simp only [echoStep, Option.ite_none_right_eq_some, Option.some.injEq] at taken
  obtain ⟨-, rfl⟩ := taken
  have quiet : clipboardListener (s.linux.map Prod.fst) s.controller = s.controller := by
    cases found : s.linux with
    | none => rfl
    | some item =>
      have marked : ourMimeMarker ∈ item.1.mimeTypes := by simpa [found] using own
      simp [clipboardListener, marked]
  simp [Echo.handOn, quiet, sound.marked.out, without_out sound.marked.out]

theorem clipWatch_quiet (own : (s.windows.all fun item => item.1.owner = .eventLoop) = true)
    (taken : echoStep s .clipWatch = some t) : t = { s with windowsChanged := false } := by
  simp only [echoStep, Option.ite_none_right_eq_some, Option.some.injEq] at taken
  obtain ⟨-, rfl⟩ := taken
  have quiet : clipWatch (s.windows.map Prod.fst) = none := by
    cases found : s.windows with
    | none => rfl
    | some item =>
      have mine : item.1.owner = .eventLoop := by simpa [found] using own
      simp [clipWatch, mine]
  simp [quiet]

theorem listener_apart (sound : Sound s) (owns : ownsClipboard s .listener = true)
    (apart : linuxBound s = true → windowsBound s = false)
    (taken : echoStep s .listener = some t) : linuxBound t = true → windowsBound t = false := by
  obtain ⟨-, rfl | ⟨selection, n, found, rfl⟩⟩ := listener_next sound.marked taken
  · exact apart
  · intro bound
    have before : linuxBound s = true := bound
    have open_end : (!linuxBound s) = false := by simp [before]
    simp only [ownsClipboard, open_end, Bool.or_false, found, Option.all_some, Bool.or_eq_true,
      decide_eq_true_eq] at owns
    rcases owns with marked | nothing
    · have quiet := listener_quiet sound (by simp [found, marked]) taken
      have shorter := congrArg (fun u : Echo => u.toGuest.length) quiet
      simp at shorter
    · simp only [windowsBound, List.getLast?_concat, Option.map_some, Option.getD_some, makesProxy,
        nothing, Bool.not_true]

theorem clipWatch_apart (sound : Sound s) (owns : ownsClipboard s .clipWatch = true)
    (apart : linuxBound s = true → windowsBound s = false)
    (taken : echoStep s .clipWatch = some t) : linuxBound t = true → windowsBound t = false := by
  by_cases own : (s.windows.all fun item => item.1.owner = .eventLoop) = true
  · rw [clipWatch_quiet own taken]
    exact apart
  · have real : windowsBound s = false := by
      simpa [ownsClipboard, own] using owns
    obtain ⟨-, rfl | ⟨-, -, -, rfl⟩⟩ := clipWatch_next sound.marked taken
    · exact fun _ => real
    · exact fun _ => real

theorem apart_step {e : ClipboardEcho.Event} (sound : Sound s) (owns : ownsClipboard s e = true)
    (apart : linuxBound s = true → windowsBound s = false) (taken : echoStep s e = some t) :
    linuxBound t = true → windowsBound t = false := by
  have delivered (delivers : isDelivery e = true) :
      linuxBound t = true → windowsBound t = false := by
    obtain ⟨linux, windows, -⟩ := delivery_bound sound delivers taken
    rw [linux, windows]
    exact apart
  cases e with
  | linuxCopy mimeTypes =>
    cases taken
    intro bound
    refine apart ?_
    have pending : (!s.toDriver.isEmpty || !s.grabs.isEmpty) = true := by
      simpa [linuxBound, linuxProxy, desktop, foreignSelection] using bound
    simp [linuxBound, Bool.or_assoc, pending]
  | linuxClear =>
    cases taken
    intro bound
    refine apart ?_
    have pending : (!s.toDriver.isEmpty || !s.grabs.isEmpty) = true := by
      simpa [linuxBound, linuxProxy, desktop] using bound
    simp [linuxBound, Bool.or_assoc, pending]
  | selection =>
    obtain ⟨linux, selections, waiting, rfl⟩ := selection_next taken
    have same : desktop { s with selections, linux, linuxChanged := true } = desktop s := by
      simp [desktop, waiting, List.getLast?_cons]
    intro bound
    refine apart ?_
    simpa only [linuxBound, linuxProxy, same] using bound
  | listener => exact listener_apart sound owns apart taken
  | windowsCopy hasString hasImage =>
    cases taken
    intro bound
    have before := apart bound
    simp only [windowsBound, windowsProxy] at before ⊢
    cases last : s.toGuest.getLast? with
    | none => simp [foreignOffer]
    | some cmd => simpa [last] using before
  | windowsClear =>
    cases taken
    intro bound
    have before := apart bound
    simp only [windowsBound, windowsProxy] at before ⊢
    cases last : s.toGuest.getLast? with
    | none => simp
    | some cmd => simpa [last] using before
  | coalesce =>
    obtain ⟨-, rfl⟩ := coalesce_next taken
    exact apart
  | update =>
    obtain ⟨-, rfl⟩ := update_next taken
    exact apart
  | clipWatch => exact clipWatch_apart sound owns apart taken
  | guestReceives | driverReceives env | cmdHandler => exact delivered rfl

theorem notMutual_of_apart (apart : linuxBound s = true → windowsBound s = false) : NotMutual s := by
  rintro toGuest toDriver ⟨linux, windows⟩
  have real := apart (by simp [linuxBound, linux])
  simp [windowsBound, toGuest, windows] at real

/-- A side that announces a copy without owning its clipboard binds both to be proxies. -/
theorem bound_of_unowned {e : ClipboardEcho.Event} (sound : Sound s)
    (unowned : ownsClipboard s e = false) (taken : echoStep s e = some t) :
    linuxBound t = true ∧ windowsBound t = true := by
  cases e with
  | listener =>
    simp only [ownsClipboard, Bool.or_eq_false_iff, Bool.not_eq_false'] at unowned
    obtain ⟨announced, bound⟩ := unowned
    obtain ⟨⟨selection, copy⟩, found⟩ : ∃ item, s.linux = some item := by
      cases found : s.linux with
      | none => simp [found] at announced
      | some item => exact ⟨item, rfl⟩
    have unmarked : ourMimeMarker ∉ selection.mimeTypes ∧ selection.types.types.isEmpty = false := by
      simpa [found] using announced
    cases copy with
    | none =>
      have ours := sound.marked.linux (selection, none) (by simp [found]) rfl
      exact absurd (selection.marked ours) unmarked.1
    | some n =>
      have changed := (listener_next sound.marked taken).1
      rw [listener_announces sound.marked.out changed found unmarked.1] at taken
      cases taken
      refine ⟨bound, ?_⟩
      simpa [windowsBound, makesProxy] using unmarked.2
  | clipWatch =>
    simp only [ownsClipboard, Bool.or_eq_false_iff, Bool.not_eq_false'] at unowned
    obtain ⟨announced, bound⟩ := unowned
    obtain ⟨⟨offer, copy⟩, found⟩ : ∃ item, s.windows = some item := by
      cases found : s.windows with
      | none => simp [found] at announced
      | some item => exact ⟨item, rfl⟩
    have other : offer.owner ≠ .eventLoop := by simpa [found] using announced
    cases copy with
    | none => exact absurd (sound.marked.windows (offer, none) (by simp [found]) rfl) other
    | some n =>
      have changed := (clipWatch_next sound.marked taken).1
      rw [clipWatch_announces changed found other] at taken
      cases taken
      exact ⟨by simp [linuxBound], bound⟩
  | _ => cases unowned

/-- Deliveries alone empty both pipes, and then the clipboards are what they were bound to be. -/
theorem deliveries_settle (sound : Sound s) (both : linuxBound s = true ∧ windowsBound s = true) :
    ∃ more last, (∀ e ∈ more, isDelivery e = true) ∧ Runs.run echoStep s more = some last ∧
      ¬ NotMutual last := by
  have keeps : ∀ (s : Echo) e t, Sound s ∧ linuxBound s = true ∧ windowsBound s = true →
      isDelivery e = true → echoStep s e = some t →
      Sound t ∧ linuxBound t = true ∧ windowsBound t = true := by
    rintro s e t ⟨sound, linux, windows⟩ delivers taken
    obtain ⟨same, also, -⟩ := delivery_bound sound delivers taken
    exact ⟨sound_step sound taken, same.trans linux, also.trans windows⟩
  have lighter : ∀ (s : Echo) e t, Sound s ∧ linuxBound s = true ∧ windowsBound s = true →
      isDelivery e = true → echoStep s e = some t → inFlight t < inFlight s :=
    fun _ _ _ inv delivers taken => (delivery_bound inv.1 delivers taken).2.2
  obtain ⟨more, last, delivers, reach, ⟨final, linux, windows⟩, resting⟩ :=
    Runs.settles keeps lighter s ⟨sound, both⟩
  have toGuest : last.toGuest = [] := by
    cases pipe : last.toGuest with
    | nil => rfl
    | cons cmd toGuest =>
      obtain ⟨selection, rfl⟩ := final.toGuest cmd (by simp [pipe])
      have stuck := resting .guestReceives rfl
      rw [guestReceives_announced pipe] at stuck
      cases stuck
  have toDriver : last.toDriver = [] := by
    cases pipe : last.toDriver with
    | nil => rfl
    | cons => simpa [echoStep, pipe] using resting (.driverReceives .bare) rfl
  have grabs : last.grabs = [] := by
    cases waiting : last.grabs with
    | nil => rfl
    | cons => simpa [echoStep, waiting] using resting .cmdHandler rfl
  refine ⟨more, last, delivers, reach, ?_⟩
  intro notMutual
  refine notMutual toGuest toDriver ⟨?_, ?_⟩
  · simpa [linuxBound, toDriver, grabs] using linux
  · simpa [windowsBound, toGuest] using windows

end Steps

theorem sound_start (machine : MachineConfig) (hooks : HooksConfig) (content : Option (Bool × Bool)) :
    Sound (start machine hooks content) := by
  refine ⟨⟨nofun, rfl, ?_, ?_⟩, nofun⟩
  · intro item member
    cases List.mem_singleton.mp member
  · intro item member own
    have same : some item = (start machine hooks content).clipboard := by
      rcases List.mem_pair.mp member with now | seen
      · exact now
      · exact seen
    cases content with
    | none => cases same
    | some types =>
      cases same
      cases own

/-- In every run in which a side announces a copy only while the clipboard is its own, the clipboards
    are never proxies for one another. After an announcement by a side whose clipboard is not, the
    deliveries that follow make them so. -/
theorem never_mutual (machine : MachineConfig) (hooks : HooksConfig) (content : Option (Bool × Bool))
    (es : List ClipboardEcho.Event)
    (owned : Runs.Meets echoStep (fun s e => ownsClipboard s e = true)
      (start machine hooks content) es) :
    Runs.Always echoStep NotMutual (start machine hooks content) es ∧
      ∀ s e next, Runs.run echoStep (start machine hooks content) es = some s →
        ownsClipboard s e = false → echoStep s e = some next →
        ∃ more last, (∀ e ∈ more, isDelivery e = true) ∧ Runs.run echoStep next more = some last ∧
          ¬ NotMutual last := by
  have always : Runs.Always echoStep
      (fun s => Sound s ∧ (linuxBound s = true → windowsBound s = false))
      (start machine hooks content) es := by
    refine Runs.always_of_invariant _ ?_ ⟨sound_start machine hooks content, nofun⟩ owned
    rintro s e next ⟨sound, apart⟩ owns taken
    exact ⟨sound_step sound taken, apart_step sound owns apart taken⟩
  refine ⟨Runs.always_mono (fun _ inv => notMutual_of_apart inv.2) always, ?_⟩
  intro s e next reached unowned taken
  have sound := (Runs.always_last always reached).1
  exact deliveries_settle (sound_step sound taken) (bound_of_unowned sound unowned taken)

/-- Text is copied in Windows, and once the desktop has it an image is copied there. -/
theorem proxies_in_turn :
    Runs.Always echoStep NotMutual (start .bare .bare none)
      [.windowsCopy true false, .update, .clipWatch, .driverReceives .bare, .cmdHandler, .selection,
        .listener, .linuxCopy ["image/png"], .selection, .listener, .guestReceives, .update,
        .clipWatch] :=
  (never_mutual .bare .bare none _ (by decide +kernel)).1

theorem mutual_proxies :
    ¬ Runs.Always echoStep NotMutual (start .bare .bare none)
      [.linuxCopy ["text/plain;charset=utf-8"], .selection, .windowsCopy true false, .update, .listener,
        .clipWatch, .guestReceives, .driverReceives .bare, .cmdHandler] := by
  intro always
  exact Runs.always_last always rfl rfl rfl (by decide +kernel)

/-- The guest agent announces a copy that a proxy has replaced, since the notification of that has not
    been handled yet. -/
example :
    ((Runs.run echoStep (start .bare .bare none)
      [.linuxCopy ["text/plain;charset=utf-8"], .selection, .listener, .windowsCopy true false, .update,
        .guestReceives]).map fun s => (s.toGuest, windowsProxy s, ownsClipboard s .clipWatch)) =
      some ([], true, false) := by
  decide +kernel

end ClipboardProxies
