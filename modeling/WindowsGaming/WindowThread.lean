import Mathlib.Data.List.Basic
import WindowsGaming.WindowListeners
import WindowsGaming.Library.Runs
import WindowsGaming.Library.Wakeups

/- The guest's event loop between its threads. A handle sends callbacks through a channel and posts
   WM_USER, the window's thread runs them. Dropping the handle closes the channel and posts once
   more, which is to end the thread. -/
namespace WindowThread
open WindowListeners

inductive Handle where
  | held
  /-- The sender of callbacks is dropped, WM_USER is not posted yet. -/
  | closing
  | dropped
  | panicked
  deriving DecidableEq, Repr

inductive Thread where
  /-- The window is made known, its data is not set yet. -/
  | starting
  | pumping
  | draining
  | finished
  | crashed
  deriving DecidableEq, Repr

structure WindowsEventLoop (L : Type) where
  data : WindowData L
  messages : List Message
  window : Bool
  quit : Bool
  thread : Thread
  handle : Handle
  /-- The callbacks in the channel whose sender has not posted yet, by number. -/
  posting : List Nat
  sent : List (List L)
  ran : List (List L)
  /-- The callbacks that `send_callback` has returned `Ok` for, the latest first. -/
  accepted : List Nat
  deriving DecidableEq, Repr

def init {L : Type} : WindowsEventLoop L :=
  ⟨⟨[], [], true⟩, [], true, false, .starting, .held, [], [], [], []⟩

inductive Label (L : Type) where
  | send (cb : List L)
  | post (n : Nat)
  | drop
  | dropPost
  | arrive (msg : Message)
  /-- Somebody else sends a message past the queue. -/
  | deliver (msg : Message)
  | enter
  | dispatch
  /-- Once around the loop of WM_USER. -/
  | drain
  | quit
  deriving DecidableEq, Repr

def capacity : Nat := 16

def wmQuit : UInt32 := 0x0012

def call {L : Type} (cb : List L) (w : WindowData L) : WindowData L :=
  cb.foldl (fun w listener => w.registerListener listener) w

section Steps
variable {L : Type} (handle : L → Message → L × Except RemoveMeError (Option LRESULT)) (sys : System)
  (closes : Message → Bool) (limit hwnd : Nat)

/-- A post fails without a window and with a full queue. -/
def WindowsEventLoop.postMessage (msg : Message) (s : WindowsEventLoop L) :
    Option (WindowsEventLoop L) :=
  if s.window = true ∧ s.messages.length < limit then some { s with messages := s.messages ++ [msg] }
  else none

def user : Message := ⟨hwnd, wmUser, 0, 0⟩

/-- The other component says whether the message was left to DefWindowProcA. -/
def WindowsEventLoop.handleWm (msg : Message) (s : WindowsEventLoop L) : WindowsEventLoop L × Bool :=
  if msg.message = wmUser then ({ s with thread := .draining }, false)
  else
    match s.data.handleWm handle sys msg with
    | some (data, _, effects) =>
      ({ s with data, quit := s.quit || effects.contains (.postQuitMessage 0) },
        effects.contains .defWindowProc)
    | none => ({ s with thread := .crashed }, false)

/-- WM_DESTROY is handled before the call returns; what was posted to the window is discarded. -/
def WindowsEventLoop.destroyWindow (s : WindowsEventLoop L) : Option (WindowsEventLoop L) :=
  if s.window then
    let (s, _) := s.handleWm handle sys ⟨hwnd, wmDestroy, 0, 0⟩
    some { s with window := false, messages := [] }
  else none

/-- DefWindowProcA destroys the window for the messages that close it, WM_CLOSE among them. -/
def WindowsEventLoop.wndproc (msg : Message) (s : WindowsEventLoop L) : WindowsEventLoop L :=
  let (s, default) := s.handleWm handle sys msg
  if default && closes msg then (s.destroyWindow handle sys hwnd).getD s else s

def WindowsEventLoop.tryRecv (s : WindowsEventLoop L) : WindowsEventLoop L :=
  match s.data.callbacks with
  | cb :: callbacks =>
    { s with data := call cb { s.data with callbacks }, ran := s.ran ++ [cb] }
  | [] =>
    if s.data.connected then { s with thread := .pumping }
    else
      ((s.destroyWindow handle sys hwnd).map fun s => { s with thread := .pumping }).getD
        { s with thread := .crashed }

/-- A thread that ends takes its window with it. -/
def WindowsEventLoop.leave (s : WindowsEventLoop L) : WindowsEventLoop L :=
  { s with window := false, messages := [], thread := .finished }

def step (s : WindowsEventLoop L) : Label L → Option (WindowsEventLoop L)
  | .send cb =>
    if s.handle = .held ∧ s.thread ≠ .finished ∧ s.data.callbacks.length < capacity then
      some { s with
        data := { s.data with callbacks := s.data.callbacks ++ [cb] }
        posting := s.posting ++ [s.sent.length]
        sent := s.sent ++ [cb] }
    else none
  | .post n =>
    if n ∈ s.posting then
      let s := { s with posting := s.posting.erase n }
      some (((s.postMessage limit (user hwnd)).map fun s =>
        { s with accepted := n :: s.accepted }).getD s)
    else none
  | .drop =>
    -- a send borrows the handle until it has posted
    if s.handle = .held ∧ s.posting = [] then
      some { s with data := { s.data with connected := false }, handle := .closing }
    else none
  | .dropPost =>
    if s.handle = .closing then
      some (((s.postMessage limit (user hwnd)).map fun s =>
        { s with handle := .dropped }).getD { s with handle := .panicked })
    else none
  | .arrive msg => s.postMessage limit msg
  | .deliver msg =>
    if s.window = true ∧ s.thread = .pumping then some (s.wndproc handle sys closes hwnd msg) else none
  | .enter => if s.thread = .starting then some { s with thread := .pumping } else none
  | .dispatch =>
    match s.messages with
    | msg :: messages =>
      if s.thread = .pumping then
        some (if msg.message = wmQuit then s.leave
          else { s with messages }.wndproc handle sys closes hwnd msg)
      else none
    | [] => none
  | .drain => if s.thread = .draining then some (s.tryRecv handle sys hwnd) else none
  | .quit =>
    -- WM_QUIT is made up once the queue is empty
    if s.thread = .pumping ∧ s.messages = [] ∧ s.quit = true then some s.leave else none

def own : Label L → Bool
  | .enter | .dispatch | .drain | .quit => true
  | _ => false

/-- The message neither destroys the window nor ends its thread. -/
def harmless (msg : Message) : Bool :=
  msg.message = wmUser || (msg.message ≠ wmDestroy && msg.message ≠ wmQuit && !closes msg)

def undisturbed : Label L → Bool
  | .arrive msg | .deliver msg => harmless closes msg
  | _ => true

def Resting (s : WindowsEventLoop L) : Prop :=
  ∀ l, own l = true → step handle sys closes limit hwnd s l = none

end Steps

section Views
variable {L : Type}

def rings (messages : List Message) : Nat := messages.countP fun msg => msg.message = wmUser

def station (s : WindowsEventLoop L) : Wakeups.Station :=
  ⟨s.sent.length, s.ran.length, s.accepted, rings s.messages, s.thread = .draining⟩

def weight (s : WindowsEventLoop L) : Nat :=
  2 * s.messages.length + s.data.callbacks.length + (if s.window then 1 else 0) +
    match s.thread with
    | .starting => 2
    | .pumping => 1
    | .draining => 2
    | .finished | .crashed => 0

structure Sound (s : WindowsEventLoop L) : Prop where
  inOrder : s.sent = s.ran ++ s.data.callbacks
  posting : ∀ n ∈ s.posting, n < s.sent.length
  connected : s.data.connected = true ↔ s.handle = .held
  healthy : s.thread ≠ .crashed
  quit : s.quit = true ↔ s.window = false
  finished : s.thread = .finished → s.window = false
  destroyed : s.window = false → s.handle ≠ .held ∧ s.data.callbacks = [] ∧ s.messages = [] ∧
    s.thread ≠ .starting ∧ s.thread ≠ .draining
  told : s.handle = .dropped → s.window = true → s.thread = .draining ∨ 0 < rings s.messages

def Undisturbed (closes : Message → Bool) (s : WindowsEventLoop L) : Prop :=
  ∀ msg ∈ s.messages, harmless closes msg = true

end Views
section Parts
variable {L : Type} {handle : L → Message → L × Except RemoveMeError (Option LRESULT)} {sys : System}
  {closes : Message → Bool} {limit hwnd : Nat} {s t : WindowsEventLoop L}

@[simp] theorem call_callbacks (cb : List L) (w : WindowData L) :
    (call cb w).callbacks = w.callbacks := by
  induction cb generalizing w with
  | nil => rfl
  | cons listener cb ih => exact ih (w.registerListener listener)

@[simp] theorem call_connected (cb : List L) (w : WindowData L) :
    (call cb w).connected = w.connected := by
  induction cb generalizing w with
  | nil => rfl
  | cons listener cb ih => exact ih (w.registerListener listener)

@[simp] theorem rings_nil : rings [] = 0 := rfl

@[simp] theorem rings_append (messages more : List Message) :
    rings (messages ++ more) = rings messages + rings more := List.countP_append

@[simp] theorem rings_cons (msg : Message) (messages : List Message) :
    rings (msg :: messages) = rings messages + if msg.message = wmUser then 1 else 0 := by
  simp [rings, List.countP_cons]

theorem destroy_ne_user : wmDestroy ≠ wmUser := by decide

theorem harmless_user : harmless closes (user hwnd) = true := rfl

theorem harmless_other {msg : Message} (safe : harmless closes msg = true)
    (not_user : msg.message ≠ wmUser) : msg.message ≠ wmDestroy ∧ closes msg = false := by
  simp only [harmless, not_user, decide_false, Bool.false_or, Bool.and_eq_true, decide_eq_true_eq,
    Bool.not_eq_true'] at safe
  exact ⟨safe.1.1, safe.2⟩

theorem harmless_quit {msg : Message} (safe : harmless closes msg = true) : msg.message ≠ wmQuit := by
  intro quit
  simp [harmless, quit, wmQuit, wmUser] at safe

theorem handleWm_destroy (data : WindowData L) :
    data.handleWm handle sys ⟨hwnd, wmDestroy, 0, 0⟩ = some (data, ⟨0⟩, [.postQuitMessage 0]) := by
  rw [WindowData.handleWm, if_neg destroy_ne_user, if_pos rfl]

variable (handle sys) in
theorem handleWm_other {msg : Message} (data : WindowData L) (not_user : msg.message ≠ wmUser)
    (not_destroy : msg.message ≠ wmDestroy) :
    ∃ listeners value effects,
      data.handleWm handle sys msg = some ({ data with listeners }, value, effects) ∧
        effects.contains (.postQuitMessage 0) = false := by
  have settled := settle_results (data.listeners.map fun x => handle x msg) [] none
  rw [List.append_nil] at settled
  simp only [WindowData.handleWm, if_neg not_user, if_neg not_destroy, settled, Option.map_some]
  refine ⟨_, _, _, rfl, ?_⟩
  rw [List.contains_eq_mem, decide_eq_false_iff_not, List.mem_append, List.mem_map]
  rintro (⟨res, -, same⟩ | last)
  · cases same
  · split at last <;> simp at last

theorem wndproc_user {msg : Message} (user : msg.message = wmUser) :
    s.wndproc handle sys closes hwnd msg = { s with thread := .draining } := by
  rw [WindowsEventLoop.wndproc, WindowsEventLoop.handleWm, if_pos user]
  rfl

variable (handle sys hwnd) in
theorem wndproc_other {msg : Message} (safe : harmless closes msg = true)
    (not_user : msg.message ≠ wmUser) :
    ∃ listeners,
      s.wndproc handle sys closes hwnd msg = { s with data := { s.data with listeners } } := by
  obtain ⟨not_destroy, kept_open⟩ := harmless_other safe not_user
  obtain ⟨listeners, value, effects, handled, stays⟩ :=
    handleWm_other handle sys s.data not_user not_destroy
  refine ⟨listeners, ?_⟩
  rw [WindowsEventLoop.wndproc, WindowsEventLoop.handleWm, if_neg not_user, handled]
  simp only [stays, kept_open, Bool.or_false, Bool.and_false, Bool.false_eq_true, if_false]

theorem destroyWindow_eq (window : s.window = true) :
    s.destroyWindow handle sys hwnd =
      some { s with window := false, quit := true, messages := [] } := by
  rw [WindowsEventLoop.destroyWindow, if_pos window, WindowsEventLoop.handleWm, if_neg destroy_ne_user,
    handleWm_destroy]
  simp

theorem leave_gone (gone : s.window = false) (empty : s.messages = []) :
    s.leave = { s with thread := .finished } := by
  rw [WindowsEventLoop.leave, ← gone, ← empty]

theorem postMessage_eq {msg : Message} (posted : s.postMessage limit msg = some t) :
    s.window = true ∧ s.messages.length < limit ∧ t = { s with messages := s.messages ++ [msg] } := by
  simp only [WindowsEventLoop.postMessage, Option.ite_none_right_eq_some, Option.some.injEq] at posted
  exact ⟨posted.1.1, posted.1.2, posted.2.symm⟩

variable (handle sys hwnd) in
theorem tryRecv_cases (window : s.window = true) :
    (∃ cb callbacks, s.data.callbacks = cb :: callbacks ∧ s.tryRecv handle sys hwnd =
        { s with data := call cb { s.data with callbacks }, ran := s.ran ++ [cb] }) ∨
      s.data.callbacks = [] ∧ s.data.connected = true ∧
        s.tryRecv handle sys hwnd = { s with thread := .pumping } ∨
      s.data.callbacks = [] ∧ s.data.connected = false ∧ s.tryRecv handle sys hwnd =
        { s with window := false, quit := true, messages := [], thread := .pumping } := by
  cases waiting : s.data.callbacks with
  | cons cb callbacks =>
    refine Or.inl ⟨cb, callbacks, rfl, ?_⟩
    simp only [WindowsEventLoop.tryRecv, waiting]
  | nil =>
    cases connected : s.data.connected with
    | true =>
      refine Or.inr (Or.inl ⟨rfl, rfl, ?_⟩)
      simp only [WindowsEventLoop.tryRecv, waiting, connected, if_true]
    | false =>
      refine Or.inr (Or.inr ⟨rfl, rfl, ?_⟩)
      simp only [WindowsEventLoop.tryRecv, waiting, connected, Bool.false_eq_true, if_false,
        destroyWindow_eq window, Option.map_some, Option.getD_some]

end Parts

section Invariant
variable {L : Type} {handle : L → Message → L × Except RemoveMeError (Option LRESULT)} {sys : System}
  {closes : Message → Bool} {limit hwnd : Nat} {s t : WindowsEventLoop L}

theorem sound_send {cb : List L} (sound : Sound s)
    (taken : step handle sys closes limit hwnd s (.send cb) = some t) :
    Sound t ∧ Runs.run (Wakeups.step (· + 1)) (station s) [.push] = some (station t) := by
  simp only [step, Option.ite_none_right_eq_some, Option.some.injEq] at taken
  obtain ⟨⟨held, -, -⟩, rfl⟩ := taken
  have alive : s.window = true := by
    by_contra gone
    exact (sound.destroyed (by simpa using gone)).1 held
  constructor
  · refine ⟨?_, ?_, sound.connected, sound.healthy, sound.quit, sound.finished, ?_, sound.told⟩
    · rw [sound.inOrder, List.append_assoc]
    · intro n hn
      rw [List.length_append, List.length_singleton]
      rcases List.mem_append.mp hn with old | new
      · exact Nat.lt_succ_of_lt (sound.posting n old)
      · rw [List.mem_singleton.mp new]
        exact Nat.lt_succ_self _
    · intro gone
      rw [alive] at gone
      cases gone
  · simp [Runs.run, Wakeups.step, station]

theorem sound_messages {messages : List Message} (sound : Sound s) (window : s.window = true)
    (more : rings s.messages ≤ rings messages) : Sound { s with messages } := by
  refine ⟨sound.inOrder, sound.posting, sound.connected, sound.healthy, sound.quit, sound.finished,
    ?_, ?_⟩
  · intro gone
    exact absurd (window.symm.trans gone) nofun
  · intro dropped alive
    rcases sound.told dropped alive with draining | waiting
    · exact Or.inl draining
    · exact Or.inr (Nat.lt_of_lt_of_le waiting more)

theorem sound_post {n : Nat} (sound : Sound s)
    (taken : step handle sys closes limit hwnd s (.post n) = some t) :
    Sound t ∧ ∃ ms, Runs.run (Wakeups.step (· + 1)) (station s) ms = some (station t) := by
  simp only [step, Option.ite_none_right_eq_some, Option.some.injEq] at taken
  obtain ⟨member, rfl⟩ := taken
  have fewer : ∀ m ∈ s.posting.erase n, m < s.sent.length := fun m hm =>
    sound.posting m (List.mem_of_mem_erase hm)
  have base : Sound { s with posting := s.posting.erase n } :=
    ⟨sound.inOrder, fewer, sound.connected, sound.healthy, sound.quit, sound.finished,
      sound.destroyed, sound.told⟩
  cases posted : WindowsEventLoop.postMessage limit (user hwnd)
      { s with posting := s.posting.erase n } with
  | none => exact ⟨base, [], rfl⟩
  | some u =>
    obtain ⟨window, -, rfl⟩ := postMessage_eq posted
    have louder : Sound { s with
        posting := s.posting.erase n
        messages := s.messages ++ [user hwnd] } := sound_messages base window (by simp)
    refine ⟨⟨louder.inOrder, louder.posting, louder.connected, louder.healthy, louder.quit,
      louder.finished, louder.destroyed, louder.told⟩, [.ring (some n)], ?_⟩
    simp [Runs.run, Wakeups.step, station, sound.posting n member, user]

theorem sound_dropPost (sound : Sound s)
    (taken : step handle sys closes limit hwnd s .dropPost = some t) :
    Sound t ∧ ∃ ms, Runs.run (Wakeups.step (· + 1)) (station s) ms = some (station t) := by
  simp only [step, Option.ite_none_right_eq_some, Option.some.injEq] at taken
  obtain ⟨closing, rfl⟩ := taken
  have kept_openiff := sound.connected
  rw [closing] at kept_openiff
  cases posted : s.postMessage limit (user hwnd) with
  | none =>
    refine ⟨⟨sound.inOrder, sound.posting, by simpa using kept_openiff, sound.healthy, sound.quit,
      sound.finished, ?_, nofun⟩, [], rfl⟩
    exact fun gone => ⟨nofun, (sound.destroyed gone).2⟩
  | some u =>
    obtain ⟨window, -, rfl⟩ := postMessage_eq posted
    refine ⟨⟨sound.inOrder, sound.posting, by simpa using kept_openiff, sound.healthy, sound.quit,
      sound.finished, ?_, ?_⟩, [.ring none], ?_⟩
    · exact fun gone => absurd (window.symm.trans gone) nofun
    · exact fun _ _ => Or.inr (by simp [user])
    · simp [Runs.run, Wakeups.step, station, user]

theorem sound_drop (sound : Sound s) (taken : step handle sys closes limit hwnd s .drop = some t) :
    Sound t ∧ station t = station s := by
  simp only [step, Option.ite_none_right_eq_some, Option.some.injEq] at taken
  obtain ⟨⟨held, -⟩, rfl⟩ := taken
  refine ⟨⟨sound.inOrder, sound.posting, by simp, sound.healthy, sound.quit, sound.finished, ?_,
    nofun⟩, rfl⟩
  exact fun gone => absurd held (sound.destroyed gone).1

theorem sound_arrive {msg : Message} (sound : Sound s)
    (taken : step handle sys closes limit hwnd s (.arrive msg) = some t) :
    Sound t ∧ ∃ ms, Runs.run (Wakeups.step (· + 1)) (station s) ms = some (station t) := by
  obtain ⟨window, -, rfl⟩ := postMessage_eq taken
  refine ⟨sound_messages sound window (by simp), ?_⟩
  by_cases user : msg.message = wmUser
  · exact ⟨[.ring none], by simp [Runs.run, Wakeups.step, station, user]⟩
  · exact ⟨[], by simp [station, user]⟩

variable (handle sys hwnd) in
theorem sound_wndproc {msg : Message} (sound : Sound s) (window : s.window = true)
    (pumping : s.thread = .pumping) (safe : harmless closes msg = true) :
    Sound (s.wndproc handle sys closes hwnd msg) ∧
      station (s.wndproc handle sys closes hwnd msg) =
        { station s with awake := decide (msg.message = wmUser) } := by
  have present : s.window ≠ false := by simp [window]
  by_cases user : msg.message = wmUser
  · rw [wndproc_user user]
    refine ⟨⟨sound.inOrder, sound.posting, sound.connected, nofun, sound.quit, nofun, ?_, ?_⟩, ?_⟩
    · exact fun gone => absurd gone present
    · exact fun _ _ => Or.inl rfl
    · simp [station, user]
  · obtain ⟨listeners, same⟩ := wndproc_other handle sys hwnd (s := s) safe user
    rw [same]
    refine ⟨⟨sound.inOrder, sound.posting, sound.connected, sound.healthy, sound.quit, sound.finished,
      sound.destroyed, sound.told⟩, ?_⟩
    simp [station, user, pumping]

theorem sound_deliver {msg : Message} (sound : Sound s) (safe : harmless closes msg = true)
    (taken : step handle sys closes limit hwnd s (.deliver msg) = some t) :
    Sound t ∧ ∃ ms, Runs.run (Wakeups.step (· + 1)) (station s) ms = some (station t) := by
  simp only [step, Option.ite_none_right_eq_some, Option.some.injEq] at taken
  obtain ⟨⟨window, pumping⟩, rfl⟩ := taken
  obtain ⟨next, same⟩ := sound_wndproc handle sys hwnd sound window pumping safe
  refine ⟨next, ?_⟩
  rw [same]
  by_cases user : msg.message = wmUser
  · exact ⟨[.ring none, .wake], by simp [Runs.run, Wakeups.step, station, user, pumping]⟩
  · exact ⟨[], by simp [station, user, pumping]⟩

theorem dispatch_cases (safe : Undisturbed closes s)
    (taken : step handle sys closes limit hwnd s .dispatch = some t) :
    ∃ msg messages, s.messages = msg :: messages ∧ s.thread = .pumping ∧
      harmless closes msg = true ∧ t = { s with messages }.wndproc handle sys closes hwnd msg := by
  simp only [step] at taken
  split at taken
  · rename_i msg messages waiting
    have first : harmless closes msg = true := safe msg (waiting ▸ List.mem_cons_self)
    simp only [if_neg (harmless_quit first), Option.ite_none_right_eq_some, Option.some.injEq] at taken
    exact ⟨msg, messages, waiting, taken.1, first, taken.2.symm⟩
  · cases taken

theorem sound_dispatch (sound : Sound s) (safe : Undisturbed closes s)
    (taken : step handle sys closes limit hwnd s .dispatch = some t) :
    Sound t ∧ ∃ ms, Runs.run (Wakeups.step (· + 1)) (station s) ms = some (station t) := by
  obtain ⟨msg, messages, waiting, pumping, first, rfl⟩ := dispatch_cases safe taken
  have window : s.window = true := by
    by_contra gone
    have none := (sound.destroyed (by simpa using gone)).2.2.1
    rw [waiting] at none
    cases none
  by_cases user : msg.message = wmUser
  · rw [wndproc_user user]
    refine ⟨⟨sound.inOrder, sound.posting, sound.connected, nofun, sound.quit, nofun, ?_, ?_⟩, ?_⟩
    · exact fun gone => absurd (window.symm.trans gone) nofun
    · exact fun _ _ => Or.inl rfl
    · exact ⟨[.wake], by simp [Runs.run, Wakeups.step, station, pumping, waiting, user]⟩
  · have kept : rings s.messages = rings messages := by simp [waiting, user]
    have fewer := sound_messages sound window (Nat.le_of_eq kept)
    obtain ⟨next, same⟩ := sound_wndproc handle sys hwnd fewer window pumping first
    refine ⟨next, [], ?_⟩
    rw [same]
    simp [station, kept, pumping, user]

theorem window_of_draining (sound : Sound s) (draining : s.thread = .draining) : s.window = true := by
  by_contra gone
  exact (sound.destroyed (by simpa using gone)).2.2.2.2 draining

theorem sound_drain (sound : Sound s) (taken : step handle sys closes limit hwnd s .drain = some t) :
    Sound t ∧ ∃ ms, Runs.run (Wakeups.step (· + 1)) (station s) ms = some (station t) := by
  simp only [step, Option.ite_none_right_eq_some, Option.some.injEq] at taken
  obtain ⟨draining, rfl⟩ := taken
  have window := window_of_draining sound draining
  have counted := congrArg List.length sound.inOrder
  rw [List.length_append] at counted
  rcases tryRecv_cases handle sys hwnd window with
    ⟨cb, callbacks, waiting, same⟩ | ⟨drained, connected, same⟩ | ⟨drained, closed, same⟩
  · rw [same]
    refine ⟨⟨?_, sound.posting, by simpa using sound.connected, sound.healthy, sound.quit,
      sound.finished, ?_, sound.told⟩, [.take], ?_⟩
    · rw [sound.inOrder, waiting, call_callbacks, List.append_assoc]
      rfl
    · exact fun gone => absurd (window.symm.trans gone) (by simp)
    · simp [Runs.run, Wakeups.step, station, draining, counted, waiting]
  · rw [same]
    rw [drained, List.length_nil, Nat.add_zero] at counted
    refine ⟨⟨sound.inOrder, sound.posting, sound.connected, by simp, sound.quit, by simp, ?_, ?_⟩,
      [.rest], ?_⟩
    · exact fun gone => absurd (window.symm.trans gone) (by simp)
    · intro dropped
      have held := sound.connected.mp connected
      exact absurd (dropped.symm.trans held) (by simp)
    · simp [Runs.run, Wakeups.step, station, draining, counted]
  · rw [same]
    rw [drained, List.length_nil, Nat.add_zero] at counted
    refine ⟨⟨sound.inOrder, sound.posting, sound.connected, by simp, by simp, by simp, ?_, ?_⟩,
      [.shut], ?_⟩
    · intro _
      refine ⟨?_, drained, rfl, by simp, by simp⟩
      intro held
      rw [sound.connected.mpr held] at closed
      cases closed
    · exact fun _ alive => absurd alive (by simp)
    · simp [Runs.run, Wakeups.step, station, draining, counted]

theorem sound_enter (sound : Sound s) (taken : step handle sys closes limit hwnd s .enter = some t) :
    Sound t ∧ station t = station s := by
  simp only [step, Option.ite_none_right_eq_some, Option.some.injEq] at taken
  obtain ⟨starting, rfl⟩ := taken
  refine ⟨⟨sound.inOrder, sound.posting, sound.connected, nofun, sound.quit, nofun, ?_, ?_⟩, ?_⟩
  · exact fun gone => absurd starting (sound.destroyed gone).2.2.2.1
  · intro dropped window
    rcases sound.told dropped window with draining | waiting
    · exact absurd (starting.symm.trans draining) nofun
    · exact Or.inr waiting
  · simp [station, starting]

theorem sound_quit (sound : Sound s) (taken : step handle sys closes limit hwnd s .quit = some t) :
    Sound t ∧ station t = station s := by
  simp only [step, Option.ite_none_right_eq_some, Option.some.injEq] at taken
  obtain ⟨⟨pumping, empty, quit⟩, rfl⟩ := taken
  have gone := sound.quit.mp quit
  rw [leave_gone gone empty]
  obtain ⟨dropped, drained, -⟩ := sound.destroyed gone
  refine ⟨⟨sound.inOrder, sound.posting, sound.connected, by simp, sound.quit, fun _ => gone, ?_, ?_⟩,
    ?_⟩
  · exact fun _ => ⟨dropped, drained, empty, by simp, by simp⟩
  · exact fun _ alive => absurd (gone.symm.trans alive) (by simp)
  · simp [station, pumping]

theorem safe_wndproc {msg : Message} (safe : Undisturbed closes s)
    (first : harmless closes msg = true) :
    Undisturbed closes (s.wndproc handle sys closes hwnd msg) := by
  by_cases user : msg.message = wmUser
  · rw [wndproc_user user]
    exact safe
  · obtain ⟨listeners, same⟩ := wndproc_other handle sys hwnd (s := s) first user
    rw [same]
    exact safe

theorem safe_posted {msg : Message} (safe : Undisturbed closes s) (last : harmless closes msg = true)
    (posted : s.postMessage limit msg = some t) : Undisturbed closes t := by
  obtain ⟨-, -, rfl⟩ := postMessage_eq posted
  intro m member
  rcases List.mem_append.mp member with old | new
  · exact safe m old
  · rw [List.mem_singleton.mp new]
    exact last

theorem safe_step {l : Label L} (safe : Undisturbed closes s) (sound : Sound s)
    (gentle : undisturbed closes l = true) (taken : step handle sys closes limit hwnd s l = some t) :
    Undisturbed closes t := by
  cases l with
  | send _ | drop | enter =>
    simp only [step, Option.ite_none_right_eq_some, Option.some.injEq] at taken
    obtain ⟨-, rfl⟩ := taken
    exact safe
  | post n =>
    simp only [step, Option.ite_none_right_eq_some, Option.some.injEq] at taken
    obtain ⟨-, rfl⟩ := taken
    cases posted : WindowsEventLoop.postMessage limit (user hwnd)
        { s with posting := s.posting.erase n } with
    | none => exact safe
    | some u =>
      have next : Undisturbed closes u :=
        safe_posted (s := { s with posting := s.posting.erase n }) safe harmless_user posted
      exact next
  | dropPost =>
    simp only [step, Option.ite_none_right_eq_some, Option.some.injEq] at taken
    obtain ⟨-, rfl⟩ := taken
    cases posted : s.postMessage limit (user hwnd) with
    | none => exact safe
    | some u =>
      have next : Undisturbed closes u := safe_posted safe harmless_user posted
      exact next
  | arrive msg => exact safe_posted safe gentle taken
  | deliver msg =>
    simp only [step, Option.ite_none_right_eq_some, Option.some.injEq] at taken
    obtain ⟨-, rfl⟩ := taken
    exact safe_wndproc safe gentle
  | dispatch =>
    obtain ⟨msg, messages, waiting, -, first, rfl⟩ := dispatch_cases safe taken
    refine safe_wndproc ?_ first
    exact fun m hm => safe m (waiting ▸ List.mem_cons_of_mem msg hm)
  | drain =>
    simp only [step, Option.ite_none_right_eq_some, Option.some.injEq] at taken
    obtain ⟨draining, rfl⟩ := taken
    have window := window_of_draining sound draining
    rcases tryRecv_cases handle sys hwnd window with
      ⟨cb, callbacks, -, same⟩ | ⟨-, -, same⟩ | ⟨-, -, same⟩
    · rw [same]
      exact safe
    · rw [same]
      exact safe
    · rw [same]
      exact nofun
  | quit =>
    simp only [step, Option.ite_none_right_eq_some, Option.some.injEq] at taken
    obtain ⟨-, rfl⟩ := taken
    exact nofun

theorem sound_step {l : Label L} (sound : Sound s) (safe : Undisturbed closes s)
    (gentle : undisturbed closes l = true) (taken : step handle sys closes limit hwnd s l = some t) :
    Sound t ∧ ∃ ms, Runs.run (Wakeups.step (· + 1)) (station s) ms = some (station t) := by
  have still : Sound t ∧ station t = station s →
      Sound t ∧ ∃ ms, Runs.run (Wakeups.step (· + 1)) (station s) ms = some (station t) :=
    fun h => ⟨h.1, [], by rw [h.2]; rfl⟩
  cases l with
  | send cb =>
    obtain ⟨next, pushed⟩ := sound_send sound taken
    exact ⟨next, _, pushed⟩
  | post n => exact sound_post sound taken
  | drop => exact still (sound_drop sound taken)
  | dropPost => exact sound_dropPost sound taken
  | arrive msg => exact sound_arrive sound taken
  | deliver msg => exact sound_deliver sound gentle taken
  | enter => exact still (sound_enter sound taken)
  | dispatch => exact sound_dispatch sound safe taken
  | drain => exact sound_drain sound taken
  | quit => exact still (sound_quit sound taken)

theorem own_step {l : Label L} (sound : Sound s) (safe : Undisturbed closes s) (mine : own l = true)
    (taken : step handle sys closes limit hwnd s l = some t) :
    weight t < weight s ∧ t.sent = s.sent ∧ t.accepted = s.accepted ∧ t.handle = s.handle ∧
      (s.window = false → t.window = false) := by
  cases l with
  | enter =>
    simp only [step, Option.ite_none_right_eq_some, Option.some.injEq] at taken
    obtain ⟨starting, rfl⟩ := taken
    refine ⟨?_, rfl, rfl, rfl, id⟩
    simp only [weight, starting]
    omega
  | dispatch =>
    obtain ⟨msg, messages, waiting, pumping, first, rfl⟩ := dispatch_cases safe taken
    by_cases user : msg.message = wmUser
    · rw [wndproc_user user]
      refine ⟨?_, rfl, rfl, rfl, id⟩
      simp only [weight, waiting, pumping, List.length_cons]
      omega
    · obtain ⟨listeners, same⟩ := wndproc_other handle sys hwnd
        (s := { s with messages }) first user
      rw [same]
      refine ⟨?_, rfl, rfl, rfl, id⟩
      simp only [weight, waiting, pumping, List.length_cons]
      omega
  | drain =>
    simp only [step, Option.ite_none_right_eq_some, Option.some.injEq] at taken
    obtain ⟨draining, rfl⟩ := taken
    have window := window_of_draining sound draining
    rcases tryRecv_cases handle sys hwnd window with
      ⟨cb, callbacks, waiting, same⟩ | ⟨drained, connected, same⟩ | ⟨drained, closed, same⟩
    · rw [same]
      refine ⟨?_, rfl, rfl, rfl, id⟩
      simp only [weight, waiting, draining, call_callbacks, List.length_cons]
      omega
    · rw [same]
      refine ⟨?_, rfl, rfl, rfl, id⟩
      simp only [weight, drained, draining]
      omega
    · rw [same]
      refine ⟨?_, rfl, rfl, rfl, fun _ => rfl⟩
      simp only [weight, drained, draining, window, List.length_nil, Bool.false_eq_true, if_false,
        if_true]
      omega
  | quit =>
    simp only [step, Option.ite_none_right_eq_some, Option.some.injEq] at taken
    obtain ⟨⟨pumping, empty, quit⟩, rfl⟩ := taken
    rw [leave_gone (sound.quit.mp quit) empty]
    refine ⟨?_, rfl, rfl, rfl, id⟩
    simp only [weight, pumping]
    omega
  | _ => cases mine

theorem call_drops (cb : List L) (w : WindowData L) (callbacks : List (List L)) :
    { call cb w with callbacks } = call cb { w with callbacks } := by
  induction cb generalizing w with
  | nil => rfl
  | cons listener cb ih => exact ih (w.registerListener listener)

theorem runCallbacks_cons {cb : List L} {callbacks : List (List L)} {w : WindowData L}
    (waiting : w.callbacks = cb :: callbacks) :
    w.runCallbacks = (call cb { w with callbacks }).runCallbacks := by
  simp only [WindowData.runCallbacks, call_callbacks, call_drops, waiting, List.flatten_cons,
    List.foldl_append]
  rfl

/-- With nobody in between, the loop does what the window procedure does in one go. -/
theorem drain_undisturbed (sys : System) (destroys : ∀ window, sys.destroyWindow window = true)
    (window : s.window = true) (draining : s.thread = .draining) :
    ∃ t, Runs.run (step handle sys closes limit hwnd) s
        (List.replicate (s.data.callbacks.length + 1) .drain) = some t ∧
      s.data.handleWm handle sys (user hwnd) =
        some (t.data, ⟨0⟩, if t.window then [] else [.destroyWindow]) ∧
      t.thread = .pumping ∧ t.window = s.data.connected := by
  induction waiting : s.data.callbacks generalizing s with
  | cons cb callbacks ih =>
    have first : s.tryRecv handle sys hwnd =
        { s with data := call cb { s.data with callbacks }, ran := s.ran ++ [cb] } := by
      simp only [WindowsEventLoop.tryRecv, waiting]
    obtain ⟨t, reach, same, last⟩ :=
      ih (s := s.tryRecv handle sys hwnd) (by rw [first]; exact window) (by rw [first]; exact draining)
        (by rw [first, call_callbacks])
    refine ⟨t, ?_, ?_, ?_⟩
    · rw [List.length_cons, List.replicate_succ, Runs.run_cons, step, if_pos draining]
      exact reach
    · rw [← same, first]
      simp only [WindowData.handleWm, user, if_true, runCallbacks_cons waiting]
      rfl
    · rw [first] at last
      simpa using last
  | nil =>
    have untouched : s.data.runCallbacks = s.data := by
      simp only [WindowData.runCallbacks, waiting, List.flatten_nil, List.foldl_nil]
      rw [← waiting]
    cases connected : s.data.connected with
    | true =>
      refine ⟨{ s with thread := .pumping }, ?_, ?_, rfl, window⟩
      · simp [Runs.run, step, draining, WindowsEventLoop.tryRecv, waiting, connected]
      · simp [WindowData.handleWm, user, untouched, connected, window]
    | false =>
      refine ⟨{ s with window := false, quit := true, messages := [], thread := .pumping }, ?_, ?_,
        rfl, rfl⟩
      · simp [Runs.run, step, draining, WindowsEventLoop.tryRecv, waiting, connected,
          destroyWindow_eq window]
      · simp [WindowData.handleWm, user, untouched, connected, destroys]

theorem idle_of_resting (sound : Sound s) (resting : Resting handle sys closes limit hwnd s) :
    (station s).awake = false ∧ (station s).rings = 0 := by
  have not_draining : s.thread ≠ .draining := by
    intro draining
    have stuck := resting .drain rfl
    rw [step, if_pos draining] at stuck
    cases stuck
  refine ⟨by simpa [station] using not_draining, ?_⟩
  cases waiting : s.messages with
  | nil => simp [station, waiting]
  | cons msg messages =>
    have window : s.window = true := by
      by_contra gone
      have none := (sound.destroyed (by simpa using gone)).2.2.1
      rw [waiting] at none
      cases none
    cases thread : s.thread with
    | starting =>
      have stuck := resting .enter rfl
      rw [step, if_pos thread] at stuck
      cases stuck
    | pumping =>
      have stuck := resting .dispatch rfl
      simp only [step, waiting, thread, if_true] at stuck
      cases stuck
    | draining => exact absurd thread not_draining
    | finished => exact absurd (window.symm.trans (sound.finished thread)) nofun
    | crashed => exact absurd thread sound.healthy

theorem finished_of_resting (sound : Sound s) (resting : Resting handle sys closes limit hwnd s)
    (gone : s.window = false) : s.thread = .finished := by
  obtain ⟨-, -, empty, not_starting, not_draining⟩ := sound.destroyed gone
  cases thread : s.thread with
  | starting => exact absurd thread not_starting
  | pumping =>
    have stuck := resting .quit rfl
    rw [step, if_pos ⟨thread, empty, sound.quit.mpr gone⟩] at stuck
    cases stuck
  | draining => exact absurd thread not_draining
  | finished => rfl
  | crashed => exact absurd thread sound.healthy

end Invariant

section Delivery
variable {L : Type} (handle : L → Message → L × Except RemoveMeError (Option LRESULT)) (sys : System)
  (closes : Message → Bool) (limit hwnd : Nat)

/-- Callbacks are run once each and in order, the accepted ones before the thread rests. The window
    lives as long as the handle, and the thread ends with everything run. -/
structure Delivered (s : WindowsEventLoop L) : Prop where
  inOrder : s.sent = s.ran ++ s.data.callbacks
  heard : Resting handle sys closes limit hwnd s → ∀ n ∈ s.accepted, n < s.ran.length
  held : s.handle = .held → s.window = true ∧ s.thread ≠ .finished
  healthy : s.thread ≠ .crashed
  finished : s.thread = .finished → s.ran = s.sent

/-- What has come of a state when the thread rests again: whatever was accepted has been run, and after
    the post of the drop the thread has ended. -/
structure Settled (s t : WindowsEventLoop L) : Prop where
  sent : t.sent = s.sent
  accepted : ∀ n ∈ s.accepted, n < t.ran.length
  ended : s.handle = .dropped ∨ s.window = false → t.thread = .finished ∧ t.ran = s.sent

structure Inv (s : WindowsEventLoop L) : Prop where
  sound : Sound s
  safe : Undisturbed closes s
  heard : Wakeups.Heard (station s)

variable {handle sys closes limit hwnd} {s t : WindowsEventLoop L}

theorem inv_init : Inv closes (init : WindowsEventLoop L) :=
  ⟨⟨rfl, nofun, by simp [init], nofun, by simp [init], nofun, nofun, nofun⟩, nofun, Wakeups.heard_empty⟩

theorem inv_step {l : Label L} (inv : Inv closes s) (gentle : undisturbed closes l = true)
    (taken : step handle sys closes limit hwnd s l = some t) : Inv closes t := by
  obtain ⟨next, ms, reach⟩ := sound_step inv.sound inv.safe gentle taken
  refine ⟨next, safe_step inv.safe inv.sound gentle taken, ?_⟩
  exact Runs.run_preserved (fun _ _ _ => Wakeups.heard_step Nat.succ_pos) inv.heard reach

theorem all_ran (sound : Sound s) (gone : s.window = false) : s.ran = s.sent := by
  rw [sound.inOrder, (sound.destroyed gone).2.1, List.append_nil]

theorem delivered_of_inv (inv : Inv closes s) : Delivered handle sys closes limit hwnd s := by
  obtain ⟨sound, -, heard⟩ := inv
  refine ⟨sound.inOrder, ?_, ?_, sound.healthy, fun finished => all_ran sound (sound.finished finished)⟩
  · intro resting
    obtain ⟨asleep, silent⟩ := idle_of_resting sound resting
    exact heard.heard asleep silent
  · intro held
    have window : s.window = true := by
      by_contra gone
      exact (sound.destroyed (by simpa using gone)).1 held
    exact ⟨window, fun finished => absurd (window.symm.trans (sound.finished finished)) nofun⟩

def Leaves (s t : WindowsEventLoop L) : Prop :=
  t.sent = s.sent ∧ t.accepted = s.accepted ∧ t.handle = s.handle ∧
    (s.window = false → t.window = false)

theorem settled_of_resting (inv : Inv closes t) (left : Leaves s t)
    (resting : Resting handle sys closes limit hwnd t) : Settled s t := by
  obtain ⟨sound, -, heard⟩ := inv
  obtain ⟨sent, accepted, held, gone⟩ := left
  obtain ⟨asleep, silent⟩ := idle_of_resting sound resting
  refine ⟨sent, ?_, ?_⟩
  · intro n hn
    have still : n ∈ (station t).rungFor := by
      rw [station, accepted]
      exact hn
    exact heard.heard asleep silent n still
  · intro ending
    have closed : t.window = false := by
      rcases ending with dropped | destroyed
      · by_contra present
        rcases sound.told (held.trans dropped) (by simpa using present) with draining | waiting
        · exact absurd asleep (by simp [station, draining])
        · exact absurd silent (Nat.ne_of_gt waiting)
      · exact gone destroyed
    exact ⟨finished_of_resting sound resting closed, (all_ran sound closed).trans sent⟩

theorem undisturbed_own {l : Label L} (mine : own l = true) : undisturbed closes l = true := by
  cases l with
  | arrive | deliver => cases mine
  | _ => rfl

theorem settles_of_inv (inv : Inv closes s) :
    Runs.ComesToRest (step handle sys closes limit hwnd) (fun l => own l = true) (weight s)
      (Settled s) s := by
  have keeps : ∀ (u : WindowsEventLoop L) l t, Inv closes u ∧ Leaves s u → own l = true →
      step handle sys closes limit hwnd u l = some t → Inv closes t ∧ Leaves s t := by
    rintro u l t ⟨inv, sent, accepted, held, gone⟩ mine taken
    obtain ⟨-, sent', accepted', held', gone'⟩ := own_step inv.sound inv.safe mine taken
    exact ⟨inv_step inv (undisturbed_own mine) taken, sent'.trans sent, accepted'.trans accepted,
      held'.trans held, gone' ∘ gone⟩
  have lighter : ∀ (u : WindowsEventLoop L) l t, Inv closes u ∧ Leaves s u → own l = true →
      step handle sys closes limit hwnd u l = some t → weight t < weight u :=
    fun _ _ _ inv mine taken => (own_step inv.1.sound inv.1.safe mine taken).1
  have final : ∀ t : WindowsEventLoop L, Inv closes t ∧ Leaves s t →
      (∀ l, own l = true → step handle sys closes limit hwnd t l = none) → Settled s t :=
    fun _ inv resting => settled_of_resting inv.1 inv.2 resting
  exact Runs.comesToRest keeps lighter final s ⟨inv, rfl, rfl, rfl, id⟩

theorem always_inv {ls : List (Label L)} (gentle : Runs.Meets (step handle sys closes limit hwnd)
    (fun _ l => undisturbed closes l = true) init ls) :
    Runs.Always (step handle sys closes limit hwnd) (Inv closes) init ls :=
  Runs.always_of_invariant _ (fun _ _ _ => inv_step) inv_init gentle

variable (handle sys closes limit hwnd)

/-- As long as no message of another program closes the window or ends its thread: no callback is
    lost, run twice or run before an earlier one, and none that was accepted is left to a thread that
    has nothing to do. -/
theorem callbacks_delivered (ls : List (Label L))
    (gentle : Runs.Meets (step handle sys closes limit hwnd)
      (fun _ l => undisturbed closes l = true) init ls) :
    Runs.Always (step handle sys closes limit hwnd) (Delivered handle sys closes limit hwnd) init ls :=
  Runs.always_mono (fun _ => delivered_of_inv) (always_inv gentle)

end Delivery

def noListener (listener : Nat) (_ : Message) : Nat × Except RemoveMeError (Option LRESULT) :=
  (listener, .ok none)

def closesWindow (msg : Message) : Bool := msg.message = 0x0010

/-- A callback is sent and run between messages of other programs. -/
theorem callbacks_delivered_once :
    Runs.Always (step noListener ⟨fun _ => true, fun _ => ⟨0⟩⟩ closesWindow 10000 1)
      (Delivered noListener ⟨fun _ => true, fun _ => ⟨0⟩⟩ closesWindow 10000 1) init
      [.arrive ⟨1, 0x0113, 0, 0⟩, .send [7], .enter, .post 0, .dispatch, .deliver ⟨1, wmUser, 0, 0⟩,
        .drain, .drain, .dispatch, .drain] :=
  callbacks_delivered _ _ _ _ _ _ (by decide)

/-- WM_CLOSE from another program has an accepted callback dropped. -/
example :
    ((Runs.run (step noListener ⟨fun _ => true, fun _ => ⟨0⟩⟩ closesWindow 10000 1) init
      [.enter, .arrive ⟨1, 0x0010, 0, 0⟩, .send [7], .post 0, .dispatch, .quit]).map
        fun s => (s.thread, s.handle, s.accepted, s.ran)) = some (.finished, .held, [0], []) := by
  decide

/-- The thread may see the closed channel and destroy the window before the drop posts, which then
    panics. -/
example :
    ((Runs.run (step noListener ⟨fun _ => true, fun _ => ⟨0⟩⟩ closesWindow 10000 1) init
      [.enter, .send [], .post 0, .dispatch, .drain, .drop, .drain, .dropPost]).map
        WindowsEventLoop.handle) = some .panicked := by
  decide

end WindowThread
