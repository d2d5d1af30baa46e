import Mathlib.Algebra.Order.Ring.Nat
import Mathlib.Data.List.Basic
import WindowsGaming.Library.Journals
import WindowsGaming.Library.Runs
import WindowsGaming.Library.Wakeups

/- The clipboard's connection to the compositor. Requests are buffered by whoever makes them; a write
   task flushes the buffer and sleeps until it is notified, a read task dispatches the events. A
   roundtrip runs both until the answer to its own request is dispatched. -/
namespace WaylandEventLoop

inductive Request where
  | getRegistry
  | bind (interface : String) (version : Nat)
  | getDataDevice
  | createDataSource
  | offer (mimeType : String)
  | setSelection (source : Option Nat)
  | receive (mimeType : String)
  | sync
  deriving DecidableEq, Repr

inductive Event (E : Type) where
  | done (sync : Nat)
  | answer (request : Nat) (e : E)
  | other (e : E)
  deriving DecidableEq, Repr

inductive Writer where
  | writing
  /-- In `write_notify.notified()`. -/
  | sleeping
  deriving DecidableEq, Repr

inductive Running where
  | stopped
  | roundtrip (sync : Nat)
  /-- The callback of the sync has dropped the guard. -/
  | cancelled (sync : Nat)
  | forever
  | failed
  deriving DecidableEq, Repr

def Running.active : Running → Bool
  | .stopped | .failed => false
  | .roundtrip _ | .cancelled _ | .forever => true

structure Connection (E : Type) where
  requests : List Request
  written : Nat
  handled : Nat
  /-- The requests somebody has called `notify_one` after. -/
  announced : List Nat
  permit : Bool
  writer : Writer
  running : Running
  events : List (Event E)
  dispatched : List (Event E)
  returned : List Nat
  deriving DecidableEq, Repr

def new {E : Type} : Connection E := ⟨[], 0, 0, [], false, .sleeping, .stopped, [], [], []⟩

inductive Label (E : Type) where
  | request (r : Request)
  | notifyOne (request : Nat)
  | roundtrip
  | run
  /-- The socket takes all that is left, or only this many requests before it would block. -/
  | flush (room : Option Nat)
  | notified
  | handle
  | send (e : E)
  | dispatch
  | finish
  | fail
  deriving DecidableEq, Repr

section Steps
variable {E : Type} (answers : Request → List E)

def replies (n : Nat) : Request → List (Event E)
  | .sync => [.done n]
  | r => (answers r).map (Event.answer n)

def notifyOne (n : Nat) (c : Connection E) : Connection E :=
  { c with announced := n :: c.announced, permit := true }

def step (c : Connection E) : Label E → Option (Connection E)
  | .request r => some { c with requests := c.requests ++ [r] }
  | .notifyOne n => if n < c.requests.length then some (notifyOne n c) else none
  | .roundtrip =>
    if c.running = .stopped then
      some { c with
        requests := c.requests ++ [.sync]
        writer := .writing
        running := .roundtrip c.requests.length }
    else none
  | .run =>
    if c.running = .stopped then some { c with writer := .writing, running := .forever } else none
  | .flush none =>
    if c.running.active = true ∧ c.writer = .writing then
      some { c with written := c.requests.length, writer := .sleeping }
    else none
  | .flush (some k) =>
    -- `flush` fails with `WouldBlock`, the loop goes round again
    if c.running.active = true ∧ c.writer = .writing ∧ c.written + k < c.requests.length then
      some { c with written := c.written + k }
    else none
  | .notified =>
    if c.running.active = true ∧ c.writer = .sleeping ∧ c.permit = true then
      some { c with writer := .writing, permit := false }
    else none
  | .handle =>
    if c.handled < c.written then
      c.requests[c.handled]?.map fun r =>
        { c with handled := c.handled + 1, events := c.events ++ replies answers c.handled r }
    else none
  | .send e => some { c with events := c.events ++ [.other e] }
  | .dispatch =>
    match c.events with
    | e :: events =>
      if c.running.active = true then
        some { c with
          events
          dispatched := c.dispatched ++ [e]
          running :=
            match e, c.running with
            | .done n, .roundtrip sync => if n = sync then .cancelled sync else .roundtrip sync
            | _, running => running }
      else none
    | [] => none
  | .finish =>
    match c.running with
    | .cancelled n => some { c with running := .stopped, returned := n :: c.returned }
    | _ => none
  | .fail => if c.running.active = true then some { c with running := .failed } else none

/-- The steps of the two tasks and the compositor, when nothing new happens and the socket takes
    something each time it is writable. -/
def own : Label E → Bool
  | .flush none | .notified | .handle | .dispatch | .finish => true
  | .flush (some k) => 0 < k
  | _ => false

end Steps

section Operations
variable {E : Type}

def announce (n : Nat) (rs : List Request) : List (Label E) :=
  rs.map .request ++ [.notifyOne (n + rs.length - 1)]

def claim (mimeTypes : List String) (n : Nat) : List Request :=
  .createDataSource :: mimeTypes.map .offer ++ [.setSelection (some n)]

def undoCopyTask : List Request := [.setSelection none]

def receiveReader (mime : String) : List Request := [.receive mime]

/-- What the functions of the clipboard ask of the connection. -/
inductive Asks : Nat → List Request → Prop where
  | claim (mimeTypes : List String) (n : Nat) : Asks n (claim mimeTypes n)
  | undoCopyTask (n : Nat) : Asks n undoCopyTask
  | receiveReader (mime : String) (n : Nat) : Asks n (receiveReader mime)

end Operations

section Views
variable {E : Type} (answers : Request → List E)

def station (c : Connection E) : Wakeups.Station :=
  ⟨c.requests.length, c.written, c.announced, c.permit.toNat, c.writer = .writing⟩

def stream (c : Connection E) : List (Event E) := c.dispatched ++ c.events

def Answered (requests : List Request) (n : Nat) (events : List (Event E)) : Prop :=
  ∀ m r, m < n → requests[m]? = some r → ∀ e ∈ replies answers m r, e ∈ events

def cost (r : Request) : Nat :=
  match r with
  | .sync => 2
  | r => (answers r).length + 1

def weight (c : Connection E) : Nat :=
  ((c.requests.drop c.handled).map (cost answers)).sum + c.events.length + 2 * c.permit.toNat +
    (c.requests.length - c.written) +
    (match c.writer with
      | .writing => 1
      | .sleeping => 0) +
    match c.running with
    | .stopped | .forever | .failed => 0
    | .roundtrip _ => 2
    | .cancelled _ => 1

def Underway (n : Nat) (c : Connection E) : Prop :=
  c.running = .roundtrip n ∨ c.running = .cancelled n ∨ c.running = .stopped ∧ n ∈ c.returned

structure Sound (c : Connection E) : Prop where
  written : c.written ≤ c.requests.length
  handled : c.handled ≤ c.written
  answered : Answered answers c.requests c.handled (stream c)
  ordered : ∀ before n after, stream c = before ++ .done n :: after →
    n < c.handled ∧ c.requests[n]? = some .sync ∧ Answered answers c.requests n before
  returned : ∀ n ∈ c.returned, .done n ∈ c.dispatched
  cancelled : ∀ n, c.running = .cancelled n → .done n ∈ c.dispatched
  syncing : ∀ n, c.running = .roundtrip n → c.requests[n]? = some .sync ∧
    .done n ∉ c.dispatched ∧ (c.writer = .writing ∨ n < c.written)

end Views

section Invariant
variable {E : Type} {answers : Request → List E} {c d : Connection E}

theorem answered_more {requests more : List Request} {n : Nat} {events : List (Event E)}
    (inside : n ≤ requests.length) (answered : Answered answers requests n events) :
    Answered answers (requests ++ more) n events := by
  intro m r less found e he
  rw [List.getElem?_append_left (by omega)] at found
  exact answered m r less found e he

theorem sound_requests {more : List Request} {running : Running} {writer : Writer}
    (sound : Sound answers c) (cancelled : ∀ n, running = .cancelled n → c.running = .cancelled n)
    (syncing : ∀ n, running = .roundtrip n → (c.requests ++ more)[n]? = some .sync ∧
      .done n ∉ c.dispatched ∧ (writer = .writing ∨ n < c.written)) :
    Sound answers { c with requests := c.requests ++ more, running, writer } := by
  have all := sound.written
  have some_handled := sound.handled
  refine ⟨?_, sound.handled, ?_, ?_, sound.returned, ?_, syncing⟩
  · exact Nat.le_trans all (by simp)
  · exact answered_more (Nat.le_trans some_handled all) sound.answered
  · intro before n after cut
    obtain ⟨known, asked, answered⟩ := sound.ordered before n after cut
    exact ⟨known, Journals.getElem?_append_of_some _ asked, answered_more (by omega) answered⟩
  · exact fun n hn => sound.cancelled n (cancelled n hn)

theorem sound_request {r : Request} (sound : Sound answers c)
    (taken : step answers c (.request r) = some d) :
    Sound answers d ∧ Runs.run (Wakeups.step fun _ => 1) (station c) [.push] = some (station d) := by
  cases taken
  refine ⟨sound_requests sound (fun _ same => same) ?_, by simp [Runs.run, Wakeups.step, station]⟩
  intro n waiting
  obtain ⟨found, undone, soon⟩ := sound.syncing n waiting
  exact ⟨Journals.getElem?_append_of_some _ found, undone, soon⟩

theorem sound_notifyOne {n : Nat} (sound : Sound answers c)
    (taken : step answers c (.notifyOne n) = some d) :
    Sound answers d ∧
      Runs.run (Wakeups.step fun _ => 1) (station c) [.ring (some n)] = some (station d) := by
  simp only [step, Option.ite_none_right_eq_some, Option.some.injEq] at taken
  obtain ⟨inside, rfl⟩ := taken
  refine ⟨⟨sound.written, sound.handled, sound.answered, sound.ordered, sound.returned,
    sound.cancelled, sound.syncing⟩, ?_⟩
  rw [Runs.run_cons, Wakeups.step, if_pos (show n < (station c).pushed from inside)]
  rfl

theorem sound_roundtrip (sound : Sound answers c) (taken : step answers c .roundtrip = some d) :
    Sound answers d ∧
      Runs.run (Wakeups.step fun _ => 1) (station c) [.push, .stir] = some (station d) := by
  simp only [step, Option.ite_none_right_eq_some, Option.some.injEq] at taken
  obtain ⟨-, rfl⟩ := taken
  refine ⟨sound_requests sound nofun ?_, by simp [Runs.run, Wakeups.step, station]⟩
  intro n same
  cases same
  refine ⟨by simp, ?_, Or.inl rfl⟩
  intro done
  obtain ⟨before, after, cut⟩ := List.append_of_mem (List.mem_append_left c.events done)
  have known := (sound.ordered before _ after cut).1
  have all := sound.written
  have some_handled := sound.handled
  omega

theorem sound_run (sound : Sound answers c) (taken : step answers c .run = some d) :
    Sound answers d ∧ Runs.run (Wakeups.step fun _ => 1) (station c) [.stir] = some (station d) := by
  simp only [step, Option.ite_none_right_eq_some, Option.some.injEq] at taken
  obtain ⟨-, rfl⟩ := taken
  refine ⟨⟨sound.written, sound.handled, sound.answered, sound.ordered, sound.returned, nofun,
    nofun⟩, ?_⟩
  simp [Runs.run, Wakeups.step, station]

theorem sound_flush {room : Option Nat} (sound : Sound answers c)
    (taken : step answers c (.flush room) = some d) :
    Sound answers d ∧ ∃ ms, Runs.run (Wakeups.step fun _ => 1) (station c) ms = some (station d) := by
  have all := sound.written
  have some_handled := sound.handled
  cases room with
  | none =>
    simp only [step, Option.ite_none_right_eq_some, Option.some.injEq] at taken
    obtain ⟨⟨-, writing⟩, rfl⟩ := taken
    have awake : (station c).awake = true := by simp [station, writing]
    constructor
    · refine ⟨Nat.le_refl _, by dsimp only; omega, sound.answered, sound.ordered, sound.returned,
        sound.cancelled, ?_⟩
      intro n waiting
      obtain ⟨found, undone, -⟩ := sound.syncing n waiting
      exact ⟨found, undone, Or.inr (List.getElem?_eq_some_iff.mp found).1⟩
    · refine ⟨List.replicate (c.requests.length - c.written) .take ++ [.rest], ?_⟩
      have drained : c.written + (c.requests.length - c.written) = c.requests.length := by omega
      rw [Runs.run_append, Wakeups.run_take _ awake (Nat.le_of_eq drained)]
      simp [Runs.run, Wakeups.step, station, writing, drained]
  | some k =>
    simp only [step, Option.ite_none_right_eq_some, Option.some.injEq] at taken
    obtain ⟨⟨-, writing, less⟩, rfl⟩ := taken
    have awake : (station c).awake = true := by simp [station, writing]
    constructor
    · refine ⟨by dsimp only; omega, by dsimp only; omega, sound.answered, sound.ordered,
        sound.returned, sound.cancelled, ?_⟩
      intro n waiting
      obtain ⟨found, undone, -⟩ := sound.syncing n waiting
      exact ⟨found, undone, Or.inl writing⟩
    · refine ⟨List.replicate k .take, ?_⟩
      have enough : (station c).taken + k ≤ (station c).pushed := Nat.le_of_lt less
      rw [Wakeups.run_take k awake enough]
      rfl

theorem sound_notified (sound : Sound answers c) (taken : step answers c .notified = some d) :
    Sound answers d ∧ Runs.run (Wakeups.step fun _ => 1) (station c) [.wake] = some (station d) := by
  simp only [step, Option.ite_none_right_eq_some, Option.some.injEq] at taken
  obtain ⟨⟨-, sleeping, permit⟩, rfl⟩ := taken
  constructor
  · refine ⟨sound.written, sound.handled, sound.answered, sound.ordered, sound.returned,
      sound.cancelled, ?_⟩
    intro n waiting
    obtain ⟨found, undone, -⟩ := sound.syncing n waiting
    exact ⟨found, undone, Or.inl rfl⟩
  · simp [Runs.run, Wakeups.step, station, sleeping, permit]

theorem done_mem_replies {n m : Nat} {r : Request} (done : .done n ∈ replies answers m r) :
    n = m ∧ r = .sync := by
  cases r with
  | sync =>
    cases List.mem_singleton.mp done
    exact ⟨rfl, rfl⟩
  | _ => simp [replies] at done

theorem done_append_cases {n : Nat} {events more before after : List (Event E)}
    (cut : events ++ more = before ++ .done n :: after) :
    (∃ rest, events = before ++ .done n :: rest) ∨
      ∃ front, before = events ++ front ∧ .done n ∈ more := by
  rcases List.append_eq_append_iff.mp cut with ⟨front, rfl, behind⟩ | ⟨front, rfl, behind⟩
  · exact Or.inr ⟨front, rfl, by simp [behind]⟩
  · cases front with
    | nil =>
      have here : .done n ∈ [] ++ more := behind ▸ List.mem_cons_self
      exact Or.inr ⟨[], by simp, here⟩
    | cons e front =>
      obtain ⟨rfl, rfl⟩ := List.cons.inj behind
      exact Or.inl ⟨front, rfl⟩

theorem sound_send {e : E} (sound : Sound answers c) (taken : step answers c (.send e) = some d) :
    Sound answers d ∧ station d = station c := by
  cases taken
  refine ⟨⟨sound.written, sound.handled, ?_, ?_, sound.returned, sound.cancelled, sound.syncing⟩, rfl⟩
  · intro m r less found f hf
    rw [stream, ← List.append_assoc]
    exact List.mem_append_left _ (sound.answered m r less found f hf)
  · intro before n after cut
    rw [stream, ← List.append_assoc] at cut
    rcases done_append_cases cut with ⟨rest, old⟩ | ⟨front, -, new⟩
    · exact sound.ordered before n rest old
    · simp at new

theorem sound_handle (sound : Sound answers c) (taken : step answers c .handle = some d) :
    Sound answers d ∧ station d = station c ∧
      ∃ r, c.requests[c.handled]? = some r ∧ d = { c with
        handled := c.handled + 1
        events := c.events ++ replies answers c.handled r } := by
  simp only [step, Option.ite_none_right_eq_some] at taken
  obtain ⟨pending, taken⟩ := taken
  obtain ⟨r, here, rfl⟩ := Option.map_eq_some_iff.mp taken
  refine ⟨⟨sound.written, pending, ?_, ?_, sound.returned, sound.cancelled, sound.syncing⟩, rfl, r,
    here, rfl⟩
  · intro m q less found e he
    rw [stream, ← List.append_assoc]
    rcases Nat.lt_succ_iff_lt_or_eq.mp less with old | rfl
    · exact List.mem_append_left _ (sound.answered m q old found e he)
    · rw [here] at found
      cases found
      exact List.mem_append_right _ he
  · intro before n after cut
    rw [stream, ← List.append_assoc] at cut
    rcases done_append_cases cut with ⟨rest, old⟩ | ⟨front, rfl, new⟩
    · obtain ⟨known, asked, answered⟩ := sound.ordered before n rest old
      exact ⟨Nat.lt_succ_of_lt known, asked, answered⟩
    · obtain ⟨rfl, rfl⟩ := done_mem_replies new
      refine ⟨Nat.lt_succ_self _, here, ?_⟩
      intro m q less found e he
      exact List.mem_append_left _ (sound.answered m q less found e he)

theorem dispatch_cases (taken : step answers c .dispatch = some d) :
    ∃ e events, c.events = e :: events ∧ c.running.active = true ∧ ∃ running,
      d = { c with events, dispatched := c.dispatched ++ [e], running } ∧
      (running = c.running ∧ (∀ n, c.running = .roundtrip n → e ≠ .done n) ∨
        ∃ n, e = .done n ∧ c.running = .roundtrip n ∧ running = .cancelled n) := by
  simp only [step] at taken
  split at taken
  · rename_i e events waiting
    simp only [Option.ite_none_right_eq_some, Option.some.injEq] at taken
    obtain ⟨active, rfl⟩ := taken
    refine ⟨e, events, waiting, active, _, rfl, ?_⟩
    split
    · rename_i n sync running
      by_cases same : n = sync
      · subst same
        exact Or.inr ⟨n, rfl, running, if_pos rfl⟩
      · refine Or.inl ⟨by rw [if_neg same, running], ?_⟩
        rintro m found ⟨⟩
        rw [running] at found
        cases found
        exact same rfl
    · rename_i other
      refine Or.inl ⟨rfl, ?_⟩
      rintro n found rfl
      exact other n n rfl found
  · cases taken

theorem sound_dispatch (sound : Sound answers c) (taken : step answers c .dispatch = some d) :
    Sound answers d ∧ station d = station c := by
  obtain ⟨e, events, waiting, -, running, rfl, what⟩ := dispatch_cases taken
  have same : c.dispatched ++ [e] ++ events = stream c := by
    rw [stream, waiting, List.append_assoc, List.singleton_append]
  refine ⟨⟨sound.written, sound.handled, ?_, ?_, ?_, ?_, ?_⟩, rfl⟩
  · intro m r less found f hf
    rw [stream, same]
    exact sound.answered m r less found f hf
  · intro before n after cut
    rw [stream, same] at cut
    exact sound.ordered before n after cut
  · exact fun n hn => List.mem_append_left _ (sound.returned n hn)
  · intro n cancelled
    rcases what with ⟨rfl, -⟩ | ⟨m, rfl, -, rfl⟩
    · exact List.mem_append_left _ (sound.cancelled n cancelled)
    · cases cancelled
      exact List.mem_append_right _ List.mem_cons_self
  · intro n waits
    rcases what with ⟨rfl, other⟩ | ⟨m, rfl, -, rfl⟩
    · obtain ⟨found, undone, soon⟩ := sound.syncing n waits
      refine ⟨found, ?_, soon⟩
      rw [List.mem_append, List.mem_singleton, not_or]
      exact ⟨undone, (other n waits).symm⟩
    · cases waits

theorem sound_finish (sound : Sound answers c) (taken : step answers c .finish = some d) :
    Sound answers d ∧ station d = station c ∧ ∃ n, c.running = .cancelled n ∧
      d = { c with running := .stopped, returned := n :: c.returned } := by
  simp only [step] at taken
  split at taken
  · rename_i n cancelled
    cases taken
    refine ⟨⟨sound.written, sound.handled, sound.answered, sound.ordered, ?_, nofun, nofun⟩, rfl, n,
      cancelled, rfl⟩
    exact List.forall_mem_cons.mpr ⟨sound.cancelled n cancelled, sound.returned⟩
  · cases taken

theorem sound_fail (sound : Sound answers c) (taken : step answers c .fail = some d) :
    Sound answers d ∧ station d = station c := by
  simp only [step, Option.ite_none_right_eq_some, Option.some.injEq] at taken
  obtain ⟨-, rfl⟩ := taken
  exact ⟨⟨sound.written, sound.handled, sound.answered, sound.ordered, sound.returned, nofun, nofun⟩,
    rfl⟩

theorem sound_step {l : Label E} (sound : Sound answers c) (taken : step answers c l = some d) :
    Sound answers d ∧ ∃ ms, Runs.run (Wakeups.step fun _ => 1) (station c) ms = some (station d) := by
  have still : Sound answers d ∧ station d = station c →
      Sound answers d ∧ ∃ ms, Runs.run (Wakeups.step fun _ => 1) (station c) ms = some (station d) :=
    fun h => ⟨h.1, [], by rw [h.2]; rfl⟩
  have moved {ms : List Wakeups.Label} (h : Sound answers d ∧
      Runs.run (Wakeups.step fun _ => 1) (station c) ms = some (station d)) :
      Sound answers d ∧ ∃ ms, Runs.run (Wakeups.step fun _ => 1) (station c) ms = some (station d) :=
    ⟨h.1, ms, h.2⟩
  cases l with
  | request r => exact moved (sound_request sound taken)
  | notifyOne n => exact moved (sound_notifyOne sound taken)
  | roundtrip => exact moved (sound_roundtrip sound taken)
  | run => exact moved (sound_run sound taken)
  | flush room => exact sound_flush sound taken
  | notified => exact moved (sound_notified sound taken)
  | handle =>
    obtain ⟨next, same, -⟩ := sound_handle sound taken
    exact still ⟨next, same⟩
  | send e => exact still (sound_send sound taken)
  | dispatch => exact still (sound_dispatch sound taken)
  | finish =>
    obtain ⟨next, same, -⟩ := sound_finish sound taken
    exact still ⟨next, same⟩
  | fail => exact still (sound_fail sound taken)

theorem length_replies (n : Nat) (r : Request) : (replies answers n r).length + 1 = cost answers r := by
  cases r with
  | sync => rfl
  | _ => simp [replies, cost]

theorem own_step {l : Label E} (mine : own l = true) (sound : Sound answers c)
    (taken : step answers c l = some d) :
    weight answers d < weight answers c ∧ ∀ n, Underway n c → Underway n d := by
  cases l with
  | flush room =>
    cases room with
    | none =>
      simp only [step, Option.ite_none_right_eq_some, Option.some.injEq] at taken
      obtain ⟨⟨-, writing⟩, rfl⟩ := taken
      refine ⟨?_, fun _ => id⟩
      simp only [weight, writing]
      omega
    | some k =>
      simp only [step, Option.ite_none_right_eq_some, Option.some.injEq] at taken
      obtain ⟨⟨-, -, less⟩, rfl⟩ := taken
      have takes : 0 < k := of_decide_eq_true mine
      refine ⟨?_, fun _ => id⟩
      simp only [weight]
      omega
  | notified =>
    simp only [step, Option.ite_none_right_eq_some, Option.some.injEq] at taken
    obtain ⟨⟨-, sleeping, permit⟩, rfl⟩ := taken
    refine ⟨?_, fun _ => id⟩
    simp only [weight, sleeping, permit, Bool.toNat_true, Bool.toNat_false]
    omega
  | handle =>
    obtain ⟨-, -, r, here, rfl⟩ := sound_handle sound taken
    refine ⟨?_, fun _ => id⟩
    obtain ⟨inside, found⟩ := List.getElem?_eq_some_iff.mp here
    have next := List.drop_eq_getElem_cons inside
    have one : (replies answers c.handled r).length + 1 = _ := length_replies c.handled r
    simp only [weight, next, found, List.map_cons, List.sum_cons, List.length_append]
    omega
  | dispatch =>
    obtain ⟨e, events, waiting, active, running, rfl, what⟩ := dispatch_cases taken
    rcases what with ⟨rfl, -⟩ | ⟨n, -, roundtrip, rfl⟩
    · refine ⟨?_, fun _ => id⟩
      simp only [weight, waiting, List.length_cons]
      omega
    · refine ⟨?_, ?_⟩
      · simp only [weight, waiting, roundtrip, List.length_cons]
        omega
      · intro m before
        rw [Underway, roundtrip] at before
        rcases before with same | other | ⟨other, -⟩
        · cases same
          exact Or.inr (Or.inl rfl)
        · cases other
        · cases other
  | finish =>
    obtain ⟨-, -, n, cancelled, rfl⟩ := sound_finish sound taken
    refine ⟨?_, ?_⟩
    · simp only [weight, cancelled]
      omega
    · intro m before
      rw [Underway, cancelled] at before
      rcases before with other | same | ⟨other, -⟩
      · cases other
      · cases same
        exact Or.inr (Or.inr ⟨rfl, List.mem_cons_self⟩)
      · cases other
  | _ => cases mine

theorem stopped_of_resting (sound : Sound answers c)
    (resting : ∀ l, own l = true → step answers c l = none) {n : Nat}
    (underway : Underway n c) : n ∈ c.returned := by
  rcases underway with roundtrip | cancelled | ⟨-, returned⟩
  · have active : c.running.active = true := by rw [roundtrip]; rfl
    obtain ⟨found, undone, soon⟩ := sound.syncing n roundtrip
    have sleeping : c.writer ≠ .writing := by
      intro writing
      have stuck := resting (.flush none) rfl
      rw [step, if_pos ⟨active, writing⟩] at stuck
      cases stuck
    have flushed : n < c.written := soon.resolve_left sleeping
    have handled : n < c.handled := by
      by_contra early
      have pending : c.handled < c.written := by omega
      have inside : c.handled < c.requests.length := Nat.lt_of_lt_of_le pending sound.written
      have stuck := resting .handle rfl
      rw [step, if_pos pending, List.getElem?_eq_getElem inside] at stuck
      cases stuck
    have drained : c.events = [] := by
      cases waiting : c.events with
      | nil => rfl
      | cons e events =>
        have stuck := resting .dispatch rfl
        simp [step, waiting, active] at stuck
    have done := sound.answered n .sync handled found (.done n) List.mem_cons_self
    rw [stream, drained, List.append_nil] at done
    exact absurd done undone
  · have stuck := resting .finish rfl
    simp [step, cancelled] at stuck
  · exact returned

end Invariant

section Results
variable {E : Type} (answers : Request → List E)

/-- A write task that sleeps without a permit has written every request that somebody announced, and
    all that were made before it. -/
def Flushed (c : Connection E) : Prop :=
  c.writer = .sleeping → c.permit = false → ∀ n ∈ c.announced, ∀ m ≤ n, m < c.written

/-- A roundtrip that has returned saw the answer to its own request, and before that all replies to
    earlier ones. One in progress comes to its end, however little of the buffer was written when it
    began. -/
structure Roundtrips (c : Connection E) : Prop where
  complete : ∀ n ∈ c.returned, c.requests[n]? = some .sync ∧ ∃ before after,
    c.dispatched = before ++ .done n :: after ∧ Answered answers c.requests n before
  settles : Runs.ComesToRest (step answers) (fun l => own l = true) (weight answers c)
    (fun d => ∀ n, c.running = .roundtrip n ∨ c.running = .cancelled n → n ∈ d.returned) c

variable {answers} {c d : Connection E}

theorem inv_step {l : Label E} (inv : Sound answers c ∧ Wakeups.Heard (station c))
    (taken : step answers c l = some d) : Sound answers d ∧ Wakeups.Heard (station d) := by
  obtain ⟨next, ms, reach⟩ := sound_step inv.1 taken
  exact ⟨next, Runs.run_preserved (fun _ _ _ => Wakeups.heard_step fun _ => Nat.one_pos) inv.2 reach⟩

theorem inv_new :
    Sound answers (new : Connection E) ∧ Wakeups.Heard (station (new : Connection E)) := by
  refine ⟨⟨Nat.le_refl 0, Nat.le_refl 0, nofun, ?_, nofun, nofun, nofun⟩, Wakeups.heard_empty⟩
  intro before n after cut
  cases before <;> cases cut

theorem flushed_of_heard (heard : Wakeups.Heard (station c)) : Flushed c := by
  intro sleeping silent n hn m below
  have asleep : (station c).awake = false := by simp [station, sleeping]
  have quiet : (station c).rings = 0 := by simp [station, silent]
  exact Nat.lt_of_le_of_lt below (heard.heard asleep quiet n hn)

theorem complete_of_sound (sound : Sound answers c) {n : Nat} (returned : n ∈ c.returned) :
    c.requests[n]? = some .sync ∧ ∃ before after,
      c.dispatched = before ++ .done n :: after ∧ Answered answers c.requests n before := by
  obtain ⟨before, after, cut⟩ := List.append_of_mem (sound.returned n returned)
  have placed : stream c = before ++ .done n :: (after ++ c.events) := by simp [stream, cut]
  obtain ⟨-, asked, answered⟩ := sound.ordered before n _ placed
  exact ⟨asked, before, after, cut, answered⟩

theorem settles_of_sound (sound : Sound answers c) :
    Runs.ComesToRest (step answers) (fun l => own l = true) (weight answers c)
      (fun d => ∀ n, c.running = .roundtrip n ∨ c.running = .cancelled n → n ∈ d.returned) c := by
  let Inside (d : Connection E) : Prop := Sound answers d ∧ ∀ n, Underway n c → Underway n d
  have keeps : ∀ (d : Connection E) l e, Inside d → own l = true → step answers d l = some e →
      Inside e := fun _ _ _ inside mine taken =>
    ⟨(sound_step inside.1 taken).1, fun n before =>
      (own_step mine inside.1 taken).2 n (inside.2 n before)⟩
  have lighter : ∀ (d : Connection E) l e, Inside d → own l = true → step answers d l = some e →
      weight answers e < weight answers d := fun _ _ _ inside mine taken =>
    (own_step mine inside.1 taken).1
  refine Runs.comesToRest keeps lighter ?_ c ⟨sound, fun _ => id⟩
  intro d inside resting n running
  have begun : Underway n c := running.imp_right Or.inl
  exact stopped_of_resting inside.1 resting (inside.2 n begun)

theorem roundtrips_of_sound (sound : Sound answers c) : Roundtrips answers c :=
  ⟨fun _ => complete_of_sound sound, settles_of_sound sound⟩

variable (answers)

/-- No request that was announced stays in the buffer of a sleeping write task, whichever threads
    make requests and notify, and however little the socket takes at a time. -/
theorem requests_flushed (ls : List (Label E)) : Runs.Always (step answers) Flushed new ls :=
  Runs.always_mono (fun _ inv => flushed_of_heard inv.2)
    (Runs.always_of_preserved _ (fun _ _ _ => inv_step) inv_new ls)

/-- Roundtrips neither return early nor hang. -/
theorem roundtrips_return (ls : List (Label E)) :
    Runs.Always (step answers) (Roundtrips answers) new ls :=
  Runs.always_mono (fun _ inv => roundtrips_of_sound inv.1)
    (Runs.always_of_preserved _ (fun _ _ _ => inv_step) inv_new ls)

variable {answers}

theorem run_requests (rs : List Request) :
    Runs.run (step answers) c (rs.map .request) = some { c with requests := c.requests ++ rs } := by
  induction rs generalizing c with
  | nil => simp
  | cons r rs ih =>
    rw [List.map_cons, Runs.run_cons, step, Option.bind_some, ih]
    simp only [List.append_assoc, List.singleton_append]

theorem announced_step {l : Label E} (taken : step answers c l = some d) :
    ∀ n ∈ c.announced, n ∈ d.announced := by
  intro n hn
  cases l with
  | request r =>
    cases taken
    exact hn
  | notifyOne m =>
    simp only [step, Option.ite_none_right_eq_some, Option.some.injEq] at taken
    obtain ⟨-, rfl⟩ := taken
    exact List.mem_cons_of_mem m hn
  | roundtrip | run | notified | fail =>
    simp only [step, Option.ite_none_right_eq_some, Option.some.injEq] at taken
    obtain ⟨-, rfl⟩ := taken
    exact hn
  | flush room =>
    cases room <;> simp only [step, Option.ite_none_right_eq_some, Option.some.injEq] at taken
    all_goals
      obtain ⟨-, rfl⟩ := taken
      exact hn
  | handle =>
    simp only [step, Option.ite_none_right_eq_some, Option.map_eq_some_iff] at taken
    obtain ⟨-, r, -, rfl⟩ := taken
    exact hn
  | send e =>
    cases taken
    exact hn
  | dispatch =>
    obtain ⟨e, events, -, -, running, rfl, -⟩ := dispatch_cases taken
    exact hn
  | finish =>
    simp only [step] at taken
    split at taken
    · cases taken
      exact hn
    · cases taken

/-- What a claim, an undo or a paste has asked for is written before the write task sleeps again. -/
theorem asked_written {rs : List Request} {ls : List (Label E)} (asks : Asks c.requests.length rs)
    (inv : Sound answers c ∧ Wakeups.Heard (station c))
    (reach : Runs.run (step answers) c (announce c.requests.length rs ++ ls) = some d)
    (sleeping : d.writer = .sleeping) (silent : d.permit = false) :
    c.requests.length + rs.length ≤ d.written := by
  have some_request : 0 < rs.length := by
    cases asks <;> simp [claim, undoCopyTask, receiveReader]
  let n := c.requests.length + rs.length - 1
  have bounded : n < (c.requests ++ rs).length := by
    rw [List.length_append]
    omega
  rw [announce, List.append_assoc, Runs.run_append, run_requests, Option.bind_some,
    List.singleton_append, Runs.run_cons, step, if_pos bounded, Option.bind_some] at reach
  have made : Runs.run (step answers) c (rs.map .request) = _ := run_requests rs
  have asked := Runs.run_preserved (fun _ _ _ => inv_step) inv made
  have notified : step answers { c with requests := c.requests ++ rs } (.notifyOne n) =
      some (notifyOne n { c with requests := c.requests ++ rs }) := if_pos bounded
  have last := Runs.run_preserved (fun _ _ _ => inv_step) (inv_step asked notified) reach
  have remembered : ∀ (c : Connection E) l d, n ∈ c.announced → step answers c l = some d →
      n ∈ d.announced := fun _ _ _ member taken => announced_step taken n member
  have known : n ∈ d.announced := Runs.run_preserved remembered List.mem_cons_self reach
  have written := flushed_of_heard last.2 sleeping silent n known n (Nat.le_refl n)
  omega

end Results
end WaylandEventLoop
