import WindowsGaming.Library.LatestRequest
import WindowsGaming.Clientpipe

/- Pasting on Linux what was copied on Windows: the controller asks the guest agent for the
   contents and hands what comes back to the task that writes to the paste target. -/
namespace LinuxPaste
open Config Protocol Controller Clientpipe Journals LatestRequest

structure Desktop where
  controller : Controller
  toGuest : List GaCmdOut
  toDriver : List GaCmdIn
  toResponder : List (ClipboardRequestEvent × List UInt8)
  written : List (Nat × List UInt8)
  requests : List ClipboardRequestEvent
  answers : List (Int32 × List UInt8)
  arrived : Nat
  deriving DecidableEq, Repr

def start (machine : MachineConfig) (hooks : HooksConfig) : Desktop :=
  { controller := new machine hooks (Input.new machine)
    toGuest := []
    toDriver := []
    toResponder := []
    written := []
    requests := []
    answers := []
    arrived := 0 }

inductive Event where
  | paste (mimeType : String)
  | answer (buf : List UInt8)
  | deliver (env : Env)
  | respond

def toX11Clipboard : Effect → Option (ClipboardRequestEvent × List UInt8)
  | .x11Clipboard event response => some (event, response)
  | _ => none

def Desktop.handOn (d : Desktop) : Desktop :=
  { d with
    controller := { d.controller with out := [] }
    toGuest := d.toGuest ++ d.controller.out.filterMap toClientpipe
    toResponder := d.toResponder ++ d.controller.out.filterMap toX11Clipboard }

/-- The guest agent answers every request it receives once, in order. -/
def desktopStep (d : Desktop) : Event → Option Desktop
  | .paste mimeType =>
    let event := ⟨mimeType, d.requests.length⟩
    let controller := d.controller.readWinClipboard event
    some { d with controller, requests := d.requests ++ [event] }.handOn
  | .answer buf =>
    match d.toGuest with
    | .clipboard (some (.requestClipboardContents kind)) :: toGuest =>
      let toDriver := d.toDriver ++ [.clipboard (some (.clipboardContents buf))]
      some { d with toGuest, toDriver, answers := d.answers ++ [(kind, buf)] }
    | _ => none
  | .deliver env =>
    match d.toDriver with
    | cmd :: toDriver =>
      let controller := (handle env cmd d.controller).1
      some { d with controller, toDriver, arrived := d.arrived + 1 }.handOn
    | [] => none
  | .respond =>
    match d.toResponder with
    | (event, buf) :: toResponder =>
      some { d with toResponder, written := d.written ++ [(event.target, buf)] }
    | [] => none

def Desktop.given (d : Desktop) : List (Nat × List UInt8) :=
  d.written ++ d.toResponder.map fun r => (r.1.target, r.2)

/-- What a target gets is the answer to its own request, of the type that was asked for,
    and every answer that arrived is given to its request. -/
def PastesPaired (d : Desktop) : Prop :=
  (∀ p ∈ d.given, ∃ event : ClipboardRequestEvent, d.requests[p.1]? = some event ∧
    d.answers[p.1]? = some (event.desiredType.toI32, p.2)) ∧
  ∀ i < d.arrived, ∃ buf, (i, buf) ∈ d.given

/-- A paste request comes while none is remembered. -/
def unhurried (d : Desktop) : Event → Bool
  | .paste _ => d.controller.winClipboardRequest.isNone
  | _ => true

def requestMessage (event : ClipboardRequestEvent) : GaCmdOut :=
  .clipboard (some (.requestClipboardContents event.desiredType.toI32))

def contentsMessage (buf : List UInt8) : GaCmdIn := .clipboard (some (.clipboardContents buf))

structure Refines (d : Desktop) (x : Exchange ClipboardRequestEvent (List UInt8)) : Prop where
  requests : x.requests = d.requests
  answers : x.answers = d.answers.map Prod.snd
  arrived : x.arrived = d.arrived
  slot : x.slot = d.controller.winClipboardRequest.map ClipboardRequestEvent.target
  given : x.given = d.given
  numbered : ∀ (i : Nat) (event : ClipboardRequestEvent),
    d.requests[i]? = some event → event.target = i
  asked : ∀ (i : Nat) (kind : Int32) (buf : List UInt8), d.answers[i]? = some (kind, buf) →
    ∃ event : ClipboardRequestEvent, d.requests[i]? = some event ∧
      kind = event.desiredType.toI32
  fewer : d.answers.length ≤ d.requests.length
  behind : d.arrived ≤ d.answers.length
  toGuest : d.toGuest = (d.requests.drop d.answers.length).map requestMessage
  toDriver : d.toDriver = (x.answers.drop d.arrived).map contentsMessage
  out : d.controller.out = []

section Steps
variable {d next : Desktop} {x : Exchange ClipboardRequestEvent (List UInt8)}

theorem paired_of_refines (refines : Refines d x) (paired : Paired x) : PastesPaired d := by
  obtain ⟨right, all⟩ := paired
  rw [refines.given] at right all
  constructor
  · rintro ⟨i, buf⟩ member
    have answered := right (i, buf) member
    rw [refines.answers, List.getElem?_map] at answered
    obtain ⟨⟨kind, _⟩, found, rfl⟩ := Option.map_eq_some_iff.mp answered
    obtain ⟨event, request, rfl⟩ := refines.asked i kind _ found
    exact ⟨event, request, found⟩
  · rw [← refines.arrived]
    exact all

theorem refines_paired (refines : Refines d x) (paired : PastesPaired d) : Paired x := by
  obtain ⟨right, all⟩ := paired
  rw [← refines.given] at right all
  constructor
  · intro p member
    obtain ⟨event, _, found⟩ := right p member
    rw [refines.answers, List.getElem?_map, found]
    rfl
  · rw [refines.arrived]
    exact all

theorem refines_paste {mimeType : String} (refines : Refines d x)
    (taken : desktopStep d (.paste mimeType) = some next) :
    ∃ y, exchange x (.ask ⟨mimeType, d.requests.length⟩) = some y ∧ Refines next y := by
  cases taken
  refine ⟨_, rfl, ?_⟩
  constructor
  · simp only [refines.requests, Desktop.handOn]
  · exact refines.answers
  · exact refines.arrived
  · simp [refines.requests, Desktop.handOn, readWinClipboard]
  · simp [refines.given, Desktop.handOn, Desktop.given, readWinClipboard, writeGa, emit, emitAll,
      refines.out, toX11Clipboard]
  · intro i event found
    rcases getElem?_concat_cases found with old | ⟨rfl, rfl⟩
    · exact refines.numbered i event old
    · rfl
  · intro i kind buf found
    obtain ⟨event, request, same⟩ := refines.asked i kind buf found
    exact ⟨event, getElem?_append_of_some _ request, same⟩
  · exact Nat.le_trans refines.fewer (by simp [Desktop.handOn])
  · exact refines.behind
  · simp [Desktop.handOn, readWinClipboard, writeGa, emit, emitAll, refines.out, refines.toGuest,
      toClientpipe, requestMessage, List.drop_append_of_le_length refines.fewer]
  · exact refines.toDriver
  · rfl

theorem toGuest_head {cmd : GaCmdOut} {rest : List GaCmdOut} (refines : Refines d x)
    (pipe : d.toGuest = cmd :: rest) : ∃ event, d.requests[d.answers.length]? = some event ∧
      cmd = requestMessage event ∧
      rest = (d.requests.drop (d.answers.length + 1)).map requestMessage := by
  rw [refines.toGuest] at pipe
  exact map_drop_eq_cons pipe

theorem toDriver_head {cmd : GaCmdIn} {rest : List GaCmdIn} (refines : Refines d x)
    (pipe : d.toDriver = cmd :: rest) : ∃ buf, x.answers[x.arrived]? = some buf ∧
      cmd = contentsMessage buf ∧
      rest = (x.answers.drop (d.arrived + 1)).map contentsMessage := by
  rw [refines.toDriver, ← refines.arrived] at pipe
  rw [← refines.arrived]
  exact map_drop_eq_cons pipe

theorem refines_answer {buf : List UInt8} (refines : Refines d x)
    (taken : desktopStep d (.answer buf) = some next) :
    ∃ y, exchange x (.answer buf) = some y ∧ Refines next y := by
  simp only [desktopStep] at taken
  split at taken
  · rename_i kind toGuest pipe
    obtain ⟨event, request, asked, rest⟩ := toGuest_head refines pipe
    have inside := (List.getElem?_eq_some_iff.mp request).1
    cases taken
    refine ⟨{ x with answers := x.answers ++ [buf] }, ?_, ?_⟩
    · have fewer : x.answers.length < x.requests.length := by
        rw [refines.answers, List.length_map, refines.requests]
        exact inside
      simp only [exchange]
      rw [if_pos fewer]
    · constructor
      · exact refines.requests
      · simp [refines.answers]
      · exact refines.arrived
      · exact refines.slot
      · exact refines.given
      · exact refines.numbered
      · intro i k b found
        rcases getElem?_concat_cases found with old | ⟨rfl, new⟩
        · exact refines.asked i k b old
        · cases new
          cases asked
          exact ⟨event, request, rfl⟩
      · rw [List.length_append, List.length_singleton]
        exact inside
      · rw [List.length_append, List.length_singleton]
        exact Nat.le_succ_of_le refines.behind
      · simpa using rest
      · have behind : d.arrived ≤ x.answers.length := by
          rw [refines.answers, List.length_map]
          exact refines.behind
        simp [refines.toDriver, List.drop_append_of_le_length behind, contentsMessage]
      · exact refines.out
  · cases taken

theorem refines_deliver {env : Env} (refines : Refines d x)
    (taken : desktopStep d (.deliver env) = some next) :
    ∃ y, exchange x .arrive = some y ∧ Refines next y := by
  simp only [desktopStep] at taken
  split at taken
  · rename_i cmd toDriver pipe
    obtain ⟨buf, at_arrived, rfl, rest⟩ := toDriver_head refines pipe
    have inside := (List.getElem?_eq_some_iff.mp at_arrived).1
    rw [refines.answers, List.length_map, refines.arrived] at inside
    cases taken
    refine ⟨_, by simp only [exchange, at_arrived]; rfl, ?_⟩
    have handled : (handle env (contentsMessage buf) d.controller).1 =
        d.controller.respondX11Clipboard buf := rfl
    have responded : (d.controller.respondX11Clipboard buf).winClipboardRequest = none ∧
        (d.controller.respondX11Clipboard buf).out.filterMap toClientpipe = [] ∧
        (d.controller.respondX11Clipboard buf).out.filterMap toX11Clipboard =
          (d.controller.winClipboardRequest.map fun event => (event, buf)).toList := by
      unfold respondX11Clipboard
      cases slot : d.controller.winClipboardRequest <;>
        simp [slot, emit, emitAll, refines.out, toClientpipe, toX11Clipboard]
    obtain ⟨emptied, quiet, handed⟩ := responded
    constructor
    · exact refines.requests
    · exact refines.answers
    · exact congrArg (· + 1) refines.arrived
    · simp [Desktop.handOn, handled, emptied]
    · rw [refines.slot, refines.given]
      simp only [Desktop.handOn, Desktop.given, handled, handed]
      cases d.controller.winClipboardRequest <;> simp
    · exact refines.numbered
    · exact refines.asked
    · exact refines.fewer
    · exact inside
    · simp only [Desktop.handOn, handled, quiet, List.append_nil]
      exact refines.toGuest
    · exact rest
    · rfl
  · cases taken

theorem refines_respond (refines : Refines d x) (taken : desktopStep d .respond = some next) :
    Refines next x := by
  simp only [desktopStep] at taken
  split at taken
  · rename_i event buf toResponder waiting
    cases taken
    refine ⟨refines.requests, refines.answers, refines.arrived, refines.slot, ?_, refines.numbered,
      refines.asked, refines.fewer, refines.behind, refines.toGuest, refines.toDriver, refines.out⟩
    rw [refines.given]
    simp [Desktop.given, waiting]
  · cases taken

end Steps

theorem refines_start (machine : MachineConfig) (hooks : HooksConfig) :
    Refines (start machine hooks) Exchange.new := by
  constructor <;> simp [start, Exchange.new, new, Desktop.given]

def Unhurried (d : Desktop) : Prop := ∃ x, Refines d x ∧ OneOut x

theorem unhurried_step {d next : Desktop} {e : Event} (calm : Unhurried d)
    (ok : unhurried d e = true) (taken : desktopStep d e = some next) : Unhurried next := by
  obtain ⟨x, refines, one⟩ := calm
  cases e with
  | paste mimeType =>
    obtain ⟨y, asked, refines'⟩ := refines_paste refines taken
    refine ⟨y, refines', oneOut_step one ?_ asked⟩
    simpa [serial, refines.slot, unhurried] using ok
  | answer buf =>
    obtain ⟨y, answered, refines'⟩ := refines_answer refines taken
    exact ⟨y, refines', oneOut_step one rfl answered⟩
  | deliver env =>
    obtain ⟨y, arrived, refines'⟩ := refines_deliver refines taken
    exact ⟨y, refines', oneOut_step one rfl arrived⟩
  | respond => exact ⟨x, refines_respond refines taken, one⟩

theorem answer_enabled {d : Desktop} {x y : Exchange ClipboardRequestEvent (List UInt8)}
    {buf : List UInt8} (refines : Refines d x) (answered : exchange x (.answer buf) = some y) :
    ∃ next, desktopStep d (.answer buf) = some next ∧ Refines next y := by
  have waiting : d.answers.length < d.requests.length := by
    simp only [exchange] at answered
    split at answered
    · rename_i fewer
      rwa [refines.answers, List.length_map, refines.requests] at fewer
    · cases answered
  have pipe := refines.toGuest
  rw [List.drop_eq_getElem_cons waiting, List.map_cons] at pipe
  have enabled : ∃ next, desktopStep d (.answer buf) = some next := by
    simp [desktopStep, pipe, requestMessage]
  obtain ⟨next, taken⟩ := enabled
  obtain ⟨z, same, refines'⟩ := refines_answer refines taken
  cases same.symm.trans answered
  exact ⟨next, taken, refines'⟩

theorem deliver_enabled {d : Desktop} {x y : Exchange ClipboardRequestEvent (List UInt8)}
    (env : Env) (refines : Refines d x) (arrived : exchange x .arrive = some y) :
    ∃ next, desktopStep d (.deliver env) = some next ∧ Refines next y := by
  have waiting : d.arrived < x.answers.length := by
    simp only [exchange] at arrived
    split at arrived
    · cases arrived
    · rename_i a at_arrived
      rw [← refines.arrived]
      exact (List.getElem?_eq_some_iff.mp at_arrived).1
  have pipe := refines.toDriver
  rw [List.drop_eq_getElem_cons waiting, List.map_cons] at pipe
  have enabled : ∃ next, desktopStep d (.deliver env) = some next := by
    simp [desktopStep, pipe]
  obtain ⟨next, taken⟩ := enabled
  obtain ⟨z, same, refines'⟩ := refines_deliver refines taken
  cases same.symm.trans arrived
  exact ⟨next, taken, refines'⟩

theorem overlap_mispairs {d next : Desktop} {e : Event} (env : Env) (buf : List UInt8)
    (calm : Unhurried d) (overlap : unhurried d e = false) (taken : desktopStep d e = some next) :
    ∃ more last, (more = [.deliver env] ∨ more = [.answer buf, .deliver env]) ∧
      Runs.run desktopStep next more = some last ∧ ¬ PastesPaired last := by
  obtain ⟨x, refines, one⟩ := calm
  cases e with
  | paste mimeType =>
    obtain ⟨y, asked, refines'⟩ := refines_paste refines taken
    have overlaps : serial x (.ask ⟨mimeType, d.requests.length⟩ :
        Label ClipboardRequestEvent (List UInt8)) = false := by
      simpa [serial, refines.slot, unhurried] using overlap
    obtain ⟨ls, arrives | answers, z, run, unpaired⟩ := overlap_unpaired buf one overlaps asked
    · subst arrives
      have arrived : exchange y .arrive = some z := by simpa using run
      obtain ⟨last, delivered, refined⟩ := deliver_enabled env refines' arrived
      exact ⟨_, last, Or.inl rfl, by simp [delivered],
        fun paired => unpaired (refines_paired refined paired)⟩
    · subst answers
      obtain ⟨mid, answered, rest⟩ := Option.bind_eq_some_iff.mp run
      have arrived : exchange mid .arrive = some z := by simpa using rest
      obtain ⟨middle, replied, refinedMid⟩ := answer_enabled refines' answered
      obtain ⟨last, delivered, refined⟩ := deliver_enabled env refinedMid arrived
      exact ⟨_, last, Or.inr rfl, by simp [replied, delivered],
        fun paired => unpaired (refines_paired refined paired)⟩
  | _ => cases overlap

/-- Pastes get their own answers in every run in which no paste request overlaps another one;
    after one that does, the next answer that arrives is given to the wrong paste. -/
theorem pastes_paired (machine : MachineConfig) (hooks : HooksConfig) (es : List Event)
    (calm : Runs.Meets desktopStep (fun d e => unhurried d e = true) (start machine hooks) es) :
    Runs.Always desktopStep PastesPaired (start machine hooks) es ∧
      ∀ d e next, Runs.run desktopStep (start machine hooks) es = some d →
        unhurried d e = false → desktopStep d e = some next →
        ∀ (env : Env) (buf : List UInt8),
          ∃ more last, (more = [.deliver env] ∨ more = [.answer buf, .deliver env]) ∧
            Runs.run desktopStep next more = some last ∧ ¬ PastesPaired last := by
  have always : Runs.Always desktopStep Unhurried (start machine hooks) es :=
    Runs.always_of_invariant Unhurried (fun _ _ _ => unhurried_step)
      ⟨_, refines_start machine hooks, oneOut_new⟩ calm
  refine ⟨Runs.always_mono ?_ always, ?_⟩
  · rintro d ⟨x, refines, one⟩
    exact paired_of_refines refines one.paired
  · intro d e next reached overlap taken env buf
    exact overlap_mispairs env buf (Runs.always_last always reached) overlap taken

theorem paired_in_turn :
    Runs.Always desktopStep PastesPaired (start .bare .bare)
      [.paste "text/plain", .answer [104, 105], .deliver .bare, .paste "image/png", .respond,
        .answer [137, 80], .deliver .bare, .respond] :=
  (pastes_paired .bare .bare _ (by decide +kernel)).1

/-- A text and an image, pasted at the same time: the text is given to the image's target. -/
theorem text_for_image :
    ¬ Runs.Always desktopStep PastesPaired (start .bare .bare)
      [.paste "text/plain", .paste "image/png", .answer [104, 105], .deliver .bare, .respond] := by
  intro always
  have paired := Runs.always_last always rfl
  obtain ⟨event, _, answered⟩ := paired.1 (1, [104, 105]) (by decide +kernel)
  obtain ⟨inside, _⟩ := List.getElem?_eq_some_iff.mp answered
  exact absurd inside (by decide +kernel)

end LinuxPaste
