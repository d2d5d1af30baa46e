import Mathlib.Data.List.AList
import WindowsGaming.Library.LatestRequest
import WindowsGaming.Protocol

/- Pasting in Windows what was copied on Linux: each format has a renderer, which asks the driver for
   the contents once the window's thread wants them. All requests share one slot for the answer. -/
namespace WindowsPaste
open Protocol Journals LatestRequest

/-- Renderers are numbered in the order in which they were promised. -/
structure Guest where
  renderers : List ClipboardType
  delayRenderers : AList fun _ : ClipboardType => Nat
  /-- The renderers that the window's thread waits for. -/
  rendering : List Nat
  triggered : List Nat
  forwarded : List Nat
  outstandingClipboardRequest : Option Nat
  sending : List Nat
  toDriver : List GaCmdIn
  toGuest : List GaCmdOut
  requests : List (Nat × ClipboardType)
  answers : List (Int32 × List UInt8)
  arrived : Nat
  received : List (Nat × List UInt8)
  /-- The renderers that went on with empty contents as their sender was dropped. -/
  released : List Nat

def start : Guest := ⟨[], ∅, [], [], [], none, [], [], [], [], [], 0, [], []⟩

inductive Event where
  | grab (types : ClipboardTypes)
  | answer (buf : List UInt8)
  | receive
  | wmRenderFormat (format : ClipboardType)
  | wmRenderAllFormats
  | wmDestroyClipboard
  | forward (renderer : Nat)
  | remember (renderer : Nat)
  | request (renderer : Nat)
  | render (renderer : Nat)

def Guest.promise (g : Guest) (kind : ClipboardType) : Guest :=
  { g with
    renderers := g.renderers ++ [kind]
    delayRenderers := g.delayRenderers.insert kind g.renderers.length }

/-- A message from the driver. A new clipboard waits for the window's thread, which keeps the old
    one open while it renders. -/
def Guest.receive (g : Guest) : GaCmdOut → Option Guest
  | .clipboard (some (.grabClipboard types)) =>
    if .invalid ∈ types.types ∨ g.rendering ≠ [] then none
    else some (types.types.foldl Guest.promise { g with delayRenderers := ∅ })
  | .clipboard (some (.clipboardContents buf)) =>
    let received := (g.outstandingClipboardRequest.map fun i => (i, buf)).toList
    some { g with
      outstandingClipboardRequest := none
      arrived := g.arrived + 1
      received := g.received ++ received }
  | _ => none

/-- The driver answers every request it receives once, in order. The window's thread handles a
    message when it has rendered what the previous one asked for. -/
def guestStep (g : Guest) : Event → Option Guest
  | .grab types => some { g with toGuest := g.toGuest ++ [.clipboard (some (.grabClipboard types))] }
  | .answer buf =>
    match g.toDriver with
    | .clipboard (some (.requestClipboardContents kind)) :: toDriver =>
      let toGuest := g.toGuest ++ [.clipboard (some (.clipboardContents buf))]
      some { g with toDriver, toGuest, answers := g.answers ++ [(kind, buf)] }
    | _ => none
  | .receive =>
    match g.toGuest with
    | cmd :: toGuest => { g with toGuest }.receive cmd
    | [] => none
  | .wmRenderFormat format =>
    if g.rendering = [] then
      let rendering := (g.delayRenderers.lookup format).toList
      let delayRenderers := g.delayRenderers.erase format
      some { g with delayRenderers, rendering, triggered := g.triggered ++ rendering }
    else none
  | .wmRenderAllFormats =>
    if g.rendering = [] then
      let rendering := g.delayRenderers.entries.map fun entry => entry.2
      some { g with delayRenderers := ∅, rendering, triggered := g.triggered ++ rendering }
    else none
  | .wmDestroyClipboard => if g.rendering = [] then some { g with delayRenderers := ∅ } else none
  | .forward i =>
    if i ∈ g.triggered then
      some { g with triggered := g.triggered.erase i, forwarded := g.forwarded ++ [i] }
    else none
  | .remember i =>
    if i ∈ g.forwarded then
      some { g with
        forwarded := g.forwarded.erase i
        outstandingClipboardRequest := some i
        sending := g.sending ++ [i]
        released := g.released ++ g.outstandingClipboardRequest.toList }
    else none
  | .request i =>
    if i ∈ g.sending then
      g.renderers[i]?.map fun kind =>
        { g with
          sending := g.sending.erase i
          toDriver := g.toDriver ++ [.clipboard (some (.requestClipboardContents kind.toI32))]
          requests := g.requests ++ [(i, kind)] }
    else none
  | .render i =>
    if i ∈ g.rendering ∧ (i ∈ g.released ∨ i ∈ g.received.map Prod.fst) then
      some { g with rendering := g.rendering.erase i }
    else none

/-- What a renderer receives is the answer to its own request, of its own type; every answer that
    arrived was received by the renderer that asked, and none went on without. -/
structure RendersPaired (g : Guest) : Prop where
  own : ∀ p ∈ g.received, ∃ (n : Nat) (kind : ClipboardType), g.renderers[p.1]? = some kind ∧
    g.requests[n]? = some (p.1, kind) ∧ g.answers[n]? = some (kind.toI32, p.2)
  all : ∀ n < g.arrived, ∃ (i : Nat) (kind : ClipboardType) (buf : List UInt8),
    g.requests[n]? = some (i, kind) ∧ g.answers[n]? = some (kind.toI32, buf) ∧ (i, buf) ∈ g.received
  released : g.released = []

/-- A request is remembered while no other is. -/
def alone (g : Guest) : Event → Bool
  | .remember _ => g.outstandingClipboardRequest.isNone
  | _ => true

def requestMessage (request : Nat × ClipboardType) : GaCmdIn :=
  .clipboard (some (.requestClipboardContents request.2.toI32))

def contentsOf : GaCmdOut → Option (List UInt8)
  | .clipboard (some (.clipboardContents buf)) => some buf
  | _ => none

def Remembers (g : Guest) (x : Exchange (Nat × ClipboardType) (List UInt8)) : Prop :=
  match g.outstandingClipboardRequest with
  | none => x.slot = none ∧ g.sending = []
  | some i => x.slot = none ∧ g.sending = [i] ∨
      (∃ n kind, x.slot = some n ∧ g.requests[n]? = some (i, kind)) ∧ g.sending = []

structure Refines (g : Guest) (x : Exchange (Nat × ClipboardType) (List UInt8)) : Prop where
  one : OneOut x
  requests : x.requests = g.requests
  answers : x.answers = g.answers.map Prod.snd
  arrived : x.arrived = g.arrived
  slot : Remembers g x
  received : ∀ p ∈ g.received, ∃ n kind, g.requests[n]? = some (p.1, kind) ∧ (n, p.2) ∈ x.given
  given : ∀ p ∈ x.given, ∃ i kind, g.requests[p.1]? = some (i, kind) ∧ (i, p.2) ∈ g.received
  renderers : ∀ p ∈ g.requests, g.renderers[p.1]? = some p.2
  asked : ∀ (n : Nat) (kind : Int32) (buf : List UInt8), g.answers[n]? = some (kind, buf) →
    ∃ request : Nat × ClipboardType, g.requests[n]? = some request ∧ kind = request.2.toI32
  toDriver : g.toDriver = (g.requests.drop g.answers.length).map requestMessage
  toGuest : g.toGuest.filterMap contentsOf = x.answers.drop x.arrived
  released : g.released = []

section Steps
variable {g next : Guest} {x : Exchange (Nat × ClipboardType) (List UInt8)} {i : Nat}

theorem fewer (refines : Refines g x) : g.answers.length ≤ g.requests.length := by
  have bounded := refines.one.answered.2
  rwa [refines.answers, List.length_map, refines.requests] at bounded

theorem paired_of_refines (refines : Refines g x) : RendersPaired g := by
  obtain ⟨right, all⟩ := refines.one.paired
  have answered : ∀ n buf, (n, buf) ∈ x.given → ∃ request : Nat × ClipboardType,
      g.requests[n]? = some request ∧ g.answers[n]? = some (request.2.toI32, buf) := by
    intro n buf member
    have at_n := right (n, buf) member
    rw [refines.answers, List.getElem?_map] at at_n
    obtain ⟨⟨kind, _⟩, found, rfl⟩ := Option.map_eq_some_iff.mp at_n
    obtain ⟨request, there, rfl⟩ := refines.asked n kind _ found
    exact ⟨request, there, found⟩
  refine ⟨?_, ?_, refines.released⟩
  · rintro ⟨i, buf⟩ member
    obtain ⟨n, kind, request, given⟩ := refines.received (i, buf) member
    obtain ⟨_, same, answer⟩ := answered n buf given
    cases request.symm.trans same
    have renderer := refines.renderers (i, kind) (List.mem_of_getElem? request)
    exact ⟨n, kind, renderer, request, answer⟩
  · intro n before
    rw [← refines.arrived] at before
    obtain ⟨buf, given⟩ := all n before
    obtain ⟨i, kind, request, member⟩ := refines.given (n, buf) given
    obtain ⟨_, same, answer⟩ := answered n buf given
    cases request.symm.trans same
    exact ⟨i, kind, buf, request, answer, member⟩

theorem foldl_promise (kinds : List ClipboardType) (g : Guest) :
    ∃ more table, kinds.foldl Guest.promise g =
      { g with renderers := g.renderers ++ more, delayRenderers := table } := by
  induction kinds generalizing g with
  | nil => exact ⟨[], g.delayRenderers, by simp⟩
  | cons kind kinds ih =>
    obtain ⟨more, table, same⟩ := ih (g.promise kind)
    refine ⟨kind :: more, table, ?_⟩
    rw [List.foldl_cons, same]
    simp [Guest.promise]

theorem refines_answer {buf : List UInt8} (refines : Refines g x)
    (taken : guestStep g (.answer buf) = some next) : ∃ y, Refines next y := by
  simp only [guestStep] at taken
  split at taken
  · rename_i kind toDriver pipe
    rw [refines.toDriver] at pipe
    obtain ⟨request, there, asked, rest⟩ := map_drop_eq_cons pipe
    have inside := (List.getElem?_eq_some_iff.mp there).1
    have answered : exchange x (.answer buf) = some { x with answers := x.answers ++ [buf] } := by
      have waiting : x.answers.length < x.requests.length := by
        rwa [refines.answers, List.length_map, refines.requests]
      simp only [exchange]
      rw [if_pos waiting]
    cases taken
    refine ⟨_, { refines with
      one := oneOut_step refines.one rfl answered
      answers := by simp [refines.answers], asked := ?_, toDriver := ?_, toGuest := ?_ }⟩
    · intro n k b found
      rcases getElem?_concat_cases found with old | ⟨rfl, new⟩
      · exact refines.asked n k b old
      · cases new
        cases asked
        exact ⟨request, there, rfl⟩
    · simpa using rest
    · rw [List.filterMap_append, refines.toGuest,
        List.drop_append_of_le_length refines.one.answered.1]
      rfl
  · cases taken

theorem refines_contents {buf : List UInt8} {toGuest : List GaCmdOut} (refines : Refines g x)
    (pipe : g.toGuest = .clipboard (some (.clipboardContents buf)) :: toGuest)
    (taken : { g with toGuest }.receive (.clipboard (some (.clipboardContents buf))) = some next) :
    ∃ y, Refines next y := by
  have stream := refines.toGuest
  rw [pipe, ← List.map_id (x.answers.drop x.arrived)] at stream
  obtain ⟨b, at_arrived, (same : buf = b), rest⟩ := map_drop_eq_cons stream.symm
  subst same
  have inside := (List.getElem?_eq_some_iff.mp at_arrived).1
  have slot : x.slot = some x.arrived := by
    rw [refines.one.slot, if_pos (Nat.lt_of_lt_of_le inside refines.one.answered.2)]
  have arrives : exchange x .arrive = some { x with
      arrived := x.arrived + 1, slot := none, given := x.given ++ [(x.arrived, buf)] } := by
    simp [exchange, at_arrived, slot]
  have remembers := refines.slot
  unfold Remembers at remembers
  cases holder : g.outstandingClipboardRequest with
  | none => simp [holder, slot] at remembers
  | some i =>
    simp only [holder, slot, reduceCtorEq, false_and, false_or, Option.some.injEq] at remembers
    obtain ⟨⟨n, kind, rfl, request⟩, idle⟩ := remembers
    simp only [Guest.receive, holder, Option.map_some, Option.toList_some] at taken
    cases taken
    refine ⟨_, { refines with
      one := oneOut_step refines.one rfl arrives
      arrived := congrArg (· + 1) refines.arrived
      slot := ⟨rfl, idle⟩, received := ?_, given := ?_, toGuest := by simpa using rest }⟩
    · intro p member
      rcases List.mem_append.mp member with old | new
      · obtain ⟨n, k, asked, given⟩ := refines.received p old
        exact ⟨n, k, asked, List.mem_append_left _ given⟩
      · cases List.mem_singleton.mp new
        exact ⟨_, kind, request, List.mem_append_right _ List.mem_cons_self⟩
    · intro p member
      rcases List.mem_append.mp member with old | new
      · obtain ⟨j, k, asked, given⟩ := refines.given p old
        exact ⟨j, k, asked, List.mem_append_left _ given⟩
      · cases List.mem_singleton.mp new
        exact ⟨i, kind, request, List.mem_append_right _ List.mem_cons_self⟩

theorem refines_receive (refines : Refines g x) (taken : guestStep g .receive = some next) :
    ∃ y, Refines next y := by
  simp only [guestStep] at taken
  cases pipe : g.toGuest with
  | nil => simp [pipe] at taken
  | cons cmd toGuest =>
    rw [pipe] at taken
    simp only at taken
    unfold Guest.receive at taken
    split at taken
    · split at taken
      · cases taken
      · rename_i types _
        cases taken
        obtain ⟨more, table, same⟩ := foldl_promise types.types { g with toGuest, delayRenderers := ∅ }
        rw [same]
        have stream := refines.toGuest
        rw [pipe, List.filterMap_cons_none rfl] at stream
        refine ⟨x, { refines with renderers := ?_, toGuest := stream }⟩
        exact fun p member => getElem?_append_of_some more (refines.renderers p member)
    · rename_i buf
      exact refines_contents refines pipe taken
    · cases taken

theorem refines_remember (refines : Refines g x) (ok : alone g (.remember i) = true)
    (taken : guestStep g (.remember i) = some next) : Refines next x := by
  have free : g.outstandingClipboardRequest = none := Option.isNone_iff_eq_none.mp ok
  have remembers := refines.slot
  simp only [Remembers, free] at remembers
  obtain ⟨empty, idle⟩ := remembers
  simp only [guestStep] at taken
  split at taken
  · cases taken
    refine { refines with slot := ?_, released := ?_ }
    · exact Or.inl ⟨empty, by simp [idle]⟩
    · simp [refines.released, free]
  · cases taken

theorem refines_request (refines : Refines g x) (taken : guestStep g (.request i) = some next) :
    ∃ y, Refines next y := by
  simp only [guestStep] at taken
  split at taken
  · rename_i waiting
    obtain ⟨kind, renderer, rfl⟩ := Option.map_eq_some_iff.mp taken
    have remembers := refines.slot
    unfold Remembers at remembers
    cases holder : g.outstandingClipboardRequest with
    | none =>
      simp only [holder] at remembers
      simp [remembers.2] at waiting
    | some j =>
      simp only [holder] at remembers
      rcases remembers with ⟨empty, only⟩ | ⟨_, idle⟩
      · rw [only, List.mem_singleton] at waiting
        subst waiting
        have serially : serial x (.ask (i, kind) : Label (Nat × ClipboardType) (List UInt8)) = true := by
          simp [serial, empty]
        refine ⟨_, { refines with
          one := oneOut_step refines.one serially rfl
          requests := by simp [refines.requests], slot := ?_, received := ?_, given := ?_
          renderers := ?_, asked := ?_, toDriver := ?_ }⟩
        · simp only [Remembers]
          refine Or.inr ⟨⟨x.requests.length, kind, rfl, ?_⟩, by simp [only]⟩
          rw [refines.requests, List.getElem?_concat_length]
        · intro p member
          obtain ⟨n, k, asked, given⟩ := refines.received p member
          exact ⟨n, k, getElem?_append_of_some _ asked, given⟩
        · intro p member
          obtain ⟨j, k, asked, received⟩ := refines.given p member
          exact ⟨j, k, getElem?_append_of_some _ asked, received⟩
        · intro p member
          rcases List.mem_append.mp member with old | new
          · exact refines.renderers p old
          · rw [List.mem_singleton.mp new]
            exact renderer
        · intro n k buf found
          obtain ⟨request, there, same⟩ := refines.asked n k buf found
          exact ⟨request, getElem?_append_of_some _ there, same⟩
        · rw [refines.toDriver, List.drop_append_of_le_length (fewer refines), List.map_append]
          rfl
      · simp [idle] at waiting
  · cases taken

theorem refines_step {e : Event} (refines : Refines g x) (ok : alone g e = true)
    (taken : guestStep g e = some next) : ∃ y, Refines next y := by
  cases e with
  | grab types =>
    cases taken
    refine ⟨x, { refines with toGuest := ?_ }⟩
    rw [List.filterMap_append, refines.toGuest]
    exact List.append_nil _
  | answer buf => exact refines_answer refines taken
  | receive => exact refines_receive refines taken
  | remember i => exact ⟨x, refines_remember refines ok taken⟩
  | request i => exact refines_request refines taken
  | _ =>
    simp only [guestStep] at taken
    split at taken
    · cases taken
      exact ⟨x, { refines with }⟩
    · cases taken

theorem alone_of_paired {e : Event} (taken : guestStep g e = some next) (paired : RendersPaired next) :
    alone g e = true := by
  cases e with
  | remember i =>
    have released := paired.released
    simp only [guestStep] at taken
    split at taken
    · cases taken
      cases holder : g.outstandingClipboardRequest with
      | none => simp [alone, holder]
      | some j => simp [holder] at released
    · cases taken
  | _ => rfl

end Steps

theorem refines_start : Refines start Exchange.new where
  one := oneOut_new
  requests := rfl
  answers := rfl
  arrived := rfl
  slot := ⟨rfl, rfl⟩
  received := nofun
  given := nofun
  renderers := nofun
  asked := nofun
  toDriver := rfl
  toGuest := rfl
  released := rfl

/-- Every renderer receives the answer to its own request and none is released without, exactly in
    the runs in which no request is remembered while another one is. -/
theorem renders_paired_iff (es : List Event) :
    Runs.Always guestStep RendersPaired start es ↔
      Runs.Meets guestStep (fun g e => alone g e = true) start es := by
  refine Runs.always_iff_meets (fun g => ∃ x, Refines g x) ?_ ?_ ?_ ⟨_, refines_start⟩ es
  · rintro g e next ⟨x, refines⟩ ok taken
    exact refines_step refines ok taken
  · rintro g ⟨x, refines⟩
    exact paired_of_refines refines
  · rintro g e next - taken paired
    exact alone_of_paired taken paired

/-- Text and an image are rendered at once: the text is released empty, and its contents go to
    the image. -/
theorem text_rendered_as_image :
    ¬ Runs.Always guestStep RendersPaired start
      [.grab ⟨[1, 2]⟩, .receive, .wmRenderAllFormats, .forward 0, .forward 1, .remember 0, .request 0,
        .remember 1, .request 1] ∧
      ∃ g, Runs.run guestStep start
        [.grab ⟨[1, 2]⟩, .receive, .wmRenderAllFormats, .forward 0, .forward 1, .remember 0, .request 0,
          .remember 1, .request 1, .answer [116], .receive] = some g ∧
        g.renderers = [.text, .image] ∧ g.answers = [(1, [116])] ∧ g.received = [(1, [116])] ∧
        g.released = [0] := by
  constructor
  · intro always
    exact absurd (Runs.always_last always rfl).released (by decide +kernel)
  · exact ⟨_, rfl, rfl, rfl, rfl, rfl⟩

end WindowsPaste
