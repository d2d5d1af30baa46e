import WindowsGaming.Outbox
import WindowsGaming.TemporaryEntry

/- The channels of temporary entries: what the controller posts into them, what their tasks
   take out, and what the connections hear. -/
namespace EntryChannels
open Config Protocol Controller Ownership Outbox Control TemporaryEntry

def toEntry : Effect → Option (Nat × ControlCmdOut)
  | .temporary sender cmd => some (sender, cmd)
  | _ => none

def toEntries (out : List Effect) : List (Nat × ControlCmdOut) := out.filterMap toEntry

def receive (posts : List (Nat × ControlCmdOut)) (f : Forwarder) : Forwarder :=
  { f with pending := f.pending ++ (posts.filter fun m => m.1 = f.entry).map Prod.snd }

def hear (cmds : List ControlCmdOut) (conn : Conn) : Conn :=
  if conn.reading then { conn with sent := conn.sent ++ cmds } else conn

def settled (conn : Conn) : Conn := { conn with waiting := none }

def posts (c : Controller) (op : Op) : List (Nat × ControlCmdOut) := toEntries (news c op)

def isEdge : ControlCmdOut → Bool
  | .mouseEdged _ _ => true
  | _ => false

section Posting
variable {c d : Controller} {op : Op} {es : List Effect}

theorem mem_toEntries {sender : Nat} {cmd : ControlCmdOut} (told : .temporary sender cmd ∈ es) :
    (sender, cmd) ∈ toEntries es :=
  List.mem_filterMap.mpr ⟨_, told, rfl⟩

theorem toEntries_awaited (es : List Effect) : toEntries (es.filter awaited) = toEntries es := by
  unfold toEntries
  rw [List.filterMap_filter]
  apply List.filterMap_congr
  intro e _
  cases e with
  | monitor cmd => split <;> rfl
  | clientpipe cmd => split <;> rfl
  | _ => rfl

theorem toEntries_added (added : Adds es c d) (nothing : c.out = []) :
    toEntries d.out = toEntries es := by
  obtain ⟨more, grown, rfl⟩ := added
  rw [grown, nothing, List.nil_append, toEntries_awaited]

theorem mem_posts {m : Nat × ControlCmdOut} (posted : m ∈ posts c op) :
    currentEntry c.ioState = some m.1 ∧
      (isEdge m.2 = true ∨ m.2 = .temporaryLightDetached ∧ forcesAttach c op = true) := by
  obtain ⟨e, listed, made⟩ := List.mem_filterMap.mp posted
  cases mem_news listed with
  | ping asked => cases made
  | fired asked => cases made
  | woken => cases made
  | edged current =>
    cases made
    exact ⟨current, Or.inl rfl⟩
  | parted current forces =>
    cases made
    exact ⟨current, Or.inr ⟨rfl, forces⟩⟩

end Posting

section Delivery
variable {s t : Server}

theorem map_modify {α β : Type} (g : α → β) (f : α → α) (h : β → β) (same : ∀ a, g (f a) = h (g a))
    (xs : List α) (i : Nat) : (xs.modify i f).map g = (xs.map g).modify i h := by
  apply List.ext_getElem?
  intro j
  simp only [List.getElem?_map, List.getElem?_modify]
  cases xs[j]? with
  | none => rfl
  | some a => by_cases here : i = j <;> simp [here, same]

structure HandedOn (ms : List (Nat × ControlCmdOut)) (s t : Server) : Prop where
  entry : t.entry = s.entry
  granted : t.granted = s.granted
  forwarders : t.forwarders = s.forwarders.map (receive ms)
  conns : t.conns.map settled = s.conns.map settled

theorem receive_nil (f : Forwarder) : receive [] f = f := by simp [receive]

theorem receive_receive (ms ns : List (Nat × ControlCmdOut)) (f : Forwarder) :
    receive ns (receive ms f) = receive (ms ++ ns) f := by
  simp only [receive, List.filter_append, List.map_append, List.append_assoc]
  rfl

theorem handedOn_nothing (s : Server) : HandedOn [] s s := by
  refine ⟨rfl, rfl, ?_, rfl⟩
  simp [funext receive_nil]

theorem handedOn_trans {u : Server} {ms ns : List (Nat × ControlCmdOut)} (h : HandedOn ms s t)
    (k : HandedOn ns t u) : HandedOn (ms ++ ns) s u := by
  refine ⟨k.entry.trans h.entry, k.granted.trans h.granted, ?_, k.conns.trans h.conns⟩
  rw [k.forwarders, h.forwarders, List.map_map]
  congr 1
  funext f
  exact receive_receive ms ns f

theorem handedOn_route {e : Effect} (routed : s.route e = some t) :
    HandedOn (toEntries [e]) s t := by
  cases e with
  | temporary sender cmd =>
    simp only [Server.route] at routed
    split at routed
    · cases routed
      refine ⟨rfl, rfl, ?_, rfl⟩
      apply List.map_congr_left
      intro f _
      by_cases here : f.entry = sender
      · simp [toEntries, toEntry, receive, here]
      · simp [toEntries, toEntry, receive, here, Ne.symm here]
    · cases routed
  | fireSuspend receiver =>
    cases routed
    refine ⟨rfl, rfl, (handedOn_nothing s).forwarders, ?_⟩
    rw [List.map_map]
    apply List.map_congr_left
    intro conn _
    simp only [Function.comp_apply]
    split <;> rfl
  | _ =>
    cases routed
    exact handedOn_nothing s

theorem handedOn_routes {es : List Effect} (routed : es.foldlM Server.route s = some t) :
    HandedOn (toEntries es) s t := by
  induction es generalizing s with
  | nil =>
    cases routed
    exact handedOn_nothing _
  | cons e es ih =>
    rw [List.foldlM_cons] at routed
    obtain ⟨u, first, rest⟩ := Option.bind_eq_some_iff.mp routed
    have both := handedOn_trans (handedOn_route first) (ih rest)
    rwa [toEntries, toEntries, ← List.filterMap_append] at both

theorem handedOn_deliver (delivered : s.deliver = some t) :
    HandedOn (toEntries s.controller.out) s t ∧ t.controller.out = [] := by
  obtain ⟨u, routed, rfl⟩ := Option.map_eq_some_iff.mp delivered
  have handed := handedOn_routes routed
  exact ⟨⟨handed.entry, handed.granted, handed.forwarders, handed.conns⟩, rfl⟩

theorem handedOn_quiet (delivered : s.deliver = some t) (quiet : toEntries s.controller.out = []) :
    HandedOn [] s t ∧ t.controller.out = [] := by
  obtain ⟨handed, empty⟩ := handedOn_deliver delivered
  rw [quiet] at handed
  exact ⟨handed, empty⟩

end Delivery

end EntryChannels
