import WindowsGaming.EntryDesk

/- What a connection hears of its temporary entries. A message is announced by the controller,
   which posts it to the entry, or by the entry's task, when it finishes. -/
namespace EntryMessages
open Config Protocol Controller Control TemporaryEntry EntryChannels EntryDesk

/-- The messages a step puts on a connection's channel because of an entry, each with it. -/
def caused (s : Server) : Event → List (Nat × ControlCmdOut)
  | .request env c (.temporaryLightEntry x y) =>
    if grants s (.request env c (.temporaryLightEntry x y)) then
      [(s.granted.length, .temporaryLightAttached)]
    else []
  | .poll entry =>
    match s.forwarders.find? fun f => f.entry = entry with
    | some f =>
      let last : List ControlCmdOut := if s.finishes f then [.temporaryLightDetached] else []
      if s.isReading f.conn then (f.pending ++ last).map fun cmd => (entry, cmd) else []
    | none => []
  | _ => []

structure Journal where
  server : Server
  log : List (Nat × ControlCmdOut)
  deriving DecidableEq, Repr

def journalStep (j : Journal) (e : Event) : Option Journal :=
  (serverStep j.server e).map fun t => ⟨t, j.log ++ caused j.server e⟩

def open_ (machine : MachineConfig) (hooks : HooksConfig) : Journal := ⟨start machine hooks, []⟩

def messages (entry : Nat) (log : List (Nat × ControlCmdOut)) : List ControlCmdOut :=
  (log.filter fun m => m.1 = entry).map Prod.snd

/-- One TemporaryLightAttached, then the mouse edges, then one TemporaryLightDetached exactly
    if the entry's task has finished. -/
def Announced (finished : Bool) (ms : List ControlCmdOut) : Prop :=
  ms = .temporaryLightAttached ::
    (ms.filter isEdge ++ if finished then [.temporaryLightDetached] else [])

instance (finished : Bool) (ms : List ControlCmdOut) : Decidable (Announced finished ms) :=
  inferInstanceAs (Decidable (_ = _))

def withoutAcks (cmds : List ControlCmdOut) : List ControlCmdOut :=
  cmds.filter fun cmd => cmd ≠ .ack

def causedFor (granted : List Nat) (c : Nat) (log : List (Nat × ControlCmdOut)) : List ControlCmdOut :=
  (log.filter fun m => granted[m.1]? = some c).map Prod.snd

def Heard (d : Desk) (log : List (Nat × ControlCmdOut)) : Prop :=
  ∀ (c : Nat) (conn : Conn), d.conns[c]? = some conn →
    withoutAcks conn.sent = causedFor d.granted c log

structure Notified (j : Journal) : Prop where
  announced : ∀ e c, j.server.granted[e]? = some c → j.server.isReading c = true →
    Announced (decide (e ∉ j.server.tasks)) (messages e j.log)
  ended : ∀ e, j.server.entry = some e → e ∈ j.server.tasks
  heard : Heard (desk j.server) j.log

/-- No temporary entry of an open connection is upgraded to a full one. -/
def keepsEntries (s : Server) (e : Event) : Prop :=
  upgrades s e = true → ∀ k ∈ s.entry, ∀ c ∈ s.granted[k]?, s.isReading c = false

instance (s : Server) (e : Event) : Decidable (keepsEntries s e) :=
  inferInstanceAs (Decidable (_ → ∀ k ∈ s.entry, ∀ c ∈ s.granted[k]?, s.isReading c = false))

structure Told (d : Desk) (log : List (Nat × ControlCmdOut)) : Prop where
  logged : ∀ m ∈ log, m.1 < d.granted.length
  edges : ∀ f ∈ d.forwarders, d.isReading f.conn = true → ∀ cmd ∈ f.pending, isEdge cmd = true
  announced : ∀ e c, d.granted[e]? = some c → d.isReading c = true →
    Announced (decide (e ∉ d.forwarders.map Forwarder.entry)) (messages e log)
  heard : Heard d log

section Logs
variable {d : Desk} {log : List (Nat × ControlCmdOut)} {e c : Nat} {ms cmds : List ControlCmdOut}

def spoken (d : Desk) (c e : Nat) (cmds : List ControlCmdOut) : List (Nat × ControlCmdOut) :=
  if d.isReading c then cmds.map fun cmd => (e, cmd) else []

theorem messages_append (more : List (Nat × ControlCmdOut)) :
    messages e (log ++ more) = messages e log ++ messages e more := by
  simp [messages]

theorem messages_same (e : Nat) (cmds : List ControlCmdOut) :
    messages e (cmds.map fun cmd => (e, cmd)) = cmds := by
  simp [messages, List.filter_map, Function.comp_def]

theorem messages_other {k : Nat} (other : k ≠ e) (cmds : List ControlCmdOut) :
    messages e (cmds.map fun cmd => (k, cmd)) = [] := by
  simp [messages, List.filter_map, Function.comp_def, other]

theorem announced_attached : Announced false [.temporaryLightAttached] := by decide

theorem announced_edges (announced : Announced false ms) (edges : ∀ cmd ∈ cmds, isEdge cmd = true) :
    Announced false (ms ++ cmds) := by
  have all : cmds.filter isEdge = cmds := List.filter_eq_self.mpr edges
  unfold Announced at announced ⊢
  rw [List.filter_append, all]
  nth_rewrite 1 [announced]
  simp

theorem announced_finished (announced : Announced false ms)
    (edges : ∀ cmd ∈ cmds, isEdge cmd = true) :
    Announced true (ms ++ (cmds ++ [.temporaryLightDetached])) := by
  have longer := announced_edges announced edges
  unfold Announced at longer ⊢
  rw [← List.append_assoc, List.filter_append]
  nth_rewrite 1 [longer]
  simp [isEdge]

theorem causedFor_append (granted : List Nat) (c : Nat) (log more : List (Nat × ControlCmdOut)) :
    causedFor granted c (log ++ more) = causedFor granted c log ++ causedFor granted c more := by
  simp [causedFor]

theorem causedFor_entry {granted : List Nat} (mine : granted[e]? = some c) (k : Nat)
    (cmds : List ControlCmdOut) :
    causedFor granted k (cmds.map fun cmd => (e, cmd)) = if c = k then cmds else [] := by
  unfold causedFor
  simp only [List.filter_map, Function.comp_def, mine, Option.some.injEq]
  by_cases here : c = k
  · simp [here, Function.comp_def]
  · simp [here]

theorem withoutAcks_hear {conn : Conn} (noAck : conn.reading = true → .ack ∉ cmds) :
    withoutAcks (hear cmds conn).sent =
      withoutAcks conn.sent ++ if conn.reading then cmds else [] := by
  unfold hear
  cases reading : conn.reading with
  | false => simp
  | true =>
    have kept : withoutAcks cmds = cmds := by
      unfold withoutAcks
      rw [List.filter_eq_self]
      intro cmd member
      have other : cmd ≠ .ack := fun ack => noAck reading (ack ▸ member)
      simp [other]
    have split : withoutAcks (conn.sent ++ cmds) = withoutAcks conn.sent ++ withoutAcks cmds :=
      List.filter_append ..
    simp [split, kept]

theorem heard_conns {entry : Option Nat} {conns : List Conn} {forwarders : List Forwarder}
    (heard : Heard d log)
    (same : ∀ (c : Nat) (conn : Conn), conns[c]? = some conn →
      ∃ old : Conn, d.conns[c]? = some old ∧ conn.sent = old.sent) :
    Heard ⟨entry, d.granted, conns, forwarders⟩ log := by
  intro c conn found
  obtain ⟨old, foundOld, sent⟩ := same c conn found
  rw [sent]
  exact heard c old foundOld

theorem heard_modify {entry : Option Nat} {forwarders : List Forwarder} {g : Conn → Conn}
    (heard : Heard d log) (same : ∀ conn, (g conn).sent = conn.sent) (k : Nat) :
    Heard ⟨entry, d.granted, d.conns.modify k g, forwarders⟩ log := by
  apply heard_conns heard
  intro c conn found
  simp only [List.getElem?_modify, Option.map_eq_map, Option.map_eq_some_iff] at found
  obtain ⟨old, foundOld, rfl⟩ := found
  refine ⟨old, foundOld, ?_⟩
  split
  · exact same old
  · rfl

theorem heard_spoken (heard : Heard d log) (granted : d.granted[e]? = some c)
    (noAck : d.isReading c = true → .ack ∉ cmds) :
    Heard (d.tell c cmds) (log ++ spoken d c e cmds) := by
  intro k conn found
  simp only [Desk.tell, List.getElem?_modify, Option.map_eq_map, Option.map_eq_some_iff] at found
  obtain ⟨old, foundOld, rfl⟩ := found
  have before := heard k old foundOld
  change _ = causedFor d.granted k (log ++ spoken d c e cmds)
  rw [causedFor_append, ← before]
  unfold spoken
  by_cases here : c = k
  · subst here
    have reading : d.isReading c = old.reading := by simp [Desk.isReading, foundOld]
    rw [if_pos rfl, withoutAcks_hear (by rwa [← reading]), reading]
    split
    · rw [causedFor_entry granted, if_pos rfl]
    · rfl
  · rw [if_neg here]
    split
    · rw [causedFor_entry granted, if_neg here, List.append_nil]
    · exact (List.append_nil _).symm

theorem heard_ack (heard : Heard d log) (c : Nat) : Heard (d.tell c [.ack]) log := by
  intro k conn found
  simp only [Desk.tell, List.getElem?_modify, Option.map_eq_map, Option.map_eq_some_iff] at found
  obtain ⟨old, foundOld, rfl⟩ := found
  have before := heard k old foundOld
  by_cases here : c = k
  · rw [if_pos here]
    unfold hear
    split
    · have split : withoutAcks (old.sent ++ [.ack]) = withoutAcks old.sent ++ withoutAcks [.ack] :=
        List.filter_append ..
      rw [split]
      exact (List.append_nil _).trans before
    · exact before
  · rw [if_neg here]
    exact before

end Logs

section Turns
variable {s t : Server} {d : Desk} {log : List (Nat × ControlCmdOut)} {c e : Nat}
  {cmds : List ControlCmdOut}

theorem told_quiet {entry : Option Nat} {conns : List Conn} {forwarders : List Forwarder}
    (told : Told d log) (tasks : forwarders.map Forwarder.entry = d.forwarders.map Forwarder.entry)
    (reads : ∀ c ∈ d.granted, (⟨entry, d.granted, conns, forwarders⟩ : Desk).isReading c = true →
      d.isReading c = true)
    (edges : ∀ f ∈ forwarders, d.isReading f.conn = true → ∀ cmd ∈ f.pending, isEdge cmd = true)
    (known : ∀ f ∈ forwarders, f.conn ∈ d.granted)
    (heard : Heard ⟨entry, d.granted, conns, forwarders⟩ log) :
    Told ⟨entry, d.granted, conns, forwarders⟩ log where
  logged := told.logged
  edges := fun f member reading => edges f member (reads f.conn (known f member) reading)
  announced := by
    intro e c granted reading
    change Announced (decide (e ∉ forwarders.map Forwarder.entry)) (messages e log)
    rw [tasks]
    exact told.announced e c granted (reads c (List.mem_of_getElem? granted) reading)
  heard := heard

theorem conn_granted (tidy : Tidy d) {f : Forwarder} (member : f ∈ d.forwarders) :
    f.conn ∈ d.granted :=
  List.mem_of_getElem? (tidy.known f member)

theorem isReading_tell (c k : Nat) (cmds : List ControlCmdOut) (d : Desk) :
    (d.tell k cmds).isReading c = d.isReading c := by
  apply isReading_modify
  intro _ conn
  unfold hear
  split <;> rfl

theorem isReading_lowered {k : Nat} {g : Conn → Conn}
    (lowers : ∀ conn, (g conn).reading = true → conn.reading = true) (c : Nat)
    (reading : ({ d with conns := d.conns.modify k g } : Desk).isReading c = true) :
    d.isReading c = true := by
  unfold Desk.isReading at reading ⊢
  simp only [List.getElem?_modify] at reading
  cases found : d.conns[c]? with
  | none => simp [found] at reading
  | some conn =>
    simp only [found, Option.map_eq_map, Option.map_some, Option.any_some] at reading ⊢
    split at reading
    · exact lowers conn reading
    · exact reading

theorem told_accept (tidy : Tidy d) (told : Told d log) :
    Told { d with conns := d.conns ++ [.new] } log := by
  have older : ∀ c ∈ d.granted, (d.conns ++ [.new])[c]? = d.conns[c]? := fun c granted =>
    List.getElem?_append_left (tidy.seated c granted)
  refine told_quiet told rfl ?_ told.edges (fun f => conn_granted tidy) ?_
  · intro c granted reading
    unfold Desk.isReading at reading ⊢
    rwa [older c granted] at reading
  · intro c conn found
    change (d.conns ++ [Conn.new])[c]? = some conn at found
    rcases Journals.getElem?_concat_cases found with old | ⟨rfl, rfl⟩
    · exact told.heard c conn old
    · have silent : causedFor d.granted d.conns.length log = [] := by
        unfold causedFor
        rw [List.map_eq_nil_iff, List.filter_eq_nil_iff]
        intro m _ granted
        have seated := tidy.seated _ (List.mem_of_getElem? (of_decide_eq_true granted))
        exact absurd seated (Nat.lt_irrefl _)
      change withoutAcks Conn.new.sent = causedFor d.granted d.conns.length log
      rw [silent]
      rfl

theorem told_work {entry : Option Nat} {ms : List (Nat × ControlCmdOut)} (tidy : Tidy d)
    (told : Told d log)
    (posted : ∀ m ∈ ms, isEdge m.2 = true ∨ ∀ c, d.granted[m.1]? = some c → d.isReading c = false) :
    Told { d with entry, forwarders := d.forwarders.map (receive ms) } log := by
  have known : ∀ f ∈ d.forwarders.map (receive ms), f.conn ∈ d.granted := by
    intro f member
    obtain ⟨old, oldMember, rfl⟩ := List.mem_map.mp member
    have granted := conn_granted tidy oldMember
    exact granted
  refine told_quiet told (tasks_map fun _ => rfl) (fun _ _ reading => reading) ?_ known told.heard
  intro f member reading cmd pending
  obtain ⟨old, oldMember, rfl⟩ := List.mem_map.mp member
  rcases List.mem_append.mp pending with before | received
  · exact told.edges old oldMember reading cmd before
  · obtain ⟨m, mine, rfl⟩ := List.mem_map.mp received
    obtain ⟨listed, here⟩ := List.mem_filter.mp mine
    rcases posted m listed with edge | closed
    · exact edge
    · rw [of_decide_eq_true here] at closed
      exact absurd (reading.symm.trans (closed _ (tidy.known old oldMember))) (by simp)

theorem told_lowered {entry : Option Nat} {k : Nat} {g : Conn → Conn} (tidy : Tidy d)
    (told : Told d log)
    (lowers : ∀ conn, (g conn).reading = true → conn.reading = true)
    (same : ∀ conn, (g conn).sent = conn.sent) :
    Told { d with entry, conns := d.conns.modify k g } log :=
  told_quiet told rfl (fun c _ reading => isReading_lowered lowers c reading) told.edges
    (fun _ => conn_granted tidy) (heard_modify told.heard same k)

theorem messages_fresh (told : Told d log) : messages d.granted.length log = [] := by
  unfold messages
  rw [List.map_eq_nil_iff, List.filter_eq_nil_iff]
  intro m member here
  have bound := told.logged m member
  rw [of_decide_eq_true here] at bound
  exact Nat.lt_irrefl _ bound

theorem causedFor_older (told : Told d log) (k : Nat) :
    causedFor (d.granted ++ [c]) k log = causedFor d.granted k log := by
  unfold causedFor
  congr 1
  apply List.filter_congr
  intro m member
  rw [List.getElem?_append_left (told.logged m member)]

theorem heard_grant {entry : Option Nat} {forwarders : List Forwarder} (told : Told d log) :
    Heard ⟨entry, d.granted ++ [c], d.conns.modify c fun conn =>
        { conn with tempEntry := true, sent := conn.sent ++ [.temporaryLightAttached] }, forwarders⟩
      (log ++ [(d.granted.length, .temporaryLightAttached)]) := by
  intro k now found
  simp only [List.getElem?_modify, Option.map_eq_map, Option.map_eq_some_iff] at found
  obtain ⟨old, foundOld, rfl⟩ := found
  have mine : (d.granted ++ [c])[d.granted.length]? = some c := by simp
  have caused := causedFor_entry mine k [.temporaryLightAttached]
  rw [List.map_singleton] at caused
  change _ = causedFor (d.granted ++ [c]) k (log ++ [(d.granted.length, .temporaryLightAttached)])
  rw [causedFor_append, causedFor_older told, caused, ← told.heard k old foundOld]
  by_cases here : c = k
  · rw [if_pos here, if_pos here]
    exact List.filter_append ..
  · rw [if_neg here, if_neg here]
    exact (List.append_nil _).symm

theorem told_grant (told : Told d log) :
    Told { entry := some d.granted.length
           granted := d.granted ++ [c]
           conns := d.conns.modify c fun conn =>
             { conn with tempEntry := true, sent := conn.sent ++ [.temporaryLightAttached] }
           forwarders := d.forwarders ++ [⟨d.granted.length, c, []⟩] }
      (log ++ [(d.granted.length, .temporaryLightAttached)]) := by
  have same := fun k => isReading_modify d k c (fun conn =>
    { conn with tempEntry := true, sent := conn.sent ++ [.temporaryLightAttached] }) fun _ _ => rfl
  constructor
  · intro m member
    simp only [List.length_append, List.length_singleton]
    rcases List.mem_append.mp member with old | new
    · exact Nat.lt_succ_of_lt (told.logged m old)
    · rw [List.mem_singleton.mp new]
      exact Nat.lt_succ_self _
  · intro f member open_ cmd pending
    rcases List.mem_append.mp member with old | new
    · exact told.edges f old ((same f.conn).symm.trans open_) cmd pending
    · rw [List.mem_singleton.mp new] at pending
      cases pending
  · intro e k granted open_
    rw [messages_append]
    rcases Journals.getElem?_concat_cases granted with before | ⟨rfl, rfl⟩
    · have old : e < d.granted.length := (List.getElem?_eq_some_iff.mp before).1
      have other := messages_other (e := e) (Nat.ne_of_gt old) [.temporaryLightAttached]
      rw [List.map_singleton] at other
      have announced := told.announced e k before ((same k).symm.trans open_)
      simpa [other, Nat.ne_of_lt old] using announced
    · have said := messages_same d.granted.length [.temporaryLightAttached]
      rw [List.map_singleton] at said
      rw [messages_fresh told, said]
      simpa using announced_attached
  · exact heard_grant told

theorem logged_spoken (told : Told d log) (granted : d.granted[e]? = some c) :
    ∀ m ∈ log ++ spoken d c e cmds, m.1 < d.granted.length := by
  intro m member
  rcases List.mem_append.mp member with old | new
  · exact told.logged m old
  · unfold spoken at new
    split at new
    · obtain ⟨cmd, _, rfl⟩ := List.mem_map.mp new
      exact (List.getElem?_eq_some_iff.mp granted).1
    · cases new

theorem messages_spoken (open_ : d.isReading c = true) :
    messages e (log ++ spoken d c e cmds) = messages e log ++ cmds := by
  rw [messages_append, spoken, if_pos open_, messages_same]

theorem messages_spoken_other {k : Nat} (other : k ≠ e) :
    messages e (log ++ spoken d c k cmds) = messages e log := by
  rw [messages_append, spoken]
  split
  · rw [messages_other other, List.append_nil]
  · exact List.append_nil _

theorem told_spoken {f : Forwarder} {fs : List Forwarder} {entry : Option Nat} (tidy : Tidy d)
    (told : Told d log) (member : f ∈ d.forwarders)
    (edges : ∀ g ∈ fs, d.isReading g.conn = true → ∀ cmd ∈ g.pending, isEdge cmd = true)
    (others : ∀ e, f.entry ≠ e → (e ∈ fs.map Forwarder.entry ↔ e ∈ d.forwarders.map Forwarder.entry))
    (announces : d.isReading f.conn = true → Announced false (messages f.entry log) →
      Announced (decide (f.entry ∉ fs.map Forwarder.entry)) (messages f.entry log ++ cmds))
    (noAck : d.isReading f.conn = true → .ack ∉ cmds) :
    Told { d.tell f.conn cmds with entry, forwarders := fs }
      (log ++ spoken d f.conn f.entry cmds) := by
  have granted := tidy.known f member
  constructor
  · exact logged_spoken told granted
  · intro g listed open_
    exact edges g listed ((isReading_tell g.conn f.conn cmds d).symm.trans open_)
  · intro e c mine open_
    replace open_ : d.isReading c = true := (isReading_tell c f.conn cmds d).symm.trans open_
    have announced := told.announced e c mine open_
    change Announced (decide (e ∉ fs.map Forwarder.entry)) _
    by_cases here : f.entry = e
    · subst here
      cases granted.symm.trans mine
      have running : f.entry ∈ d.forwarders.map Forwarder.entry := List.mem_map_of_mem member
      simp only [running, not_true_eq_false, decide_false] at announced
      rw [messages_spoken open_]
      exact announces open_ announced
    · rw [messages_spoken_other here]
      simpa only [others e here] using announced
  · exact heard_spoken told.heard granted noAck

theorem told_forward {f : Forwarder} (tidy : Tidy d) (told : Told d log) (member : f ∈ d.forwarders) :
    Told { d.tell f.conn f.pending with
      forwarders := d.forwarders.map fun g =>
        if g.entry = f.entry then { g with pending := [] } else g }
      (log ++ spoken d f.conn f.entry f.pending) := by
  have same : (d.forwarders.map fun g => if g.entry = f.entry then { g with pending := [] } else g).map
      Forwarder.entry = d.forwarders.map Forwarder.entry := by
    apply tasks_map
    intro g
    split <;> rfl
  apply told_spoken tidy told member
  · intro g listed open_ cmd pending
    obtain ⟨old, oldMember, rfl⟩ := List.mem_map.mp listed
    by_cases here : old.entry = f.entry
    · simp [here] at pending
    · simp only [here, if_false] at open_ pending
      exact told.edges old oldMember open_ cmd pending
  · intro e _
    rw [same]
  · intro open_ announced
    have running : f.entry ∈ d.forwarders.map Forwarder.entry := List.mem_map_of_mem member
    simp only [same, running, not_true_eq_false, decide_false]
    exact announced_edges announced (told.edges f member open_)
  · intro open_ ack
    cases told.edges f member open_ _ ack

theorem told_finish {f : Forwarder} (tidy : Tidy d) (told : Told d log) (member : f ∈ d.forwarders) :
    Told { d.tell f.conn (f.pending ++ [.temporaryLightDetached]) with
      entry := none
      forwarders := d.forwarders.filter fun g => g.entry ≠ f.entry }
      (log ++ spoken d f.conn f.entry (f.pending ++ [.temporaryLightDetached])) := by
  apply told_spoken tidy told member
  · exact fun g listed => told.edges g (List.mem_filter.mp listed).1
  · intro e other
    simp only [List.mem_map, List.mem_filter, decide_eq_true_eq]
    constructor
    · rintro ⟨g, ⟨gMember, _⟩, rfl⟩
      exact ⟨g, gMember, rfl⟩
    · rintro ⟨g, gMember, rfl⟩
      exact ⟨g, ⟨gMember, fun same => other same.symm⟩, rfl⟩
  · intro open_ announced
    have finished :
        f.entry ∉ (d.forwarders.filter fun g => g.entry ≠ f.entry).map Forwarder.entry := by
      simp
    simp only [finished, not_false_eq_true, decide_true]
    exact announced_finished announced (told.edges f member open_)
  · intro open_ ack
    rcases List.mem_append.mp ack with before | last
    · cases told.edges f member open_ _ before
    · simp at last

theorem told_acked (tidy : Tidy d) (told : Told d log) (c : Nat) : Told (d.tell c [.ack]) log :=
  told_quiet told rfl (fun k _ open_ => (isReading_tell k c [.ack] d).symm.trans open_) told.edges
    (fun _ => conn_granted tidy) (heard_ack told.heard c)

theorem grants_isFree {env : Env} {req : ControlCmdIn} (busy : isFree s c = false) :
    grants s (.request env c req) = false := by
  cases req with
  | temporaryLightEntry x y =>
    unfold isFree at busy
    simp [grants, busy]
  | _ => rfl

theorem caused_plain {e : Event} (refused : grants s e = false) (other : ∀ k, e ≠ .poll k) :
    caused s e = [] := by
  cases e with
  | request env c req =>
    cases req with
    | temporaryLightEntry x y => simp [caused, refused]
    | _ => rfl
  | poll k => exact absurd rfl (other k)
  | _ => rfl

theorem caused_poll {f : Forwarder} (found : s.forwarders.find?
    (fun g => g.entry = f.entry) = some f) :
    caused s (.poll f.entry) = spoken (desk s) f.conn f.entry
      (f.pending ++ if s.finishes f then [.temporaryLightDetached] else []) := by
  simp [caused, found, spoken, isReading_desk]

/-- What one turn causes keeps every open connection's entries announced. -/
theorem told_turn {e : Event} {next : Desk} (tidy : Tidy (desk s)) (told : Told (desk s) log)
    (keeps : keepsEntries s e) (turn : Turn s e next) : Told next (log ++ caused s e) := by
  cases turn with
  | accept =>
    rw [caused_plain rfl (by simp), List.append_nil]
    exact told_accept tidy told
  | work entry ms kept posted plain =>
    rw [caused_plain plain.1 fun k => (plain.2 k k).2, List.append_nil]
    apply told_work tidy told
    intro m member
    obtain ⟨current, edge | ⟨_, upgrade⟩⟩ := posted m member
    · exact Or.inl edge
    · right
      intro c granted
      rw [isReading_desk]
      exact keeps upgrade m.1 current c granted
  | refuse free refused =>
    rw [caused_plain refused (by simp), List.append_nil]
    exact told_lowered tidy told (by simp) fun _ => rfl
  | exit f busy leaves =>
    rw [caused_plain (grants_isFree busy) (by simp), List.append_nil]
    apply told_lowered tidy told
    · intro conn reading
      rcases leaves conn with stays | closes
      · rwa [stays] at reading
      · simp [closes] at reading
    · intro conn
      rcases leaves conn with stays | closes
      · rw [stays]
      · rw [closes]
  | @grant env c x y free granted =>
    have announces := told_grant (c := c) told
    simp only [caused, granted, if_true]
    exact announces
  | close reading =>
    rw [caused_plain rfl (by simp), List.append_nil]
    exact told_lowered tidy told (by simp) fun _ => rfl
  | forward found goesOn =>
    rw [caused_poll found, goesOn]
    simp only [Bool.false_eq_true, if_false, List.append_nil]
    exact told_forward tidy told (List.mem_of_find?_eq_some found)
  | finish found finishes =>
    rw [caused_poll found, finishes]
    exact told_finish tidy told (List.mem_of_find?_eq_some found)
  | @acked ack c =>
    rw [caused_plain rfl (by simp), List.append_nil]
    exact told_acked tidy told c

theorem told_start (machine : MachineConfig) (hooks : HooksConfig) :
    Told (desk (start machine hooks)) [] :=
  ⟨fun _ none => absurd none List.not_mem_nil, fun _ none => absurd none List.not_mem_nil,
    fun _ _ none => absurd none (by simp [desk, start]),
    fun _ _ none => absurd none (by simp [desk, start])⟩

theorem notified_of_told {j : Journal} (tidy : Tidy (desk j.server)) (told : Told
    (desk j.server) j.log) :
    Notified j where
  announced := by
    intro e c granted reading
    exact told.announced e c granted (by rwa [isReading_desk])
  ended := tidy.current
  heard := told.heard

/-- The task of an entry that has ended finishes as soon as it runs. -/
theorem ended_entry_finishes (nothing : s.controller.out = []) (ended : s.entry ≠ some e)
    (taken : serverStep s (.poll e) = some t) : e ∉ t.tasks := by
  obtain ⟨turn, _⟩ := serverStep_turn nothing taken
  change e ∉ (desk t).forwarders.map Forwarder.entry
  generalize desk t = next at turn
  cases turn with
  | work entry ms kept posted plain => exact absurd rfl (plain.2 e e).2
  | forward found goesOn => simp [Server.finishes, ended] at goesOn
  | finish found finishes => simp

end Turns

/-- As long as no entry of an open connection is upgraded, every entry is announced, and its end
    is announced once. -/
theorem entry_announced_once (machine : MachineConfig) (hooks : HooksConfig) (es : List Event)
    (keeps : Runs.Meets journalStep (fun j e => keepsEntries j.server e) (open_ machine hooks) es) :
    Runs.Always journalStep Notified (open_ machine hooks) es := by
  have kept : ∀ (j : Journal) (e : Event) (k : Journal),
      j.server.controller.out = [] ∧ Tidy (desk j.server) ∧ Told (desk j.server) j.log →
      keepsEntries j.server e → journalStep j e = some k →
      k.server.controller.out = [] ∧ Tidy (desk k.server) ∧ Told (desk k.server) k.log := by
    rintro j e k ⟨nothing, tidy, told⟩ keeps taken
    obtain ⟨t, moved, rfl⟩ := Option.map_eq_some_iff.mp taken
    obtain ⟨turn, empty⟩ := serverStep_turn nothing moved
    exact ⟨empty, tidy_turn tidy turn, told_turn tidy told keeps turn⟩
  have invariant := Runs.always_of_invariant _ kept
    ⟨rfl, tidy_start machine hooks, told_start machine hooks⟩ keeps
  exact Runs.always_mono (fun j inv => notified_of_told inv.2.1 inv.2.2) invariant

theorem exited_entry_announced : Runs.Always journalStep Notified (open_ .bare .bare)
    [.call .bare .gaHello, .accept, .request .bare 0 (.temporaryLightEntry 1 2),
      .call .bare (.mouseEdged 3 4), .poll 0, .request .bare 0 .ioExit, .poll 0] :=
  entry_announced_once .bare .bare _ (by decide +kernel)

/-- A client's entry that another client upgrades ends with two TemporaryLightDetached. -/
theorem upgraded_entry_announced_twice :
    ¬ Runs.Always journalStep Notified (open_ .bare .bare)
      [.call .bare .gaHello, .accept, .accept, .request .bare 0 (.temporaryLightEntry 1 2),
        .request .bare 1 .forceIoEntry, .poll 0] := by
  intro always
  obtain ⟨j, reach, granted, open_, finished, told⟩ : ∃ j, Runs.run journalStep (open_ .bare .bare)
      [.call .bare .gaHello, .accept, .accept, .request .bare 0 (.temporaryLightEntry 1 2),
        .request .bare 1 .forceIoEntry, .poll 0] = some j ∧
      j.server.granted[0]? = some 0 ∧ j.server.isReading 0 = true ∧ j.server.tasks = [] ∧
        messages 0 j.log =
          [.temporaryLightAttached, .temporaryLightDetached, .temporaryLightDetached] :=
    ⟨_, rfl, by decide +kernel⟩
  have announced := (Runs.always_last always reach).announced 0 0 granted open_
  rw [finished, told] at announced
  revert announced
  decide

end EntryMessages
