import WindowsGaming.Library.Runs
import WindowsGaming.Ownership

/- The control server: the readers of any number of connections and the tasks that
   forward the messages of temporary entries. Tasks run one at a time. A reader's step
   handles one request, a forwarder's step is one poll; they interleave freely with
   whatever else calls the controller. -/
namespace Control
open Config Protocol Controller

structure Conn where
  reading : Bool
  tempEntry : Bool
  waiting : Option Nat
  sent : List ControlCmdOut
  deriving DecidableEq, Repr

def Conn.new : Conn := ⟨true, false, none, []⟩

def Conn.listens (conn : Conn) : Bool := conn.reading && conn.waiting.isNone

theorem listens_spec {conn : Conn} (listens : conn.listens = true) :
    conn.reading = true ∧ conn.waiting = none := by
  simpa [Conn.listens] using listens

/-- The task of one temporary entry, with the messages its channel holds. -/
structure Forwarder where
  entry : Nat
  conn : Nat
  pending : List ControlCmdOut
  deriving DecidableEq, Repr

inductive Caller where
  | reader (conn : Nat)
  | forwarder (entry : Nat)
  deriving DecidableEq, Repr

structure Exit where
  caller : Caller
  ended : Option Nat
  deriving DecidableEq, Repr

structure Server where
  controller : Controller
  conns : List Conn
  forwarders : List Forwarder
  granted : List Nat
  acks : List (Nat × Nat)
  exits : List Exit
  deriving DecidableEq, Repr

def start (machine : MachineConfig) (hooks : HooksConfig) : Server :=
  { controller := new machine hooks (Input.new machine)
    conns := []
    forwarders := []
    granted := []
    acks := []
    exits := [] }

def currentEntry : IoState → Option Nat
  | .temporaryLightEntry sender => some sender
  | _ => none

def Server.entry (s : Server) : Option Nat := currentEntry s.controller.ioState

def Server.updateConn (c : Nat) (f : Conn → Conn) (s : Server) : Server :=
  { s with conns := s.conns.modify c f }

def Server.hangUp (c : Nat) (s : Server) : Server :=
  s.updateConn c fun conn => { conn with reading := false }

/-- Send on a connection's channel; nobody reads what is sent after the task finished. -/
def Server.say (c : Nat) (cmd : ControlCmdOut) (s : Server) : Server :=
  s.updateConn c fun conn =>
    if conn.reading then { conn with sent := conn.sent ++ [cmd] } else conn

/-- Hand one effect of the controller on. Sending to an entry whose forwarder is gone
    panics the driver. -/
def Server.route (s : Server) : Effect → Option Server
  | .temporary sender cmd =>
    if s.forwarders.any fun f => f.entry = sender then
      some { s with forwarders := s.forwarders.map fun f =>
        if f.entry = sender then { f with pending := f.pending ++ [cmd] } else f }
    else none
  | .fireSuspend receiver =>
    some { s with conns := s.conns.map fun conn =>
      if conn.waiting = some receiver then { conn with waiting := none } else conn }
  | _ => some s

def Server.deliver (s : Server) : Option Server :=
  (s.controller.out.foldlM Server.route s).map fun t =>
    { t with controller := { t.controller with out := [] } }

def Server.call (env : Env) (op : Op) (s : Server) : Option Server :=
  { s with controller := step env op s.controller }.deliver

def Server.temporaryExit (caller : Caller) (s : Server) : Server :=
  { s with controller := s.controller.temporaryExit, exits := s.exits ++ [⟨caller, s.entry⟩] }

def Server.temporaryEntry (env : Env) (c : Nat) (x y : Int32) (s : Server) : Option Server :=
  let entry := s.granted.length
  let res := s.controller.temporaryEntry env entry x y
  let s : Server := { s with controller := res.1 }
  if res.2 then
    let s : Server :=
      { s with granted := s.granted ++ [c], forwarders := s.forwarders ++ [⟨entry, c, []⟩] }
    (s.updateConn c fun conn =>
      { conn with tempEntry := true, sent := conn.sent ++ [.temporaryLightAttached] }).deliver
  else (s.hangUp c).deliver

def Server.backup (env : Env) (c : Nat) (op : Nat → Op) (s : Server) : Option Server :=
  let ack := s.controller.oneshots
  let controller := { s.controller with oneshots := ack + 1 }
  { s with controller, acks := s.acks ++ [(ack, c)] }.call env (op ack)

def Server.suspend (c : Nat) (s : Server) : Option Server :=
  let suspended := s.controller.suspend
  let s : Server := { s with controller := suspended.1 }
  match suspended.2 with
  | .ready => s.deliver
  | .waiting receiver =>
    (s.updateConn c fun conn => { conn with waiting := some receiver }).deliver

def Server.request (env : Env) (c : Nat) (req : ControlCmdIn) (s : Server) : Option Server :=
  match s.conns[c]? with
  | none => none
  | some conn =>
    if conn.listens then
      if conn.tempEntry then
        let s := s.temporaryExit (.reader c)
        match req with
        | .ioExit => (s.updateConn c fun conn => { conn with tempEntry := false }).deliver
        | _ => (s.hangUp c).deliver
      else
        match req with
        | .ioEntry => s.call env .ioAttach
        | .shutdown => s.call env .shutdown
        | .forceIoEntry => s.call env .ioForceAttach
        | .ioExit => s.call env .ioDetach
        | .suspend => s.suspend c
        | .tryIoEntry => s.call env .tryAttach
        | .lightEntry => s.call env .lightAttach
        | .temporaryLightEntry x y => s.temporaryEntry env c x y
        | .enterBackupMode => s.backup env c .enterBackupMode
        | .leaveBackupMode => s.backup env c .leaveBackupMode
    else none

def Server.isReading (c : Nat) (s : Server) : Bool := s.conns[c]?.any Conn.reading

/-- The forwarder's channel is closed, or its connection does not take a message. -/
def Server.finishes (f : Forwarder) (s : Server) : Bool :=
  s.entry ≠ some f.entry || (!s.isReading f.conn && !f.pending.isEmpty)

def Server.poll (entry : Nat) (s : Server) : Option Server :=
  match s.forwarders.find? fun f => f.entry = entry with
  | none => none
  | some f =>
    let forwarded := f.pending.foldl (fun s cmd => s.say f.conn cmd) s
    if s.finishes f then
      let s := { forwarded with forwarders := s.forwarders.filter fun g => g.entry ≠ entry }
      ((s.temporaryExit (.forwarder entry)).say f.conn .temporaryLightDetached).deliver
    else some { forwarded with forwarders := s.forwarders.map fun g =>
      if g.entry = entry then { g with pending := [] } else g }

inductive Event where
  | accept
  | request (env : Env) (conn : Nat) (req : ControlCmdIn)
  | close (conn : Nat)
  | poll (entry : Nat)
  | acked (ack : Nat)
  | call (env : Env) (op : Op)

def isTemporary : Op → Bool
  | .temporaryEntry .. | .temporaryExit => true
  | _ => false

def serverStep (s : Server) : Event → Option Server
  | .accept => some { s with conns := s.conns ++ [.new] }
  | .request env c req => s.request env c req
  | .close c => if s.isReading c then some (s.hangUp c) else none
  | .poll entry => s.poll entry
  | .acked ack =>
    match s.acks.find? fun p => p.1 = ack with
    | none => none
    | some (_, c) => some ({ s with acks := s.acks.filter fun p => p.1 ≠ ack }.say c .ack)
  | .call env op => if isTemporary op then none else s.call env op

/-- The connection's reader runs and believes it owns the temporary entry. -/
def Conn.flagged (conn : Conn) : Bool := conn.reading && conn.tempEntry

def Flagged (conns : List Conn) (c : Nat) : Prop :=
  ∃ conn, conns[c]? = some conn ∧ conn.flagged = true

def Server.tasks (s : Server) : List Nat := s.forwarders.map Forwarder.entry

def Calm (before after : List Conn) : Prop :=
  ∀ (c : Nat) (conn : Conn), after[c]? = some conn → conn.flagged = true →
    ∃ old : Conn, before[c]? = some old ∧ old.flagged = true ∧
      (conn.waiting = none ∨ conn.waiting = old.waiting)

theorem calm_refl (conns : List Conn) : Calm conns conns :=
  fun _ conn found flagged => ⟨conn, found, flagged, Or.inr rfl⟩

theorem calm_trans {first second third : List Conn} (h : Calm first second)
    (k : Calm second third) : Calm first third := by
  intro c conn found flagged
  obtain ⟨mid, foundMid, flaggedMid, waitingMid⟩ := k c conn found flagged
  obtain ⟨old, foundOld, flaggedOld, waitingOld⟩ := h c mid foundMid flaggedMid
  refine ⟨old, foundOld, flaggedOld, ?_⟩
  rcases waitingMid with none | same
  · exact Or.inl none
  · rw [same]
    exact waitingOld

theorem calm_flagged {before after : List Conn} (calm : Calm before after) {c : Nat}
    (flagged : Flagged after c) : Flagged before c := by
  obtain ⟨conn, found, flag⟩ := flagged
  obtain ⟨old, foundOld, flagOld, _⟩ := calm c conn found flag
  exact ⟨old, foundOld, flagOld⟩

def Ready (conns : List Conn) : Prop :=
  ∀ (c : Nat) (conn : Conn), conns[c]? = some conn → conn.flagged = true → conn.waiting = none

theorem calm_ready {before after : List Conn} (calm : Calm before after) (ready : Ready before) :
    Ready after := by
  intro c conn found flagged
  obtain ⟨old, foundOld, flagOld, none | same⟩ := calm c conn found flagged
  · exact none
  · rw [same]
    exact ready c old foundOld flagOld

theorem calm_modify {conns : List Conn} {c : Nat} {f : Conn → Conn}
    (raises : ∀ conn, conns[c]? = some conn → (f conn).flagged = true →
      conn.flagged = true ∧ ((f conn).waiting = none ∨ (f conn).waiting = conn.waiting)) :
    Calm conns (conns.modify c f) := by
  intro d conn found flagged
  rw [List.getElem?_modify] at found
  obtain ⟨old, foundOld, changed⟩ := Option.map_eq_some_iff.mp found
  by_cases here : c = d
  · subst here
    rw [if_pos rfl] at changed
    rw [← changed] at flagged ⊢
    obtain ⟨flag, waiting⟩ := raises old foundOld flagged
    exact ⟨old, foundOld, flag, waiting⟩
  · rw [if_neg here] at changed
    rw [← changed] at flagged ⊢
    exact ⟨old, foundOld, flagged, Or.inr rfl⟩

structure Same (s t : Server) : Prop where
  state : t.controller.ioState = s.controller.ioState
  granted : t.granted = s.granted
  exits : t.exits = s.exits
  tasks : t.tasks = s.tasks
  calm : Calm s.conns t.conns
  keeps : ∀ c, Flagged s.conns c → Flagged t.conns c

theorem same_refl (s : Server) : Same s s :=
  ⟨rfl, rfl, rfl, rfl, calm_refl s.conns, fun _ flagged => flagged⟩

theorem same_trans {s t u : Server} (h : Same s t) (k : Same t u) : Same s u where
  state := k.state.trans h.state
  granted := k.granted.trans h.granted
  exits := k.exits.trans h.exits
  tasks := k.tasks.trans h.tasks
  calm := calm_trans h.calm k.calm
  keeps := fun c flagged => k.keeps c (h.keeps c flagged)

theorem tasks_map {forwarders : List Forwarder} {f : Forwarder → Forwarder}
    (same : ∀ g, (f g).entry = g.entry) :
    (forwarders.map f).map Forwarder.entry = forwarders.map Forwarder.entry := by
  simp [Function.comp_def, same]

theorem same_route {s t : Server} {e : Effect} (routed : s.route e = some t) : Same s t := by
  cases e with
  | temporary sender cmd =>
    simp only [Server.route] at routed
    split at routed
    · cases routed
      refine ⟨rfl, rfl, rfl, tasks_map ?_, calm_refl s.conns, fun _ flagged => flagged⟩
      intro g
      split <;> rfl
    · cases routed
  | fireSuspend receiver =>
    cases routed
    refine ⟨rfl, rfl, rfl, rfl, ?_, ?_⟩
    · intro c conn found flagged
      rw [List.getElem?_map] at found
      obtain ⟨old, foundOld, rfl⟩ := Option.map_eq_some_iff.mp found
      refine ⟨old, foundOld, ?_, ?_⟩
      · split at flagged <;> exact flagged
      · split
        · exact Or.inl rfl
        · exact Or.inr rfl
    · rintro c ⟨conn, found, flagged⟩
      refine ⟨_, by rw [List.getElem?_map, found]; rfl, ?_⟩
      simp only
      split <;> exact flagged
  | _ =>
    cases routed
    exact same_refl s

theorem same_routes {s t : Server} {es : List Effect}
    (routed : es.foldlM Server.route s = some t) : Same s t := by
  induction es generalizing s with
  | nil =>
    cases routed
    exact same_refl _
  | cons e es ih =>
    rw [List.foldlM_cons] at routed
    obtain ⟨u, first, rest⟩ := Option.bind_eq_some_iff.mp routed
    exact same_trans (same_route first) (ih rest)

theorem same_deliver {s t : Server} (delivered : s.deliver = some t) :
    Same s t ∧ t.controller.out = [] := by
  obtain ⟨u, routed, rfl⟩ := Option.map_eq_some_iff.mp delivered
  have same := same_routes routed
  exact ⟨⟨same.state, same.granted, same.exits, same.tasks, same.calm, same.keeps⟩, rfl⟩

theorem deliver_alive {s : Server}
    (alive : ∀ sender cmd, .temporary sender cmd ∈ s.controller.out → sender ∈ s.tasks) :
    ∃ t, s.deliver = some t := by
  have routes : ∀ (es : List Effect) (u : Server),
      (∀ sender cmd, .temporary sender cmd ∈ es → sender ∈ u.tasks) →
      ∃ t, es.foldlM Server.route u = some t := by
    intro es
    induction es with
    | nil => exact fun u _ => ⟨u, rfl⟩
    | cons e es ih =>
      intro u alive
      have first : ∃ v, u.route e = some v := by
        cases e with
        | temporary sender cmd =>
          obtain ⟨f, member, known⟩ := List.mem_map.mp (alive sender cmd List.mem_cons_self)
          simp only [Server.route]
          rw [if_pos (List.any_eq_true.mpr ⟨f, member, decide_eq_true known⟩)]
          exact ⟨_, rfl⟩
        | _ => exact ⟨_, rfl⟩
      obtain ⟨v, first⟩ := first
      have rest : ∀ sender cmd, .temporary sender cmd ∈ es → sender ∈ v.tasks := by
        intro sender cmd member
        rw [(same_route first).tasks]
        exact alive sender cmd (List.mem_cons_of_mem e member)
      obtain ⟨t, done⟩ := ih v rest
      exact ⟨t, by rw [List.foldlM_cons, first]; exact done⟩
  obtain ⟨t, routed⟩ := routes s.controller.out s alive
  exact ⟨_, by rw [Server.deliver, routed]; rfl⟩

theorem deliver_total {s : Server}
    (quiet : ∀ e ∈ s.controller.out, ∀ sender cmd, e ≠ .temporary sender cmd) :
    ∃ t, s.deliver = some t :=
  deliver_alive fun sender cmd member => absurd rfl (quiet _ member sender cmd)

theorem flagged_say {conns : List Conn} {c d : Nat} {cmd : ControlCmdOut} :
    Flagged (conns.modify c fun conn =>
      if conn.reading then { conn with sent := conn.sent ++ [cmd] } else conn) d ↔
      Flagged conns d := by
  unfold Flagged
  simp only [List.getElem?_modify, Option.map_eq_map, Option.map_eq_some_iff]
  constructor
  · rintro ⟨_, ⟨conn, found, rfl⟩, flagged⟩
    refine ⟨conn, found, ?_⟩
    split at flagged
    · split at flagged <;> exact flagged
    · exact flagged
  · rintro ⟨conn, found, flagged⟩
    refine ⟨_, ⟨conn, found, rfl⟩, ?_⟩
    split
    · split <;> exact flagged
    · exact flagged

theorem same_say (c : Nat) (cmd : ControlCmdOut) (s : Server) : Same s (s.say c cmd) := by
  refine ⟨rfl, rfl, rfl, rfl, ?_, fun d => flagged_say.mpr⟩
  apply calm_modify
  intro conn _ flagged
  split at flagged
  · rename_i reading
    rw [if_pos reading]
    exact ⟨flagged, Or.inr rfl⟩
  · rename_i silent
    rw [if_neg silent]
    exact ⟨flagged, Or.inr rfl⟩

theorem says_controller (c : Nat) (cmds : List ControlCmdOut) (s : Server) :
    (cmds.foldl (fun s cmd => s.say c cmd) s).controller = s.controller := by
  induction cmds generalizing s with
  | nil => rfl
  | cons cmd cmds ih => exact ih (s.say c cmd)

theorem same_says (c : Nat) (cmds : List ControlCmdOut) (s : Server) :
    Same s (cmds.foldl (fun s cmd => s.say c cmd) s) := by
  induction cmds generalizing s with
  | nil => exact same_refl s
  | cons cmd cmds ih => exact same_trans (same_say c cmd s) (ih _)

end Control
