import WindowsGaming.Library.Journals
import WindowsGaming.EntryChannels

/- The temporary entries as a machine of their own. Every step of the control server is one
   turn of it, which is all that the results about entries need to know of the server. -/
namespace EntryDesk
open Config Protocol Controller Ownership Outbox Control TemporaryEntry EntryChannels

/-- The temporary entries as the control server shows them: the current one, whom each was
    granted to, what the connections heard and the tasks with what their channels hold. -/
structure Desk where
  entry : Option Nat
  granted : List Nat
  conns : List Conn
  forwarders : List Forwarder
  deriving DecidableEq, Repr

def desk (s : Server) : Desk := ⟨s.entry, s.granted, s.conns.map settled, s.forwarders⟩

def Desk.tell (c : Nat) (cmds : List ControlCmdOut) (d : Desk) : Desk :=
  { d with conns := d.conns.modify c (hear cmds) }

def Desk.hangUp (c : Nat) (d : Desk) : Desk :=
  { d with conns := d.conns.modify c fun conn => { conn with reading := false } }

def requestOp : ControlCmdIn → Option Op
  | .ioEntry => some .ioAttach
  | .shutdown => some .shutdown
  | .forceIoEntry => some .ioForceAttach
  | .ioExit => some .ioDetach
  | .tryIoEntry => some .tryAttach
  | .lightEntry => some .lightAttach
  | _ => none

def isFree (s : Server) (c : Nat) : Bool :=
  s.conns[c]?.any fun conn => conn.listens && !conn.tempEntry

def upgrades (s : Server) : Event → Bool
  | .call _ op => forcesAttach s.controller op
  | .request _ c req => isFree s c && (requestOp req).any fun op => forcesAttach s.controller op
  | _ => false

/-- What one step can do to the temporary entries. -/
inductive Turn (s : Server) : Event → Desk → Prop where
  | accept : Turn s .accept { desk s with conns := (desk s).conns ++ [.new] }
  | work {e : Event} (entry : Option Nat) (ms : List (Nat × ControlCmdOut))
      (kept : ∀ k, entry = some k → s.entry = some k)
      (posted : ∀ m ∈ ms, s.entry = some m.1 ∧
        (isEdge m.2 = true ∨ m.2 = .temporaryLightDetached ∧ upgrades s e = true))
      (plain : grants s e = false ∧ ∀ c k, e ≠ .close c ∧ e ≠ .poll k) :
      Turn s e { desk s with entry, forwarders := s.forwarders.map (receive ms) }
  | refuse {env : Env} {c : Nat} {x y : Int32} (free : isFree s c = true)
      (refused : grants s (.request env c (.temporaryLightEntry x y)) = false) :
      Turn s (.request env c (.temporaryLightEntry x y)) ((desk s).hangUp c)
  | exit {env : Env} {c : Nat} {req : ControlCmdIn} (f : Conn → Conn)
      (busy : isFree s c = false)
      (leaves : ∀ conn, f conn = { conn with tempEntry := false } ∨
        f conn = { conn with reading := false }) :
      Turn s (.request env c req) { desk s with entry := none, conns := (desk s).conns.modify c f }
  | grant {env : Env} {c : Nat} {x y : Int32} (free : isFree s c = true)
      (granted : grants s (.request env c (.temporaryLightEntry x y)) = true) :
      Turn s (.request env c (.temporaryLightEntry x y))
        { entry := some s.granted.length
          granted := s.granted ++ [c]
          conns := (desk s).conns.modify c fun conn =>
            { conn with tempEntry := true, sent := conn.sent ++ [.temporaryLightAttached] }
          forwarders := s.forwarders ++ [⟨s.granted.length, c, []⟩] }
  | close {c : Nat} (reading : s.isReading c = true) : Turn s (.close c) ((desk s).hangUp c)
  | forward {f : Forwarder} (found : s.forwarders.find? (fun g => g.entry = f.entry) = some f)
      (goesOn : s.finishes f = false) :
      Turn s (.poll f.entry)
        { (desk s).tell f.conn f.pending with
          forwarders := s.forwarders.map fun g =>
            if g.entry = f.entry then { g with pending := [] } else g }
  | finish {f : Forwarder} (found : s.forwarders.find? (fun g => g.entry = f.entry) = some f)
      (finishes : s.finishes f = true) :
      Turn s (.poll f.entry)
        { (desk s).tell f.conn (f.pending ++ [.temporaryLightDetached]) with
          entry := none
          forwarders := s.forwarders.filter fun g => g.entry ≠ f.entry }
  | acked {ack c : Nat} : Turn s (.acked ack) ((desk s).tell c [.ack])

section Turns
variable {s t : Server} {env : Env} {op : Op}

theorem hear_settled (cmds : List ControlCmdOut) (conn : Conn) :
    settled (hear cmds conn) = hear cmds (settled conn) := by
  unfold hear settled
  split <;> rfl

theorem hear_hear (cmds more : List ControlCmdOut) (conn : Conn) :
    hear more (hear cmds conn) = hear (cmds ++ more) conn := by
  unfold hear
  by_cases reading : conn.reading = true <;> simp [reading]

theorem hear_nil (conn : Conn) : hear [] conn = conn := by simp [hear]

theorem desk_updateConn {c : Nat} {f g : Conn → Conn}
    (same : ∀ conn, settled (f conn) = g (settled conn)) (s : Server) :
    desk (s.updateConn c f) = { desk s with conns := (desk s).conns.modify c g } :=
  congrArg (fun conns => (⟨s.entry, s.granted, conns, s.forwarders⟩ : Desk))
    (map_modify settled f g same s.conns c)

theorem desk_still {c : Nat} {f : Conn → Conn} (same : ∀ conn, settled (f conn) = settled conn)
    (s : Server) : desk (s.updateConn c f) = desk s := by
  rw [desk_updateConn (g := id) same, List.modify_id]

theorem desk_hangUp (c : Nat) (s : Server) : desk (s.hangUp c) = (desk s).hangUp c :=
  desk_updateConn (f := fun conn => { conn with reading := false })
    (g := fun conn => { conn with reading := false }) (fun _ => rfl) s

theorem desk_say (c : Nat) (cmd : ControlCmdOut) (s : Server) :
    desk (s.say c cmd) = (desk s).tell c [cmd] :=
  desk_updateConn (hear_settled [cmd]) s

theorem tell_tell (c : Nat) (cmds more : List ControlCmdOut) (d : Desk) :
    (d.tell c cmds).tell c more = d.tell c (cmds ++ more) := by
  have both : hear more ∘ hear cmds = hear (cmds ++ more) := funext (hear_hear cmds more)
  unfold Desk.tell
  rw [List.modify_modify_eq, both]

theorem desk_says (c : Nat) (cmds : List ControlCmdOut) (s : Server) :
    desk (cmds.foldl (fun s cmd => s.say c cmd) s) = (desk s).tell c cmds := by
  induction cmds generalizing s with
  | nil =>
    have nothing : hear [] = (id : Conn → Conn) := funext hear_nil
    unfold Desk.tell
    rw [nothing, List.modify_id]
    rfl
  | cons cmd cmds ih => rw [List.foldl_cons, ih, desk_say, tell_tell, List.singleton_append]

theorem desk_handed {ms : List (Nat × ControlCmdOut)} (handed : HandedOn ms s t) :
    desk t = { desk s with forwarders := s.forwarders.map (receive ms) } := by
  unfold desk
  rw [handed.entry, handed.granted, handed.conns, handed.forwarders]

theorem desk_quiet (handed : HandedOn [] s t) : desk t = desk s := by
  rw [desk_handed handed, (handedOn_nothing s).forwarders.symm]
  rfl

theorem call_desk (nothing : s.controller.out = []) (called : s.call env op = some t) :
    desk t = { desk s with
      entry := currentEntry (step env op s.controller).ioState
      forwarders := s.forwarders.map (receive (posts s.controller op)) } ∧
      t.controller.out = [] := by
  obtain ⟨handed, empty⟩ := handedOn_deliver called
  rw [toEntries_added (step_adds env op s.controller) nothing] at handed
  exact ⟨desk_handed handed, empty⟩

theorem turn_call {e : Event} (nothing : s.controller.out = [])
    (other : ∀ sender x y, op ≠ .temporaryEntry sender x y)
    (forces : forcesAttach s.controller op = true → upgrades s e = true)
    (plain : grants s e = false ∧ ∀ c k, e ≠ .close c ∧ e ≠ .poll k)
    (called : s.call env op = some t) : Turn s e (desk t) ∧ t.controller.out = [] := by
  obtain ⟨moved, empty⟩ := call_desk nothing called
  refine ⟨?_, empty⟩
  rw [moved]
  refine .work _ _ (step_entry s.controller other) ?_ plain
  intro m posted
  obtain ⟨current, edge | ⟨detached, forced⟩⟩ := mem_posts posted
  · exact ⟨current, Or.inl edge⟩
  · exact ⟨current, Or.inr ⟨detached, forces forced⟩⟩

theorem conns_desk (c : Nat) (s : Server) : (desk s).conns[c]? = s.conns[c]?.map settled :=
  List.getElem?_map

theorem exit_desk {c : Nat} {f : Conn → Conn}
    (handed : HandedOn [] ((s.temporaryExit (.reader c)).updateConn c f) t)
    (same : ∀ conn, settled (f conn) = f (settled conn)) :
    desk t = { desk s with entry := none, conns := (desk s).conns.modify c f } := by
  have ended : (s.temporaryExit (.reader c)).entry = none := temporaryExit_entry s.controller
  have exited : desk (s.temporaryExit (.reader c)) = { desk s with entry := none } := by
    unfold desk
    rw [ended]
    rfl
  rw [desk_quiet handed, desk_updateConn same, exited]

theorem temporaryExit_quiet {c : Controller} (nothing : c.out = []) :
    toEntries c.temporaryExit.out = [] :=
  toEntries_added (adds_temporaryExit c) nothing

theorem isFree_of_busy {c : Nat} {conn : Conn} (found : s.conns[c]? = some conn)
    (flag : conn.tempEntry = true) : isFree s c = false := by
  simp [isFree, found, flag]

theorem isFree_of_free {c : Nat} {conn : Conn} (found : s.conns[c]? = some conn)
    (listens : conn.listens = true) (flag : conn.tempEntry = false) : isFree s c = true := by
  simp [isFree, found, listens, flag]

theorem turn_exit {c : Nat} {conn : Conn} {req : ControlCmdIn} (nothing : s.controller.out = [])
    (found : s.conns[c]? = some conn) (listens : conn.listens = true) (flag : conn.tempEntry = true)
    (taken : s.request env c req = some t) :
    Turn s (.request env c req) (desk t) ∧ t.controller.out = [] := by
  have busy := isFree_of_busy found flag
  simp only [Server.request, found, listens, flag, if_true] at taken
  split at taken
  · obtain ⟨handed, empty⟩ := handedOn_quiet taken (temporaryExit_quiet nothing)
    refine ⟨?_, empty⟩
    rw [exit_desk handed fun _ => rfl]
    exact .exit _ busy fun _ => Or.inl rfl
  · obtain ⟨handed, empty⟩ := handedOn_quiet taken (temporaryExit_quiet nothing)
    refine ⟨?_, empty⟩
    rw [exit_desk handed fun _ => rfl]
    exact .exit _ busy fun _ => Or.inr rfl

theorem turn_temporaryEntry {c : Nat} {conn : Conn} {x y : Int32} (nothing : s.controller.out = [])
    (found : s.conns[c]? = some conn) (listens : conn.listens = true) (flag : conn.tempEntry = false)
    (taken : s.temporaryEntry env c x y = some t) :
    Turn s (.request env c (.temporaryLightEntry x y)) (desk t) ∧ t.controller.out = [] := by
  have free := isFree_of_free found listens flag
  have spec := temporaryEntry_spec s.controller env s.granted.length x y
  have quiet : toEntries (s.controller.temporaryEntry env s.granted.length x y).1.out = [] :=
    toEntries_added (adds_temporaryEntry env s.granted.length x y s.controller) nothing
  simp only [Server.temporaryEntry] at taken
  split at spec
  · rename_i idle
    obtain ⟨res, state⟩ := spec
    simp only [res, if_true] at taken
    obtain ⟨handed, empty⟩ := handedOn_quiet taken quiet
    refine ⟨?_, empty⟩
    rw [desk_quiet handed]
    have granted : grants s (.request env c (.temporaryLightEntry x y)) = true := by
      simpa [grants, found, listens, flag] using idle
    have current : currentEntry (s.controller.temporaryEntry env s.granted.length x y).1.ioState =
        some s.granted.length := congrArg currentEntry state
    rw [desk_updateConn (g := fun conn =>
      { conn with tempEntry := true, sent := conn.sent ++ [.temporaryLightAttached] }) fun _ => rfl]
    unfold desk Server.entry
    simp only [current]
    exact .grant free granted
  · rename_i busy
    simp only [spec, Bool.false_eq_true, if_false] at taken
    obtain ⟨handed, empty⟩ := handedOn_quiet taken (congrArg toEntries nothing)
    refine ⟨?_, empty⟩
    rw [desk_quiet handed]
    have refused : grants s (.request env c (.temporaryLightEntry x y)) = false := by
      by_contra granted
      exact busy (by simpa [grants, found, listens, flag] using granted)
    rw [desk_hangUp]
    exact .refuse free refused

theorem turn_idle {e : Event} (same : desk t = desk s)
    (plain : grants s e = false ∧ ∀ c k, e ≠ .close c ∧ e ≠ .poll k) : Turn s e (desk t) := by
  have worked := Turn.work s.entry [] (fun _ on => on) (by simp) plain
  rw [← (handedOn_nothing s).forwarders] at worked
  rw [same]
  exact worked

theorem turn_suspend {c : Nat} (nothing : s.controller.out = [])
    (taken : s.suspend c = some t) :
    Turn s (.request env c .suspend) (desk t) ∧ t.controller.out = [] := by
  have state := suspend_ioState s.controller
  have quiet : toEntries s.controller.suspend.1.out = [] :=
    toEntries_added (step_adds .bare .suspend s.controller) nothing
  have kept : desk { s with controller := s.controller.suspend.1 } = desk s := by
    unfold desk Server.entry
    rw [state]
  have plain : grants s (.request env c .suspend) = false ∧
      ∀ k l, Event.request env c .suspend ≠ .close k ∧ Event.request env c .suspend ≠ .poll l :=
    ⟨rfl, by simp⟩
  simp only [Server.suspend] at taken
  cases future : s.controller.suspend.2 with
  | ready =>
    simp only [future] at taken
    obtain ⟨handed, empty⟩ := handedOn_quiet taken quiet
    exact ⟨turn_idle ((desk_quiet handed).trans kept) plain, empty⟩
  | waiting receiver =>
    simp only [future] at taken
    obtain ⟨handed, empty⟩ := handedOn_quiet taken quiet
    refine ⟨turn_idle ?_ plain, empty⟩
    have waits := desk_still (c := c) (f := fun conn => { conn with waiting := some receiver })
      (fun _ => rfl) { s with controller := s.controller.suspend.1 }
    rw [desk_quiet handed, waits]
    exact kept

theorem turn_backup {c : Nat} {op : Nat → Op} {e : Event} (nothing : s.controller.out = [])
    (silent : ∀ k d, posts d (op k) = []) (still : ∀ k d, (step env (op k) d).ioState = d.ioState)
    (plain : grants s e = false ∧ ∀ c k, e ≠ .close c ∧ e ≠ .poll k)
    (taken : s.backup env c op = some t) : Turn s e (desk t) ∧ t.controller.out = [] := by
  obtain ⟨moved, empty⟩ := call_desk (s := { s with
    controller := { s.controller with oneshots := s.controller.oneshots + 1 }
    acks := s.acks ++ [(s.controller.oneshots, c)] }) nothing taken
  refine ⟨turn_idle ?_ plain, empty⟩
  rw [moved, silent, still, ← (handedOn_nothing _).forwarders]
  rfl

theorem turn_request {c : Nat} {conn : Conn} {req : ControlCmdIn} (nothing : s.controller.out = [])
    (found : s.conns[c]? = some conn) (listens : conn.listens = true) (flag : conn.tempEntry = false)
    (taken : s.request env c req = some t) :
    Turn s (.request env c req) (desk t) ∧ t.controller.out = [] := by
  have free := isFree_of_free found listens flag
  simp only [Server.request, found, listens, flag, if_true] at taken
  have called : ∀ op, requestOp req = some op → s.call env op = some t →
      Turn s (.request env c req) (desk t) ∧ t.controller.out = [] := by
    intro op asked called
    refine turn_call nothing ?_ ?_ ?_ called
    · rintro sender x y rfl
      cases req <;> simp [requestOp] at asked
    · intro forces
      simp [upgrades, free, asked, forces]
    · exact ⟨by cases req <;> first | rfl | simp [requestOp] at asked, by simp⟩
  cases req with
  | suspend => exact turn_suspend nothing taken
  | temporaryLightEntry x y => exact turn_temporaryEntry nothing found listens flag taken
  | enterBackupMode => exact turn_backup nothing (fun _ _ => rfl) (fun _ _ => rfl) ⟨rfl, by simp⟩ taken
  | leaveBackupMode => exact turn_backup nothing (fun _ _ => rfl) (fun _ _ => rfl) ⟨rfl, by simp⟩ taken
  | _ => exact called _ rfl taken

theorem turn_poll {f : Forwarder} (nothing : s.controller.out = [])
    (found : s.forwarders.find? (fun g => g.entry = f.entry) = some f)
    (taken : s.poll f.entry = some t) :
    Turn s (.poll f.entry) (desk t) ∧ t.controller.out = [] := by
  have told := desk_says f.conn f.pending s
  have controller := says_controller f.conn f.pending s
  simp only [Server.poll, found] at taken
  generalize f.pending.foldl (fun s cmd => s.say f.conn cmd) s = forwarded at taken told controller
  split at taken
  · rename_i finishes
    have quiet : toEntries forwarded.controller.temporaryExit.out = [] :=
      temporaryExit_quiet (by rw [controller]; exact nothing)
    obtain ⟨handed, empty⟩ := handedOn_quiet taken quiet
    refine ⟨?_, empty⟩
    have ended : desk (Server.temporaryExit (.forwarder f.entry)
        { forwarded with forwarders := s.forwarders.filter fun g => g.entry ≠ f.entry }) =
        { desk forwarded with
          entry := none
          forwarders := s.forwarders.filter fun g => g.entry ≠ f.entry } := by
      have exited : currentEntry forwarded.controller.temporaryExit.ioState = none :=
        temporaryExit_entry forwarded.controller
      unfold desk Server.entry Server.temporaryExit
      rw [exited]
    rw [desk_quiet handed, desk_say, ended, told]
    have finished := Turn.finish found finishes
    rw [← tell_tell] at finished
    exact finished
  · rename_i goesOn
    cases taken
    refine ⟨?_, controller ▸ nothing⟩
    have cleared : desk { forwarded with forwarders := s.forwarders.map fun g =>
        if g.entry = f.entry then { g with pending := [] } else g } =
        { desk forwarded with forwarders := s.forwarders.map fun g =>
            if g.entry = f.entry then { g with pending := [] } else g } := rfl
    rw [cleared, told]
    exact .forward found (Bool.eq_false_of_not_eq_true goesOn)

/-- Every step of the control server is one turn. -/
theorem serverStep_turn {e : Event} (nothing : s.controller.out = [])
    (taken : serverStep s e = some t) : Turn s e (desk t) ∧ t.controller.out = [] := by
  cases e with
  | accept =>
    cases taken
    refine ⟨?_, nothing⟩
    have entered : desk { s with conns := s.conns ++ [.new] } =
        { desk s with conns := (desk s).conns ++ [.new] } := by
      unfold desk
      rw [List.map_append]
      rfl
    rw [entered]
    exact .accept
  | request env c req =>
    cases found : s.conns[c]? with
    | none => simp [serverStep, Server.request, found] at taken
    | some conn =>
      cases listens : conn.listens with
      | false => simp [serverStep, Server.request, found, listens] at taken
      | true =>
        cases flag : conn.tempEntry with
        | true => exact turn_exit nothing found listens flag taken
        | false => exact turn_request nothing found listens flag taken
  | close c =>
    simp only [serverStep] at taken
    split at taken
    · rename_i reading
      cases taken
      refine ⟨?_, nothing⟩
      rw [desk_hangUp]
      exact .close reading
    · cases taken
  | poll entry =>
    obtain ⟨f, found, rfl⟩ := find_forwarder (poll_known taken)
    exact turn_poll nothing found taken
  | acked ack =>
    simp only [serverStep] at taken
    split at taken
    · cases taken
    · rename_i n c _
      cases taken
      refine ⟨?_, nothing⟩
      rw [desk_say]
      exact .acked
  | call env op =>
    simp only [serverStep] at taken
    split at taken
    · cases taken
    · rename_i other
      refine turn_call nothing ?_ (fun forces => forces) ⟨rfl, by simp⟩ taken
      rintro sender x y rfl
      exact other rfl

end Turns

structure Tidy (d : Desk) : Prop where
  known : ∀ f ∈ d.forwarders, d.granted[f.entry]? = some f.conn
  nodup : (d.forwarders.map Forwarder.entry).Nodup
  current : ∀ e, d.entry = some e → e ∈ d.forwarders.map Forwarder.entry
  seated : ∀ c ∈ d.granted, c < d.conns.length

def Desk.isReading (c : Nat) (d : Desk) : Bool := d.conns[c]?.any Conn.reading

section Tidiness
variable {s t : Server} {d : Desk}

theorem isReading_desk (c : Nat) (s : Server) : (desk s).isReading c = s.isReading c := by
  unfold Desk.isReading Server.isReading
  rw [conns_desk]
  cases s.conns[c]? <;> rfl

theorem isReading_modify (d : Desk) (c k : Nat) (g : Conn → Conn)
    (same : c = k → ∀ conn, (g conn).reading = conn.reading) :
    ({ d with conns := d.conns.modify k g } : Desk).isReading c = d.isReading c := by
  unfold Desk.isReading
  simp only [List.getElem?_modify]
  cases d.conns[c]? with
  | none => rfl
  | some conn =>
    by_cases here : k = c
    · simp [here, same here.symm]
    · simp [here]

theorem tidy_tasks (tidy : Tidy d) {entry : Option Nat} {conns : List Conn} {g : Forwarder → Forwarder}
    (same : ∀ f, (g f).entry = f.entry ∧ (g f).conn = f.conn)
    (kept : ∀ e, entry = some e → d.entry = some e) (grown : d.conns.length ≤ conns.length) :
    Tidy ⟨entry, d.granted, conns, d.forwarders.map g⟩ := by
  have tasks : (d.forwarders.map g).map Forwarder.entry = d.forwarders.map Forwarder.entry :=
    tasks_map fun f => (same f).1
  constructor
  · intro f member
    obtain ⟨old, oldMember, rfl⟩ := List.mem_map.mp member
    rw [(same old).1, (same old).2]
    exact tidy.known old oldMember
  · change ((d.forwarders.map g).map Forwarder.entry).Nodup
    rw [tasks]
    exact tidy.nodup
  · intro e on
    change e ∈ (d.forwarders.map g).map Forwarder.entry
    rw [tasks]
    exact tidy.current e (kept e on)
  · intro c member
    exact Nat.lt_of_lt_of_le (tidy.seated c member) grown

theorem tidy_conns (tidy : Tidy d) {entry : Option Nat} {conns : List Conn}
    (kept : ∀ e, entry = some e → d.entry = some e) (grown : d.conns.length ≤ conns.length) :
    Tidy { d with entry, conns } := by
  have tasks := tidy_tasks tidy (g := id) (fun _ => ⟨rfl, rfl⟩) kept grown
  rwa [List.map_id] at tasks

theorem tidy_grant {c : Nat} {conns : List Conn} (tidy : Tidy d) (here : c < d.conns.length)
    (grown : d.conns.length ≤ conns.length) :
    Tidy { entry := some d.granted.length
           granted := d.granted ++ [c]
           conns
           forwarders := d.forwarders ++ [⟨d.granted.length, c, []⟩] } := by
  have older : ∀ f ∈ d.forwarders, f.entry < d.granted.length := fun f member =>
    (List.getElem?_eq_some_iff.mp (tidy.known f member)).1
  constructor
  · intro f member
    rcases List.mem_append.mp member with old | new
    · exact Journals.getElem?_append_of_some _ (tidy.known f old)
    · rw [List.mem_singleton.mp new]
      simp
  · simp only [List.map_append, List.nodup_append]
    refine ⟨tidy.nodup, by simp, ?_⟩
    intro a old b new
    obtain ⟨f, member, rfl⟩ := List.mem_map.mp old
    rw [List.map_singleton] at new
    rw [List.mem_singleton.mp new]
    exact Nat.ne_of_lt (older f member)
  · rintro e ⟨⟩
    simp
  · intro k member
    rcases List.mem_append.mp member with old | new
    · exact Nat.lt_of_lt_of_le (tidy.seated k old) grown
    · rw [List.mem_singleton.mp new]
      exact Nat.lt_of_lt_of_le here grown

theorem isFree_conn {c : Nat} (free : isFree s c = true) :
    ∃ conn, (desk s).conns[c]? = some conn ∧ conn.reading = true ∧ conn.tempEntry = false := by
  obtain ⟨conn, found, both⟩ := (Option.any_eq_true _ _).mp free
  have split : conn.listens = true ∧ conn.tempEntry = false := by simpa using both
  exact ⟨settled conn, by rw [conns_desk, found]; rfl, (listens_spec split.1).1, split.2⟩

theorem tidy_turn {e : Event} {next : Desk} (tidy : Tidy (desk s)) (turn : Turn s e next) :
    Tidy next := by
  cases turn with
  | accept =>
    refine tidy_conns tidy (fun _ on => on) ?_
    rw [List.length_append]
    exact Nat.le_add_right _ _
  | work entry ms kept posted plain =>
    exact tidy_tasks tidy (fun _ => ⟨rfl, rfl⟩) kept (Nat.le_refl _)
  | refuse free refused => exact tidy_conns tidy (fun _ on => on) (by simp)
  | exit f busy leaves => exact tidy_conns tidy nofun (by simp)
  | grant free granted =>
    obtain ⟨conn, found, _⟩ := isFree_conn free
    exact tidy_grant tidy (List.getElem?_eq_some_iff.mp found).1 (by simp)
  | close reading => exact tidy_conns tidy (fun _ on => on) (by simp)
  | forward found goesOn =>
    refine tidy_tasks tidy ?_ (fun _ on => on) (by simp [Desk.tell])
    intro f
    split <;> exact ⟨rfl, rfl⟩
  | finish found finishes =>
    refine ⟨?_, ?_, nofun, ?_⟩
    · exact fun f member => tidy.known f (List.mem_filter.mp member).1
    · exact tidy.nodup.sublist (List.filter_sublist.map _)
    · intro c member
      simpa [Desk.tell] using tidy.seated c member
  | acked => exact tidy_conns tidy (fun _ on => on) (by simp)

theorem tidy_start (machine : MachineConfig) (hooks : HooksConfig) :
    Tidy (desk (start machine hooks)) :=
  ⟨nofun, List.nodup_nil, nofun, nofun⟩

end Tidiness
end EntryDesk
