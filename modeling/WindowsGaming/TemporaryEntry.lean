import WindowsGaming.Library.Journals
import WindowsGaming.Control

/- Who ends a temporary entry. Readers and forwarders call `temporary_exit` without saying
   which entry they mean. -/
namespace TemporaryEntry
open Config Protocol Controller Ownership Control

/-- A reader owns the entries granted to its connection, a forwarder the one it was
    spawned for. -/
def Owns (granted : List Nat) : Caller → Nat → Prop
  | .reader c, e => granted[e]? = some c
  | .forwarder entry, e => entry = e

instance (granted : List Nat) : ∀ (caller : Caller) (e : Nat), Decidable (Owns granted caller e)
  | .reader c, e => inferInstanceAs (Decidable (granted[e]? = some c))
  | .forwarder entry, e => inferInstanceAs (Decidable (entry = e))

/-- Every call of `temporary_exit` found no entry or one that its caller owns. -/
def OwnExits (s : Server) : Prop :=
  ∀ x ∈ s.exits, ∀ e ∈ x.ended, Owns s.granted x.caller e

instance : DecidablePred OwnExits := fun s =>
  inferInstanceAs (Decidable (∀ x ∈ s.exits, ∀ e ∈ x.ended, Owns s.granted x.caller e))

def grants (s : Server) : Event → Bool
  | .request _ c (.temporaryLightEntry _ _) =>
    s.conns[c]?.any (fun conn => conn.listens && !conn.tempEntry) &&
      (s.controller.ga = .up || s.controller.ga = .pinging) && s.controller.ioState = .detached
  | _ => false

/-- Nothing is left of earlier temporary entries: no running reader has its flag set and no
    forwarder is unfinished. -/
def clean (s : Server) : Bool := s.conns.all (fun conn => !conn.flagged) && s.forwarders.isEmpty

/-- A temporary entry is granted only when nothing is left of earlier ones. -/
def exclusive (s : Server) (e : Event) : Bool := !grants s e || clean s

structure Quiet (s t : Server) : Prop where
  entry : ∀ e, t.entry = some e → s.entry = some e
  granted : t.granted = s.granted
  exits : t.exits = s.exits
  tasks : t.tasks = s.tasks
  calm : Calm s.conns t.conns

def Calls (s : Server) : Caller → Prop
  | .reader c => Flagged s.conns c
  | .forwarder entry => entry ∈ s.tasks

structure Exited (caller : Caller) (s t : Server) : Prop where
  ended : t.entry = none
  granted : t.granted = s.granted
  exits : t.exits = s.exits ++ [⟨caller, s.entry⟩]
  tasks : ∀ entry ∈ t.tasks, entry ∈ s.tasks
  calm : Calm s.conns t.conns
  called : Calls s caller

structure Granted (c : Nat) (s t : Server) : Prop where
  entry : t.entry = some s.granted.length
  granted : t.granted = s.granted ++ [c]
  exits : t.exits = s.exits
  tasks : t.tasks = s.tasks ++ [s.granted.length]
  unflagged : ¬ Flagged s.conns c
  flags : ∀ d, Flagged t.conns d → d = c ∨ Flagged s.conns d
  ready : Ready s.conns → Ready t.conns
  keeps : ∀ d, Flagged s.conns d → Flagged t.conns d
  out : t.controller.out = []

section Steps
variable {s t u : Server} {env : Env} {op : Op}

theorem entry_same (same : Same s t) : t.entry = s.entry := congrArg currentEntry same.state

theorem quiet_of_same (same : Same s t) : Quiet s t where
  entry := fun _ on => (entry_same same).symm.trans on
  granted := same.granted
  exits := same.exits
  tasks := same.tasks
  calm := same.calm

theorem quiet_then (quiet : Quiet s t) (same : Same t u) : Quiet s u where
  entry := fun e on => quiet.entry e ((entry_same same).symm.trans on)
  granted := same.granted.trans quiet.granted
  exits := same.exits.trans quiet.exits
  tasks := same.tasks.trans quiet.tasks
  calm := calm_trans quiet.calm same.calm

theorem exited_then {caller : Caller} (exited : Exited caller s t) (same : Same t u) :
    Exited caller s u where
  ended := (entry_same same).trans exited.ended
  granted := same.granted.trans exited.granted
  exits := same.exits.trans exited.exits
  tasks := by
    rw [same.tasks]
    exact exited.tasks
  calm := calm_trans exited.calm same.calm
  called := exited.called

theorem step_entry (c : Controller) (other : ∀ sender x y, op ≠ .temporaryEntry sender x y) (e : Nat)
    (on : currentEntry (step env op c).ioState = some e) : currentEntry c.ioState = some e := by
  have moved := step_move env op c
  change currentEntry (view (step env op c)).state = some e at on
  generalize view (step env op c) = next at moved on
  cases moved with
  | stay => exact on
  | detach =>
    unfold Holder.detach at on
    split at on
    · exact on
    · cases on
    · cases on
  | force asked =>
    rw [force_state] at on
    cases on
  | light =>
    unfold Holder.light at on
    split at on
    · cases on
    · cases on
    · exact on
  | await asked down => cases on
  | grant sender x y asked idle => exact absurd asked (other sender x y)

theorem temporaryExit_entry (c : Controller) : currentEntry c.temporaryExit.ioState = none := by
  unfold temporaryExit
  split
  · rfl
  · rename_i notTemporary
    unfold currentEntry
    split
    · rename_i sender temporary
      exact absurd temporary (notTemporary sender)
    · rfl

theorem temporaryEntry_spec (c : Controller) (env : Env) (sender : Nat) (x y : Int32) :
    if (c.ga = .up ∨ c.ga = .pinging) ∧ c.ioState = .detached then
      (c.temporaryEntry env sender x y).2 = true ∧
        (c.temporaryEntry env sender x y).1.ioState = .temporaryLightEntry sender
    else c.temporaryEntry env sender x y = (c, false) := by
  unfold temporaryEntry
  cases ga : c.ga <;> cases state : c.ioState <;> simp

theorem quiet_call (other : ∀ sender x y, op ≠ .temporaryEntry sender x y)
    (called : s.call env op = some t) : Quiet s t := by
  have same := (same_deliver called).1
  have moved : Quiet s { s with controller := step env op s.controller } :=
    ⟨fun e on => step_entry s.controller other e on, rfl, rfl, rfl, calm_refl s.conns⟩
  exact quiet_then moved same

theorem quiet_hangUp (c : Nat) (s : Server) : Quiet s (s.hangUp c) := by
  refine ⟨fun _ on => on, rfl, rfl, rfl, ?_⟩
  apply calm_modify
  intro conn _ flagged
  simp [Conn.flagged] at flagged

theorem suspend_ioState (c : Controller) : c.suspend.1.ioState = c.ioState := by
  unfold suspend
  split
  · rfl
  · split <;> rfl

theorem quiet_suspend {c : Nat} {conn : Conn} (found : s.conns[c]? = some conn)
    (unflagged : conn.tempEntry = false) (taken : s.suspend c = some t) : Quiet s t := by
  have state := suspend_ioState s.controller
  have moved : Quiet s { s with controller := s.controller.suspend.1 } :=
    ⟨fun _ on => (congrArg currentEntry state).symm.trans on, rfl, rfl, rfl, calm_refl s.conns⟩
  simp only [Server.suspend] at taken
  cases future : s.controller.suspend.2 with
  | ready =>
    simp only [future] at taken
    exact quiet_then moved (same_deliver taken).1
  | waiting receiver =>
    simp only [future] at taken
    have waits : Calm s.conns (s.conns.modify c fun k => { k with waiting := some receiver }) := by
      apply calm_modify
      intro old here flagged
      cases found.symm.trans here
      simp [Conn.flagged, unflagged] at flagged
    have same := (same_deliver taken).1
    exact ⟨fun e on => moved.entry e ((entry_same same).symm.trans on), same.granted, same.exits,
      same.tasks, calm_trans waits same.calm⟩

theorem quiet_backup {c : Nat} {op : Nat → Op} (other : ∀ ack sender x y,
    op ack ≠ .temporaryEntry sender x y) (taken : s.backup env c op = some t) : Quiet s t := by
  have called := quiet_call (other _) taken
  exact ⟨called.entry, called.granted, called.exits, called.tasks, called.calm⟩

theorem exited_request {c : Nat} {conn : Conn} {req : ControlCmdIn}
    (found : s.conns[c]? = some conn) (listens : conn.listens = true)
    (flag : conn.tempEntry = true) (taken : s.request env c req = some t) :
    Exited (.reader c) s t := by
  have reading := (listens_spec listens).1
  have exits : Exited (.reader c) s (s.temporaryExit (.reader c)) :=
    { ended := temporaryExit_entry s.controller
      granted := rfl
      exits := rfl
      tasks := fun _ member => member
      calm := calm_refl s.conns
      called := ⟨conn, found, by simp [Conn.flagged, reading, flag]⟩ }
  simp only [Server.request, found, listens, flag, if_true] at taken
  have lowered : ∀ f : Conn → Conn, (∀ k, (f k).flagged = false) →
      Exited (.reader c) s ((s.temporaryExit (.reader c)).updateConn c f) := by
    intro f lowers
    refine ⟨exits.ended, exits.granted, exits.exits, exits.tasks, ?_, exits.called⟩
    apply calm_modify
    intro k _ flagged
    rw [lowers k] at flagged
    cases flagged
  split at taken
  · refine exited_then (lowered _ ?_) (same_deliver taken).1
    intro k
    simp [Conn.flagged]
  · refine exited_then (lowered _ ?_) (same_deliver taken).1
    intro k
    simp [Conn.flagged]

theorem poll_cases {f : Forwarder} (found : s.forwarders.find? (fun g => g.entry = f.entry) = some f)
    (taken : s.poll f.entry = some t) :
    if s.finishes f = true then Exited (.forwarder f.entry) s t else Quiet s t := by
  have member : f.entry ∈ s.tasks := List.mem_map_of_mem (List.mem_of_find?_eq_some found)
  have said := same_says f.conn f.pending s
  simp only [Server.poll, found] at taken
  generalize f.pending.foldl (fun s cmd => s.say f.conn cmd) s = forwarded at taken said
  split
  · rename_i finishes
    rw [if_pos finishes] at taken
    have finished : Exited (.forwarder f.entry) s (Server.temporaryExit (.forwarder f.entry)
        { forwarded with forwarders := s.forwarders.filter fun g => g.entry ≠ f.entry }) := by
      refine ⟨temporaryExit_entry forwarded.controller, said.granted, ?_, ?_, said.calm, member⟩
      · change forwarded.exits ++ [⟨_, forwarded.entry⟩] = _
        rw [said.exits, entry_same said]
      · intro k hk
        obtain ⟨g, kept, rfl⟩ := List.mem_map.mp hk
        exact List.mem_map.mpr ⟨g, (List.mem_filter.mp kept).1, rfl⟩
    exact exited_then finished
      (same_trans (same_say f.conn .temporaryLightDetached _) (same_deliver taken).1)
  · rename_i goesOn
    rw [if_neg goesOn] at taken
    cases taken
    have same : Same forwarded { forwarded with forwarders := s.forwarders.map fun g =>
        if g.entry = f.entry then { g with pending := [] } else g } := by
      refine ⟨rfl, rfl, rfl, ?_, calm_refl _, fun _ flagged => flagged⟩
      rw [said.tasks]
      apply tasks_map
      intro g
      split <;> rfl
    exact quiet_of_same (same_trans said same)

theorem find_forwarder {entry : Nat} (member : entry ∈ s.tasks) :
    ∃ f, s.forwarders.find? (fun g => g.entry = f.entry) = some f ∧ f.entry = entry := by
  obtain ⟨g, gMember, rfl⟩ := List.mem_map.mp member
  have found : (s.forwarders.find? fun f => f.entry = g.entry).isSome := by
    rw [List.find?_isSome]
    exact ⟨g, gMember, by simp⟩
  obtain ⟨f, found⟩ := Option.isSome_iff_exists.mp found
  have here : f.entry = g.entry := by simpa using List.find?_some found
  exact ⟨f, by rw [here]; exact found, here⟩

theorem poll_known {entry : Nat} (taken : s.poll entry = some t) : entry ∈ s.tasks := by
  by_contra unknown
  have nobody : (s.forwarders.find? fun f => f.entry = entry) = none := by
    rw [List.find?_eq_none]
    intro f member here
    exact unknown (List.mem_map.mpr ⟨f, member, by simpa using here⟩)
  simp [Server.poll, nobody] at taken

theorem quiet_request {c : Nat} {conn : Conn} {req : ControlCmdIn}
    (found : s.conns[c]? = some conn) (listens : conn.listens = true)
    (flag : conn.tempEntry = false) (other : ∀ x y, req ≠ .temporaryLightEntry x y)
    (taken : s.request env c req = some t) : Quiet s t := by
  simp only [Server.request, found, listens, flag, if_true] at taken
  cases req with
  | suspend => exact quiet_suspend found flag taken
  | temporaryLightEntry x y => exact absurd rfl (other x y)
  | enterBackupMode => exact quiet_backup (by simp) taken
  | leaveBackupMode => exact quiet_backup (by simp) taken
  | _ => exact quiet_call (by simp) taken

theorem temporaryEntry_cases {c : Nat} {conn : Conn} {x y : Int32}
    (found : s.conns[c]? = some conn) (listens : conn.listens = true)
    (flag : conn.tempEntry = false) (taken : s.temporaryEntry env c x y = some t) :
    if (s.controller.ga = .up ∨ s.controller.ga = .pinging) ∧ s.controller.ioState = .detached then
      Granted c s t
    else Quiet s t := by
  have spec := temporaryEntry_spec s.controller env s.granted.length x y
  simp only [Server.temporaryEntry] at taken
  split at spec
  · rename_i idle
    rw [if_pos idle]
    obtain ⟨res, state⟩ := spec
    simp only [res, if_true] at taken
    obtain ⟨same, out⟩ := same_deliver taken
    have unflagged : ¬ Flagged s.conns c := by
      rintro ⟨other, here, flagged⟩
      cases found.symm.trans here
      simp [Conn.flagged, flag] at flagged
    constructor
    · rw [entry_same same]
      exact congrArg currentEntry state
    · exact same.granted
    · exact same.exits
    · rw [same.tasks]
      simp [Server.updateConn, Server.tasks]
    · exact unflagged
    · intro d flagged
      by_cases here : d = c
      · exact Or.inl here
      · obtain ⟨other, at_d, flagged⟩ := calm_flagged same.calm flagged
        refine Or.inr ⟨other, ?_, flagged⟩
        simpa [Server.updateConn, List.getElem?_modify, Ne.symm here] using at_d
    · intro ready
      apply calm_ready same.calm
      intro d other at_d flagged
      by_cases here : d = c
      · subst here
        simp only [Server.updateConn, List.getElem?_modify, found] at at_d
        cases at_d
        exact (listens_spec listens).2
      · apply ready d other _ flagged
        simpa [Server.updateConn, List.getElem?_modify, Ne.symm here] using at_d
    · intro d flagged
      apply same.keeps
      have other : d ≠ c := fun here => unflagged (here ▸ flagged)
      obtain ⟨k, at_d, flag⟩ := flagged
      exact ⟨k, by simpa [Server.updateConn, List.getElem?_modify, Ne.symm other] using at_d, flag⟩
    · exact out
  · rename_i busy
    rw [if_neg busy]
    simp only [spec, Bool.false_eq_true, if_false] at taken
    exact quiet_then (quiet_hangUp c s) (same_deliver taken).1

/-- Every step is quiet, one call of `temporary_exit`, or a grant. -/
theorem serverStep_cases {e : Event} (taken : serverStep s e = some t) :
    if grants s e = true then ∃ c, Granted c s t else Quiet s t ∨ ∃ caller, Exited caller s t := by
  cases e with
  | accept =>
    cases taken
    refine Or.inl ⟨fun _ on => on, rfl, rfl, rfl, ?_⟩
    intro c conn found flagged
    rcases Journals.getElem?_concat_cases found with old | ⟨_, rfl⟩
    · exact ⟨conn, old, flagged, Or.inr rfl⟩
    · cases flagged
  | request env c req =>
    simp only [serverStep] at taken
    cases found : s.conns[c]? with
    | none => simp [Server.request, found] at taken
    | some conn =>
      cases listens : conn.listens with
      | false => simp [Server.request, found, listens] at taken
      | true =>
        cases flag : conn.tempEntry with
        | true =>
          have exited := exited_request found listens flag taken
          cases req <;> simp [grants, found, listens, flag] <;> exact Or.inr ⟨_, exited⟩
        | false =>
          cases req with
          | temporaryLightEntry x y =>
            simp only [Server.request, found, listens, flag, if_true] at taken
            have entered := temporaryEntry_cases found listens flag taken
            by_cases idle : (s.controller.ga = .up ∨ s.controller.ga = .pinging) ∧
                s.controller.ioState = .detached
            · rw [if_pos idle] at entered
              rw [if_pos (by simpa [grants, found, listens, flag] using idle)]
              exact ⟨c, entered⟩
            · rw [if_neg idle] at entered
              rw [if_neg (by simpa [grants, found, listens, flag] using idle)]
              exact Or.inl entered
          | _ => exact Or.inl (quiet_request found listens flag (by simp) taken)
  | close c =>
    simp only [serverStep] at taken
    split at taken
    · cases taken
      exact Or.inl (quiet_hangUp c s)
    · cases taken
  | poll entry =>
    obtain ⟨f, found, rfl⟩ := find_forwarder (poll_known taken)
    have polled := poll_cases found taken
    split at polled
    · exact Or.inr ⟨_, polled⟩
    · exact Or.inl polled
  | acked ack =>
    simp only [serverStep] at taken
    split at taken
    · cases taken
    · rename_i n c _
      cases taken
      have said := same_say c .ack { s with acks := s.acks.filter fun p => p.1 ≠ ack }
      exact Or.inl ⟨(quiet_of_same said).entry, said.granted, said.exits, said.tasks, said.calm⟩
  | call env op =>
    simp only [serverStep] at taken
    split at taken
    · cases taken
    · rename_i other
      refine Or.inl (quiet_call ?_ taken)
      rintro sender x y rfl
      exact other rfl

end Steps

structure Owned (s : Server) : Prop where
  readers : ∀ c, Flagged s.conns c → ∀ e, s.entry = some e → s.granted[e]? = some c
  forwarders : ∀ entry ∈ s.tasks, ∀ e, s.entry = some e → entry = e
  exits : OwnExits s
  ready : Ready s.conns
  bounded : ∀ entry ∈ s.tasks, entry < s.granted.length

theorem owned_start (machine : MachineConfig) (hooks : HooksConfig) : Owned (start machine hooks) where
  readers := by simp [Flagged, start]
  forwarders := by simp [Server.tasks, start]
  exits := by simp [OwnExits, start]
  ready := by simp [Ready, start]
  bounded := by simp [Server.tasks, start]

section Owners
variable {s t : Server}

theorem owned_quiet (owned : Owned s) (quiet : Quiet s t) : Owned t where
  readers := by
    intro c flagged e on
    rw [quiet.granted]
    exact owned.readers c (calm_flagged quiet.calm flagged) e (quiet.entry e on)
  forwarders := by
    intro entry member e on
    rw [quiet.tasks] at member
    exact owned.forwarders entry member e (quiet.entry e on)
  exits := by
    unfold OwnExits
    rw [quiet.exits, quiet.granted]
    exact owned.exits
  ready := calm_ready quiet.calm owned.ready
  bounded := by
    rw [quiet.tasks, quiet.granted]
    exact owned.bounded

theorem owned_exited {caller : Caller} (owned : Owned s) (exited : Exited caller s t) : Owned t where
  readers := by
    intro c _ e on
    rw [exited.ended] at on
    cases on
  forwarders := by
    intro entry _ e on
    rw [exited.ended] at on
    cases on
  exits := by
    intro x member e ended
    rw [exited.granted]
    rw [exited.exits] at member
    rcases List.mem_append.mp member with old | new
    · exact owned.exits x old e ended
    · rw [List.mem_singleton.mp new] at ended ⊢
      have called := exited.called
      cases caller with
      | reader c => exact owned.readers c called e ended
      | forwarder entry => exact owned.forwarders entry called e ended
  ready := calm_ready exited.calm owned.ready
  bounded := by
    intro entry member
    rw [exited.granted]
    exact owned.bounded entry (exited.tasks entry member)

theorem ownExits_granted {c : Nat} (own : OwnExits s) (granted : Granted c s t) : OwnExits t := by
  intro x member e ended
  rw [granted.exits] at member
  have before := own x member e ended
  cases caller : x.caller with
  | reader d =>
    rw [caller] at before
    change t.granted[e]? = some d
    rw [granted.granted]
    exact Journals.getElem?_append_of_some _ before
  | forwarder entry =>
    rw [caller] at before
    exact before

theorem clean_iff : clean s = true ↔ (∀ c, ¬ Flagged s.conns c) ∧ s.tasks = [] := by
  simp only [clean, Bool.and_eq_true, List.all_eq_true, List.isEmpty_iff, Server.tasks,
    List.map_eq_nil_iff, Bool.not_eq_true']
  apply and_congr_left
  intro _
  constructor
  · rintro lowered c ⟨conn, found, flagged⟩
    rw [lowered conn (List.mem_of_getElem? found)] at flagged
    cases flagged
  · intro unflagged conn member
    obtain ⟨c, found⟩ := List.getElem?_of_mem member
    by_contra flagged
    exact unflagged c ⟨conn, found, Bool.eq_true_of_not_eq_false flagged⟩

theorem owned_granted {c : Nat} (owned : Owned s) (cleared : clean s = true)
    (granted : Granted c s t) : Owned t where
  readers := by
    intro d flagged e on
    rw [granted.entry] at on
    cases on
    rcases granted.flags d flagged with rfl | old
    · rw [granted.granted]
      simp
    · exact absurd old ((clean_iff.mp cleared).1 d)
  forwarders := by
    intro entry member e on
    rw [granted.entry] at on
    cases on
    rw [granted.tasks, (clean_iff.mp cleared).2] at member
    exact List.mem_singleton.mp member
  exits := ownExits_granted owned.exits granted
  ready := granted.ready owned.ready
  bounded := by
    intro entry member
    rw [granted.tasks, (clean_iff.mp cleared).2] at member
    rw [List.mem_singleton.mp member, granted.granted]
    simp

theorem owned_step {e : Event} (owned : Owned s) (ok : exclusive s e = true)
    (taken : serverStep s e = some t) : Owned t := by
  have steps := serverStep_cases taken
  split at steps
  · rename_i grant
    obtain ⟨c, granted⟩ := steps
    exact owned_granted owned (by simpa [exclusive, grant] using ok) granted
  · rcases steps with quiet | ⟨caller, exited⟩
    · exact owned_quiet owned quiet
    · exact owned_exited owned exited

theorem temporaryExit_out {c : Controller} (nothing : c.out = []) :
    ∀ e ∈ c.temporaryExit.out, ∀ sender cmd, e ≠ .temporary sender cmd := by
  have detached : ∀ e ∈ c.ioDetach.out, ∀ sender cmd, e ≠ .temporary sender cmd := by
    intro e member sender cmd same
    subst same
    cases state : c.ioState <;>
      simp [ioDetach, state, runHook, emitAll, emit, toMonitor, suspendInput, nothing] at member
  unfold temporaryExit
  split
  · exact detached
  · rw [nothing]
    simp

theorem leftover_reader {c d : Nat} (env : Env) (ready : Ready s.conns) (granted : Granted c s t)
    (leftover : Flagged s.conns d) :
    ∃ u, serverStep t (.request env d .ioExit) = some u ∧ ¬ OwnExits u := by
  obtain ⟨conn, found, flagged⟩ := granted.keeps d leftover
  have waiting := granted.ready ready d conn found flagged
  have flags : conn.reading = true ∧ conn.tempEntry = true := by
    simpa [Conn.flagged] using flagged
  have listens : conn.listens = true := by simp [Conn.listens, flags.1, waiting]
  obtain ⟨u, delivered⟩ := deliver_total (s := (t.temporaryExit (.reader d)).updateConn d
    fun conn => { conn with tempEntry := false }) (temporaryExit_out granted.out)
  have taken : t.request env d .ioExit = some u := by
    simp only [Server.request, found, listens, flags.2, if_true]
    exact delivered
  have exited := exited_request found listens flags.2 taken
  refine ⟨u, taken, ?_⟩
  intro own
  have mine : u.granted[s.granted.length]? = some d :=
    own ⟨.reader d, t.entry⟩ (by simp [exited.exits]) _ granted.entry
  rw [exited.granted, granted.granted] at mine
  have other : d = c := by simpa using mine.symm
  exact granted.unflagged (other ▸ leftover)

theorem leftover_forwarder {c entry : Nat} (bounded : entry < s.granted.length)
    (granted : Granted c s t) (leftover : entry ∈ s.tasks) :
    ∃ u, serverStep t (.poll entry) = some u ∧ ¬ OwnExits u := by
  have member : entry ∈ t.tasks := by
    rw [granted.tasks]
    exact List.mem_append_left _ leftover
  have other : t.entry ≠ some entry := by
    rw [granted.entry]
    intro same
    cases same
    omega
  obtain ⟨f, found, rfl⟩ := find_forwarder member
  have finishes : t.finishes f = true := by simp [Server.finishes, other]
  have nothing : (f.pending.foldl (fun s cmd => s.say f.conn cmd) t).controller.out = [] := by
    rw [says_controller]
    exact granted.out
  obtain ⟨u, delivered⟩ := deliver_total (s := (Server.temporaryExit (.forwarder f.entry)
    { f.pending.foldl (fun s cmd => s.say f.conn cmd) t with
      forwarders := t.forwarders.filter fun g => g.entry ≠ f.entry }).say f.conn
        .temporaryLightDetached) (temporaryExit_out nothing)
  have taken : t.poll f.entry = some u := by
    simp only [Server.poll, found, finishes, if_true]
    exact delivered
  have exited := poll_cases found taken
  rw [if_pos finishes] at exited
  refine ⟨u, taken, ?_⟩
  intro own
  have mine : f.entry = s.granted.length :=
    own ⟨.forwarder f.entry, t.entry⟩ (by simp [exited.exits]) _ granted.entry
  omega

/-- After a grant that finds something left of an earlier entry, one more step can end the
    new entry for somebody who does not own it. -/
theorem leftover_exit {e : Event} (owned : Owned s) (left : exclusive s e = false)
    (taken : serverStep s e = some t) : ∃ next u, serverStep t next = some u ∧ ¬ OwnExits u := by
  have grant : grants s e = true ∧ clean s = false := by simpa [exclusive] using left
  have steps := serverStep_cases taken
  rw [if_pos grant.1] at steps
  obtain ⟨c, granted⟩ := steps
  have unclean : ¬ ((∀ d, ¬ Flagged s.conns d) ∧ s.tasks = []) := by
    rw [← clean_iff, grant.2]
    simp
  by_cases idle : s.tasks = []
  · have flagged : ∃ d, Flagged s.conns d := by
      by_contra none
      exact unclean ⟨not_exists.mp none, idle⟩
    obtain ⟨d, leftover⟩ := flagged
    cases e with
    | request env _ _ => exact ⟨_, leftover_reader env owned.ready granted leftover⟩
    | _ => cases grant.1
  · obtain ⟨entry, leftover⟩ := List.exists_mem_of_ne_nil _ idle
    exact ⟨_, leftover_forwarder (owned.bounded entry leftover) granted leftover⟩

end Owners

/-- No reader and no forwarder ever ends an entry that it does not own in a run that grants
    an entry only when nothing is left of earlier ones. After any other grant one step can. -/
theorem temporary_exit_owned (machine : MachineConfig) (hooks : HooksConfig) (es : List Event)
    (clear : Runs.Meets serverStep (fun s e => exclusive s e = true) (start machine hooks) es) :
    Runs.Always serverStep OwnExits (start machine hooks) es ∧
      ∀ s e t, Runs.run serverStep (start machine hooks) es = some s → exclusive s e = false →
        serverStep s e = some t → ∃ next u, serverStep t next = some u ∧ ¬ OwnExits u := by
  have owned : Runs.Always serverStep Owned (start machine hooks) es :=
    Runs.always_of_invariant Owned (fun _ _ _ => owned_step) (owned_start machine hooks) clear
  refine ⟨Runs.always_mono (fun _ owned => owned.exits) owned, ?_⟩
  intro s e t reached left taken
  exact leftover_exit (Runs.always_last owned reached) left taken

theorem owned_in_turn :
    Runs.Always serverStep OwnExits (start .bare .bare)
      [.call .bare .gaHello, .accept, .request .bare 0 (.temporaryLightEntry 1 2),
        .request .bare 0 .ioExit, .poll 0, .request .bare 0 (.temporaryLightEntry 3 4),
        .close 0, .call .bare (.mouseEdged 5 6), .poll 1] :=
  (temporary_exit_owned .bare .bare _ (by decide +kernel)).1

/-- Three requests handled in one go: the forwarder of the first entry ends the second. -/
theorem ended_by_leftover :
    ¬ Runs.Always serverStep OwnExits (start .bare .bare)
      [.call .bare .gaHello, .accept, .request .bare 0 (.temporaryLightEntry 1 2),
        .request .bare 0 .ioExit, .request .bare 0 (.temporaryLightEntry 3 4), .poll 0] := by
  decide +kernel

end TemporaryEntry
