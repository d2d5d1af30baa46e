import WindowsGaming.EntryDesk

/- The controller sends to temporary entries without looking whether anybody receives. -/
namespace EntrySafety
open Config Protocol Controller Outbox Control TemporaryEntry EntryChannels EntryDesk

def enabled (s : Server) : Event → Bool
  | .accept => true
  | .request _ c _ => s.conns[c]?.any Conn.listens
  | .close c => s.isReading c
  | .poll entry => decide (entry ∈ s.tasks)
  | .acked ack => (s.acks.find? fun p => p.1 = ack).isSome
  | .call _ op => !isTemporary op

/-- The task of the current entry is alive, and no step that can happen fails. -/
structure NeverPanics (s : Server) : Prop where
  alive : ∀ sender, s.controller.ioState = .temporaryLightEntry sender → sender ∈ s.tasks
  steps : ∀ e, enabled s e = true → (serverStep s e).isSome = true

structure Alive (s : Server) : Prop where
  tasks : ∀ e, s.entry = some e → e ∈ s.tasks
  handedOn : s.controller.out = []

section Safety
variable {s t : Server} {env : Env} {op : Op}

theorem alive_start (machine : MachineConfig) (hooks : HooksConfig) : Alive (start machine hooks) :=
  ⟨nofun, rfl⟩

theorem alive_step {e : Event} (alive : Alive s) (taken : serverStep s e = some t) : Alive t := by
  refine ⟨?_, (serverStep_turn alive.handedOn taken).2⟩
  intro entry on
  have steps := serverStep_cases taken
  split at steps
  · obtain ⟨c, granted⟩ := steps
    rw [granted.entry] at on
    cases on
    rw [granted.tasks]
    simp
  · rcases steps with quiet | ⟨caller, exited⟩
    · rw [quiet.tasks]
      exact alive.tasks entry (quiet.entry entry on)
    · rw [exited.ended] at on
      cases on

theorem deliver_quiet (quiet : toEntries s.controller.out = []) : s.deliver.isSome = true := by
  have nothing : ∀ sender cmd, .temporary sender cmd ∈ s.controller.out → sender ∈ s.tasks := by
    intro sender cmd told
    have posted := mem_toEntries told
    rw [quiet] at posted
    cases posted
  obtain ⟨t, delivered⟩ := deliver_alive nothing
  simp [delivered]

theorem call_steps (alive : Alive s) : (s.call env op).isSome = true := by
  have told := toEntries_added (step_adds env op s.controller) alive.handedOn
  have known : ∀ sender cmd, .temporary sender cmd ∈ (step env op s.controller).out → sender ∈ s.tasks := by
    intro sender cmd member
    have posted := mem_toEntries member
    rw [told] at posted
    exact alive.tasks sender (mem_posts posted).1
  obtain ⟨t, called⟩ := deliver_alive (s := { s with controller := step env op s.controller }) known
  simp [Server.call, called]

theorem suspend_steps {c : Nat} (alive : Alive s) : (s.suspend c).isSome = true := by
  have quiet : toEntries s.controller.suspend.1.out = [] :=
    toEntries_added (step_adds .bare .suspend s.controller) alive.handedOn
  simp only [Server.suspend]
  cases s.controller.suspend.2 with
  | ready => exact deliver_quiet quiet
  | waiting receiver => exact deliver_quiet quiet

theorem temporaryEntry_steps {c : Nat} {x y : Int32} (alive : Alive s) :
    (s.temporaryEntry env c x y).isSome = true := by
  have quiet : toEntries (s.controller.temporaryEntry env s.granted.length x y).1.out = [] :=
    toEntries_added (adds_temporaryEntry env s.granted.length x y s.controller) alive.handedOn
  simp only [Server.temporaryEntry]
  split
  · exact deliver_quiet quiet
  · exact deliver_quiet quiet

theorem request_steps {c : Nat} {conn : Conn} {req : ControlCmdIn} (alive : Alive s)
    (found : s.conns[c]? = some conn) (listens : conn.listens = true) :
    (s.request env c req).isSome = true := by
  simp only [Server.request, found, listens, if_true]
  split
  · split
    · exact deliver_quiet (temporaryExit_quiet alive.handedOn)
    · exact deliver_quiet (temporaryExit_quiet alive.handedOn)
  · have backed : ∀ op : Nat → Op, (s.backup env c op).isSome = true := by
      intro op
      have same : Alive { s with
          controller := { s.controller with oneshots := s.controller.oneshots + 1 }
          acks := s.acks ++ [(s.controller.oneshots, c)] } := ⟨alive.tasks, alive.handedOn⟩
      exact call_steps same
    cases req with
    | suspend => exact suspend_steps alive
    | temporaryLightEntry x y => exact temporaryEntry_steps alive
    | enterBackupMode => exact backed _
    | leaveBackupMode => exact backed _
    | _ => exact call_steps alive

theorem poll_steps {entry : Nat} (alive : Alive s) (known : entry ∈ s.tasks) :
    (s.poll entry).isSome = true := by
  obtain ⟨f, found, rfl⟩ := find_forwarder known
  have controller := says_controller f.conn f.pending s
  simp only [Server.poll, found]
  split
  · apply deliver_quiet
    exact temporaryExit_quiet (by rw [controller]; exact alive.handedOn)
  · rfl

theorem neverPanics_of_alive (alive : Alive s) : NeverPanics s := by
  constructor
  · intro sender temporary
    exact alive.tasks sender (congrArg currentEntry temporary)
  · intro e may
    cases e with
    | accept => rfl
    | request env c req =>
      obtain ⟨conn, found, listens⟩ := (Option.any_eq_true _ _).mp may
      exact request_steps alive found listens
    | close c =>
      have reading : s.isReading c = true := may
      simp [serverStep, reading]
    | poll entry => exact poll_steps alive (of_decide_eq_true may)
    | acked ack =>
      obtain ⟨p, found⟩ := Option.isSome_iff_exists.mp may
      simp [serverStep, found]
    | call env op =>
      have other : isTemporary op = false := by simpa [enabled] using may
      simp only [serverStep, other]
      exact call_steps alive

end Safety

/-- Along every run of the control server, whatever interleaves, the task that holds the
    receiver of the current temporary entry is alive and no send to it fails. -/
theorem entry_channel_open (machine : MachineConfig) (hooks : HooksConfig) (es : List Event) :
    Runs.Always serverStep NeverPanics (start machine hooks) es := by
  have alive : Runs.Always serverStep Alive (start machine hooks) es :=
    Runs.always_of_preserved Alive (fun _ _ _ => alive_step) (alive_start machine hooks) es
  exact Runs.always_mono (fun _ => neverPanics_of_alive) alive

end EntrySafety
