import WindowsGaming.HeldKeys

/- Backup mode. A request queues one command for each disk, the monitor executes them one by
   one, QEMU runs the commit jobs, and tasks pass the acknowledgements on to the client. -/
namespace BackupMode
open Config (MachineConfig HooksConfig)
open Protocol Controller Monitor
open HeldKeys (queued flushed)

inductive Phase where
  | working
  | ready
  | answered
  deriving DecidableEq, Repr

structure Job where
  id : String
  phase : Phase
  deriving DecidableEq, Repr

structure Commit where
  disk : String
  snapFile : String
  ack : Nat
  deriving DecidableEq, Repr

def Commit.file (commit : Commit) : String × String := (commit.disk, commit.snapFile)

/-- A LeaveBackupMode request, with the disks whose snapshot file was removed since. -/
structure Request where
  ack : Nat
  commits : List Commit
  removed : List (String × String)
  deriving DecidableEq, Repr

structure Backup where
  controller : Controller
  queue : List QmpCommand
  handler : CommandHandler
  jobs : List Job
  /-- The controller's tasks: which acknowledgements each waits for, and which it passes on. -/
  awaits : List (List Nat × Nat)
  /-- The control server's tasks, one for each acknowledgement of a request. -/
  promised : List Nat
  sent : List Nat
  acked : List Nat
  requests : List Request
  /-- The acknowledgements that were dropped because block_job_complete failed. -/
  failed : List Nat
  deriving DecidableEq, Repr

def start (machine : MachineConfig) (hooks : HooksConfig) : Backup :=
  { controller := new machine hooks (Input.new machine)
    queue := []
    handler := CommandHandler.new
    jobs := []
    awaits := []
    promised := []
    sent := []
    acked := []
    requests := []
    failed := [] }

def awaited : Effect → Option (List Nat × Nat)
  | .awaitAcks acks ack => some (acks, ack)
  | _ => none

def toCommit : QmpCommand → Option Commit
  | .commitSnapshot diskId snapFile ack => some ⟨diskName diskId, snapFile, ack⟩
  | _ => none

def Backup.request (env : Env) (op : Nat → Op) (b : Backup) : Backup :=
  let ack := b.controller.oneshots
  let controller := step env (op ack) { flushed b.controller with oneshots := ack + 1 }
  { b with
    controller
    queue := b.queue ++ controller.out.filterMap queued
    awaits := b.awaits ++ controller.out.filterMap awaited
    promised := b.promised ++ [ack] }

def Backup.leave (env : Env) (b : Backup) : Backup :=
  let asked := b.request env .leaveBackupMode
  let commits := (asked.controller.out.filterMap queued).filterMap toCommit
  { asked with requests := b.requests ++ [⟨b.controller.oneshots, commits, []⟩] }

def toQmp : Action → Option Qmp
  | .qmp request => some request
  | _ => none

def toAck : Action → Option Nat
  | .ack sender => some sender
  | _ => none

/-- What a request with this reply does to QEMU's jobs; `none` when QEMU would not reply so. -/
def runJobs (reply : Reply) (jobs : List Job) : Qmp → Option (List Job)
  | .blockCommit jobId _ =>
    if reply = .ok then
      if jobs.any fun j => j.id = jobId then none else some (jobs ++ [⟨jobId, .working⟩])
    else some jobs
  | .blockJobComplete device =>
    some (jobs.map fun j => if j.id = device then { j with phase := .answered } else j)
  | _ => some jobs

def removals (actions : List Action) : QmpCommand → List (String × String)
  | .jobReady device => actions.filterMap fun
    | .removeFile path => some (device, path)
    | _ => none
  | _ => []

def failures (reply : Reply) (h : CommandHandler) : QmpCommand → List Nat
  | .jobReady device =>
    if reply = .ok then []
    else (h.pendingDiskCommits.filter fun p => p.1 = device).map fun p => p.2.2
  | _ => []

def Request.lose (files : List (String × String)) (r : Request) : Request :=
  { r with removed := r.removed ++ files }

def Backup.execute (reply : Reply) (b : Backup) : Option Backup :=
  match b.queue with
  | [] => none
  | cmd :: queue =>
    if b.handler.running then
      (b.handler.take reply cmd).bind fun (handler, actions) =>
        ((actions.filterMap toQmp).foldlM (runJobs reply) b.jobs).map fun jobs =>
          { b with
            queue, handler, jobs
            sent := b.sent ++ actions.filterMap toAck
            requests := b.requests.map (Request.lose (removals actions cmd))
            failed := b.failed ++ failures reply b.handler cmd }
    else none

inductive Event where
  | enter (env : Env)
  | leave (env : Env)
  | execute (reply : Reply)
  | ready (id : String)
  /-- A job that was asked to complete ends, whether or not it agreed to. -/
  | finish (id : String)
  | relay (ack : Nat)
  | acknowledge (ack : Nat)

def complete (sent : List Nat) (task : List Nat × Nat) : Bool := task.1.all fun k => k ∈ sent

def backupStep (b : Backup) : Event → Option Backup
  | .enter env => some (b.request env .enterBackupMode)
  | .leave env => some (b.leave env)
  | .execute reply => b.execute reply
  | .ready id =>
    if b.jobs.any fun j => j.id = id ∧ j.phase = .working then
      some { b with
        jobs := b.jobs.map fun j =>
          if j.id = id ∧ j.phase = .working then { j with phase := .ready } else j
        queue := b.queue ++ [.jobReady id] }
    else none
  | .finish id =>
    if b.jobs.any fun j => j.id = id ∧ j.phase = .answered then
      some { b with jobs := b.jobs.filter fun j => ¬ (j.id = id ∧ j.phase = .answered) }
    else none
  | .relay ack =>
    if b.awaits.any fun task => task.2 = ack ∧ complete b.sent task then
      some { b with awaits := b.awaits.filter fun task => task.2 ≠ ack, sent := b.sent ++ [ack] }
    else none
  | .acknowledge ack =>
    if ack ∈ b.promised ∧ ack ∈ b.sent then
      some { b with promised := b.promised.filter fun k => k ≠ ack, acked := b.acked ++ [ack] }
    else none

def Backup.committed (reply : Reply) (commit : Commit) (queue : List QmpCommand) (b : Backup) : Backup :=
  { b with
    queue
    handler := { b.handler with
      pendingDiskCommits := (commit.disk, commit.snapFile, commit.ack) ::
        b.handler.pendingDiskCommits.filter fun p => p.1 ≠ commit.disk
      running := decide (reply ≠ .io) }
    jobs := if reply = .ok then b.jobs ++ [⟨commit.disk, .working⟩] else b.jobs }

def Backup.completed (reply : Reply) (commit : Commit) (queue : List QmpCommand) (b : Backup) : Backup :=
  { b with
    queue
    handler := { b.handler with
      pendingDiskCommits := b.handler.pendingDiskCommits.filter fun p => p.1 ≠ commit.disk
      running := decide (reply ≠ .io) }
    jobs := b.jobs.map fun j => if j.id = commit.disk then { j with phase := .answered } else j
    sent := b.sent ++ if reply = .ok then [commit.ack] else []
    requests := b.requests.map (Request.lose (if reply = .ok then [commit.file] else []))
    failed := b.failed ++ failures reply b.handler (.jobReady commit.disk) }

inductive Executed (b : Backup) (reply : Reply) : Backup → Prop where
  | commit {cmd : QmpCommand} {commit : Commit} {queue : List QmpCommand}
      (oldest : b.queue = cmd :: queue) (asks : toCommit cmd = some commit)
      (free : reply = .ok → ∀ j ∈ b.jobs, j.id ≠ commit.disk) :
      Executed b reply (b.committed reply commit queue)
  | complete {commit : Commit} {queue : List QmpCommand}
      (oldest : b.queue = .jobReady commit.disk :: queue)
      (found : b.handler.pendingDiskCommits.find? (fun p => p.1 = commit.disk) =
        some (commit.disk, commit.snapFile, commit.ack)) :
      Executed b reply (b.completed reply commit queue)
  | other {cmd : QmpCommand} {queue : List QmpCommand} {heldKeys : List KeyValue} {acks : List Nat}
      (oldest : b.queue = cmd :: queue)
      (neither : toCommit cmd = none ∧ ∀ device, cmd ≠ .jobReady device) :
      Executed b reply { b with
        queue
        handler := { b.handler with heldKeys, running := decide (reply ≠ .io) }
        sent := b.sent ++ acks }

section Executing
variable {b t : Backup} {reply : Reply}

theorem lose_nothing (r : Request) : r.lose [] = r := by simp [Request.lose]

theorem execute_commit {diskId ack : Nat} {snapFile : String} {queue : List QmpCommand}
    (oldest : b.queue = .commitSnapshot diskId snapFile ack :: queue)
    (taken : b.execute reply = some t) : Executed b reply t := by
  have shape : ∀ jobs,
      runJobs reply b.jobs (.blockCommit (diskName diskId) (snapName (diskName diskId))) = some jobs →
      (reply = .ok → ∀ j ∈ b.jobs, j.id ≠ diskName diskId) ∧
        jobs = if reply = .ok then b.jobs ++ [⟨diskName diskId, .working⟩] else b.jobs := by
    intro jobs ran
    simp only [runJobs] at ran
    split at ran
    · rename_i accepted
      split at ran
      · cases ran
      · rename_i free
        cases ran
        simp only [List.any_eq_true, decide_eq_true_eq, not_exists, not_and] at free
        exact ⟨fun _ => free, by rw [if_pos accepted]⟩
    · rename_i refused
      cases ran
      exact ⟨fun accepted => absurd accepted refused, by rw [if_neg refused]⟩
  unfold Backup.execute at taken
  rw [oldest] at taken
  simp only [CommandHandler.take, Option.bind_some, List.filterMap_cons, toQmp, toAck,
    List.filterMap_nil, List.foldlM_cons, List.foldlM_nil, removals, failures,
    List.append_nil] at taken
  split at taken
  · obtain ⟨jobs, ran, rfl⟩ := Option.map_eq_some_iff.mp taken
    obtain ⟨ids, ran, same⟩ := Option.bind_eq_some_iff.mp ran
    cases same
    obtain ⟨free, rfl⟩ := shape jobs ran
    rw [funext lose_nothing, List.map_id']
    exact .commit oldest rfl free
  · cases taken

theorem execute_complete {device : String} {queue : List QmpCommand}
    (oldest : b.queue = .jobReady device :: queue) (taken : b.execute reply = some t) :
    Executed b reply t := by
  unfold Backup.execute at taken
  rw [oldest] at taken
  simp only [CommandHandler.take] at taken
  cases found : b.handler.pendingDiskCommits.find? fun p => p.1 = device with
  | none => simp [found] at taken
  | some entry =>
    obtain ⟨key, snapFile, ack⟩ := entry
    have same : key = device := by simpa using List.find?_some found
    subst same
    have completed : Executed b reply (b.completed reply ⟨key, snapFile, ack⟩ queue) :=
      .complete oldest found
    simp only [found] at taken
    split at taken
    · by_cases accepted : reply = .ok
      · subst accepted
        cases taken
        exact completed
      · simp only [accepted, if_false] at taken
        cases taken
        simp only [Backup.completed, if_neg accepted] at completed
        exact completed
    · cases taken

theorem execute_other {cmd : QmpCommand} {queue : List QmpCommand} (oldest : b.queue = cmd :: queue)
    (neither : toCommit cmd = none ∧ ∀ device, cmd ≠ .jobReady device)
    (taken : b.execute reply = some t) : Executed b reply t := by
  unfold Backup.execute at taken
  rw [oldest] at taken
  simp only at taken
  split at taken
  · obtain ⟨⟨handler, actions⟩, executed, taken⟩ := Option.bind_eq_some_iff.mp taken
    obtain ⟨jobs, ran, rfl⟩ := Option.map_eq_some_iff.mp taken
    have quiet : removals actions cmd = [] ∧ failures reply b.handler cmd = [] := by
      cases cmd with
      | jobReady device => exact absurd rfl (neither.2 device)
      | _ => exact ⟨rfl, rfl⟩
    have idle : jobs = b.jobs ∧ ∃ heldKeys, handler =
        { b.handler with heldKeys, running := decide (reply ≠ .io) } := by
      cases cmd with
      | jobReady device => exact absurd rfl (neither.2 device)
      | commitSnapshot diskId snapFile ack => exact absurd neither.1 (by simp [toCommit])
      | takeSnapshot diskId snapFile ack =>
        simp only [CommandHandler.take] at executed
        cases executed
        split at ran <;> exact ⟨(Option.some.inj ran).symm, _, rfl⟩
      | _ =>
        cases executed
        exact ⟨(Option.some.inj ran).symm, _, rfl⟩
    obtain ⟨rfl, heldKeys, rfl⟩ := idle
    rw [quiet.1, quiet.2, funext lose_nothing, List.map_id', List.append_nil]
    exact .other oldest neither
  · cases taken

theorem execute_cases (taken : b.execute reply = some t) :
    b.handler.running = true ∧ Executed b reply t := by
  have runs : b.handler.running = true := by
    unfold Backup.execute at taken
    split at taken
    · cases taken
    · split at taken
      · assumption
      · cases taken
  refine ⟨runs, ?_⟩
  cases oldest : b.queue with
  | nil =>
    unfold Backup.execute at taken
    simp [oldest] at taken
  | cons cmd queue =>
    cases cmd with
    | commitSnapshot diskId snapFile ack => exact execute_commit oldest taken
    | jobReady device => exact execute_complete oldest taken
    | _ => exact execute_other oldest ⟨rfl, by simp⟩ taken

end Executing

section Requests
variable (env : Env) (command : Nat → String → Nat → QmpCommand) (disks : List (Nat × String))
  (ack : Nat)

def commands (oneshots : Nat) : List QmpCommand :=
  (StableGroups.enumerate disks).map fun p => command p.2.1 p.2.2 (oneshots + p.1)

theorem queueForDisks_queued {c : Controller} (nothing : c.out = []) :
    (c.queueForDisks command disks ack).out.filterMap queued = commands command disks c.oneshots := by
  simp [queueForDisks, emitAll, nothing, List.filterMap_append, queued, commands, List.filterMap_map,
    Function.comp_def]

theorem queueForDisks_awaited {c : Controller} (nothing : c.out = []) :
    (c.queueForDisks command disks ack).out.filterMap awaited =
      [(List.range' c.oneshots disks.length, ack)] := by
  simp [queueForDisks, emitAll, nothing, List.filterMap_append, awaited, List.filterMap_map,
    Function.comp_def]

def asked (b : Backup) : List (Nat × String) :=
  snapshotDisks b.controller.machineConfig.storage env.pathExists

def leaveCommits (b : Backup) : List Commit :=
  (commands .commitSnapshot (asked env b) (b.controller.oneshots + 1)).filterMap toCommit

theorem leave_requests (b : Backup) : (b.leave env).requests =
    b.requests ++ [⟨b.controller.oneshots, leaveCommits env b, []⟩] := by
  have listed := queueForDisks_queued .commitSnapshot (asked env b) b.controller.oneshots
    (c := { flushed b.controller with oneshots := b.controller.oneshots + 1 }) rfl
  exact congrArg (fun cmds => b.requests ++ [⟨b.controller.oneshots, cmds.filterMap toCommit, []⟩]) listed

theorem leave_queue (b : Backup) : (b.leave env).queue =
    b.queue ++ commands .commitSnapshot (asked env b) (b.controller.oneshots + 1) := by
  have listed := queueForDisks_queued .commitSnapshot (asked env b) b.controller.oneshots
    (c := { flushed b.controller with oneshots := b.controller.oneshots + 1 }) rfl
  exact congrArg (b.queue ++ ·) listed

theorem enter_queue (b : Backup) : (b.request env .enterBackupMode).queue = b.queue ++
    commands .takeSnapshot
      (snapshotDisks b.controller.machineConfig.storage fun s => !env.pathExists s)
      (b.controller.oneshots + 1) := by
  have listed := queueForDisks_queued .takeSnapshot
    (snapshotDisks b.controller.machineConfig.storage fun s => !env.pathExists s)
    b.controller.oneshots (c := { flushed b.controller with oneshots := b.controller.oneshots + 1 }) rfl
  exact congrArg (b.queue ++ ·) listed

theorem mem_commands {command disks} {oneshots : Nat} {cmd : QmpCommand}
    (member : cmd ∈ commands command disks oneshots) :
    ∃ disk ∈ disks, ∃ ack, cmd = command disk.1 disk.2 ack := by
  obtain ⟨⟨k, disk⟩, listed, rfl⟩ := List.mem_map.mp member
  exact ⟨disk, List.mem_of_getElem? (StableGroups.mem_enumerate.mp listed), _, rfl⟩

theorem mem_snapshotDisks {storage : List Config.StorageDevice} {wanted : String → Bool}
    {disk : Nat × String} (member : disk ∈ snapshotDisks storage wanted) :
    (∃ device : Config.StorageDevice, storage[disk.1]? = some device ∧
      device.snapshotFile = some disk.2) ∧ wanted disk.2 = true := by
  obtain ⟨listed, fits⟩ := List.mem_filter.mp member
  obtain ⟨⟨i, device⟩, there, found⟩ := List.mem_filterMap.mp listed
  obtain ⟨snapFile, configured, rfl⟩ := Option.map_eq_some_iff.mp found
  exact ⟨⟨device, StableGroups.mem_enumerate.mp there, configured⟩, fits⟩

theorem leave_awaits (b : Backup) : ∃ acks,
    (b.leave env).awaits = b.awaits ++ [(acks, b.controller.oneshots)] ∧
      ∀ k ∈ acks, ∃ commit ∈ leaveCommits env b, commit.ack = k := by
  refine ⟨_, congrArg (b.awaits ++ ·) (queueForDisks_awaited _ _ _ rfl), ?_⟩
  intro k member
  obtain ⟨i, bound, rfl⟩ := List.mem_range'.mp member
  obtain ⟨disk, found⟩ : ∃ disk, (asked env b)[i]? = some disk := ⟨_, List.getElem?_eq_getElem bound⟩
  refine ⟨⟨diskName disk.1, disk.2, b.controller.oneshots + 1 + i⟩, ?_, by simp⟩
  unfold leaveCommits commands
  rw [List.filterMap_map]
  exact List.mem_filterMap.mpr ⟨(i, disk), StableGroups.mem_enumerate.mpr found, rfl⟩

end Requests
end BackupMode
