import WindowsGaming.BackupMode

/- Commit jobs that become ready. QEMU's event goes to the handler through the handler's own queue,
   behind commands that may start another job for the same disk. -/
namespace BlockJobs
open Config (MachineConfig HooksConfig StorageDevice)
open Protocol Controller Monitor BackupMode

inductive Event where
  | backup (e : BackupMode.Event)
  /-- A ready job ends without being asked to complete, as it does when a write fails. -/
  | abort (id : String)

def jobsStep (b : Backup) : BlockJobs.Event → Option Backup
  | .backup e => backupStep b e
  | .abort id =>
    if b.jobs.any fun j => j.id = id ∧ j.phase = .ready then
      some { b with jobs := b.jobs.filter fun j => ¬ (j.id = id ∧ j.phase = .ready) }
    else none

def Configured (machine : MachineConfig) (disk snapFile : String) : Prop :=
  ∃ (i : Nat) (device : StorageDevice), machine.storage[i]? = some device ∧
    device.snapshotFile = some snapFile ∧ diskName i = disk

/-- The handler knows the job of the event that it is about to process, and does not panic on it. -/
def ReadyKnown (b : Backup) : Prop :=
  ∀ device queue, b.queue = .jobReady device :: queue →
    (∃ snapFile ack, Configured b.controller.machineConfig device snapFile ∧
      b.handler.pendingDiskCommits.find? (fun p => p.1 = device) = some (device, snapFile, ack)) ∧
    ∀ reply, b.handler.take reply (.jobReady device) ≠ none

/-- A job is started for a disk only while no event of an earlier job of the disk waits. -/
def unannounced (b : Backup) : BlockJobs.Event → Prop
  | .backup (.execute .ok) =>
    ∀ cmd ∈ b.queue.head?, ∀ commit ∈ toCommit cmd, .jobReady commit.disk ∉ b.queue
  | _ => True

instance (b : Backup) : DecidablePred (unannounced b)
  | .backup (.execute .ok) => inferInstanceAs (Decidable (∀ cmd ∈ b.queue.head?,
      ∀ commit ∈ toCommit cmd, .jobReady commit.disk ∉ b.queue))
  | .backup (.execute .error) | .backup (.execute .io) | .backup (.enter _) | .backup (.leave _) |
    .backup (.ready _) | .backup (.finish _) | .backup (.relay _) | .backup (.acknowledge _) |
    .abort _ => inferInstanceAs (Decidable True)

def works (device : String) (j : Job) : Bool := j.id = device ∧ j.phase = .working

def unhandled (b : Backup) (device : String) : Nat :=
  b.queue.count (.jobReady device) + b.jobs.countP (works device)

structure Linked (b : Backup) : Prop where
  single : ∀ device, unhandled b device ≤ 1
  known : ∀ device, 0 < unhandled b device → ∃ p ∈ b.handler.pendingDiskCommits, p.1 = device
  commits : ∀ cmd ∈ b.queue, ∀ commit, toCommit cmd = some commit →
    Configured b.controller.machineConfig commit.disk commit.snapFile
  pending : ∀ p ∈ b.handler.pendingDiskCommits, Configured b.controller.machineConfig p.1 p.2.1

section Steps
variable {b next : Backup}

theorem readyKnown_of_linked (linked : Linked b) : ReadyKnown b := by
  intro device queue oldest
  have positive : 0 < unhandled b device := by
    simp only [unhandled, oldest, List.count_cons_self]
    omega
  obtain ⟨p, member, rfl⟩ := linked.known device positive
  have some_entry : (b.handler.pendingDiskCommits.find? fun q => q.1 = p.1).isSome :=
    List.find?_isSome.mpr ⟨p, member, by simp⟩
  obtain ⟨⟨key, snapFile, ack⟩, found⟩ := Option.isSome_iff_exists.mp some_entry
  have same : key = p.1 := by simpa using List.find?_some found
  subst same
  constructor
  · exact ⟨snapFile, ack, linked.pending _ (List.mem_of_find?_eq_some found), found⟩
  · intro reply
    simp [CommandHandler.take, found]

theorem linked_frame (linked : Linked b)
    (machine : next.controller.machineConfig = b.controller.machineConfig)
    (pending : next.handler.pendingDiskCommits = b.handler.pendingDiskCommits)
    (fewer : ∀ device, unhandled next device ≤ unhandled b device)
    (commits : ∀ cmd ∈ next.queue, ∀ commit, toCommit cmd = some commit → cmd ∈ b.queue ∨
      Configured b.controller.machineConfig commit.disk commit.snapFile) : Linked next where
  single := fun device => Nat.le_trans (fewer device) (linked.single device)
  known := by
    intro device positive
    rw [pending]
    exact linked.known device (Nat.lt_of_lt_of_le positive (fewer device))
  commits := by
    intro cmd member commit asks
    rw [machine]
    rcases commits cmd member commit asks with old | configured
    · exact linked.commits cmd old commit asks
    · exact configured
  pending := by
    rw [machine, pending]
    exact linked.pending

theorem request_machineConfig (env : Env) (op : Nat → Op) (b : Backup) :
    (b.request env op).controller.machineConfig = b.controller.machineConfig :=
  step_machineConfig env _ _

theorem linked_request {command : Nat → String → Nat → QmpCommand} {disks : List (Nat × String)}
    {oneshots : Nat} (linked : Linked b)
    (machine : next.controller.machineConfig = b.controller.machineConfig)
    (handler : next.handler = b.handler) (jobs : next.jobs = b.jobs)
    (queue : next.queue = b.queue ++ commands command disks oneshots)
    (listed : ∀ disk ∈ disks, Configured b.controller.machineConfig (diskName disk.1) disk.2)
    (shape : ∀ i snapFile ack, (∀ device, command i snapFile ack ≠ .jobReady device) ∧
      ∀ commit, toCommit (command i snapFile ack) = some commit →
        commit.disk = diskName i ∧ commit.snapFile = snapFile) : Linked next := by
  have quiet : ∀ device, (commands command disks oneshots).count (.jobReady device) = 0 := by
    intro device
    refine List.count_eq_zero.mpr ?_
    intro member
    obtain ⟨disk, _, ack, same⟩ := mem_commands member
    exact (shape disk.1 disk.2 ack).1 device same.symm
  refine linked_frame linked machine (congrArg _ handler) ?_ ?_
  · intro device
    simp only [unhandled, queue, jobs, List.count_append, quiet, Nat.add_zero, Nat.le_refl]
  · intro cmd member commit asks
    rw [queue] at member
    rcases List.mem_append.mp member with old | new
    · exact Or.inl old
    · obtain ⟨disk, chosen, ack, rfl⟩ := mem_commands new
      obtain ⟨same, file⟩ := (shape disk.1 disk.2 ack).2 commit asks
      right
      rw [same, file]
      exact listed disk chosen

theorem configured_of_snapshotDisks {machine : MachineConfig} {wanted : String → Bool}
    {disk : Nat × String} (chosen : disk ∈ snapshotDisks machine.storage wanted) :
    Configured machine (diskName disk.1) disk.2 := by
  obtain ⟨⟨device, there, file⟩, _⟩ := mem_snapshotDisks chosen
  exact ⟨disk.1, device, there, file, rfl⟩

theorem linked_enter (env : Env) (linked : Linked b) : Linked (b.request env .enterBackupMode) :=
  linked_request linked (request_machineConfig env _ b) rfl rfl (enter_queue env b)
    (fun _ => configured_of_snapshotDisks) (by simp [toCommit])

theorem linked_leave (env : Env) (linked : Linked b) : Linked (b.leave env) := by
  refine linked_request linked (request_machineConfig env _ b) rfl rfl (leave_queue env b)
    (fun _ => configured_of_snapshotDisks) ?_
  intro i snapFile ack
  refine ⟨by simp, ?_⟩
  intro commit asks
  cases asks
  exact ⟨rfl, rfl⟩

theorem toCommit_not_ready {cmd : QmpCommand} {commit : Commit} (asks : toCommit cmd = some commit)
    (device : String) : cmd ≠ .jobReady device := by
  rintro rfl
  cases asks

theorem linked_commit {reply : Reply} {cmd : QmpCommand} {commit : Commit} {queue : List QmpCommand}
    (linked : Linked b) (oldest : b.queue = cmd :: queue) (asks : toCommit cmd = some commit)
    (free : reply = .ok → ∀ j ∈ b.jobs, j.id ≠ commit.disk)
    (ok : reply = .ok → .jobReady commit.disk ∉ b.queue) : Linked (b.committed reply commit queue) := by
  have queued : ∀ device, queue.count (.jobReady device) = b.queue.count (.jobReady device) := by
    intro device
    rw [oldest, List.count_cons_of_ne (toCommit_not_ready asks device)]
  have others : ∀ device, device ≠ commit.disk →
      unhandled (b.committed reply commit queue) device = unhandled b device := by
    intro device other
    simp only [unhandled, Backup.committed, queued]
    split
    · simp [works, other.symm]
    · rfl
  have mine : unhandled (b.committed reply commit queue) commit.disk ≤ 1 := by
    simp only [unhandled, Backup.committed, queued]
    split
    · rename_i accepted
      have announced : b.queue.count (.jobReady commit.disk) = 0 := List.count_eq_zero.mpr (ok accepted)
      have working : b.jobs.countP (works commit.disk) = 0 := by
        refine List.countP_eq_zero.mpr ?_
        intro j member
        simp [works, free accepted j member]
      simp only [announced, List.countP_append, working, Nat.zero_add]
      exact List.countP_le_length
    · exact linked.single commit.disk
  constructor
  · intro device
    by_cases same : device = commit.disk
    · rw [same]
      exact mine
    · rw [others device same]
      exact linked.single device
  · intro device positive
    by_cases same : device = commit.disk
    · exact ⟨_, List.mem_cons_self, same.symm⟩
    · rw [others device same] at positive
      obtain ⟨p, member, key⟩ := linked.known device positive
      refine ⟨p, List.mem_cons_of_mem _ (List.mem_filter.mpr ⟨member, ?_⟩), key⟩
      simpa [key] using same
  · intro other member
    exact linked.commits other (oldest ▸ List.mem_cons_of_mem cmd member)
  · intro p member
    rcases List.mem_cons.mp member with rfl | old
    · exact linked.commits cmd (oldest ▸ List.mem_cons_self) commit asks
    · exact linked.pending p (List.mem_filter.mp old).1

theorem linked_complete {reply : Reply} {commit : Commit} {queue : List QmpCommand} (linked : Linked b)
    (oldest : b.queue = .jobReady commit.disk :: queue) : Linked (b.completed reply commit queue) := by
  have working : ∀ device, (b.completed reply commit queue).jobs.countP (works device) ≤
      b.jobs.countP (works device) := by
    intro device
    simp only [Backup.completed, List.countP_map]
    refine List.countP_mono_left ?_
    intro j _ counted
    simp only [Function.comp_apply] at counted
    split at counted
    · simp [works] at counted
    · exact counted
  have queued : ∀ device, b.queue.count (.jobReady device) =
      queue.count (.jobReady device) + if commit.disk = device then 1 else 0 := by
    intro device
    simp [oldest, List.count_cons]
  constructor
  · intro device
    have before := linked.single device
    have less := working device
    simp only [unhandled, queued, Backup.completed] at before less ⊢
    omega
  · intro device positive
    have before := linked.single device
    have less := working device
    simp only [unhandled, queued] at before
    have other : commit.disk ≠ device := by
      intro same
      rw [if_pos same] at before
      simp only [unhandled, Backup.completed] at positive less
      omega
    have waited : 0 < unhandled b device := by
      simp only [unhandled, Backup.completed, queued] at positive less ⊢
      omega
    obtain ⟨p, member, key⟩ := linked.known device waited
    refine ⟨p, List.mem_filter.mpr ⟨member, ?_⟩, key⟩
    simpa [key] using other.symm
  · intro other member
    exact linked.commits other (oldest ▸ List.mem_cons_of_mem _ member)
  · intro p member
    exact linked.pending p (List.mem_filter.mp member).1

theorem linked_execute {reply : Reply} (linked : Linked b)
    (ok : unannounced b (.backup (.execute reply))) (taken : b.execute reply = some next) :
    Linked next := by
  cases (execute_cases taken).2 with
  | commit oldest asks free =>
    refine linked_commit linked oldest asks free ?_
    rintro rfl
    exact ok _ (by simp [oldest]) _ asks
  | complete oldest found => exact linked_complete linked oldest
  | @other cmd queue heldKeys acks oldest neither =>
    refine linked_frame linked rfl rfl ?_ ?_
    · intro device
      simp only [unhandled, oldest, List.count_cons_of_ne (neither.2 device), Nat.le_refl]
    · intro other member commit asks
      exact Or.inl (oldest ▸ List.mem_cons_of_mem cmd member)

theorem linked_ready {id : String} (linked : Linked b)
    (working : (b.jobs.any fun j => j.id = id ∧ j.phase = .working) = true) :
    Linked { b with
      jobs := b.jobs.map fun j => if j.id = id ∧ j.phase = .working then { j with phase := .ready } else j
      queue := b.queue ++ [.jobReady id] } := by
  refine linked_frame linked rfl rfl ?_ ?_
  · intro device
    simp only [unhandled, List.count_append, List.countP_map]
    by_cases same : device = id
    · subst same
      have some_job : 0 < b.jobs.countP (works device) := by
        rw [List.countP_pos_iff]
        simpa [works] using working
      have none_left : b.jobs.countP (works device ∘ fun j =>
          if j.id = device ∧ j.phase = .working then { j with phase := .ready } else j) = 0 := by
        refine List.countP_eq_zero.mpr ?_
        intro j _
        by_cases mine : j.id = device ∧ j.phase = .working
        · simp [works, mine]
        · simp [works, mine]
      rw [none_left, List.count_singleton_self]
      omega
    · have same_jobs : b.jobs.countP (works device ∘ fun j =>
          if j.id = id ∧ j.phase = .working then { j with phase := .ready } else j) =
          b.jobs.countP (works device) := by
        refine List.countP_congr ?_
        intro j _
        by_cases mine : j.id = id ∧ j.phase = .working
        · simp [works, mine, Ne.symm same]
        · simp [mine]
      have elsewhere : [QmpCommand.jobReady id].count (.jobReady device) = 0 := by
        simp [Ne.symm same]
      rw [same_jobs, elsewhere]
      exact Nat.le_refl _
  · intro cmd member commit asks
    rcases List.mem_append.mp member with old | new
    · exact Or.inl old
    · cases List.mem_singleton.mp new
      cases asks

theorem linked_end {ends : Job → Bool} (linked : Linked b) :
    Linked { b with jobs := b.jobs.filter ends } := by
  refine linked_frame linked rfl rfl ?_ (fun cmd member _ _ => Or.inl member)
  intro device
  exact Nat.add_le_add_left List.filter_sublist.countP_le _

theorem linked_step {e : BlockJobs.Event} (linked : Linked b) (ok : unannounced b e)
    (taken : jobsStep b e = some next) : Linked next := by
  cases e with
  | abort id =>
    obtain ⟨_, rfl⟩ := Option.ite_some_none_eq_some.mp taken
    exact linked_end linked
  | backup e =>
    simp only [jobsStep] at taken
    cases e with
    | enter env =>
      cases taken
      exact linked_enter env linked
    | leave env =>
      cases taken
      exact linked_leave env linked
    | execute reply => exact linked_execute linked ok taken
    | ready id =>
      obtain ⟨working, rfl⟩ := Option.ite_some_none_eq_some.mp taken
      exact linked_ready linked working
    | finish id =>
      obtain ⟨_, rfl⟩ := Option.ite_some_none_eq_some.mp taken
      exact linked_end linked
    | _ =>
      obtain ⟨_, rfl⟩ := Option.ite_some_none_eq_some.mp taken
      exact linked_frame linked rfl rfl (fun _ => Nat.le_refl _) (fun cmd member _ _ => Or.inl member)

def Lasts (b : Backup) : Prop :=
  ∀ device, .jobReady device ∈ b.queue → ∃ j ∈ b.jobs, j.id = device ∧ j.phase = .ready

theorem unannounced_of_lasts {e : BackupMode.Event} (lasts : Lasts b)
    (taken : backupStep b e = some next) : unannounced b (.backup e) := by
  cases e with
  | execute reply =>
    cases reply with
    | ok =>
      intro cmd first commit asks waiting
      cases (execute_cases taken).2 with
      | commit oldest same free =>
        rw [oldest] at first
        cases first
        cases same.symm.trans asks
        obtain ⟨j, runs, named, _⟩ := lasts commit.disk waiting
        exact free rfl j runs named
      | complete oldest =>
        rw [oldest] at first
        cases first
        cases asks
      | other oldest neither =>
        rw [oldest] at first
        cases first
        cases neither.1.symm.trans asks
    | _ => trivial
  | _ => trivial

theorem lasts_grown {more : List QmpCommand} (lasts : Lasts b) (queue : next.queue = b.queue ++ more)
    (quiet : ∀ device, .jobReady device ∉ more) (jobs : next.jobs = b.jobs) : Lasts next := by
  intro device waiting
  rw [queue] at waiting
  rw [jobs]
  rcases List.mem_append.mp waiting with old | new
  · exact lasts device old
  · exact absurd new (quiet device)

theorem lasts_execute {reply : Reply} (linked : Linked b) (lasts : Lasts b)
    (taken : b.execute reply = some next) : Lasts next := by
  cases (execute_cases taken).2 with
  | @commit cmd commit queue oldest asks free =>
    intro device waiting
    obtain ⟨j, runs, ready⟩ := lasts device (oldest ▸ List.mem_cons_of_mem cmd waiting)
    refine ⟨j, ?_, ready⟩
    simp only [Backup.committed]
    split
    · exact List.mem_append_left _ runs
    · exact runs
  | @complete commit queue oldest found =>
    intro device waiting
    obtain ⟨j, runs, named, ready⟩ := lasts device (oldest ▸ List.mem_cons_of_mem _ waiting)
    have other : j.id ≠ commit.disk := by
      intro same
      have single := linked.single device
      have more : 0 < queue.count (.jobReady device) := List.count_pos_iff.mpr waiting
      rw [← named, same] at more single
      simp only [unhandled, oldest, List.count_cons_self] at single
      omega
    exact ⟨j, List.mem_map.mpr ⟨j, runs, if_neg other⟩, named, ready⟩
  | @other cmd queue heldKeys acks oldest neither =>
    intro device waiting
    exact lasts device (oldest ▸ List.mem_cons_of_mem cmd waiting)

theorem lasts_step {e : BackupMode.Event} (linked : Linked b) (lasts : Lasts b)
    (taken : backupStep b e = some next) : Lasts next := by
  cases e with
  | enter env =>
    cases taken
    refine lasts_grown lasts (enter_queue env b) ?_ rfl
    intro device member
    obtain ⟨_, _, _, same⟩ := mem_commands member
    cases same
  | leave env =>
    cases taken
    refine lasts_grown lasts (leave_queue env b) ?_ rfl
    intro device member
    obtain ⟨_, _, _, same⟩ := mem_commands member
    cases same
  | execute reply => exact lasts_execute linked lasts taken
  | ready id =>
    obtain ⟨working, rfl⟩ := Option.ite_some_none_eq_some.mp taken
    intro device waiting
    rcases List.mem_append.mp waiting with old | new
    · obtain ⟨j, runs, named, ready⟩ := lasts device old
      exact ⟨j, List.mem_map.mpr ⟨j, runs, if_neg (by simp [ready])⟩, named, ready⟩
    · cases List.mem_singleton.mp new
      simp only [List.any_eq_true, decide_eq_true_eq] at working
      obtain ⟨j, runs, named, works⟩ := working
      exact ⟨_, List.mem_map.mpr ⟨j, runs, if_pos ⟨named, works⟩⟩, named, rfl⟩
  | finish id =>
    obtain ⟨_, rfl⟩ := Option.ite_some_none_eq_some.mp taken
    intro device waiting
    obtain ⟨j, runs, named, ready⟩ := lasts device waiting
    exact ⟨j, List.mem_filter.mpr ⟨runs, by simp [ready]⟩, named, ready⟩
  | _ =>
    obtain ⟨_, rfl⟩ := Option.ite_some_none_eq_some.mp taken
    exact lasts

end Steps

theorem linked_start (machine : MachineConfig) (hooks : HooksConfig) : Linked (start machine hooks) := by
  constructor <;> simp [start, unhandled, CommandHandler.new]

/-- As long as QEMU ends no job that is ready, every job that becomes ready is known. -/
theorem ready_known_unaborted (machine : MachineConfig) (hooks : HooksConfig)
    (es : List BackupMode.Event) :
    Runs.Always backupStep ReadyKnown (start machine hooks) es := by
  have preserved : ∀ b e next, Linked b ∧ Lasts b → backupStep b e = some next →
      Linked next ∧ Lasts next := by
    rintro b e next ⟨linked, lasts⟩ taken
    have ok := unannounced_of_lasts lasts taken
    exact ⟨linked_step (e := .backup e) linked ok taken, lasts_step linked lasts taken⟩
  refine Runs.always_mono (fun b inv => readyKnown_of_linked inv.1)
    (Runs.always_of_preserved (fun b => Linked b ∧ Lasts b) preserved ?_ es)
  exact ⟨linked_start machine hooks, nofun⟩

/-- Whatever jobs end by themselves, every job that becomes ready is known if no job is started for a
    disk while the event of an earlier one waits. -/
theorem ready_known (machine : MachineConfig) (hooks : HooksConfig) (es : List BlockJobs.Event)
    (ok : Runs.Meets jobsStep unannounced (start machine hooks) es) :
    Runs.Always jobsStep ReadyKnown (start machine hooks) es :=
  Runs.always_mono (fun _ => readyKnown_of_linked)
    (Runs.always_of_invariant Linked (fun _ _ _ => linked_step) (linked_start machine hooks) ok)

/-- The job fails after it became ready, and QEMU refuses the second request. -/
theorem ready_known_in_turn : Runs.Always jobsStep ReadyKnown (start .oneDisk .bare)
    [.backup (.leave .snapshotThere), .backup (.leave .snapshotThere), .backup (.execute .ok),
      .backup (.ready "disk0"), .abort "disk0", .backup (.execute .error), .backup (.execute .error)] :=
  ready_known .oneDisk .bare _ (by decide +kernel)

/-- The job fails after it became ready, and the second request starts another one: the first event
    takes the entry of both. -/
theorem ready_job_unknown : ¬ Runs.Always jobsStep ReadyKnown (start .oneDisk .bare)
    [.backup (.leave .snapshotThere), .backup (.leave .snapshotThere), .backup (.execute .ok),
      .backup (.ready "disk0"), .abort "disk0", .backup (.execute .ok), .backup (.ready "disk0"),
      .backup (.execute .error)] := by
  intro always
  have known := Runs.always_last always rfl
  exact (known "disk0" [] (by decide +kernel)).2 .ok (by decide +kernel)

end BlockJobs
