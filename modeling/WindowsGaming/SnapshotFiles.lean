import WindowsGaming.BackupMode

/- The snapshot files on disk. A request looks at them when it comes, its commands are executed when
   the monitor gets to them. -/
namespace SnapshotFiles
open Config (MachineConfig HooksConfig)
open Protocol Controller Monitor BackupMode

structure Host where
  backup : Backup
  files : List String
  deriving DecidableEq, Repr

def boot (machine : MachineConfig) (hooks : HooksConfig) (files : List String) : Host :=
  ⟨start machine hooks, files⟩

def touch (reply : Reply) (files : List String) : Action → Option (List String)
  | .qmp (.blockdevSnapshotSync _ snapFile _ _) =>
    some (if reply = .ok then snapFile :: files else files)
  | .removeFile path => if path ∈ files then some (files.filter fun f => f ≠ path) else none
  | _ => some files

def Host.touched (s : Host) : Event → Option (List String)
  | .execute reply =>
    s.backup.queue.head?.bind fun cmd =>
      (s.backup.handler.take reply cmd).bind fun (_, actions) => actions.foldlM (touch reply) s.files
  | _ => some s.files

def Host.located (s : Host) : Event → Event
  | .enter env => .enter { env with pathExists := fun path => path ∈ s.files }
  | .leave env => .leave { env with pathExists := fun path => path ∈ s.files }
  | e => e

def hostStep (s : Host) (e : Event) : Option Host :=
  (backupStep s.backup (s.located e)).bind fun backup => (s.touched e).map fun files => ⟨backup, files⟩

def fits (files : List String) : QmpCommand → Prop
  | .takeSnapshot _ snapFile _ => snapFile ∉ files
  | .commitSnapshot _ snapFile _ => snapFile ∈ files
  | _ => True

/-- The next command to be executed fits the files. -/
def SnapshotsFit (s : Host) : Prop :=
  s.backup.handler.running = true → ∀ cmd ∈ s.backup.queue.head?, fits s.files cmd

instance (files : List String) : DecidablePred (fits files)
  | .takeSnapshot _ snapFile _ => inferInstanceAs (Decidable (snapFile ∉ files))
  | .commitSnapshot _ snapFile _ => inferInstanceAs (Decidable (snapFile ∈ files))
  | .deviceAdd .. | .deviceDel .. | .systemPowerdown | .systemWakeup | .inputSendEvent .. |
    .jobReady _ | .releaseAllKeys => inferInstanceAs (Decidable True)

instance : DecidablePred SnapshotsFit := fun _ => inferInstanceAs (Decidable (_ → ∀ cmd ∈ _, _))

def taken : QmpCommand → Option String
  | .takeSnapshot _ snapFile _ => some snapFile
  | _ => none

def committed : QmpCommand → Option String
  | .commitSnapshot _ snapFile _ => some snapFile
  | _ => none

/-- No other snapshot is to be taken in the file of a command that takes one, and no other commit of
    the file waits when a commit is complete. -/
def lone (s : Host) (queue : List QmpCommand) : QmpCommand → Prop
  | .takeSnapshot _ snapFile _ => ∀ cmd ∈ queue, taken cmd ≠ some snapFile
  | .jobReady device => ∀ p ∈ s.backup.handler.pendingDiskCommits, p.1 = device →
      ∀ cmd ∈ queue, committed cmd ≠ some p.2.1
  | _ => True

instance (s : Host) (queue : List QmpCommand) : DecidablePred (lone s queue)
  | .takeSnapshot _ snapFile _ =>
    inferInstanceAs (Decidable (∀ cmd ∈ queue, taken cmd ≠ some snapFile))
  | .jobReady device => inferInstanceAs (Decidable (∀ p ∈ s.backup.handler.pendingDiskCommits,
      p.1 = device → ∀ cmd ∈ queue, committed cmd ≠ some p.2.1))
  | .deviceAdd .. | .deviceDel .. | .systemPowerdown | .systemWakeup | .inputSendEvent .. |
    .commitSnapshot .. | .releaseAllKeys => inferInstanceAs (Decidable True)

def unrepeated (s : Host) : Event → Prop
  | .execute .ok => ∀ cmd ∈ s.backup.queue.head?, lone s s.backup.queue.tail cmd
  | _ => True

instance (s : Host) : DecidablePred (unrepeated s)
  | .execute .ok =>
    inferInstanceAs (Decidable (∀ cmd ∈ s.backup.queue.head?, lone s s.backup.queue.tail cmd))
  | .execute .error | .execute .io | .enter _ | .leave _ | .ready _ | .finish _ | .relay _ |
    .acknowledge _ => inferInstanceAs (Decidable True)

def AllFit (s : Host) : Prop := ∀ cmd ∈ s.backup.queue, fits s.files cmd

section Steps
variable {s next : Host} {reply : Reply}

theorem execute_queue {b t : Backup} (executed : b.execute reply = some t) :
    ∃ cmd, b.queue = cmd :: t.queue := by
  cases (execute_cases executed).2 with
  | commit oldest asks free => exact ⟨_, oldest⟩
  | complete oldest found => exact ⟨_, oldest⟩
  | other oldest neither => exact ⟨_, oldest⟩

theorem touched_cases {h handler : CommandHandler} {cmd : QmpCommand} {actions : List Action}
    {files after : List String} (executed : h.take reply cmd = some (handler, actions))
    (touches : actions.foldlM (touch reply) files = some after) :
    after = files ∨
      (∃ i snapFile ack, reply = .ok ∧ cmd = .takeSnapshot i snapFile ack ∧ after = snapFile :: files) ∨
      ∃ device, ∃ p ∈ h.pendingDiskCommits, reply = .ok ∧ cmd = .jobReady device ∧ p.1 = device ∧
        after = files.filter fun f => f ≠ p.2.1 := by
  cases cmd with
  | takeSnapshot i snapFile ack =>
    cases executed
    by_cases accepted : reply = .ok
    · subst accepted
      cases touches
      exact Or.inr (Or.inl ⟨i, snapFile, ack, rfl, rfl, rfl⟩)
    · simp only [accepted, if_false, List.foldlM_cons, List.foldlM_nil, touch] at touches
      cases touches
      exact Or.inl rfl
  | jobReady device =>
    simp only [CommandHandler.take] at executed
    split at executed
    · cases executed
    · rename_i key snapFile ack found
      cases executed
      by_cases accepted : reply = .ok
      · subst accepted
        have removed : (if snapFile ∈ files then some (files.filter fun f => f ≠ snapFile) else none) =
            some after := by
          simpa [List.foldlM_cons, touch] using touches
        split at removed
        · cases removed
          refine Or.inr (Or.inr ⟨device, _, List.mem_of_find?_eq_some found, rfl, rfl, ?_, rfl⟩)
          simpa using List.find?_some found
        · cases removed
      · simp only [accepted, if_false, List.foldlM_cons, List.foldlM_nil, touch] at touches
        cases touches
        exact Or.inl rfl
  | _ =>
    cases executed
    cases touches
    exact Or.inl rfl

theorem fits_added {files : List String} {snapFile : String} {cmd : QmpCommand} (fit : fits files cmd)
    (other : taken cmd ≠ some snapFile) : fits (snapFile :: files) cmd := by
  cases cmd with
  | takeSnapshot i file ack =>
    have different : file ≠ snapFile := fun same => other (congrArg some same)
    simpa [fits, different] using fit
  | commitSnapshot i file ack => exact List.mem_cons_of_mem _ fit
  | _ => trivial

theorem fits_removed {files : List String} {snapFile : String} {cmd : QmpCommand} (fit : fits files cmd)
    (other : committed cmd ≠ some snapFile) : fits (files.filter fun f => f ≠ snapFile) cmd := by
  cases cmd with
  | takeSnapshot i file ack => exact fun member => fit (List.mem_filter.mp member).1
  | commitSnapshot i file ack =>
    have different : file ≠ snapFile := fun same => other (congrArg some same)
    exact List.mem_filter.mpr ⟨fit, decide_eq_true different⟩
  | _ => trivial

theorem allFit_execute (all : AllFit s) (ok : unrepeated s (.execute reply))
    (step : hostStep s (.execute reply) = some next) : AllFit next := by
  obtain ⟨backup, executed, step⟩ := Option.bind_eq_some_iff.mp step
  obtain ⟨files, touches, rfl⟩ := Option.map_eq_some_iff.mp step
  obtain ⟨cmd, oldest⟩ := execute_queue executed
  obtain ⟨first, head, touches⟩ := Option.bind_eq_some_iff.mp touches
  rw [oldest] at head
  cases head
  obtain ⟨⟨handler, actions⟩, takes, touches⟩ := Option.bind_eq_some_iff.mp touches
  intro waiting member
  have fit := all waiting (oldest ▸ List.mem_cons_of_mem cmd member)
  rcases touched_cases takes touches with
    rfl | ⟨i, snapFile, ack, rfl, rfl, rfl⟩ | ⟨device, p, pending, rfl, rfl, same, rfl⟩
  · exact fit
  · have alone := ok _ (congrArg List.head? oldest)
    rw [oldest] at alone
    exact fits_added fit (alone waiting member)
  · have alone := ok _ (congrArg List.head? oldest)
    rw [oldest] at alone
    exact fits_removed fit (alone p pending same waiting member)

theorem allFit_step {e : Event} (all : AllFit s) (ok : unrepeated s e)
    (step : hostStep s e = some next) : AllFit next := by
  cases e with
  | execute reply => exact allFit_execute all ok step
  | enter env =>
    cases step
    intro cmd member
    rcases List.mem_append.mp (enter_queue _ s.backup ▸ member) with old | new
    · exact all cmd old
    · obtain ⟨disk, chosen, ack, rfl⟩ := mem_commands new
      exact of_decide_eq_false (Bool.not_eq_true' _ ▸ (mem_snapshotDisks chosen).2)
  | leave env =>
    cases step
    intro cmd member
    rcases List.mem_append.mp (leave_queue _ s.backup ▸ member) with old | new
    · exact all cmd old
    · obtain ⟨disk, chosen, ack, rfl⟩ := mem_commands new
      exact of_decide_eq_true (mem_snapshotDisks chosen).2
  | ready id =>
    obtain ⟨backup, taken, step⟩ := Option.bind_eq_some_iff.mp step
    cases step
    obtain ⟨_, rfl⟩ := Option.ite_some_none_eq_some.mp taken
    intro cmd member
    rcases List.mem_append.mp member with old | new
    · exact all cmd old
    · cases List.mem_singleton.mp new
      trivial
  | _ =>
    obtain ⟨backup, taken, step⟩ := Option.bind_eq_some_iff.mp step
    cases step
    obtain ⟨_, rfl⟩ := Option.ite_some_none_eq_some.mp taken
    exact all

theorem snapshotsFit_of_allFit (all : AllFit s) : SnapshotsFit s :=
  fun _ cmd first => all cmd (List.mem_of_mem_head? first)

end Steps

/-- No snapshot is taken over one that is there and none is committed that is not, in every run in
    which no command for a file waits behind one that creates or removes it. -/
theorem snapshots_fit (machine : MachineConfig) (hooks : HooksConfig) (files : List String)
    (es : List Event) (ok : Runs.Meets hostStep unrepeated (boot machine hooks files) es) :
    Runs.Always hostStep SnapshotsFit (boot machine hooks files) es :=
  Runs.always_mono (fun _ => snapshotsFit_of_allFit)
    (Runs.always_of_invariant AllFit (fun _ _ _ => allFit_step) (by simp [AllFit, boot, start]) ok)

def twoDisks : MachineConfig :=
  { MachineConfig.bare with storage := [⟨some "a.qcow2"⟩, ⟨some "b.qcow2"⟩] }

/-- A backup begins and ends, one disk after the other. -/
theorem snapshots_in_turn : Runs.Always hostStep SnapshotsFit (boot twoDisks .bare [])
    [.enter .bare, .execute .ok, .execute .ok, .leave .bare, .execute .ok, .execute .ok,
      .ready "disk0", .ready "disk1", .execute .ok, .execute .ok] :=
  snapshots_fit twoDisks .bare [] _ (by decide +kernel)

/-- Two requests to enter backup mode come before the first snapshot is taken; two to leave it come
    before the first commit is complete. -/
theorem snapshot_taken_twice :
    ¬ Runs.Always hostStep SnapshotsFit (boot twoDisks .bare [])
        [.enter .bare, .enter .bare, .execute .ok, .execute .ok] ∧
      ¬ Runs.Always hostStep SnapshotsFit (boot twoDisks .bare ["a.qcow2"])
        [.leave .bare, .execute .ok, .ready "disk0", .leave .bare, .execute .ok] := by
  decide +kernel

end SnapshotFiles
