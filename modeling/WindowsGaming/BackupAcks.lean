import WindowsGaming.BackupMode

/- Whether clients learn that their backup is over. The acknowledgement of a commit goes from the
   queue into the handler's map, and from there to the client when the job is complete. -/
namespace BackupAcks
open Config (MachineConfig HooksConfig)
open Protocol Controller Monitor BackupMode

/-- No command waits, no commit job runs, and every task that can go on has run. -/
def Settled (b : Backup) : Prop :=
  b.queue = [] ∧ b.jobs = [] ∧ (∀ task ∈ b.awaits, complete b.sent task = false) ∧
    ∀ ack ∈ b.promised, ack ∉ b.sent

instance : DecidablePred Settled := fun _ => inferInstanceAs (Decidable (_ ∧ _ ∧ _ ∧ _))

/-- The request's acknowledgements were sent or their commits failed, and if all its files were
    committed and removed, its client knows. -/
def Answered (b : Backup) (r : Request) : Prop :=
  (∀ commit ∈ r.commits, commit.ack ∈ b.sent ∨ commit.ack ∈ b.failed) ∧
    ((∀ commit ∈ r.commits, commit.file ∈ r.removed) → r.ack ∈ b.acked)

instance (b : Backup) (r : Request) : Decidable (Answered b r) := inferInstanceAs (Decidable (_ ∧ _))

def AcksKept (b : Backup) : Prop :=
  b.handler.running = true → Settled b →
    b.handler.pendingDiskCommits = [] ∧ ∀ r ∈ b.requests, Answered b r

instance : DecidablePred AcksKept := fun b => inferInstanceAs (Decidable
  (b.handler.running = true → Settled b →
    b.handler.pendingDiskCommits = [] ∧ ∀ r ∈ b.requests, Answered b r))

def lostBefore (b : Backup) (file : String × String) : Prop :=
  ∃ r ∈ b.requests, ∃ commit ∈ r.commits, commit.file = file ∧ commit.ack ∈ b.failed

/-- The file was committed and removed after the request that waits for the acknowledgement. -/
def goneBefore (b : Backup) (ack : Nat) : Prop :=
  ∃ r ∈ b.requests, ∃ commit ∈ r.commits, commit.ack = ack ∧ commit.file ∈ r.removed

instance (b : Backup) (file : String × String) : Decidable (lostBefore b file) :=
  inferInstanceAs (Decidable (∃ r ∈ b.requests, ∃ commit ∈ r.commits, _))

instance (b : Backup) (ack : Nat) : Decidable (goneBefore b ack) :=
  inferInstanceAs (Decidable (∃ r ∈ b.requests, ∃ commit ∈ r.commits, _))

/-- QEMU rejects no block_commit. A job completes only if no earlier request has lost its
    acknowledgement for the file, and fails only if its file is still there. -/
def goesWell (b : Backup) (reply : Reply) : QmpCommand → Prop
  | .commitSnapshot _ _ _ => reply ≠ .error
  | .jobReady device => ∀ p ∈ b.handler.pendingDiskCommits, p.1 = device →
      (reply = .ok → ¬ lostBefore b (device, p.2.1)) ∧ (reply = .error → ¬ goneBefore b p.2.2)
  | _ => True

instance (b : Backup) (reply : Reply) : DecidablePred (goesWell b reply)
  | .commitSnapshot _ _ _ => inferInstanceAs (Decidable (reply ≠ .error))
  | .jobReady device => inferInstanceAs (Decidable (∀ p ∈ b.handler.pendingDiskCommits, p.1 = device →
      (reply = .ok → ¬ lostBefore b (device, p.2.1)) ∧ (reply = .error → ¬ goneBefore b p.2.2)))
  | .deviceAdd .. | .deviceDel .. | .systemPowerdown | .systemWakeup | .inputSendEvent .. |
    .takeSnapshot .. | .releaseAllKeys => inferInstanceAs (Decidable True)

def keepsAcks (b : Backup) : Event → Prop
  | .execute reply => ∀ cmd ∈ b.queue.head?, goesWell b reply cmd
  | _ => True

instance (b : Backup) : DecidablePred (keepsAcks b)
  | .execute reply => inferInstanceAs (Decidable (∀ cmd ∈ b.queue.head?, goesWell b reply cmd))
  | .enter _ | .leave _ | .ready _ | .finish _ | .relay _ | .acknowledge _ =>
    inferInstanceAs (Decidable True)

def held (b : Backup) : List Nat :=
  b.sent ++ (b.queue.filterMap toCommit).map Commit.ack ++
    b.handler.pendingDiskCommits.map fun p => p.2.2

structure Kept (b : Backup) : Prop where
  keys : (b.handler.pendingDiskCommits.map Prod.fst).Nodup
  running : ∀ p ∈ b.handler.pendingDiskCommits, ∃ j ∈ b.jobs, j.id = p.1 ∧ j.phase ≠ .answered
  awaited : ∀ r ∈ b.requests, r.ack ∈ b.sent ∨ ∃ task ∈ b.awaits, task.2 = r.ack ∧
    ∀ k ∈ task.1, ∃ commit ∈ r.commits, commit.ack = k
  promised : ∀ r ∈ b.requests, r.ack ∈ b.promised ∨ r.ack ∈ b.acked
  kept : ∀ r ∈ b.requests, ∀ commit ∈ r.commits, commit.ack ∈ held b ∨ commit.ack ∈ b.failed
  unspent : ∀ r ∈ b.requests, ∀ commit ∈ r.commits, commit.file ∈ r.removed → commit.ack ∉ b.failed

section Steps
variable {b t : Backup} {env : Env}

theorem answered_of_kept (kept : Kept b) (settled : Settled b) :
    b.handler.pendingDiskCommits = [] ∧ ∀ r ∈ b.requests, Answered b r := by
  obtain ⟨noCommand, noJob, relayed, acknowledged⟩ := settled
  have nothing : b.handler.pendingDiskCommits = [] := by
    apply List.eq_nil_iff_forall_not_mem.mpr
    intro p member
    obtain ⟨j, runs, _⟩ := kept.running p member
    rw [noJob] at runs
    cases runs
  refine ⟨nothing, ?_⟩
  intro r member
  have sent : ∀ commit ∈ r.commits, commit.ack ∈ b.sent ∨ commit.ack ∈ b.failed := by
    intro commit listed
    have somewhere := kept.kept r member commit listed
    simpa [held, noCommand, nothing] using somewhere
  refine ⟨sent, ?_⟩
  intro gone
  have all : ∀ commit ∈ r.commits, commit.ack ∈ b.sent := by
    intro commit listed
    exact (sent commit listed).resolve_right (kept.unspent r member commit listed (gone commit listed))
  have passed : r.ack ∈ b.sent := by
    rcases kept.awaited r member with passed | ⟨task, waits, _, acks⟩
    · exact passed
    · have whole : complete b.sent task = true := by
        simp only [complete, List.all_eq_true, decide_eq_true_eq]
        intro k awaitedAck
        obtain ⟨commit, listed, rfl⟩ := acks k awaitedAck
        exact all commit listed
      exact absurd (whole.symm.trans (relayed task waits)) (by simp)
  exact (kept.promised r member).resolve_left fun waits => acknowledged r.ack waits passed

structure Grown (b t : Backup) : Prop where
  pending : t.handler.pendingDiskCommits = b.handler.pendingDiskCommits
  jobs : ∀ j ∈ b.jobs, j.phase ≠ .answered → ∃ k ∈ t.jobs, k.id = j.id ∧ k.phase ≠ .answered
  awaits : ∀ task ∈ b.awaits, task.2 ∈ t.sent ∨ task ∈ t.awaits
  promised : ∀ ack ∈ b.promised, ack ∈ t.acked ∨ ack ∈ t.promised
  acked : ∀ ack ∈ b.acked, ack ∈ t.acked
  sent : ∀ ack ∈ b.sent, ack ∈ t.sent
  queue : ∀ commit ∈ b.queue.filterMap toCommit, commit ∈ t.queue.filterMap toCommit
  requests : t.requests = b.requests
  failed : t.failed = b.failed

theorem kept_grown (kept : Kept b) (grown : Grown b t) : Kept t where
  keys := grown.pending ▸ kept.keys
  running := by
    intro p member
    rw [grown.pending] at member
    obtain ⟨j, runs, named, open_⟩ := kept.running p member
    obtain ⟨k, still, same, working⟩ := grown.jobs j runs open_
    exact ⟨k, still, same.trans named, working⟩
  awaited := by
    intro r member
    rw [grown.requests] at member
    rcases kept.awaited r member with passed | ⟨task, waits, mine, acks⟩
    · exact Or.inl (grown.sent r.ack passed)
    · rcases grown.awaits task waits with passed | still
      · exact Or.inl (mine ▸ passed)
      · exact Or.inr ⟨task, still, mine, acks⟩
  promised := by
    intro r member
    rw [grown.requests] at member
    rcases kept.promised r member with waits | done
    · exact (grown.promised r.ack waits).symm
    · exact Or.inr (grown.acked r.ack done)
  kept := by
    intro r member commit listed
    rw [grown.requests] at member
    rw [grown.failed]
    refine (kept.kept r member commit listed).imp_left ?_
    intro somewhere
    simp only [held, List.mem_append, grown.pending] at somewhere ⊢
    rcases somewhere with (before | waits) | pending
    · exact Or.inl (Or.inl (grown.sent commit.ack before))
    · obtain ⟨same, waiting, acks⟩ := List.mem_map.mp waits
      exact Or.inl (Or.inr (List.mem_map.mpr ⟨same, grown.queue same waiting, acks⟩))
    · exact Or.inr pending
  unspent := by
    intro r member
    rw [grown.requests] at member
    rw [grown.failed]
    exact kept.unspent r member

theorem kept_request (op : Nat → Op) (kept : Kept b) : Kept (b.request env op) :=
  kept_grown kept
    { pending := rfl
      jobs := fun j runs open_ => ⟨j, runs, rfl, open_⟩
      awaits := fun _ waits => Or.inr (List.mem_append_left _ waits)
      promised := fun _ waits => Or.inr (List.mem_append_left _ waits)
      acked := fun _ done => done
      sent := fun _ before => before
      queue := by
        intro commit waits
        change commit ∈ (b.queue ++ _).filterMap toCommit
        rw [List.filterMap_append]
        exact List.mem_append_left _ waits
      requests := rfl
      failed := rfl }

theorem kept_leave (kept : Kept b) : Kept (b.leave env) := by
  have before : Kept (b.request env .leaveBackupMode) := kept_request _ kept
  have listed := leave_requests env b
  have split : ∀ {P : Request → Prop}, (∀ r ∈ b.requests, P r) →
      P ⟨b.controller.oneshots, leaveCommits env b, []⟩ → ∀ r ∈ (b.leave env).requests, P r := by
    intro P old new r member
    rw [listed] at member
    rcases List.mem_append.mp member with earlier | now
    · exact old r earlier
    · exact List.mem_singleton.mp now ▸ new
  obtain ⟨acks, awaits, known⟩ := leave_awaits env b
  constructor
  · exact before.keys
  · exact before.running
  · apply split before.awaited
    have mine : (acks, b.controller.oneshots) ∈ (b.leave env).awaits := by
      rw [awaits]
      exact List.mem_append_right _ (List.mem_singleton_self _)
    exact Or.inr ⟨_, mine, rfl, known⟩
  · apply split before.promised
    left
    exact List.mem_append_right _ (List.mem_singleton_self _)
  · apply split before.kept
    intro commit asks
    have queued : commit ∈ (b.leave env).queue.filterMap toCommit := by
      rw [leave_queue, List.filterMap_append]
      exact List.mem_append_right _ asks
    left
    exact List.mem_append_left _ (List.mem_append_right _ (List.mem_map_of_mem queued))
  · apply split before.unspent
    intro commit _ gone
    cases gone

theorem kept_commit {cmd : QmpCommand} {commit : Commit} {queue : List QmpCommand} (kept : Kept b)
    (oldest : b.queue = cmd :: queue) (asks : toCommit cmd = some commit)
    (free : ∀ j ∈ b.jobs, j.id ≠ commit.disk) : Kept (b.committed .ok commit queue) := by
  have unused : ∀ p ∈ b.handler.pendingDiskCommits, p.1 ≠ commit.disk := by
    intro p member same
    obtain ⟨j, runs, named, _⟩ := kept.running p member
    exact free j runs (named.trans same)
  have all : (b.committed .ok commit queue).handler.pendingDiskCommits =
      (commit.disk, commit.snapFile, commit.ack) :: b.handler.pendingDiskCommits := by
    refine congrArg (_ :: ·) (List.filter_eq_self.mpr ?_)
    intro p member
    exact decide_eq_true (unused p member)
  constructor
  · rw [all, List.map_cons, List.nodup_cons]
    refine ⟨?_, kept.keys⟩
    intro used
    obtain ⟨p, member, same⟩ := List.mem_map.mp used
    exact unused p member same
  · intro p member
    rw [all] at member
    rcases List.mem_cons.mp member with rfl | old
    · exact ⟨⟨commit.disk, .working⟩, List.mem_append_right _ (List.mem_singleton_self _), rfl,
        by simp⟩
    · obtain ⟨j, runs, named, open_⟩ := kept.running p old
      exact ⟨j, List.mem_append_left _ runs, named, open_⟩
  · exact kept.awaited
  · exact kept.promised
  · intro r member asked listed
    refine (kept.kept r member asked listed).imp_left ?_
    intro somewhere
    simp only [held, all, oldest, List.filterMap_cons, asks, List.map_cons, List.mem_append,
      List.mem_cons] at somewhere ⊢
    rcases somewhere with (before | now | waits) | pending
    · exact Or.inl (Or.inl before)
    · exact Or.inr (Or.inl now)
    · exact Or.inl (Or.inr waits)
    · exact Or.inr (Or.inr pending)
  · exact kept.unspent

theorem mem_lose {files : List (String × String)} {requests : List Request} {r : Request}
    (member : r ∈ requests.map (Request.lose files)) : ∃ old ∈ requests, r = old.lose files := by
  obtain ⟨old, listed, rfl⟩ := List.mem_map.mp member
  exact ⟨old, listed, rfl⟩

theorem find_key {α : Type} {entries : List (String × α)} {device : String} {a : α}
    (keys : (entries.map Prod.fst).Nodup)
    (found : entries.find? (fun p => p.1 = device) = some (device, a)) (p : String × α)
    (member : p ∈ entries) (same : p.1 = device) : p = (device, a) :=
  List.inj_on_of_nodup_map keys member (List.mem_of_find?_eq_some found) same

theorem mem_failures {h : CommandHandler} {reply : Reply} {device snapFile : String} {ack : Nat}
    (here : (device, snapFile, ack) ∈ h.pendingDiskCommits)
    (only : ∀ p ∈ h.pendingDiskCommits, p.1 = device → p = (device, snapFile, ack)) (k : Nat) :
    k ∈ failures reply h (.jobReady device) ↔ reply ≠ .ok ∧ k = ack := by
  simp only [failures]
  split
  · rename_i accepted
    simp [accepted]
  · rename_i refused
    simp only [List.mem_map, List.mem_filter, decide_eq_true_eq]
    constructor
    · rintro ⟨p, ⟨member, same⟩, rfl⟩
      rw [only p member same]
      exact ⟨refused, rfl⟩
    · rintro ⟨_, rfl⟩
      exact ⟨_, ⟨here, rfl⟩, rfl⟩

theorem held_complete {commit : Commit} {queue : List QmpCommand} {reply : Reply}
    (oldest : b.queue = .jobReady commit.disk :: queue)
    (here : (commit.disk, commit.snapFile, commit.ack) ∈ b.handler.pendingDiskCommits)
    (only : ∀ p ∈ b.handler.pendingDiskCommits, p.1 = commit.disk →
      p = (commit.disk, commit.snapFile, commit.ack)) (k : Nat) (somewhere : k ∈ held b) :
    k ∈ held (b.completed reply commit queue) ∨ k ∈ (b.completed reply commit queue).failed := by
  simp only [held, Backup.completed, oldest, List.filterMap_cons, toCommit, List.mem_append,
    mem_failures here only] at somewhere ⊢
  rcases somewhere with (before | waits) | pending
  · exact Or.inl (Or.inl (Or.inl (Or.inl before)))
  · exact Or.inl (Or.inl (Or.inr waits))
  · obtain ⟨p, member, same⟩ := List.mem_map.mp pending
    by_cases mine : p.1 = commit.disk
    · rw [only p member mine] at same
      cases same
      by_cases accepted : reply = .ok
      · exact Or.inl (Or.inl (Or.inl (Or.inr (by simp [accepted]))))
      · exact Or.inr (Or.inr ⟨accepted, rfl⟩)
    · have stays : p ∈ b.handler.pendingDiskCommits.filter fun p => p.1 ≠ commit.disk :=
        List.mem_filter.mpr ⟨member, decide_eq_true mine⟩
      exact Or.inl (Or.inr (List.mem_map.mpr ⟨p, stays, same⟩))

theorem kept_complete {commit : Commit} {queue : List QmpCommand} {reply : Reply} (kept : Kept b)
    (oldest : b.queue = .jobReady commit.disk :: queue)
    (found : b.handler.pendingDiskCommits.find? (fun p => p.1 = commit.disk) =
      some (commit.disk, commit.snapFile, commit.ack))
    (unlost : reply = .ok → ¬ lostBefore b commit.file)
    (there : reply = .error → ¬ goneBefore b commit.ack) (answers : reply ≠ .io) :
    Kept (b.completed reply commit queue) := by
  have only : ∀ p ∈ b.handler.pendingDiskCommits, p.1 = commit.disk →
      p = (commit.disk, commit.snapFile, commit.ack) := find_key kept.keys found
  have here := List.mem_of_find?_eq_some found
  constructor
  · exact kept.keys.sublist (List.filter_sublist.map _)
  · intro p member
    obtain ⟨old, other⟩ := List.mem_filter.mp member
    obtain ⟨j, runs, named, open_⟩ := kept.running p old
    have different : j.id ≠ commit.disk := fun same => of_decide_eq_true other (named.symm.trans same)
    exact ⟨j, List.mem_map.mpr ⟨j, runs, if_neg different⟩, named, open_⟩
  · intro r member
    obtain ⟨old, listed, rfl⟩ := mem_lose member
    exact (kept.awaited old listed).imp_left fun before => List.mem_append_left _ before
  · intro r member
    obtain ⟨old, listed, rfl⟩ := mem_lose member
    exact kept.promised old listed
  · intro r member asked asks
    obtain ⟨old, listed, rfl⟩ := mem_lose member
    rcases kept.kept old listed asked asks with somewhere | failed
    · exact held_complete oldest here only asked.ack somewhere
    · exact Or.inr (List.mem_append_left _ failed)
  · intro r member asked asks gone failed
    obtain ⟨old, listed, rfl⟩ := mem_lose member
    rcases List.mem_append.mp failed with before | now
    · rcases List.mem_append.mp gone with earlier | removed
      · exact kept.unspent old listed asked asks earlier before
      · split at removed
        · rename_i accepted
          exact unlost accepted ⟨old, listed, asked, asks, List.mem_singleton.mp removed, before⟩
        · cases removed
    · obtain ⟨refused, same⟩ := (mem_failures here only asked.ack).mp now
      rw [if_neg refused] at gone
      have error : reply = .error := by cases reply <;> simp_all
      have earlier : asked.file ∈ old.removed := by simpa [Request.lose] using gone
      exact there error ⟨old, listed, asked, asks, same, earlier⟩

theorem kept_other {cmd : QmpCommand} {queue : List QmpCommand} {handler : CommandHandler}
    {acks : List Nat} (kept : Kept b) (oldest : b.queue = cmd :: queue) (noCommit : toCommit cmd = none)
    (same : handler.pendingDiskCommits = b.handler.pendingDiskCommits) :
    Kept { b with queue, handler, sent := b.sent ++ acks } :=
  kept_grown kept
    { pending := same
      jobs := fun j runs open_ => ⟨j, runs, rfl, open_⟩
      awaits := fun _ waits => Or.inr waits
      promised := fun _ waits => Or.inr waits
      acked := fun _ done => done
      sent := fun _ before => List.mem_append_left _ before
      queue := by
        intro commit waits
        rwa [oldest, List.filterMap_cons, noCommit] at waits
      requests := rfl
      failed := rfl }

theorem kept_execute {reply : Reply} (kept : Kept b) (ok : keepsAcks b (.execute reply))
    (executed : Executed b reply t) (runs : t.handler.running = true) : Kept t := by
  have well : ∀ {cmd queue}, b.queue = cmd :: queue → goesWell b reply cmd :=
    fun oldest => ok _ (congrArg List.head? oldest)
  cases executed with
  | @commit cmd commit queue oldest asks free =>
    have answers : reply ≠ .io := of_decide_eq_true runs
    have accepted : reply ≠ .error := by
      have fits := well oldest
      cases cmd with
      | commitSnapshot diskId snapFile ack => exact fits
      | _ => cases asks
    cases reply with
    | ok => exact kept_commit kept oldest asks (free rfl)
    | error => exact absurd rfl accepted
    | io => exact absurd rfl answers
  | complete oldest found =>
    obtain ⟨unlost, there⟩ := well oldest _ (List.mem_of_find?_eq_some found) rfl
    exact kept_complete kept oldest found unlost there (of_decide_eq_true runs)
  | other oldest neither => exact kept_other kept oldest neither.1 rfl

theorem kept_ready {id : String} (kept : Kept b) :
    Kept { b with
      jobs := b.jobs.map fun j =>
        if j.id = id ∧ j.phase = .working then { j with phase := .ready } else j
      queue := b.queue ++ [.jobReady id] } :=
  kept_grown kept
    { pending := rfl
      jobs := by
        intro j runs open_
        refine ⟨_, List.mem_map_of_mem runs, ?_⟩
        split
        · exact ⟨rfl, by simp⟩
        · exact ⟨rfl, open_⟩
      awaits := fun _ waits => Or.inr waits
      promised := fun _ waits => Or.inr waits
      acked := fun _ done => done
      sent := fun _ before => before
      queue := by
        intro commit waits
        rw [List.filterMap_append]
        exact List.mem_append_left _ waits
      requests := rfl
      failed := rfl }

theorem kept_finish {id : String} (kept : Kept b) :
    Kept { b with jobs := b.jobs.filter fun j => ¬ (j.id = id ∧ j.phase = .answered) } :=
  kept_grown kept
    { pending := rfl
      jobs := fun j runs open_ => ⟨j, List.mem_filter.mpr ⟨runs, by simp [open_]⟩, rfl, open_⟩
      awaits := fun _ waits => Or.inr waits
      promised := fun _ waits => Or.inr waits
      acked := fun _ done => done
      sent := fun _ before => before
      queue := fun _ waits => waits
      requests := rfl
      failed := rfl }

theorem kept_relay {ack : Nat} (kept : Kept b) :
    Kept { b with awaits := b.awaits.filter fun task => task.2 ≠ ack, sent := b.sent ++ [ack] } :=
  kept_grown kept
    { pending := rfl
      jobs := fun j runs open_ => ⟨j, runs, rfl, open_⟩
      awaits := by
        intro task waits
        by_cases here : task.2 = ack
        · exact Or.inl (List.mem_append_right _ (List.mem_singleton.mpr here))
        · exact Or.inr (List.mem_filter.mpr ⟨waits, decide_eq_true here⟩)
      promised := fun _ waits => Or.inr waits
      acked := fun _ done => done
      sent := fun _ before => List.mem_append_left _ before
      queue := fun _ waits => waits
      requests := rfl
      failed := rfl }

theorem kept_acknowledge {ack : Nat} (kept : Kept b) :
    Kept { b with promised := b.promised.filter fun k => k ≠ ack, acked := b.acked ++ [ack] } :=
  kept_grown kept
    { pending := rfl
      jobs := fun j runs open_ => ⟨j, runs, rfl, open_⟩
      awaits := fun _ waits => Or.inr waits
      promised := by
        intro k waits
        by_cases here : k = ack
        · exact Or.inl (List.mem_append_right _ (List.mem_singleton.mpr here))
        · exact Or.inr (List.mem_filter.mpr ⟨waits, decide_eq_true here⟩)
      acked := fun _ done => List.mem_append_left _ done
      sent := fun _ before => before
      queue := fun _ waits => waits
      requests := rfl
      failed := rfl }

theorem kept_step {e : Event} (before : b.handler.running = true → Kept b) (ok : keepsAcks b e)
    (taken : backupStep b e = some t) (runs : t.handler.running = true) : Kept t := by
  cases e with
  | enter env =>
    cases taken
    exact kept_request _ (before runs)
  | leave env =>
    cases taken
    exact kept_leave (before runs)
  | execute reply =>
    obtain ⟨ran, executed⟩ := execute_cases taken
    exact kept_execute (before ran) ok executed runs
  | ready id =>
    obtain ⟨_, rfl⟩ := Option.ite_some_none_eq_some.mp taken
    exact kept_ready (before runs)
  | finish id =>
    obtain ⟨_, rfl⟩ := Option.ite_some_none_eq_some.mp taken
    exact kept_finish (before runs)
  | relay ack =>
    obtain ⟨_, rfl⟩ := Option.ite_some_none_eq_some.mp taken
    exact kept_relay (before runs)
  | acknowledge ack =>
    obtain ⟨_, rfl⟩ := Option.ite_some_none_eq_some.mp taken
    exact kept_acknowledge (before runs)

theorem kept_start (machine : MachineConfig) (hooks : HooksConfig) : Kept (start machine hooks) := by
  constructor
  · exact List.nodup_nil
  all_goals exact fun _ none => absurd none List.not_mem_nil

end Steps

/-- No acknowledgement of a LeaveBackupMode request is lost, as long as QEMU accepts every
    block_commit and a failed job is not made up for by another request's. -/
theorem backup_acks_kept (machine : MachineConfig) (hooks : HooksConfig) (es : List Event)
    (accepted : Runs.Meets backupStep keepsAcks (start machine hooks) es) :
    Runs.Always backupStep AcksKept (start machine hooks) es := by
  have preserves : ∀ (b : Backup) (e : Event) (t : Backup), (b.handler.running = true → Kept b) →
      keepsAcks b e → backupStep b e = some t → t.handler.running = true → Kept t :=
    fun b e t before ok taken runs => kept_step before ok taken runs
  have invariant := Runs.always_of_invariant _ preserves (fun _ => kept_start machine hooks) accepted
  exact Runs.always_mono (fun b kept runs settled => answered_of_kept (kept runs) settled) invariant

theorem committed_disk_acknowledged : Runs.Always backupStep AcksKept (start .oneDisk .bare)
    [.leave .snapshotThere, .execute .ok, .ready "disk0", .execute .ok, .finish "disk0", .relay 0,
      .acknowledge 0] :=
  backup_acks_kept .oneDisk .bare _ (by decide +kernel)

/-- A block_commit that QEMU rejects leaves its acknowledgement in the map for good. -/
theorem rejected_commit_stays_pending : ¬ Runs.Always backupStep AcksKept (start .oneDisk .bare)
    [.leave .snapshotThere, .execute .error] := by
  decide +kernel

/-- Of two requests for one disk the first is never acknowledged. -/
example : ¬ Runs.Always backupStep AcksKept (start .oneDisk .bare)
    [.leave .snapshotThere, .leave .snapshotThere, .execute .ok, .execute .error, .ready "disk0",
      .execute .ok, .finish "disk0", .relay 2, .acknowledge 2] := by
  decide +kernel

end BackupAcks
