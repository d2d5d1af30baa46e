import WindowsGaming.BackupDisks

/- The command line's part of a backup, and what the guest reads through all of it. -/
namespace BackupReads
open Overlays DiskImages BackupDisks

section Invariant
variable {σ β : Type}

section Offline
variable {drives : List Drive} {h : Host σ β} {i : Nat}

theorem sound_offline {files : Files σ β} {cli : Cli} (off : h.machine = none)
    (disks : ∀ i drive, drives[i]? = some drive → DiskSound files drive none (h.written i))
    (done : CliSound drives files cli) : Sound drives { h with files, cli } := by
  refine ⟨?_, ?_, done, fun _ => off⟩
  · intro i drive listed
    rw [view, off, Option.bind_none]
    exact disks i drive listed
  · intro m runs
    rw [off] at runs
    cases runs

theorem offline_disk (sound : Sound drives h) (off : h.machine = none) (i : Nat) (drive : Drive)
    (listed : drives[i]? = some drive) : DiskSound h.files drive none (h.written i) := by
  have own := sound.disks i drive listed
  rw [view, off, Option.bind_none] at own
  exact own

theorem sound_offline_disk {files : Files σ β} {cli : Cli} {drive : Drive} (sound : Sound drives h)
    (off : h.machine = none) (listed : drives[i]? = some drive)
    (others : ∀ j other, drives[j]? = some other → i ≠ j → Untouched h.files files other)
    (own : DiskSound files drive none (h.written i)) (done : CliSound drives files cli) :
    Sound drives { h with files, cli } := by
  refine sound_offline off ?_ done
  intro j other there
  by_cases same : i = j
  · subst same
    rw [listed] at there
    cases there
    exact own
  · exact sound_untouched (others j other there same) (offline_disk sound off j other there)

section Lists
variable {done todos : List Drive} {drive : Drive}

theorem getElem?_split (cut : drives = done ++ drive :: todos) : drives[done.length]? = some drive := by
  simp [cut]

theorem getElem?_done (cut : drives = done ++ todos) {other : Drive} (passed : other ∈ done) :
    ∃ j, j < done.length ∧ drives[j]? = some other := by
  obtain ⟨j, inside, found⟩ := List.getElem_of_mem passed
  refine ⟨j, inside, ?_⟩
  rw [cut, List.getElem?_append_left inside, List.getElem?_eq_getElem inside, found]

theorem present_done {files after : Files σ β} (cut : drives = done ++ todos)
    (others : ∀ j other, drives[j]? = some other → done.length ≠ j → Untouched files after other)
    {other : Drive} (passed : other ∈ done) : present after other ↔ present files other := by
  obtain ⟨j, less, found⟩ := getElem?_done cut passed
  exact (others j other found (Nat.ne_of_gt less)).present

theorem done_concat (cut : drives = done ++ drive :: todos) : drives = (done ++ [drive]) ++ todos := by
  rw [cut, List.append_assoc, List.singleton_append]

end Lists

theorem sound_create {drive : Drive} (distinct : Distinct drives) (sound : Sound drives h)
    (off : h.machine = none) (listed : drives[i]? = some drive) :
    DiskSound (create drive h.files) drive none (h.written i) ∧
      (drive.snapshotFile.isSome → present (create drive h.files) drive) ∧
      ∀ j other, drives[j]? = some other → i ≠ j → Untouched h.files (create drive h.files) other := by
  have own_sound := offline_disk sound off i drive listed
  have still : ∀ j other, drives[j]? = some other → i ≠ j → Untouched h.files h.files other :=
    fun _ _ _ _ => ⟨rfl, fun _ _ => rfl⟩
  cases own : drive.snapshotFile with
  | none =>
    simp only [create, own]
    exact ⟨own_sound, by simp, still⟩
  | some snap =>
    by_cases there : (h.files snap).isSome
    · simp only [create, own, there, if_true]
      exact ⟨own_sound, fun _ => ⟨snap, own, there⟩, still⟩
    · have apart : drive.path ≠ snap := distinct.path_ne_snap listed listed own
      have absent : ¬ present h.files drive := by
        rw [present_iff own]
        exact there
      have now : present (h.files.put snap (.overlay drive.path drive.format blank)) drive :=
        present_put own _
      obtain ⟨base, layer, below, above, same⟩ := readTop_cases own_sound.reads
      rw [attached, bootTop_of_absent absent] at above
      cases above
      simp only [create, own, there, if_false, Bool.false_eq_true]
      refine ⟨⟨shaped_put own_sound.shaped own apart, ?_, by simp⟩, fun _ => now, ?_⟩
      · rw [same, attached, bootTop_of_present now]
        exact readTop_put own apart below
      · exact fun j other found different => distinct.untouched_snap listed found different own

end Offline

section Steps
variable [DecidableEq σ] [DecidableEq β] [Fintype σ] {drives : List Drive} {h t : Host σ β} {i : Nat}

theorem sound_next (distinct : Distinct drives) (sound : Sound drives h)
    (taken : step drives h .next = some t) : Sound drives t := by
  obtain ⟨⟨files, cli⟩, moved, rfl⟩ := Option.map_eq_some_iff.mp taken
  have sound_cli := sound.cli
  have off : h.cli ≠ .idle → h.machine = none := sound.offline
  cases position : h.cli with
  | starting todos =>
    rw [position] at moved sound_cli
    have off := off (by rw [position]; nofun)
    obtain ⟨done, cut, passed⟩ := sound_cli
    cases todos with
    | nil =>
      cases moved
      exact sound_offline off (offline_disk sound off) trivial
    | cons drive todos =>
      cases moved
      have listed := getElem?_split cut
      obtain ⟨own, there, others⟩ := sound_create distinct sound off listed
      refine sound_offline_disk sound off listed others own ⟨done ++ [drive], done_concat cut, ?_⟩
      refine List.forall_mem_append.mpr ⟨?_, List.forall_mem_singleton.mpr there⟩
      intro other before file
      exact (present_done cut others before).mpr (passed other before file)
  | stopping todos =>
    rw [position] at moved sound_cli
    have off := off (by rw [position]; nofun)
    obtain ⟨done, cut, passed⟩ := sound_cli
    cases todos with
    | nil =>
      cases moved
      exact sound_offline off (offline_disk sound off) trivial
    | cons drive todos =>
      have skipped (absent : ¬ present h.files drive) :
          Sound drives { h with files := h.files, cli := .stopping todos } := by
        refine sound_offline off (offline_disk sound off) ⟨done ++ [drive], done_concat cut, ?_⟩
        exact List.forall_mem_append.mpr ⟨passed, List.forall_mem_singleton.mpr absent⟩
      cases own : drive.snapshotFile with
      | none =>
        simp only [cliNext, own, Option.some.injEq, Prod.mk.injEq] at moved
        obtain ⟨rfl, rfl⟩ := moved
        exact skipped (not_present_of_none own)
      | some snap =>
        simp only [cliNext, own, Option.some.injEq, Prod.mk.injEq] at moved
        by_cases there : (h.files snap).isSome
        · simp only [there, if_true] at moved
          obtain ⟨rfl, rfl⟩ := moved
          exact sound_offline off (offline_disk sound off) ⟨done, drive, cut, own, there, passed⟩
        · simp only [there, if_false, Bool.false_eq_true] at moved
          obtain ⟨rfl, rfl⟩ := moved
          refine skipped ?_
          rw [present_iff own]
          exact there
  | idle | committing snap todos | committed snap todos =>
    rw [position] at moved
    cases moved

theorem sound_commit {s : σ} (distinct : Distinct drives) (sound : Sound drives h)
    (taken : step drives h (.commit s) = some t) : Sound drives t := by
  have sound_cli := sound.cli
  simp only [step] at taken
  split at taken
  · rename_i snap todos position
    have off := sound.offline (by simp [position])
    rw [position] at sound_cli
    obtain ⟨done, drive, cut, own, there, passed⟩ := sound_cli
    obtain ⟨⟨backing, base, layer⟩, chain, rfl⟩ := Option.map_eq_some_iff.mp taken
    have listed := getElem?_split cut
    have disk := offline_disk sound off _ drive listed
    obtain ⟨rfl, below, above, found⟩ := chain_own disk.shaped own chain
    have apart := own_apart distinct listed
    have others : ∀ j other, drives[j]? = some other → done.length ≠ j →
        Untouched h.files (h.files.rebase drive.path (copy base layer s)) other :=
      fun j other member different => distinct.untouched_path listed member different
    have top : topLayer h.files drive (attached h.files drive none) = some layer := by
      rw [attached, bootTop_of_present found, topLayer, own, Option.bind_some]
      exact above
    refine sound_offline_disk sound off listed others (sound_copied disk apart below top s) ?_
    rw [position]
    refine ⟨done, drive, cut, own, ?_, ?_⟩
    · have other : snap ≠ drive.path := fun same => apart (same ▸ own)
      rw [Files.rebase, Files.put, Function.update_of_ne other]
      exact there
    · intro other member
      rw [present_done cut others member]
      exact passed other member
  · cases taken

theorem sound_commitDone (sound : Sound drives h)
    (taken : step drives h .commitDone = some t) : Sound drives t := by
  have sound_cli := sound.cli
  simp only [step] at taken
  split at taken
  · rename_i snap todos position
    have off := sound.offline (by rw [position]; nofun)
    rw [position] at sound_cli
    obtain ⟨done, drive, cut, own, there, passed⟩ := sound_cli
    obtain ⟨⟨backing, base, layer⟩, chain, taken⟩ := Option.bind_eq_some_iff.mp taken
    simp only [Option.ite_none_right_eq_some, Option.some.injEq] at taken
    obtain ⟨synced, rfl⟩ := taken
    have disk := offline_disk sound off _ drive (getElem?_split cut)
    obtain ⟨-, below, above, -⟩ := chain_own disk.shaped own chain
    exact sound_offline off (offline_disk sound off)
      ⟨done, drive, cut, own, passed, base, layer, below, above, synced⟩
  · cases taken

theorem sound_removed (distinct : Distinct drives) (sound : Sound drives h)
    (taken : step drives h .removed = some t) : Sound drives t := by
  have sound_cli := sound.cli
  simp only [step] at taken
  split at taken
  · rename_i snap todos position
    have off := sound.offline (by simp [position])
    rw [position] at sound_cli
    obtain ⟨done, drive, cut, own, passed, base, layer, below, above, synced⟩ := sound_cli
    simp only [Option.ite_none_right_eq_some, Option.some.injEq] at taken
    obtain ⟨there, rfl⟩ := taken
    have listed := getElem?_split cut
    have disk := offline_disk sound off _ drive listed
    have apart : drive.path ≠ snap := distinct.path_ne_snap listed listed own
    have others : ∀ j other, drives[j]? = some other → done.length ≠ j →
        Untouched h.files (h.files.remove snap) other :=
      fun j other member different => distinct.untouched_snap listed member different own
    have gone : ¬ present (h.files.remove snap) drive := not_present_remove own
    have top : topLayer h.files drive (attached h.files drive none) = some layer := by
      rw [attached, bootTop_of_present ⟨snap, own, there⟩, topLayer, own, Option.bind_some]
      exact above
    refine sound_offline_disk sound off listed others ⟨shaped_remove disk.shaped own apart, ?_, by simp⟩
      ⟨done ++ [drive], done_concat cut, ?_⟩
    · rw [← disk.reads, readTop_eq below top, read_synced synced, attached, bootTop_of_absent gone,
        readTop, Files.remove, whole_update apart, below]
      rfl
    · refine List.forall_mem_append.mpr ⟨?_, List.forall_mem_singleton.mpr gone⟩
      intro other before
      rw [present_done cut others before]
      exact passed other before
  · cases taken

theorem sound_boot (sound : Sound drives h) (taken : step drives h .boot = some t) :
    Sound drives t := by
  simp only [step, Option.ite_none_right_eq_some, Option.some.injEq] at taken
  obtain ⟨⟨off, idle⟩, rfl⟩ := taken
  have off : h.machine = none := by simpa using off
  refine ⟨?_, ?_, by rw [idle]; trivial, fun busy => absurd idle busy⟩
  · intro i drive listed
    have disk := offline_disk sound off i drive listed
    simp only [view, Option.bind_some, List.getElem?_map, listed, Option.map_some]
    refine ⟨disk.shaped, disk.reads, ?_⟩
    intro node busy seen
    cases seen
    by_cases there : present h.files drive
    · simp [Fits, bootTop_of_present there, there]
    · simp [Fits, bootTop_of_absent there, there]
  · intro m runs
    cases runs
    simp

theorem sound_halt (sound : Sound drives h) (ok : orderly h .halt)
    (taken : step drives h .halt = some t) : Sound drives t := by
  simp only [step, Option.ite_none_right_eq_some, Option.some.injEq] at taken
  obtain ⟨runs, rfl⟩ := taken
  obtain ⟨m, runs⟩ := Option.isSome_iff_exists.mp runs
  obtain ⟨free, unanswered⟩ := ok m runs
  have idle := cli_idle sound runs
  refine ⟨?_, by simp, by rw [idle]; trivial, fun busy => absurd idle busy⟩
  intro i drive listed
  have inside := (List.getElem?_eq_some_iff.mp listed).1
  have bounded : i < m.nodes.length := by rw [sound.nodes m runs]; exact inside
  have disk := sound.disks i drive listed
  rw [view, runs, Option.bind_some, List.getElem?_eq_getElem bounded, Option.map_some] at disk
  have quiet := unanswered _ (List.getElem_mem bounded)
  have fits := disk.fits _ _ rfl
  refine ⟨disk.shaped, ?_, by simp [view]⟩
  rw [← disk.reads]
  cases top : m.nodes[i].top with
  | base =>
    simp only [Fits, top, free] at fits
    have gone : ¬ present h.files drive := by
      intro there
      have linked := fits.2.mp there
      cases linked
    simp only [attached, view, Option.bind_none, bootTop_of_absent gone, top]
  | snapshot =>
    simp only [Fits, top] at fits
    simp only [attached, view, Option.bind_none, bootTop_of_present fits.1, top]
  | unlinked layer =>
    simp only [Fits, top] at fits
    exact absurd fits.2.2 quiet

theorem sound_step {l : Label σ β} (distinct : Distinct drives) (sound : Sound drives h)
    (ok : orderly h l) (taken : step drives h l = some t) : Sound drives t := by
  cases l with
  | backupStart =>
    simp only [step, Option.ite_none_right_eq_some, Option.some.injEq] at taken
    obtain ⟨⟨off, -⟩, rfl⟩ := taken
    have off : h.machine = none := by simpa using off
    exact sound_offline off (offline_disk sound off) ⟨[], rfl, nofun⟩
  | backupStop =>
    simp only [step, Option.ite_none_right_eq_some, Option.some.injEq] at taken
    obtain ⟨⟨off, -⟩, rfl⟩ := taken
    have off : h.machine = none := by simpa using off
    exact sound_offline off (offline_disk sound off) ⟨[], rfl, nofun⟩
  | next => exact sound_next distinct sound taken
  | commit s => exact sound_commit distinct sound taken
  | commitDone => exact sound_commitDone sound taken
  | removed => exact sound_removed distinct sound taken
  | kill =>
    cases taken
    exact ⟨sound.disks, sound.nodes, trivial, fun busy => absurd rfl busy⟩
  | boot => exact sound_boot sound taken
  | halt => exact sound_halt sound ok taken
  | write i s v => exact sound_write distinct sound taken
  | takeSnapshot i => exact sound_takeSnapshot distinct sound taken
  | commitSnapshot i => exact sound_commitSnapshot sound taken
  | jobReady i => exact sound_jobReady sound taken
  | removeFile => exact sound_removeFile distinct sound taken
  | copy i s => exact sound_copy distinct sound taken
  | ready i => exact sound_ready sound taken
  | pivot i => exact sound_pivot sound taken
  | abort i => exact sound_abort sound ok taken

end Steps
end Invariant

section Start
variable {σ β : Type} {drives : List Drive}

def start (files : Files σ β) (written : Nat → σ → β) : Host σ β := ⟨files, .idle, none, written⟩

/-- Each disk is there, and a snapshot file, if there is one, is above its own disk. -/
def Prepared (drives : List Drive) (files : Files σ β) (written : Nat → σ → β) : Prop :=
  ∀ i drive, drives[i]? = some drive →
    Shaped files drive ∧ readTop files drive (bootTop files drive) = some (written i)

/-- The guest has on its disks what it has written, and will have it after the next boot. -/
def Kept (drives : List Drive) (h : Host σ β) : Prop :=
  ∀ i, i < drives.length → h.reads drives i = some (h.written i)

theorem sound_start {files : Files σ β} {written : Nat → σ → β}
    (prepared : Prepared drives files written) : Sound drives (start files written) := by
  refine ⟨?_, nofun, trivial, fun _ => rfl⟩
  intro i drive listed
  exact ⟨(prepared i drive listed).1, (prepared i drive listed).2, nofun⟩

theorem kept_of_sound {h : Host σ β} (sound : Sound drives h) : Kept drives h := by
  intro i inside
  have listed : drives[i]? = some drives[i] := List.getElem?_eq_getElem inside
  have reads := (sound.disks i _ listed).reads
  rw [Host.reads, listed, Option.bind_some]
  cases runs : h.machine with
  | none =>
    rw [view, runs] at reads
    exact reads
  | some m =>
    have bounded : i < m.nodes.length := by
      rw [sound.nodes m runs]
      exact inside
    rw [view, runs, Option.bind_some, List.getElem?_eq_getElem bounded] at reads
    simp only [List.getElem?_eq_getElem bounded, Option.bind_some]
    exact reads

end Start

section Example

def twoDrives : List Drive := [⟨⟨some "a.qcow2"⟩, "a.raw", "raw"⟩, ⟨⟨none⟩, "b.raw", "raw"⟩]

def twoFiles : Files (Fin 2) Nat := fun path =>
  if path = "a.raw" then some (.whole fun _ => 1)
  else if path = "b.raw" then some (.whole fun _ => 2)
  else none

theorem twoFiles_prepared : Prepared twoDrives twoFiles fun i _ => i + 1 := by
  intro i drive listed
  match i with
  | 0 =>
    cases listed
    refine ⟨⟨rfl, ?_⟩, rfl⟩
    intro snap image own found
    cases own
    simp [twoFiles] at found
  | 1 =>
    cases listed
    exact ⟨⟨rfl, nofun⟩, rfl⟩
  | i + 2 => simp [twoDrives] at listed

def twoBackups : List (Label (Fin 2) Nat) :=
  [.backupStart, .next, .next, .next, .boot, .write 0 0 7, .halt, .backupStop, .next, .commit 0,
    .kill, .backupStop, .next, .commit 0, .commit 1, .commitDone, .removed, .next, .next, .boot,
    .takeSnapshot 0, .write 0 1 5, .commitSnapshot 0, .copy 0 1, .ready 0, .jobReady 0, .pivot 0,
    .write 0 0 9, .removeFile, .halt]

end Example

section Results
variable {σ β : Type} [DecidableEq σ] [DecidableEq β] [Fintype σ] {drives : List Drive}

end Results

end BackupReads
