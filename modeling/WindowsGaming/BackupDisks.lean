import Mathlib.Data.Fintype.Basic
import WindowsGaming.DiskImages
import WindowsGaming.Library.Overlays
import WindowsGaming.Library.Runs

/- What a backup does to the contents of the disks. Backup mode is entered and left by the command
   line while the machine is down and by the monitor's command handler while it runs. -/
namespace BackupDisks
open Overlays DiskImages

inductive Phase where
  | working
  | ready
  | answered
  deriving DecidableEq, Repr

structure Node (σ β : Type) where
  top : Top σ β
  job : Option Phase

structure Machine (σ β : Type) where
  nodes : List (Node σ β)
  removing : Option Nat

/-- Where the command line is; a list is what its iterator has not looked at yet. -/
inductive Cli where
  | idle
  | starting (todos : List Drive)
  | stopping (todos : List Drive)
  | committing (snap : String) (todos : List Drive)
  | committed (snap : String) (todos : List Drive)
  deriving DecidableEq, Repr

structure Host (σ β : Type) where
  files : Files σ β
  cli : Cli
  machine : Option (Machine σ β)
  written : Nat → σ → β

inductive Label (σ β : Type) where
  | backupStart
  | backupStop
  | next
  | commit (s : σ)
  | commitDone
  | removed
  | kill
  | boot
  | halt
  | write (disk : Nat) (s : σ) (v : β)
  /-- The handler executes a command, and QEMU agrees. -/
  | takeSnapshot (disk : Nat)
  | commitSnapshot (disk : Nat)
  | jobReady (disk : Nat)
  | removeFile
  /-- The job of a disk copies a place, catches up, lets the guest have the base, or fails. -/
  | copy (disk : Nat) (s : σ)
  | ready (disk : Nat)
  | pivot (disk : Nat)
  | abort (disk : Nat)

section Steps
variable {σ β : Type} [DecidableEq σ] [DecidableEq β] [Fintype σ] (drives : List Drive)

def cliNext (files : Files σ β) : Cli → Option (Files σ β × Cli)
  | .starting (drive :: todos) => some (create drive files, .starting todos)
  | .stopping (drive :: todos) =>
    match drive.snapshotFile with
    | some snap =>
      some (files, if (files snap).isSome then .committing snap todos else .stopping todos)
    | none => some (files, .stopping todos)
  | .starting [] | .stopping [] => some (files, .idle)
  | _ => none

def Machine.change (i : Nat) (node : Node σ β) (m : Machine σ β) : Machine σ β :=
  { m with nodes := m.nodes.set i node }

def Host.disk (h : Host σ β) (i : Nat) : Option (Drive × Machine σ β × Node σ β) :=
  drives[i]?.bind fun drive => h.machine.bind fun m => m.nodes[i]?.map fun node => (drive, m, node)

def jobEnds (files : Files σ β) (drive : Drive) (node : Node σ β) :
    Option ((σ → β) × (σ → Option β)) :=
  (files.whole drive.path).bind fun base =>
    (topLayer files drive node.top).map fun layer => (base, layer)

def step (h : Host σ β) : Label σ β → Option (Host σ β)
  | .backupStart =>
    if h.machine.isNone ∧ h.cli = .idle then some { h with cli := .starting drives } else none
  | .backupStop =>
    if h.machine.isNone ∧ h.cli = .idle then some { h with cli := .stopping drives } else none
  | .next => (cliNext h.files h.cli).map fun (files, cli) => { h with files, cli }
  | .commit s =>
    match h.cli with
    | .committing snap _ => (h.files.chain snap).map fun (backing, base, layer) =>
      { h with files := h.files.rebase backing (copy base layer s) }
    | _ => none
  | .commitDone =>
    match h.cli with
    | .committing snap todos => (h.files.chain snap).bind fun (_, base, layer) =>
      if Synced base layer then some { h with cli := .committed snap todos } else none
    | _ => none
  | .removed =>
    match h.cli with
    | .committed snap todos =>
      if (h.files snap).isSome then some { h with files := h.files.remove snap, cli := .stopping todos }
      else none
    | _ => none
  | .kill => some { h with cli := .idle }
  | .boot =>
    if h.machine.isNone ∧ h.cli = .idle then
      some { h with machine := some ⟨drives.map fun drive => ⟨bootTop h.files drive, none⟩, none⟩ }
    else none
  | .halt => if h.machine.isSome then some { h with machine := none } else none
  | .write i s v => (h.disk drives i).bind fun (drive, m, node) =>
    (writeTop h.files drive s v node.top).map fun (files, top) =>
      { h with
        files
        machine := some (m.change i { node with top })
        written := Function.update h.written i (Function.update (h.written i) s v) }
  | .takeSnapshot i => (h.disk drives i).bind fun (drive, m, node) =>
    match drive.snapshotFile, node.top with
    | some snap, .base =>
      if m.removing = none then
        some { h with
          files := h.files.put snap (.overlay drive.path drive.format blank)
          machine := some (m.change i { node with top := .snapshot }) }
      else none
    | _, _ => none
  | .commitSnapshot i => (h.disk drives i).bind fun (_, m, node) =>
    match node.top with
    | .base => none
    | _ =>
      if m.removing = none ∧ node.job = none then
        some { h with machine := some (m.change i { node with job := some .working }) }
      else none
  | .jobReady i => (h.disk drives i).bind fun (_, m, node) =>
    if m.removing = none ∧ node.job = some .ready then
      let m := m.change i { node with job := some .answered }
      some { h with machine := some { m with removing := some i } }
    else none
  | .removeFile => h.machine.bind fun m => m.removing.bind fun i => (h.disk drives i).bind
    fun (drive, m, node) => drive.snapshotFile.bind fun snap => (h.files.layer snap).map fun layer =>
      let top := match node.top with
        | .snapshot => .unlinked layer
        | top => top
      let m := m.change i { node with top }
      { h with files := h.files.remove snap, machine := some { m with removing := none } }
  | .copy i s => (h.disk drives i).bind fun (drive, _, node) =>
    if node.job.isSome then
      (jobEnds h.files drive node).map fun (base, layer) =>
        { h with files := h.files.rebase drive.path (copy base layer s) }
    else none
  | .ready i => (h.disk drives i).bind fun (drive, m, node) =>
    (jobEnds h.files drive node).bind fun (base, layer) =>
      if node.job = some .working ∧ Synced base layer then
        some { h with machine := some (m.change i { node with job := some .ready }) }
      else none
  | .pivot i => (h.disk drives i).bind fun (drive, m, node) =>
    (jobEnds h.files drive node).bind fun (base, layer) =>
      if node.job = some .answered ∧ Synced base layer then
        some { h with machine := some (m.change i ⟨.base, none⟩) }
      else none
  | .abort i => (h.disk drives i).bind fun (_, m, node) =>
    if node.job.isSome then
      some { h with machine := some (m.change i { node with job := none }) }
    else none

/-- The machine is not stopped while a job is completed, and no job that was asked to fails. -/
def orderly (h : Host σ β) : Label σ β → Prop
  | .halt => ∀ m ∈ h.machine, m.removing = none ∧ ∀ node ∈ m.nodes, node.job ≠ some .answered
  | .abort i => ∀ m ∈ h.machine, ∀ node ∈ m.nodes[i]?, node.job ≠ some .answered
  | _ => True

/-- What the guest reads from a disk, or would after the next boot. -/
def Host.reads (h : Host σ β) (i : Nat) : Option (σ → β) :=
  drives[i]?.bind fun drive =>
    match h.machine with
    | none => readTop h.files drive (bootTop h.files drive)
    | some m => m.nodes[i]?.bind fun node => readTop h.files drive node.top

end Steps

instance {σ β : Type} (h : Host σ β) : DecidablePred (orderly h)
  | .halt => inferInstanceAs (Decidable (∀ m ∈ h.machine,
      m.removing = none ∧ ∀ node ∈ m.nodes, node.job ≠ some .answered))
  | .abort i => inferInstanceAs (Decidable (∀ m ∈ h.machine, ∀ node ∈ m.nodes[i]?,
      node.job ≠ some .answered))
  | .backupStart | .backupStop | .next | .commit _ | .commitDone | .removed | .kill | .boot
  | .write .. | .takeSnapshot _ | .commitSnapshot _ | .jobReady _ | .removeFile | .copy .. | .ready _
  | .pivot _ => inferInstanceAs (Decidable True)

section Invariant
variable {σ β : Type}

def Fits (there busy : Prop) (node : Node σ β) : Prop :=
  match node.top with
  | .base => node.job = none ∧ (there ↔ busy)
  | .snapshot => there ∧ (node.job = some .answered ↔ busy)
  | .unlinked _ => ¬ there ∧ ¬ busy ∧ node.job = some .answered

def view (h : Host σ β) (i : Nat) : Option (Node σ β × Prop) :=
  h.machine.bind fun m => m.nodes[i]?.map fun node => (node, m.removing = some i)

def attached (files : Files σ β) (drive : Drive) : Option (Node σ β × Prop) → Top σ β
  | none => bootTop files drive
  | some (node, _) => node.top

structure DiskSound (files : Files σ β) (drive : Drive) (view : Option (Node σ β × Prop))
    (written : σ → β) : Prop where
  shaped : Shaped files drive
  reads : readTop files drive (attached files drive view) = some written
  fits : ∀ node busy, view = some (node, busy) → Fits (present files drive) busy node

def CliSound (drives : List Drive) (files : Files σ β) : Cli → Prop
  | .idle => True
  | .starting todos => ∃ done, drives = done ++ todos ∧
    ∀ drive ∈ done, drive.snapshotFile.isSome → present files drive
  | .stopping todos => ∃ done, drives = done ++ todos ∧ ∀ drive ∈ done, ¬ present files drive
  | .committing snap todos => ∃ done drive, drives = done ++ drive :: todos ∧
    drive.snapshotFile = some snap ∧ (files snap).isSome ∧ ∀ drive ∈ done, ¬ present files drive
  | .committed snap todos => ∃ done drive, drives = done ++ drive :: todos ∧
    drive.snapshotFile = some snap ∧ (∀ drive ∈ done, ¬ present files drive) ∧
    ∃ base layer, files.whole drive.path = some base ∧ files.layer snap = some layer ∧
      Synced base layer

structure Sound (drives : List Drive) (h : Host σ β) : Prop where
  disks : ∀ i drive, drives[i]? = some drive → DiskSound h.files drive (view h i) (h.written i)
  nodes : ∀ m, h.machine = some m → m.nodes.length = drives.length
  cli : CliSound drives h.files h.cli
  offline : h.cli ≠ .idle → h.machine = none

section Disks
variable {files after : Files σ β} {drive : Drive}

theorem attached_untouched (same : Untouched files after drive) (node : Option (Node σ β × Prop)) :
    attached after drive node = attached files drive node := by
  cases node with
  | none => exact same.bootTop
  | some seen => rfl

theorem sound_untouched {node : Option (Node σ β × Prop)} {written : σ → β}
    (same : Untouched files after drive) (sound : DiskSound files drive node written) :
    DiskSound after drive node written := by
  refine ⟨same.shaped sound.shaped, ?_, ?_⟩
  · rw [attached_untouched same, same.readTop]
    exact sound.reads
  · intro n busy seen
    rw [same.present]
    exact sound.fits n busy seen

theorem attached_rebase {contents : σ → β} (apart : drive.snapshotFile ≠ some drive.path)
    (node : Option (Node σ β × Prop)) :
    attached (files.rebase drive.path contents) drive node = attached files drive node := by
  cases node with
  | none => exact bootTop_rebase apart
  | some seen => rfl

theorem sound_copied [DecidableEq σ] {node : Option (Node σ β × Prop)} {written base : σ → β}
    {layer : σ → Option β} (sound : DiskSound files drive node written)
    (apart : drive.snapshotFile ≠ some drive.path) (below : files.whole drive.path = some base)
    (above : topLayer files drive (attached files drive node) = some layer) (s : σ) :
    DiskSound (files.rebase drive.path (copy base layer s)) drive node written := by
  refine ⟨shaped_rebase sound.shaped apart, ?_, ?_⟩
  · have before := sound.reads
    rw [readTop_eq below above] at before
    rw [attached_rebase apart, readTop_eq (whole_rebase _) ((topLayer_rebase apart _).trans above),
      read_copy]
    exact before
  · intro n busy seen
    rw [present_rebase apart]
    exact sound.fits n busy seen

end Disks

section Running
variable {drives : List Drive} {h : Host σ β} {i : Nat} {drive : Drive} {m : Machine σ β}
  {node : Node σ β}

theorem disk_cases (found : h.disk drives i = some (drive, m, node)) :
    drives[i]? = some drive ∧ h.machine = some m ∧ m.nodes[i]? = some node := by
  obtain ⟨d, listed, found⟩ := Option.bind_eq_some_iff.mp found
  obtain ⟨n, runs, found⟩ := Option.bind_eq_some_iff.mp found
  obtain ⟨k, attached, same⟩ := Option.map_eq_some_iff.mp found
  cases same
  exact ⟨listed, runs, attached⟩

theorem set_node (found : h.disk drives i = some (drive, m, node)) : m.nodes.set i node = m.nodes := by
  obtain ⟨-, -, there⟩ := disk_cases found
  rw [← (List.getElem?_eq_some_iff.mp there).2, List.set_getElem_self]

theorem cli_idle (sound : Sound drives h) (runs : h.machine = some m) : h.cli = .idle := by
  by_contra busy
  rw [sound.offline busy] at runs
  cases runs

theorem disk_sound (sound : Sound drives h) (found : h.disk drives i = some (drive, m, node)) :
    DiskSound h.files drive (some (node, m.removing = some i)) (h.written i) := by
  obtain ⟨listed, runs, attached⟩ := disk_cases found
  have own := sound.disks i drive listed
  rw [view, runs, Option.bind_some, attached, Option.map_some] at own
  exact own

theorem sound_running {files : Files σ β} {next : Node σ β} {removing : Option Nat}
    {written : Nat → σ → β} (sound : Sound drives h) (found : h.disk drives i = some (drive, m, node))
    (others : ∀ j other, drives[j]? = some other → i ≠ j → Untouched h.files files other)
    (quiet : ∀ j, i ≠ j → (removing = some j ↔ m.removing = some j))
    (kept : ∀ j, i ≠ j → written j = h.written j)
    (own : DiskSound files drive (some (next, removing = some i)) (written i)) :
    Sound drives
      { h with files, machine := some ⟨m.nodes.set i next, removing⟩, written } := by
  obtain ⟨listed, runs, attached⟩ := disk_cases found
  have idle := cli_idle sound runs
  have inside := (List.getElem?_eq_some_iff.mp attached).1
  refine ⟨?_, ?_, by rw [idle]; trivial, fun busy => absurd idle busy⟩
  · intro j other there
    by_cases same : i = j
    · subst same
      rw [listed] at there
      cases there
      rw [view, Option.bind_some, List.getElem?_set_self inside, Option.map_some]
      exact own
    · have before := sound.disks j other there
      change DiskSound files other _ (written j)
      rw [kept j same, view, Option.bind_some, List.getElem?_set_ne same, quiet j same]
      rw [view, runs, Option.bind_some] at before
      exact sound_untouched (others j other there same) before
  · intro n machine
    cases machine
    rw [List.length_set]
    exact sound.nodes m runs

theorem sound_node {next : Node σ β} {removing : Option Nat} (sound : Sound drives h)
    (found : h.disk drives i = some (drive, m, node)) (same : next.top = node.top)
    (quiet : ∀ j, i ≠ j → (removing = some j ↔ m.removing = some j))
    (fits : Fits (present h.files drive) (m.removing = some i) node →
      Fits (present h.files drive) (removing = some i) next) :
    Sound drives { h with machine := some ⟨m.nodes.set i next, removing⟩ } := by
  obtain ⟨shaped, reads, fit⟩ := disk_sound sound found
  refine sound_running sound found (fun _ _ _ _ => ⟨rfl, fun _ _ => rfl⟩) quiet (fun _ _ => rfl) ?_
  refine ⟨shaped, ?_, ?_⟩
  · simpa only [attached, same] using reads
  · intro n busy seen
    cases seen
    exact fits (fit node _ rfl)

theorem jobEnds_cases {files : Files σ β} {drive : Drive} {node : Node σ β} {base : σ → β}
    {layer : σ → Option β} (ends : jobEnds files drive node = some (base, layer)) :
    files.whole drive.path = some base ∧ topLayer files drive node.top = some layer := by
  obtain ⟨b, below, ends⟩ := Option.bind_eq_some_iff.mp ends
  obtain ⟨l, above, same⟩ := Option.map_eq_some_iff.mp ends
  cases same
  exact ⟨below, above⟩

end Running

section Steps
variable [DecidableEq σ] [DecidableEq β] [Fintype σ] {drives : List Drive} {h t : Host σ β} {i : Nat}

theorem own_apart (distinct : Distinct drives) {drive : Drive} (listed : drives[i]? = some drive) :
    drive.snapshotFile ≠ some drive.path :=
  fun own => distinct.path_ne_snap listed listed own rfl

theorem sound_write {s : σ} {v : β} (distinct : Distinct drives) (sound : Sound drives h)
    (taken : step drives h (.write i s v) = some t) : Sound drives t := by
  obtain ⟨⟨drive, m, node⟩, found, taken⟩ := Option.bind_eq_some_iff.mp taken
  obtain ⟨⟨files, top⟩, wrote, rfl⟩ := Option.map_eq_some_iff.mp taken
  obtain ⟨listed, -, -⟩ := disk_cases found
  obtain ⟨shaped, reads, fit⟩ := disk_sound sound found
  have fits := fit node _ rfl
  obtain ⟨base, layer, below, above, same⟩ := readTop_cases reads
  have apart := own_apart distinct listed
  have finish : (∀ j other, drives[j]? = some other → i ≠ j → Untouched h.files files other) →
      Shaped files drive →
      readTop files drive top = some (Function.update (read base layer) s v) →
      Fits (present files drive) (m.removing = some i) { node with top } →
      Sound drives { h with
        files
        machine := some (m.change i { node with top })
        written := Function.update h.written i (Function.update (h.written i) s v) } := by
    intro others shaped reads fits
    refine sound_running sound found others (fun _ _ => Iff.rfl) ?_ ⟨shaped, ?_, ?_⟩
    · exact fun j other => Function.update_of_ne (Ne.symm other) _ _
    · rw [Function.update_self, same]
      exact reads
    · intro n busy seen
      cases seen
      exact fits
  cases attached : node.top with
  | base =>
    rw [attached] at wrote
    simp only [writeTop, below, Option.map_some, Option.some.injEq, Prod.mk.injEq] at wrote
    obtain ⟨rfl, rfl⟩ := wrote
    simp only [BackupDisks.attached, attached, topLayer, Option.some.injEq] at above
    subst above
    refine finish ?_ (shaped_rebase shaped apart) ?_ ?_
    · exact fun j other there different => distinct.untouched_path listed there different
    · rw [readTop, whole_rebase]
      rfl
    · rw [present_rebase apart]
      simpa only [Fits, attached] using fits
  | snapshot =>
    rw [attached] at wrote
    obtain ⟨snap, own, wrote⟩ := Option.bind_eq_some_iff.mp wrote
    simp only [BackupDisks.attached, attached, topLayer, own, Option.bind_some] at above
    simp only [above, Option.map_some, Option.some.injEq, Prod.mk.injEq] at wrote
    obtain ⟨rfl, rfl⟩ := wrote
    have other_file : drive.path ≠ snap := fun same => apart (same ▸ own)
    refine finish ?_ (shaped_put shaped own other_file) ?_ ?_
    · exact fun j other there different => distinct.untouched_snap listed there different own
    · rw [← read_write]
      exact readTop_put own other_file below
    · simp only [Fits, attached] at fits ⊢
      exact ⟨present_put own _, fits.2⟩
  | unlinked old =>
    rw [attached] at wrote
    cases wrote
    simp only [BackupDisks.attached, attached, topLayer, Option.some.injEq] at above
    subst above
    refine finish (fun _ _ _ _ => ⟨rfl, fun _ _ => rfl⟩) shaped ?_ ?_
    · rw [← read_write]
      exact readTop_eq below rfl
    · simpa only [Fits, attached] using fits

theorem sound_takeSnapshot (distinct : Distinct drives) (sound : Sound drives h)
    (taken : step drives h (.takeSnapshot i) = some t) : Sound drives t := by
  obtain ⟨⟨drive, m, node⟩, found, taken⟩ := Option.bind_eq_some_iff.mp taken
  obtain ⟨listed, -, -⟩ := disk_cases found
  obtain ⟨shaped, reads, fit⟩ := disk_sound sound found
  have fits := fit node _ rfl
  obtain ⟨base, layer, below, above, same⟩ := readTop_cases reads
  simp only at taken
  split at taken
  · rename_i snap own attached
    simp only [Option.ite_none_right_eq_some, Option.some.injEq] at taken
    obtain ⟨free, rfl⟩ := taken
    have other_file : drive.path ≠ snap := distinct.path_ne_snap listed listed own
    simp only [BackupDisks.attached, attached, topLayer, Option.some.injEq] at above
    subst above
    refine sound_running sound found ?_ (fun _ _ => Iff.rfl) (fun _ _ => rfl)
      ⟨shaped_put shaped own other_file, ?_, ?_⟩
    · exact fun j other there different => distinct.untouched_snap listed there different own
    · rw [same]
      exact readTop_put own other_file below
    · intro n busy seen
      cases seen
      simp only [Fits, attached] at fits ⊢
      exact ⟨present_put own _, by simp [fits.1, free]⟩
  · cases taken

theorem sound_commitSnapshot (sound : Sound drives h)
    (taken : step drives h (.commitSnapshot i) = some t) : Sound drives t := by
  obtain ⟨⟨drive, m, node⟩, found, taken⟩ := Option.bind_eq_some_iff.mp taken
  simp only at taken
  split at taken
  · cases taken
  · rename_i above
    simp only [Option.ite_none_right_eq_some, Option.some.injEq] at taken
    obtain ⟨⟨free, none⟩, rfl⟩ := taken
    refine sound_node sound found rfl (fun _ _ => Iff.rfl) ?_
    intro fits
    cases attached : node.top with
    | base => exact absurd attached above
    | snapshot =>
      simp only [Fits, attached, none] at fits ⊢
      exact ⟨fits.1, by simpa using fits.2⟩
    | unlinked layer => simp [Fits, attached, none] at fits

theorem sound_jobReady (sound : Sound drives h)
    (taken : step drives h (.jobReady i) = some t) : Sound drives t := by
  obtain ⟨⟨drive, m, node⟩, found, taken⟩ := Option.bind_eq_some_iff.mp taken
  simp only [Option.ite_none_right_eq_some, Option.some.injEq] at taken
  obtain ⟨⟨free, ready⟩, rfl⟩ := taken
  refine sound_node sound found rfl ?_ ?_
  · intro j other
    simp [free, other]
  · intro fits
    cases attached : node.top with
    | base => simp [Fits, attached, ready] at fits
    | snapshot =>
      simp only [Fits, attached] at fits ⊢
      exact ⟨fits.1, by simp⟩
    | unlinked layer => simp [Fits, attached, ready] at fits

theorem sound_ready (sound : Sound drives h) (taken : step drives h (.ready i) = some t) :
    Sound drives t := by
  obtain ⟨⟨drive, m, node⟩, found, taken⟩ := Option.bind_eq_some_iff.mp taken
  obtain ⟨⟨base, layer⟩, -, taken⟩ := Option.bind_eq_some_iff.mp taken
  simp only [Option.ite_none_right_eq_some, Option.some.injEq] at taken
  obtain ⟨⟨working, -⟩, rfl⟩ := taken
  refine sound_node sound found rfl (fun _ _ => Iff.rfl) ?_
  intro fits
  cases attached : node.top with
  | base => simp [Fits, attached, working] at fits
  | snapshot =>
    simp only [Fits, attached, working] at fits ⊢
    exact ⟨fits.1, by simpa using fits.2⟩
  | unlinked layer => simp [Fits, attached, working] at fits

theorem sound_abort (sound : Sound drives h) (ok : orderly h (.abort i))
    (taken : step drives h (.abort i) = some t) : Sound drives t := by
  obtain ⟨⟨drive, m, node⟩, found, taken⟩ := Option.bind_eq_some_iff.mp taken
  obtain ⟨-, runs, there⟩ := disk_cases found
  simp only [Option.ite_none_right_eq_some, Option.some.injEq] at taken
  obtain ⟨-, rfl⟩ := taken
  have unanswered : node.job ≠ some .answered := ok m runs node there
  refine sound_node sound found rfl (fun _ _ => Iff.rfl) ?_
  intro fits
  cases attached : node.top with
  | base =>
    simp only [Fits, attached] at fits ⊢
    exact ⟨trivial, fits.2⟩
  | snapshot =>
    simp only [Fits, attached, unanswered, false_iff] at fits ⊢
    exact ⟨fits.1, by simpa using fits.2⟩
  | unlinked layer => simp [Fits, attached, unanswered] at fits

theorem sound_pivot (sound : Sound drives h) (taken : step drives h (.pivot i) = some t) :
    Sound drives t := by
  obtain ⟨⟨drive, m, node⟩, found, taken⟩ := Option.bind_eq_some_iff.mp taken
  obtain ⟨⟨base, layer⟩, ends, taken⟩ := Option.bind_eq_some_iff.mp taken
  simp only [Option.ite_none_right_eq_some, Option.some.injEq] at taken
  obtain ⟨⟨answered, synced⟩, rfl⟩ := taken
  obtain ⟨below, above⟩ := jobEnds_cases ends
  obtain ⟨shaped, reads, fit⟩ := disk_sound sound found
  have fits := fit node _ rfl
  rw [BackupDisks.attached, readTop_eq below above, read_synced synced] at reads
  refine sound_running sound found (fun _ _ _ _ => ⟨rfl, fun _ _ => rfl⟩) (fun _ _ => Iff.rfl)
    (fun _ _ => rfl) ⟨shaped, ?_, ?_⟩
  · rw [← reads, readTop, BackupDisks.attached, below]
    rfl
  · intro n busy seen
    cases seen
    cases attached : node.top with
    | base => simp [Fits, attached, answered] at fits
    | snapshot =>
      simp only [Fits, attached, answered, true_iff] at fits ⊢
      exact ⟨trivial, iff_of_true fits.1 fits.2⟩
    | unlinked layer =>
      simp only [Fits, attached] at fits ⊢
      exact ⟨trivial, iff_of_false fits.1 fits.2.1⟩

theorem sound_copy {s : σ} (distinct : Distinct drives) (sound : Sound drives h)
    (taken : step drives h (.copy i s) = some t) : Sound drives t := by
  obtain ⟨⟨drive, m, node⟩, found, taken⟩ := Option.bind_eq_some_iff.mp taken
  obtain ⟨listed, runs, -⟩ := disk_cases found
  simp only [Option.ite_none_right_eq_some] at taken
  obtain ⟨-, taken⟩ := taken
  obtain ⟨⟨base, layer⟩, ends, rfl⟩ := Option.map_eq_some_iff.mp taken
  obtain ⟨below, above⟩ := jobEnds_cases ends
  have copied := sound_copied (disk_sound sound found) (own_apart distinct listed) below above s
  have next := sound_running sound found
    (fun j other there different => distinct.untouched_path listed there different)
    (fun _ _ => Iff.rfl) (fun _ _ => rfl) copied
  rw [set_node found] at next
  have same : some m = h.machine := runs.symm
  rw [same] at next
  exact next

theorem sound_removeFile (distinct : Distinct drives) (sound : Sound drives h)
    (taken : step drives h .removeFile = some t) : Sound drives t := by
  obtain ⟨m, runs, taken⟩ := Option.bind_eq_some_iff.mp taken
  obtain ⟨i, removing, taken⟩ := Option.bind_eq_some_iff.mp taken
  obtain ⟨⟨drive, m', node⟩, found, taken⟩ := Option.bind_eq_some_iff.mp taken
  obtain ⟨snap, own, taken⟩ := Option.bind_eq_some_iff.mp taken
  obtain ⟨layer, open_layer, rfl⟩ := Option.map_eq_some_iff.mp taken
  obtain ⟨listed, same_machine, -⟩ := disk_cases found
  cases runs.symm.trans same_machine
  obtain ⟨shaped, reads, fit⟩ := disk_sound sound found
  have fits := fit node _ rfl
  obtain ⟨base, above_base, below, above, same⟩ := readTop_cases reads
  have there : present h.files drive := ⟨snap, own, layer_of_some open_layer⟩
  have gone : ¬ present (h.files.remove snap) drive := not_present_remove own
  have apart : drive.path ≠ snap := distinct.path_ne_snap listed listed own
  have kept : (h.files.remove snap).whole drive.path = some base := by
    rw [Files.remove, whole_update apart]
    exact below
  refine sound_running sound found
    (fun j other found different => distinct.untouched_snap listed found different own)
    ?_ (fun _ _ => rfl) ⟨shaped_remove shaped own apart, ?_, ?_⟩
  · intro j other
    simp [removing, other]
  · rw [same]
    refine readTop_eq kept ?_
    cases attached : node.top with
    | base =>
      simp only [BackupDisks.attached, attached, topLayer] at above
      exact above
    | snapshot =>
      simp only [BackupDisks.attached, attached, topLayer, own, Option.bind_some] at above
      exact open_layer.symm.trans above
    | unlinked old => exact absurd there (by simp only [Fits, attached] at fits; exact fits.1)
  · intro n busy seen
    cases seen
    cases attached : node.top with
    | base =>
      simp only [Fits, attached] at fits ⊢
      exact ⟨fits.1, iff_of_false gone (by simp)⟩
    | snapshot =>
      simp only [Fits, attached, removing] at fits ⊢
      exact ⟨gone, by simp, by simpa using fits.2⟩
    | unlinked old => exact absurd there (by simp only [Fits, attached] at fits; exact fits.1)

end Steps

end Invariant

end BackupDisks
