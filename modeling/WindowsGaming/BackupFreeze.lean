import WindowsGaming.BackupReads

/- What backup mode is for: the base of a disk stays as it is until backup mode is left. -/
namespace BackupFreeze
open Overlays DiskImages BackupDisks BackupReads

section Backup
variable {σ β : Type} [DecidableEq σ] [DecidableEq β] [Fintype σ] {drives : List Drive}
  {h t : Host σ β} {i : Nat} {drive : Drive}

def diskOf (h : Host σ β) : Label σ β → Option Nat
  | .write i _ _ | .takeSnapshot i | .commitSnapshot i | .jobReady i | .copy i _ | .ready i
  | .pivot i | .abort i => some i
  | .removeFile => h.machine.bind Machine.removing
  | _ => none

theorem running_shape {l : Label σ β} (distinct : Distinct drives) (about : diskOf h l = some i)
    (taken : step drives h l = some t) :
    ∃ drive m node files next removing written, h.disk drives i = some (drive, m, node) ∧
      t = { h with files, machine := some ⟨m.nodes.set i next, removing⟩, written } ∧
      ∀ j other, drives[j]? = some other → i ≠ j → Untouched h.files files other := by
  have still : ∀ j other, drives[j]? = some other → i ≠ j → Untouched h.files h.files other :=
    fun _ _ _ _ => ⟨rfl, fun _ _ => rfl⟩
  cases l with
  | write k s v =>
    cases about
    obtain ⟨⟨drive, m, node⟩, found, taken⟩ := Option.bind_eq_some_iff.mp taken
    obtain ⟨⟨files, top⟩, wrote, rfl⟩ := Option.map_eq_some_iff.mp taken
    obtain ⟨listed, -, -⟩ := disk_cases found
    refine ⟨drive, m, node, files, _, _, _, found, rfl, ?_⟩
    intro j other there different
    cases attached : node.top with
    | base =>
      rw [attached] at wrote
      obtain ⟨base, -, same⟩ := Option.map_eq_some_iff.mp wrote
      cases same
      exact distinct.untouched_path listed there different
    | snapshot =>
      rw [attached] at wrote
      obtain ⟨snap, own, wrote⟩ := Option.bind_eq_some_iff.mp wrote
      obtain ⟨layer, -, same⟩ := Option.map_eq_some_iff.mp wrote
      cases same
      exact distinct.untouched_snap listed there different own
    | unlinked layer =>
      rw [attached] at wrote
      cases wrote
      exact still j other there different
  | takeSnapshot k =>
    cases about
    obtain ⟨⟨drive, m, node⟩, found, taken⟩ := Option.bind_eq_some_iff.mp taken
    obtain ⟨listed, -, -⟩ := disk_cases found
    simp only at taken
    split at taken
    · rename_i snap own attached
      simp only [Option.ite_none_right_eq_some, Option.some.injEq] at taken
      obtain ⟨-, rfl⟩ := taken
      exact ⟨drive, m, node, _, _, _, _, found, rfl, fun j other there different =>
        distinct.untouched_snap listed there different own⟩
    · cases taken
  | commitSnapshot k =>
    cases about
    obtain ⟨⟨drive, m, node⟩, found, taken⟩ := Option.bind_eq_some_iff.mp taken
    simp only at taken
    split at taken
    · cases taken
    · simp only [Option.ite_none_right_eq_some, Option.some.injEq] at taken
      obtain ⟨-, rfl⟩ := taken
      exact ⟨drive, m, node, _, _, _, _, found, rfl, still⟩
  | jobReady k | abort k =>
    cases about
    obtain ⟨⟨drive, m, node⟩, found, taken⟩ := Option.bind_eq_some_iff.mp taken
    simp only [Option.ite_none_right_eq_some, Option.some.injEq] at taken
    obtain ⟨-, rfl⟩ := taken
    exact ⟨drive, m, node, _, _, _, _, found, rfl, still⟩
  | ready k | pivot k =>
    cases about
    obtain ⟨⟨drive, m, node⟩, found, taken⟩ := Option.bind_eq_some_iff.mp taken
    obtain ⟨⟨base, layer⟩, -, taken⟩ := Option.bind_eq_some_iff.mp taken
    simp only [Option.ite_none_right_eq_some, Option.some.injEq] at taken
    obtain ⟨-, rfl⟩ := taken
    exact ⟨drive, m, node, _, _, _, _, found, rfl, still⟩
  | copy k s =>
    cases about
    obtain ⟨⟨drive, m, node⟩, found, taken⟩ := Option.bind_eq_some_iff.mp taken
    obtain ⟨listed, runs, -⟩ := disk_cases found
    simp only [Option.ite_none_right_eq_some] at taken
    obtain ⟨⟨base, layer⟩, -, rfl⟩ := Option.map_eq_some_iff.mp taken.2
    refine ⟨drive, m, node, h.files.rebase drive.path (copy base layer s), node, m.removing,
      h.written, found, ?_, fun j other there different =>
        distinct.untouched_path listed there different⟩
    rw [set_node found, ← runs]
  | removeFile =>
    obtain ⟨m, runs, taken⟩ := Option.bind_eq_some_iff.mp taken
    obtain ⟨k, removing, taken⟩ := Option.bind_eq_some_iff.mp taken
    rw [diskOf, runs, Option.bind_some, removing] at about
    cases about
    obtain ⟨⟨drive, m', node⟩, found, taken⟩ := Option.bind_eq_some_iff.mp taken
    obtain ⟨snap, own, taken⟩ := Option.bind_eq_some_iff.mp taken
    obtain ⟨layer, -, rfl⟩ := Option.map_eq_some_iff.mp taken
    obtain ⟨listed, -, -⟩ := disk_cases found
    exact ⟨drive, m', node, _, _, _, _, found, rfl, fun j other there different =>
      distinct.untouched_snap listed there different own⟩
  | _ => cases about

/-- The disk is on its snapshot, or will be after the next boot, and nothing puts it back. -/
structure Backed (drives : List Drive) (h : Host σ β) (i : Nat) (drive : Drive) : Prop where
  listed : drives[i]? = some drive
  cli : h.cli = .idle ∨ ∃ todos, h.cli = .starting todos
  offline : h.machine = none → present h.files drive
  running : ∀ m node, h.machine = some m → m.nodes[i]? = some node →
    node.top = .snapshot ∧ node.job = none

def stays (i : Nat) : Label σ β → Prop
  | .backupStop => False
  | .commitSnapshot j => j ≠ i
  | _ => True

theorem backed_other {l : Label σ β} {j : Nat} (distinct : Distinct drives)
    (backed : Backed drives h i drive) (about : diskOf h l = some j) (other : j ≠ i)
    (taken : step drives h l = some t) :
    Backed drives t i drive ∧ t.files.whole drive.path = h.files.whole drive.path := by
  obtain ⟨d, m, node, files, next, removing, written, found, rfl, others⟩ :=
    running_shape distinct about taken
  obtain ⟨-, runs, -⟩ := disk_cases found
  refine ⟨⟨backed.listed, backed.cli, nofun, ?_⟩, (others i drive backed.listed other).whole⟩
  intro m' n same there
  cases same
  rw [List.getElem?_set_ne other] at there
  exact backed.running m n runs there

theorem backed_own {l : Label σ β} (distinct : Distinct drives) (sound : Sound drives h)
    (backed : Backed drives h i drive) (ok : stays i l) (about : diskOf h l = some i)
    (taken : step drives h l = some t) :
    Backed drives t i drive ∧ t.files.whole drive.path = h.files.whole drive.path := by
  cases l with
  | write k s v =>
    cases about
    obtain ⟨⟨d, m, node⟩, found, taken⟩ := Option.bind_eq_some_iff.mp taken
    obtain ⟨⟨files, top⟩, wrote, rfl⟩ := Option.map_eq_some_iff.mp taken
    obtain ⟨listed, runs, there⟩ := disk_cases found
    cases backed.listed.symm.trans listed
    obtain ⟨attached, idle⟩ := backed.running m node runs there
    rw [attached] at wrote
    obtain ⟨snap, own, wrote⟩ := Option.bind_eq_some_iff.mp wrote
    obtain ⟨layer, -, same⟩ := Option.map_eq_some_iff.mp wrote
    cases same
    refine ⟨⟨listed, backed.cli, nofun, ?_⟩, ?_⟩
    · intro m' n same place
      cases same
      rw [Machine.change, List.getElem?_set_self (List.getElem?_eq_some_iff.mp there).1] at place
      cases place
      exact ⟨rfl, idle⟩
    · exact whole_update (distinct.path_ne_snap listed listed own)
  | takeSnapshot k =>
    cases about
    obtain ⟨⟨d, m, node⟩, found, taken⟩ := Option.bind_eq_some_iff.mp taken
    obtain ⟨-, runs, there⟩ := disk_cases found
    have attached := (backed.running m node runs there).1
    simp only at taken
    split at taken
    · rename_i base
      rw [attached] at base
      cases base
    · cases taken
  | commitSnapshot k =>
    cases about
    exact absurd rfl ok
  | jobReady k | abort k | copy k s =>
    cases about
    obtain ⟨⟨d, m, node⟩, found, taken⟩ := Option.bind_eq_some_iff.mp taken
    obtain ⟨-, runs, there⟩ := disk_cases found
    simp [(backed.running m node runs there).2] at taken
  | ready k | pivot k =>
    cases about
    obtain ⟨⟨d, m, node⟩, found, taken⟩ := Option.bind_eq_some_iff.mp taken
    obtain ⟨⟨base, layer⟩, -, taken⟩ := Option.bind_eq_some_iff.mp taken
    obtain ⟨-, runs, there⟩ := disk_cases found
    simp [(backed.running m node runs there).2] at taken
  | removeFile =>
    obtain ⟨d, m, node, -, -, -, -, found, -, -⟩ := running_shape distinct about taken
    obtain ⟨listed, runs, there⟩ := disk_cases found
    cases backed.listed.symm.trans listed
    obtain ⟨attached, idle⟩ := backed.running m node runs there
    have fits := (disk_sound sound found).fits node _ rfl
    rw [diskOf, runs, Option.bind_some] at about
    simp [Fits, attached, idle, about] at fits
  | _ => cases about

theorem backed_offline {l : Label σ β} (distinct : Distinct drives) (sound : Sound drives h)
    (backed : Backed drives h i drive) (ok : stays i l) (about : diskOf h l = none)
    (taken : step drives h l = some t) :
    Backed drives t i drive ∧ t.files.whole drive.path = h.files.whole drive.path := by
  cases l with
  | backupStart =>
    simp only [step, Option.ite_none_right_eq_some, Option.some.injEq] at taken
    obtain ⟨-, rfl⟩ := taken
    exact ⟨⟨backed.listed, Or.inr ⟨drives, rfl⟩, backed.offline, backed.running⟩, rfl⟩
  | backupStop => cases ok
  | next =>
    obtain ⟨⟨files, cli⟩, moved, rfl⟩ := Option.map_eq_some_iff.mp taken
    rcases backed.cli with idle | ⟨todos, starting⟩
    · rw [idle] at moved
      cases moved
    · have off := sound.offline (by simp [starting])
      have sound_cli := sound.cli
      rw [starting] at moved sound_cli
      obtain ⟨done, cut, -⟩ := sound_cli
      have there := backed.offline off
      cases todos with
      | nil =>
        cases moved
        exact ⟨⟨backed.listed, Or.inl rfl, backed.offline, backed.running⟩, rfl⟩
      | cons d todos =>
        cases moved
        have listed := getElem?_split cut
        by_cases same : done.length = i
        · rw [same, backed.listed] at listed
          cases listed
          rw [create_present there]
          exact ⟨⟨backed.listed, Or.inr ⟨todos, rfl⟩, backed.offline, backed.running⟩, rfl⟩
        · have untouched := (sound_create distinct sound off listed).2.2 i drive backed.listed same
          refine ⟨⟨backed.listed, Or.inr ⟨todos, rfl⟩, ?_, backed.running⟩, untouched.whole⟩
          exact fun _ => untouched.present.mpr there
  | commit s | commitDone | removed =>
    simp only [step] at taken
    split at taken
    · rename_i position
      rcases backed.cli with idle | ⟨todos, starting⟩
      · rw [idle] at position
        cases position
      · rw [starting] at position
        cases position
    · cases taken
  | kill =>
    cases taken
    exact ⟨⟨backed.listed, Or.inl rfl, backed.offline, backed.running⟩, rfl⟩
  | boot =>
    simp only [step, Option.ite_none_right_eq_some, Option.some.injEq] at taken
    obtain ⟨⟨off, -⟩, rfl⟩ := taken
    refine ⟨⟨backed.listed, backed.cli, by simp, ?_⟩, rfl⟩
    intro m node same place
    cases same
    simp only [List.getElem?_map, backed.listed, Option.map_some, Option.some.injEq] at place
    subst place
    exact ⟨bootTop_of_present (backed.offline (by simpa using off)), rfl⟩
  | halt =>
    simp only [step, Option.ite_none_right_eq_some, Option.some.injEq] at taken
    obtain ⟨runs, rfl⟩ := taken
    obtain ⟨m, runs⟩ := Option.isSome_iff_exists.mp runs
    refine ⟨⟨backed.listed, backed.cli, ?_, by simp⟩, rfl⟩
    intro _
    have bounded : i < m.nodes.length := by
      rw [sound.nodes m runs]
      exact (List.getElem?_eq_some_iff.mp backed.listed).1
    have place : m.nodes[i]? = some m.nodes[i] := List.getElem?_eq_getElem bounded
    have disk := sound.disks i drive backed.listed
    rw [view, runs, Option.bind_some, place, Option.map_some] at disk
    have fits := disk.fits _ _ rfl
    simp only [Fits, (backed.running m _ runs place).1] at fits
    exact fits.1
  | removeFile =>
    obtain ⟨m, runs, taken⟩ := Option.bind_eq_some_iff.mp taken
    obtain ⟨j, removing, -⟩ := Option.bind_eq_some_iff.mp taken
    rw [diskOf, runs, Option.bind_some, removing] at about
    cases about
  | _ => cases about

theorem backed_step {l : Label σ β} (distinct : Distinct drives) (sound : Sound drives h)
    (backed : Backed drives h i drive) (ok : stays i l) (taken : step drives h l = some t) :
    Backed drives t i drive ∧ t.files.whole drive.path = h.files.whole drive.path := by
  cases about : diskOf h l with
  | none => exact backed_offline distinct sound backed ok about taken
  | some j =>
    by_cases same : j = i
    · subst same
      exact backed_own distinct sound backed ok about taken
    · exact backed_other distinct backed about same taken

/-- A disk in backup mode stays in it, and its base stays as it is, until backup mode is left. -/
def Frozen (drives : List Drive) (h : Host σ β) : Prop :=
  ∀ i drive, Backed drives h i drive →
    ∀ ls, Runs.Meets (step drives) (fun h l => orderly h l ∧ stays i l) h ls →
      Runs.Always (step drives) (fun t => Backed drives t i drive ∧
        t.files.whole drive.path = h.files.whole drive.path) h ls

theorem frozen_of_sound (distinct : Distinct drives) (sound : Sound drives h) : Frozen drives h := by
  intro i drive backed ls ok
  have always := Runs.always_of_invariant
    (fun t => Sound drives t ∧ Backed drives t i drive ∧
      t.files.whole drive.path = h.files.whole drive.path)
    (fun s l t inv ok taken => by
      obtain ⟨sound, backed, same⟩ := inv
      obtain ⟨next, still⟩ := backed_step distinct sound backed ok.2 taken
      exact ⟨sound_step distinct sound ok.1 taken, next, still.trans same⟩)
    ⟨sound, backed, rfl⟩ ok
  exact Runs.always_mono (fun _ inv => inv.2) always

end Backup

end BackupFreeze
