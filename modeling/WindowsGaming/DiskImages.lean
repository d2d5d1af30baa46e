import Mathlib.Data.List.Basic
import Mathlib.Data.List.Nodup
import WindowsGaming.Config
import WindowsGaming.Library.Overlays

/- The disks of the machine and their files: an image with the contents of a disk, and a snapshot
   file above it. The machine boots from a snapshot file wherever there is one. -/
namespace DiskImages
open Overlays

structure Drive extends Config.StorageDevice where
  path : String
  format : String
  deriving DecidableEq, Repr

/-- No file is named twice. -/
def Distinct (drives : List Drive) : Prop :=
  (drives.map Drive.path ++ drives.filterMap fun d => d.snapshotFile).Nodup

instance (drives : List Drive) : Decidable (Distinct drives) :=
  inferInstanceAs (Decidable (List.Nodup _))

inductive Image (σ β : Type) where
  | whole (contents : σ → β)
  | overlay (backing format : String) (layer : σ → Option β)

abbrev Files (σ β : Type) := String → Option (Image σ β)

inductive Top (σ β : Type) where
  | base
  | snapshot
  /-- The snapshot's file is removed, QEMU still has it open. -/
  | unlinked (layer : σ → Option β)

section Images
variable {σ β : Type}

def Files.whole (files : Files σ β) (path : String) : Option (σ → β) :=
  match files path with
  | some (.whole contents) => some contents
  | _ => none

def Files.layer (files : Files σ β) (path : String) : Option (σ → Option β) :=
  match files path with
  | some (.overlay _ _ layer) => some layer
  | _ => none

def Files.put (files : Files σ β) (path : String) (image : Image σ β) : Files σ β :=
  Function.update files path (some image)

def Files.remove (files : Files σ β) (path : String) : Files σ β := Function.update files path none

def Files.rebase (files : Files σ β) (path : String) (contents : σ → β) : Files σ β :=
  files.put path (.whole contents)

def bootTop (files : Files σ β) (drive : Drive) : Top σ β :=
  match drive.snapshotFile with
  | some snap => if (files snap).isSome then .snapshot else .base
  | none => .base

def topLayer (files : Files σ β) (drive : Drive) : Top σ β → Option (σ → Option β)
  | .base => some blank
  | .snapshot => drive.snapshotFile.bind files.layer
  | .unlinked layer => some layer

def readTop (files : Files σ β) (drive : Drive) (top : Top σ β) : Option (σ → β) :=
  (files.whole drive.path).bind fun base => (topLayer files drive top).map fun layer => read base layer

/-- The command line does not touch a disk that has its snapshot file already. -/
def create (drive : Drive) (files : Files σ β) : Files σ β :=
  match drive.snapshotFile with
  | some snap =>
    if (files snap).isSome then files else files.put snap (.overlay drive.path drive.format blank)
  | none => files

def Files.chain (files : Files σ β) (snap : String) : Option (String × (σ → β) × (σ → Option β)) :=
  match files snap with
  | some (.overlay backing _ layer) => (files.whole backing).map fun base => (backing, base, layer)
  | _ => none

variable [DecidableEq σ]

def writeTop (files : Files σ β) (drive : Drive) (s : σ) (v : β) :
    Top σ β → Option (Files σ β × Top σ β)
  | .base => (files.whole drive.path).map fun base =>
    (files.rebase drive.path (Function.update base s v), .base)
  | .snapshot => drive.snapshotFile.bind fun snap => (files.layer snap).map fun layer =>
    (files.put snap (.overlay drive.path drive.format (write layer s v)), .snapshot)
  | .unlinked layer => some (files, .unlinked (write layer s v))

end Images

section Facts
variable {σ β : Type}

def present (files : Files σ β) (drive : Drive) : Prop :=
  ∃ snap, drive.snapshotFile = some snap ∧ (files snap).isSome

structure Shaped (files : Files σ β) (drive : Drive) : Prop where
  base : (files.whole drive.path).isSome
  snapshot : ∀ snap image, drive.snapshotFile = some snap → files snap = some image →
    ∃ layer, image = .overlay drive.path drive.format layer

def Untouched (files after : Files σ β) (drive : Drive) : Prop :=
  after drive.path = files drive.path ∧ ∀ snap, drive.snapshotFile = some snap → after snap = files snap

section Frames
variable {files after : Files σ β} {drive : Drive}

theorem Untouched.whole (same : Untouched files after drive) :
    after.whole drive.path = files.whole drive.path := by
  simp only [Files.whole, same.1]

theorem Untouched.layer (same : Untouched files after drive) {snap : String}
    (own : drive.snapshotFile = some snap) : after.layer snap = files.layer snap := by
  simp only [Files.layer, same.2 snap own]

theorem Untouched.present (same : Untouched files after drive) :
    present after drive ↔ present files drive := by
  constructor
  · rintro ⟨snap, own, there⟩
    exact ⟨snap, own, same.2 snap own ▸ there⟩
  · rintro ⟨snap, own, there⟩
    exact ⟨snap, own, (same.2 snap own).symm ▸ there⟩

theorem Untouched.bootTop (same : Untouched files after drive) :
    bootTop after drive = bootTop files drive := by
  cases own : drive.snapshotFile with
  | none => simp only [DiskImages.bootTop, own]
  | some snap => simp only [DiskImages.bootTop, own, same.2 snap own]

theorem Untouched.readTop (same : Untouched files after drive) (top : Top σ β) :
    readTop after drive top = readTop files drive top := by
  have layers : topLayer after drive top = topLayer files drive top := by
    cases top with
    | snapshot =>
      cases own : drive.snapshotFile with
      | none => simp only [topLayer, own, Option.bind_none]
      | some snap => simp only [topLayer, own, Option.bind_some, same.layer own]
    | _ => rfl
  rw [DiskImages.readTop, DiskImages.readTop, same.whole, layers]

theorem Untouched.shaped (same : Untouched files after drive) (shaped : Shaped files drive) :
    Shaped after drive := by
  refine ⟨by rw [same.whole]; exact shaped.base, ?_⟩
  intro snap image own found
  rw [same.2 snap own] at found
  exact shaped.snapshot snap image own found

theorem untouched_update {name : String} {image : Option (Image σ β)} (path : name ≠ drive.path)
    (snap : drive.snapshotFile ≠ some name) :
    Untouched files (Function.update files name image) drive := by
  refine ⟨Function.update_of_ne path.symm image files, ?_⟩
  intro q own
  have apart : q ≠ name := fun same => snap (same ▸ own)
  exact Function.update_of_ne apart image files

end Frames

section Names
variable {drives : List Drive} {i j : Nat} {drive other : Drive} {snap : String}

theorem mem_paths (found : drives[i]? = some drive) : drive.path ∈ drives.map Drive.path :=
  List.mem_map_of_mem (List.mem_of_getElem? found)

theorem mem_snaps (found : drives[i]? = some drive) (own : drive.snapshotFile = some snap) :
    snap ∈ drives.filterMap fun d => d.snapshotFile :=
  List.mem_filterMap.mpr ⟨drive, List.mem_of_getElem? found, own⟩

theorem Distinct.path_ne_snap (distinct : Distinct drives) (found : drives[i]? = some drive)
    (there : drives[j]? = some other) (own : other.snapshotFile = some snap) : drive.path ≠ snap := by
  rintro rfl
  exact (List.nodup_append.mp distinct).2.2 _ (mem_paths found) _ (mem_snaps there own) rfl

theorem Distinct.path_ne_path (distinct : Distinct drives) (found : drives[i]? = some drive)
    (there : drives[j]? = some other) (apart : i ≠ j) : drive.path ≠ other.path := by
  intro same
  have paths := (List.nodup_append.mp distinct).1
  have first : (drives.map Drive.path)[i]? = some drive.path := by simp [found]
  have second : (drives.map Drive.path)[j]? = some drive.path := by simp [there, same]
  obtain ⟨inside, -⟩ := List.getElem?_eq_some_iff.mp first
  exact apart ((List.getElem?_inj inside paths).mp (first.trans second.symm))

theorem filterMap_inj {α γ : Type*} {f : α → Option γ} {xs : List α} {i j : Nat} {a b : α} {c : γ}
    (distinct : (xs.filterMap f).Nodup) (first : xs[i]? = some a) (second : xs[j]? = some b)
    (left : f a = some c) (right : f b = some c) : i = j := by
  induction xs generalizing i j with
  | nil => simp at first
  | cons x xs ih =>
    have rest : (xs.filterMap f).Nodup := by
      cases image : f x with
      | none => simpa [image] using distinct
      | some d =>
        rw [List.filterMap_cons_some image] at distinct
        exact distinct.tail
    have once : f x = some c → c ∉ xs.filterMap f := by
      intro image
      rw [List.filterMap_cons_some image] at distinct
      exact (List.nodup_cons.mp distinct).1
    have later {k : Nat} {e : α} (found : xs[k]? = some e) (image : f e = some c) :
        c ∈ xs.filterMap f := List.mem_filterMap.mpr ⟨e, List.mem_of_getElem? found, image⟩
    cases i with
    | zero =>
      cases j with
      | zero => rfl
      | succ j =>
        cases first
        exact absurd (later second right) (once left)
    | succ i =>
      cases j with
      | zero =>
        cases second
        exact absurd (later first left) (once right)
      | succ j => rw [ih rest first second]

theorem Distinct.snap_ne (distinct : Distinct drives) (found : drives[i]? = some drive)
    (there : drives[j]? = some other) (apart : i ≠ j) (own : drive.snapshotFile = some snap) :
    other.snapshotFile ≠ some snap := by
  intro same
  exact apart (filterMap_inj (List.nodup_append.mp distinct).2.1 found there own same)

theorem Distinct.untouched_path {σ β : Type} {files : Files σ β} {image : Option (Image σ β)}
    (distinct : Distinct drives) (found : drives[i]? = some drive) (there : drives[j]? = some other)
    (apart : i ≠ j) : Untouched files (Function.update files drive.path image) other :=
  untouched_update (distinct.path_ne_path found there apart)
    fun own => distinct.path_ne_snap found there own rfl

theorem Distinct.untouched_snap {σ β : Type} {files : Files σ β} {image : Option (Image σ β)}
    (distinct : Distinct drives) (found : drives[i]? = some drive) (there : drives[j]? = some other)
    (apart : i ≠ j) (own : drive.snapshotFile = some snap) :
    Untouched files (Function.update files snap image) other :=
  untouched_update (distinct.path_ne_snap there found own).symm (distinct.snap_ne found there apart own)

end Names

section Contents
variable {files : Files σ β} {drive : Drive} {name path snap : String}

theorem whole_update {image : Option (Image σ β)} (apart : path ≠ name) :
    Files.whole (Function.update files name image) path = files.whole path := by
  simp only [Files.whole, Function.update_of_ne apart]

theorem layer_update {image : Option (Image σ β)} (apart : snap ≠ name) :
    Files.layer (Function.update files name image) snap = files.layer snap := by
  simp only [Files.layer, Function.update_of_ne apart]

@[simp] theorem whole_rebase (contents : σ → β) : (files.rebase path contents).whole path = some contents := by
  simp [Files.whole, Files.rebase, Files.put]

@[simp] theorem layer_put (backing format : String) (layer : σ → Option β) :
    (files.put snap (.overlay backing format layer)).layer snap = some layer := by
  simp [Files.layer, Files.put]

theorem readTop_eq {top : Top σ β} {base : σ → β} {layer : σ → Option β}
    (below : files.whole drive.path = some base) (above : topLayer files drive top = some layer) :
    readTop files drive top = some (read base layer) := by
  rw [readTop, below, Option.bind_some, above, Option.map_some]

theorem readTop_cases {top : Top σ β} {contents : σ → β}
    (reads : readTop files drive top = some contents) :
    ∃ base layer, files.whole drive.path = some base ∧ topLayer files drive top = some layer ∧
      contents = read base layer := by
  obtain ⟨base, below, reads⟩ := Option.bind_eq_some_iff.mp reads
  obtain ⟨layer, above, rfl⟩ := Option.map_eq_some_iff.mp reads
  exact ⟨base, layer, below, above, rfl⟩

theorem layer_of_some {layer : σ → Option β} (found : files.layer snap = some layer) :
    (files snap).isSome := by
  unfold Files.layer at found
  split at found
  · rename_i there
    rw [there]
    rfl
  · cases found

theorem shaped_rebase {contents : σ → β} (shaped : Shaped files drive)
    (apart : drive.snapshotFile ≠ some drive.path) : Shaped (files.rebase drive.path contents) drive := by
  refine ⟨by rw [whole_rebase]; rfl, ?_⟩
  intro snap image own found
  have other : snap ≠ drive.path := fun same => apart (same ▸ own)
  rw [Files.rebase, Files.put, Function.update_of_ne other] at found
  exact shaped.snapshot snap image own found

theorem present_rebase {contents : σ → β} (apart : drive.snapshotFile ≠ some drive.path) :
    present (files.rebase drive.path contents) drive ↔ present files drive := by
  have same : ∀ snap, drive.snapshotFile = some snap →
      (files.rebase drive.path contents) snap = files snap := by
    intro snap own
    have other : snap ≠ drive.path := fun same => apart (same ▸ own)
    rw [Files.rebase, Files.put, Function.update_of_ne other]
  constructor
  · rintro ⟨snap, own, there⟩
    exact ⟨snap, own, same snap own ▸ there⟩
  · rintro ⟨snap, own, there⟩
    exact ⟨snap, own, (same snap own).symm ▸ there⟩

theorem topLayer_rebase {contents : σ → β} (apart : drive.snapshotFile ≠ some drive.path)
    (top : Top σ β) :
    topLayer (files.rebase drive.path contents) drive top = topLayer files drive top := by
  cases top with
  | snapshot =>
    cases own : drive.snapshotFile with
    | none => simp only [topLayer, own, Option.bind_none]
    | some snap =>
      have other : snap ≠ drive.path := fun same => apart (same ▸ own)
      simp only [topLayer, own, Option.bind_some, Files.rebase, Files.put, layer_update other]
  | _ => rfl

theorem bootTop_rebase {contents : σ → β} (apart : drive.snapshotFile ≠ some drive.path) :
    bootTop (files.rebase drive.path contents) drive = bootTop files drive := by
  cases own : drive.snapshotFile with
  | none => simp only [bootTop, own]
  | some snap =>
    have other : snap ≠ drive.path := fun same => apart (same ▸ own)
    simp only [bootTop, own, Files.rebase, Files.put, Function.update_of_ne other]

theorem present_iff (own : drive.snapshotFile = some snap) :
    present files drive ↔ (files snap).isSome := by
  simp [present, own]

theorem not_present_of_none (none : drive.snapshotFile = none) : ¬ present files drive := by
  simp [present, none]

theorem not_present_remove (own : drive.snapshotFile = some snap) :
    ¬ present (files.remove snap) drive := by
  rw [present_iff own]
  simp [Files.remove]

theorem present_put (own : drive.snapshotFile = some snap) (image : Image σ β) :
    present (files.put snap image) drive := by
  rw [present_iff own]
  simp [Files.put]

theorem shaped_remove {files : Files σ β} {drive : Drive} {snap : String}
    (shaped : Shaped files drive) (own : drive.snapshotFile = some snap)
    (apart : drive.path ≠ snap) : Shaped (files.remove snap) drive := by
  refine ⟨by rw [Files.remove, whole_update apart]; exact shaped.base, ?_⟩
  intro q image owned there
  rw [own] at owned
  cases owned
  simp [Files.remove] at there

theorem shaped_put {layer : σ → Option β} (shaped : Shaped files drive)
    (own : drive.snapshotFile = some snap) (apart : drive.path ≠ snap) :
    Shaped (files.put snap (.overlay drive.path drive.format layer)) drive := by
  refine ⟨by rw [Files.put, whole_update apart]; exact shaped.base, ?_⟩
  intro q image owned there
  rw [own] at owned
  cases owned
  simp only [Files.put, Function.update_self, Option.some.injEq] at there
  exact ⟨layer, there.symm⟩

theorem readTop_put {base : σ → β} {layer : σ → Option β} (own : drive.snapshotFile = some snap)
    (apart : drive.path ≠ snap) (below : files.whole drive.path = some base) :
    readTop (files.put snap (.overlay drive.path drive.format layer)) drive .snapshot =
      some (read base layer) := by
  refine readTop_eq ?_ ?_
  · rw [Files.put, whole_update apart]
    exact below
  · simp only [topLayer, own, Option.bind_some, layer_put]

theorem bootTop_of_present (there : present files drive) : bootTop files drive = .snapshot := by
  obtain ⟨snap, own, there⟩ := there
  simp only [bootTop, own, there, if_true]

theorem bootTop_of_absent (gone : ¬ present files drive) : bootTop files drive = .base := by
  cases own : drive.snapshotFile with
  | none => simp only [bootTop, own]
  | some snap =>
    have nothing : ¬ (files snap).isSome := fun there => gone ⟨snap, own, there⟩
    simp only [bootTop, own, nothing, if_false, Bool.false_eq_true]

theorem chain_own {backing : String} {base : σ → β} {layer : σ → Option β}
    (shaped : Shaped files drive) (own : drive.snapshotFile = some snap)
    (chain : files.chain snap = some (backing, base, layer)) :
    backing = drive.path ∧ files.whole drive.path = some base ∧ files.layer snap = some layer ∧
      present files drive := by
  unfold Files.chain at chain
  split at chain
  · rename_i back format top found
    obtain ⟨base', below, same⟩ := Option.map_eq_some_iff.mp chain
    cases same
    obtain ⟨layer', image⟩ := shaped.snapshot snap _ own found
    cases image
    refine ⟨rfl, below, by simp only [Files.layer, found], snap, own, ?_⟩
    rw [found]
    rfl
  · cases chain

theorem create_present (there : present files drive) : create drive files = files := by
  obtain ⟨snap, own, there⟩ := there
  simp only [create, own, there, if_true]

end Contents

end Facts
end DiskImages
