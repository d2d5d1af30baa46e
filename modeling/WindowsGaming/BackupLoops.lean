import Mathlib.Data.Finset.Dedup
import WindowsGaming.BackupFreeze

/- The ends of the command line's two loops over the disks. -/
namespace BackupLoops
open Overlays DiskImages BackupDisks BackupReads BackupFreeze

section Ends
variable {σ β : Type} {drives : List Drive} {h : Host σ β}

theorem started_of_sound (sound : Sound drives h) (ended : h.cli = .starting []) (i : Nat)
    (drive : Drive) (listed : drives[i]? = some drive) (file : drive.snapshotFile.isSome) :
    Backed drives h i drive := by
  have off := sound.offline (by rw [ended]; nofun)
  have passed := sound.cli
  rw [ended] at passed
  obtain ⟨done, cut, passed⟩ := passed
  rw [List.append_nil] at cut
  subst cut
  refine ⟨listed, Or.inr ⟨[], ended⟩, fun _ => passed drive (List.mem_of_getElem? listed) file, ?_⟩
  intro m node runs
  rw [off] at runs
  cases runs

theorem stopped_of_sound (sound : Sound drives h) (ended : h.cli = .stopping []) (i : Nat)
    (drive : Drive) (listed : drives[i]? = some drive) :
    ¬ present h.files drive ∧ h.files.whole drive.path = some (h.written i) := by
  have off := sound.offline (by rw [ended]; nofun)
  have passed := sound.cli
  rw [ended] at passed
  obtain ⟨done, cut, passed⟩ := passed
  rw [List.append_nil] at cut
  subst cut
  have gone := passed drive (List.mem_of_getElem? listed)
  have reads := (offline_disk sound off i drive listed).reads
  rw [attached, bootTop_of_absent gone] at reads
  obtain ⟨base, layer, below, above, same⟩ := readTop_cases reads
  cases above
  exact ⟨gone, by rw [below, same, read_blank]⟩

end Ends

section Loops
variable {σ β : Type} [DecidableEq σ] [DecidableEq β] [Fintype σ] {drives : List Drive}
  {h t : Host σ β} {i : Nat} {drive : Drive}

def cliOwn : Label σ β → Bool
  | .next | .commit _ | .commitDone | .removed => true
  | _ => false

def goal : Cli → Cli
  | .starting _ => .starting []
  | _ => .stopping []

/-- What the loops of the command line have done at their ends, and that they come there. -/
structure LoopsEnd (drives : List Drive) (h : Host σ β) : Prop where
  started : h.cli = .starting [] → ∀ i drive, drives[i]? = some drive →
    drive.snapshotFile.isSome → Backed drives h i drive
  stopped : h.cli = .stopping [] → ∀ i drive, drives[i]? = some drive →
    ¬ present h.files drive ∧ h.files.whole drive.path = some (h.written i)
  ends : h.cli ≠ .idle → ∃ ls t, (∀ l ∈ ls, cliOwn l = true) ∧
    Runs.run (step drives) h ls = some t ∧ t.cli = goal h.cli

theorem start_ends (todos : List Drive) (position : h.cli = .starting todos) :
    ∃ ls t, (∀ l ∈ ls, cliOwn l = true) ∧ Runs.run (step drives) h ls = some t ∧
      t.cli = .starting [] := by
  induction todos generalizing h with
  | nil => exact ⟨[], h, nofun, rfl, position⟩
  | cons drive todos ih =>
    have moved : step drives h .next =
        some { h with files := create drive h.files, cli := .starting todos } := by
      simp only [step, position, cliNext, Option.map_some]
    obtain ⟨ls, t, own, reach, ended⟩ :=
      ih (h := { h with files := create drive h.files, cli := .starting todos }) rfl
    refine ⟨.next :: ls, t, List.forall_mem_cons.mpr ⟨rfl, own⟩, ?_, ended⟩
    rw [Runs.run_cons, moved]
    exact reach

variable (drives) in
theorem commits_run {snap backing : String} {base : σ → β} {layer : σ → Option β} {todos : List Drive}
    (apart : snap ≠ backing) (places : List σ) (position : h.cli = .committing snap todos)
    (chain : h.files.chain snap = some (backing, base, layer)) :
    ∃ t, Runs.run (step drives) h (places.map .commit) = some t ∧ t.cli = .committing snap todos ∧
      t.files.chain snap =
        some (backing, places.foldl (fun base s => copy base layer s) base, layer) := by
  induction places generalizing h base with
  | nil => exact ⟨h, rfl, position, chain⟩
  | cons s places ih =>
    have moved : step drives h (.commit s) =
        some { h with files := h.files.rebase backing (copy base layer s) } := by
      simp only [step, position, chain, Option.map_some]
    have later : (h.files.rebase backing (copy base layer s)).chain snap =
        some (backing, copy base layer s, layer) := by
      unfold Files.chain at chain ⊢
      rw [Files.rebase, Files.put, Function.update_of_ne apart]
      split at chain
      · rename_i back format top found
        obtain ⟨whole, -, same⟩ := Option.map_eq_some_iff.mp chain
        cases same
        simp [Files.whole]
      · cases chain
    obtain ⟨t, reach, ended, synced⟩ :=
      ih (h := { h with files := h.files.rebase backing (copy base layer s) }) position later
    refine ⟨t, ?_, ended, synced⟩
    rw [List.map_cons, Runs.run_cons, moved]
    exact reach

theorem sound_own_run {ls : List (Label σ β)} (distinct : Distinct drives) (sound : Sound drives h)
    (own : ∀ l ∈ ls, cliOwn l = true) (reach : Runs.run (step drives) h ls = some t) :
    Sound drives t := by
  induction ls generalizing h with
  | nil =>
    cases reach
    exact sound
  | cons l ls ih =>
    obtain ⟨u, first, rest⟩ := Option.bind_eq_some_iff.mp reach
    have mine := own l List.mem_cons_self
    have ok : orderly h l := by
      cases l with
      | next | commit s | commitDone | removed => trivial
      | _ => cases mine
    exact ih (sound_step distinct sound ok first) (fun m hm => own m (List.mem_cons_of_mem l hm)) rest

theorem removed_ends {snap : String} {todos : List Drive} (sound : Sound drives h)
    (position : h.cli = .committed snap todos) :
    ∃ t, step drives h .removed = some t ∧ t.cli = .stopping todos := by
  have merged := sound.cli
  rw [position] at merged
  obtain ⟨done, drive, -, -, -, base, layer, -, above, -⟩ := merged
  refine ⟨{ h with files := h.files.remove snap, cli := .stopping todos }, ?_, rfl⟩
  simp only [step, position, layer_of_some above, if_true]

theorem commit_ends {snap : String} {todos : List Drive} (distinct : Distinct drives)
    (sound : Sound drives h) (position : h.cli = .committing snap todos) :
    ∃ ls t, (∀ l ∈ ls, cliOwn l = true) ∧ Runs.run (step drives) h ls = some t ∧
      t.cli = .stopping todos := by
  have off := sound.offline (by rw [position]; nofun)
  have started := sound.cli
  rw [position] at started
  obtain ⟨done, drive, cut, own, there, -⟩ := started
  have listed := getElem?_split cut
  have shaped := (offline_disk sound off _ drive listed).shaped
  obtain ⟨base, below⟩ := Option.isSome_iff_exists.mp shaped.base
  obtain ⟨image, found⟩ := Option.isSome_iff_exists.mp there
  obtain ⟨layer, rfl⟩ := shaped.snapshot snap image own found
  have chain : h.files.chain snap = some (drive.path, base, layer) := by
    simp only [Files.chain, found, below, Option.map_some]
  have apart : snap ≠ drive.path := (distinct.path_ne_snap listed listed own).symm
  let places := (Finset.univ : Finset σ).toList
  obtain ⟨t, copies, copied, merged⟩ := commits_run drives apart places position chain
  have synced : Synced (places.foldl (fun base s => copy base layer s) base) layer :=
    synced_copies places fun s _ _ => Finset.mem_toList.mpr (Finset.mem_univ s)
  have mine : ∀ l ∈ places.map Label.commit, cliOwn (l : Label σ β) = true := by
    intro l member
    obtain ⟨s, -, rfl⟩ := List.mem_map.mp member
    rfl
  have complete : step drives t .commitDone = some { t with cli := .committed snap todos } := by
    simp only [step, copied, merged, Option.bind_some, synced, if_true]
  have sound_t := sound_own_run distinct sound mine copies
  obtain ⟨u, removes, ended⟩ :=
    removed_ends (sound_step (l := .commitDone) distinct sound_t trivial complete) rfl
  refine ⟨places.map .commit ++ [.commitDone, .removed], u, ?_, ?_, ended⟩
  · intro l member
    rcases List.mem_append.mp member with copy | last
    · exact mine l copy
    · simp only [List.mem_cons, List.not_mem_nil, or_false] at last
      rcases last with rfl | rfl <;> rfl
  · rw [Runs.run_append, copies, Option.bind_some, Runs.run_cons, complete, Option.bind_some,
      Runs.run_cons, removes]
    rfl

theorem stop_ends (distinct : Distinct drives) (todos : List Drive) (sound : Sound drives h)
    (position : h.cli = .stopping todos) :
    ∃ ls t, (∀ l ∈ ls, cliOwn l = true) ∧ Runs.run (step drives) h ls = some t ∧
      t.cli = .stopping [] := by
  induction todos generalizing h with
  | nil => exact ⟨[], h, nofun, rfl, position⟩
  | cons drive todos ih =>
    have goes_on {ls : List (Label σ β)} {t : Host σ β} (own : ∀ l ∈ ls, cliOwn l = true)
        (reach : Runs.run (step drives) h ls = some t) (there : t.cli = .stopping todos) :
        ∃ ls t, (∀ l ∈ ls, cliOwn l = true) ∧ Runs.run (step drives) h ls = some t ∧
          t.cli = .stopping [] := by
      obtain ⟨more, u, own_more, rest, ended⟩ := ih (sound_own_run distinct sound own reach) there
      refine ⟨ls ++ more, u, ?_, ?_, ended⟩
      · intro l member
        exact (List.mem_append.mp member).elim (own l) (own_more l)
      · rw [Runs.run_append, reach]
        exact rest
    cases file : drive.snapshotFile with
    | none =>
      have moved : step drives h .next = some { h with cli := .stopping todos } := by
        simp only [step, position, cliNext, file, Option.map_some]
      have reach : Runs.run (step drives) h [.next] = some { h with cli := .stopping todos } := by
        rw [Runs.run_cons, moved]
        rfl
      exact goes_on (by simp [cliOwn]) reach rfl
    | some snap =>
      by_cases there : (h.files snap).isSome
      · have moved : step drives h .next = some { h with cli := .committing snap todos } := by
          simp only [step, position, cliNext, file, there, if_true, Option.map_some]
        have next := sound_step (l := .next) distinct sound trivial moved
        obtain ⟨ls, t, own, reach, ended⟩ := commit_ends distinct next rfl
        have after : Runs.run (step drives) h (.next :: ls) = some t := by
          rw [Runs.run_cons, moved]
          exact reach
        exact goes_on (List.forall_mem_cons.mpr ⟨rfl, own⟩) after ended
      · have moved : step drives h .next = some { h with cli := .stopping todos } := by
          simp only [step, position, cliNext, file, there, if_false, Bool.false_eq_true,
            Option.map_some]
        have reach : Runs.run (step drives) h [.next] = some { h with cli := .stopping todos } := by
          rw [Runs.run_cons, moved]
          rfl
        exact goes_on (by simp [cliOwn]) reach rfl

theorem loopsEnd_of_sound (distinct : Distinct drives) (sound : Sound drives h) :
    LoopsEnd drives h := by
  refine ⟨started_of_sound sound, stopped_of_sound sound, ?_⟩
  intro busy
  cases position : h.cli with
  | idle => exact absurd position busy
  | starting todos => exact start_ends todos position
  | stopping todos => exact stop_ends distinct todos sound position
  | committing snap todos =>
    obtain ⟨ls, t, own, reach, there⟩ := commit_ends distinct sound position
    obtain ⟨more, u, own_more, rest, ended⟩ :=
      stop_ends distinct todos (sound_own_run distinct sound own reach) there
    refine ⟨ls ++ more, u, ?_, ?_, ended⟩
    · exact fun l member => (List.mem_append.mp member).elim (own l) (own_more l)
    · rw [Runs.run_append, reach]
      exact rest
  | committed snap todos =>
    obtain ⟨t, removes, there⟩ := removed_ends sound position
    have next := sound_step (l := .removed) distinct sound trivial removes
    obtain ⟨ls, u, own, reach, ended⟩ := stop_ends distinct todos next there
    refine ⟨.removed :: ls, u, List.forall_mem_cons.mpr ⟨rfl, own⟩, ?_, ended⟩
    rw [Runs.run_cons, removes]
    exact reach

end Loops

/-- The machine is stopped after the guest was given the base and wrote to it, but before the
    snapshot file is removed: the next boot takes the old snapshot. -/
example :
    ((Runs.run (step twoDrives) (start twoFiles fun i _ => i + 1)
      [.boot, .takeSnapshot 0, .write 0 0 5, .commitSnapshot 0, .copy 0 0, .ready 0, .jobReady 0,
        .pivot 0, .write 0 0 9, .halt]).map fun h =>
      ((h.reads twoDrives 0).map fun contents => contents 0, h.written 0 0)) = some (some 5, 9) := by
  decide +kernel

end BackupLoops
