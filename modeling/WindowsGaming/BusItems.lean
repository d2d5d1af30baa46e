import Mathlib.Data.List.Induction
import Mathlib.Data.List.Nodup
import Mathlib.Data.List.Perm.Basic

/- The stream of items from the system bus. It watches the bus's file descriptors, lets the bus
   handle those that are ready, and follows the changes that the bus makes to the watches. -/
namespace BusItems

structure Ready where
  readable : Bool
  writable : Bool
  deriving DecidableEq, Repr

def Ready.empty : Ready := ⟨false, false⟩

def Ready.inter (r available : Ready) : Ready :=
  ⟨r.readable && available.readable, r.writable && available.writable⟩

def Ready.minus (r available : Ready) : Ready :=
  ⟨r.readable && !available.readable, r.writable && !available.writable⟩

def Ready.Within (r other : Ready) : Prop :=
  (r.readable = true → other.readable = true) ∧ (r.writable = true → other.writable = true)

instance (r other : Ready) : Decidable (r.Within other) := inferInstanceAs (Decidable (_ ∧ _))

structure Watch where
  fd : Int
  readable : Bool
  writable : Bool
  deriving DecidableEq, Repr

def toReady (w : Watch) : Ready := ⟨w.readable, w.writable⟩

def fromReady (r : Ready) : UInt32 :=
  (if r.readable then 1 else 0) ||| (if r.writable then 2 else 0)

inductive ConnectionItem (ι : Type) where
  | watchFd (w : Watch)
  | item (x : ι)
  deriving DecidableEq, Repr

structure Fd where
  fd : Int
  interest : Ready
  /-- What this `AsyncFd` was polled not ready for in the present call, so that it has the waker. -/
  notReady : Ready
  deriving DecidableEq, Repr

structure FdList where
  entries : List Fd
  distinct : (entries.map Fd.fd).Nodup

inductive Poll (ι : Type) where
  | ready (x : ι)
  | pending
  deriving DecidableEq, Repr

structure DBusItems (σ ι : Type) where
  conn : σ
  fds : FdList
  pendingItems : List ι

/-- What the system and the bus do in one call: which file descriptors are ready, which can be
    registered, and the answers of `Connection::watch_handle`. -/
structure Env (σ ι : Type) where
  available : Int → Ready
  registers : Int → Bool
  watchHandle : σ → Int → UInt32 → List (ConnectionItem ι) × σ

def Fd.poll (available : Int → Ready) (x : Fd) : Ready := x.interest.inter (available x.fd)

def Fd.polled (available : Int → Ready) (x : Fd) : Fd :=
  { x with notReady := x.interest.minus (available x.fd) }

theorem map_fd_modify {entries : List Fd} {f : Fd → Fd} (same : ∀ x, (f x).fd = x.fd) (i : Nat) :
    (entries.modify i f).map Fd.fd = entries.map Fd.fd := by
  induction entries generalizing i with
  | nil => rw [List.modify_nil]
  | cons x entries ih =>
    cases i with
    | zero => simp [same]
    | succ i => simp [ih]

namespace FdList

def polled (available : Int → Ready) (fds : FdList) : FdList where
  entries := fds.entries.map (Fd.polled available)
  distinct := by
    rw [List.map_map]
    exact fds.distinct

def remove (i : Nat) (fds : FdList) : FdList where
  entries := fds.entries.eraseIdx i
  distinct := fds.distinct.sublist ((List.eraseIdx_sublist fds.entries i).map Fd.fd)

def update (i : Nat) (ready : Ready) (fds : FdList) : FdList where
  entries := fds.entries.modify i fun x => { x with interest := ready }
  distinct := by
    rw [map_fd_modify]
    · exact fds.distinct
    · exact fun _ => rfl

/-- `AsyncFd::new`, which fails for what is registered already. -/
def push (registers : Int → Bool) (w : Watch) (fds : FdList) : Option FdList :=
  if fresh : w.fd ∉ fds.entries.map Fd.fd ∧ registers w.fd = true then
    some
      { entries := fds.entries ++ [⟨w.fd, toReady w, .empty⟩]
        distinct := by
          rw [List.map_append, List.map_singleton, ← List.concat_eq_append]
          exact fds.distinct.concat fresh.1 }
  else none

def change (registers : Int → Bool) (w : Watch) (fds : FdList) : Option FdList :=
  let pos := fds.entries.findIdx? fun x => x.fd = w.fd
  if toReady w = .empty then
    -- removed
    match pos with
    | some i => some (fds.remove i)
    | none => some fds
  else
    -- add or update
    match pos with
    | some i => some (fds.update i (toReady w))
    | none => fds.push registers w

end FdList

section Polling
variable {σ ι : Type}

def new (registers : Int → Bool) (conn : σ) (watches : List Watch) : Option (DBusItems σ ι) :=
  (watches.foldlM (fun (fds : FdList) w => fds.push registers w) ⟨[], List.nodup_nil⟩).map
    fun fds => ⟨conn, fds, []⟩

def watchAll (env : Env σ ι) : σ → List (Int × Ready) → List (ConnectionItem ι) × σ
  | conn, [] => ([], conn)
  | conn, (fd, r) :: results =>
    let (items, conn) := env.watchHandle conn fd (fromReady r)
    let (rest, conn) := watchAll env conn results
    (items ++ rest, conn)

def eat (registers : Int → Bool) (s : FdList × List ι) : ConnectionItem ι → Option (FdList × List ι)
  | .watchFd w => (s.1.change registers w).map fun fds => (fds, s.2)
  | .item x => some (s.1, s.2 ++ [x])

def results (env : Env σ ι) (s : DBusItems σ ι) : List (Int × Ready) :=
  s.fds.entries.filterMap fun x =>
    let ready := x.poll env.available
    if ready = .empty then none else some (x.fd, ready)

def DBusItems.pollNext (env : Env σ ι) (s : DBusItems σ ι) : Option (Poll ι × DBusItems σ ι) :=
  match s.pendingItems with
  -- if we still got data, don't touch the fds
  | x :: rest => some (.ready x, { s with pendingItems := rest })
  | [] =>
    let (items, conn) := watchAll env s.conn (results env s)
    (items.foldlM (eat env.registers) (s.fds.polled env.available, [])).map fun (fds, items) =>
      match items with
      | x :: rest => (.ready x, ⟨conn, fds, rest⟩)
      | [] => (.pending, ⟨conn, fds, []⟩)

/-- Whoever is told to wait is woken: each interest of each watched file descriptor has been polled
    not ready in this call. -/
def Wakeful (poll : Poll ι) (next : DBusItems σ ι) : Prop :=
  poll = .pending → ∀ x ∈ next.fds.entries, x.interest.Within x.notReady

def answers (env : Env σ ι) (s : DBusItems σ ι) : List (ConnectionItem ι) :=
  (watchAll env s.conn (results env s)).1

def watchChange : ConnectionItem ι → Option Watch
  | .watchFd w => some w
  | .item _ => none

def changes (env : Env σ ι) (s : DBusItems σ ι) (fd : Int) : List Watch :=
  ((answers env s).filterMap watchChange).filter fun w => w.fd = fd

/-- A file descriptor whose watch is not changed is not ready. One whose watch is changed loses it
    in the end, or had it all along, and is left with interests that it had and is not ready for. -/
def settled (env : Env σ ι) (s : DBusItems σ ι) (fd : Int) : Prop :=
  match (changes env s fd).getLast? with
  | none => ∀ x ∈ s.fds.entries, x.fd = fd → x.poll env.available = .empty
  | some w =>
    toReady w = .empty ∨ ∃ x ∈ s.fds.entries, x.fd = fd ∧
      (∀ v ∈ changes env s fd, toReady v ≠ .empty) ∧
      (toReady w).Within x.interest ∧ (toReady w).inter (env.available fd) = .empty

def quiet (env : Env σ ι) (s : DBusItems σ ι) : Prop :=
  s.pendingItems ≠ [] ∨ (∃ x, .item x ∈ answers env s) ∨ ∀ fd, settled env s fd

end Polling

section Watches
variable {registers : Int → Bool} {w : Watch} {fds next : FdList}

def FdList.find (fds : FdList) (fd : Int) : Option Fd := fds.entries.find? fun x => x.fd = fd

theorem find_eq_some_iff {fd : Int} {x : Fd} :
    fds.find fd = some x ↔ x ∈ fds.entries ∧ x.fd = fd := by
  constructor
  · intro found
    exact ⟨List.mem_of_find?_eq_some found, by simpa using List.find?_some found⟩
  · rintro ⟨member, rfl⟩
    cases found : fds.find x.fd with
    | none =>
      have absent := List.find?_eq_none.mp found x member
      simp at absent
    | some y =>
      have same : y.fd = x.fd := by simpa using List.find?_some found
      rw [List.inj_on_of_nodup_map fds.distinct (List.mem_of_find?_eq_some found) member same]

def track (watched : Option Fd) (w : Watch) : Option Fd :=
  if toReady w = .empty then none
  else some ((watched.map fun x => { x with interest := toReady w }).getD ⟨w.fd, toReady w, .empty⟩)

theorem position_split {fd : Int} {i : Nat}
    (pos : (fds.entries.findIdx? fun x => x.fd = fd) = some i) :
    ∃ before x after, fds.entries = before ++ x :: after ∧ before.length = i ∧ x.fd = fd ∧
      ∀ y ∈ before ++ after, y.fd ≠ fd := by
  obtain ⟨inside, own, _⟩ := List.findIdx?_eq_some_iff_getElem.mp pos
  have cut : fds.entries = fds.entries.take i ++ fds.entries[i] :: fds.entries.drop (i + 1) := by
    rw [List.getElem_cons_drop, List.take_append_drop]
  have same : fds.entries[i].fd = fd := by simpa using own
  refine ⟨_, _, _, cut, List.length_take_of_le (Nat.le_of_lt inside), same, ?_⟩
  have ids := fds.distinct
  rw [cut, (List.perm_middle.map Fd.fd).nodup_iff, List.map_cons, List.nodup_cons] at ids
  intro y member other
  exact ids.1 (List.mem_map.mpr ⟨y, member, other.trans same.symm⟩)

theorem find_split {before after : List Fd} {x : Fd} (others : ∀ y ∈ before ++ after, y.fd ≠ x.fd)
    (fd : Int) :
    ((before ++ x :: after).find? fun y => y.fd = fd) =
      if x.fd = fd then some x else (before ++ after).find? fun y => y.fd = fd := by
  rw [List.find?_append, List.find?_append, List.find?_cons]
  by_cases own : x.fd = fd
  · have early : (before.find? fun y => y.fd = fd) = none := by
      rw [List.find?_eq_none]
      intro y member
      simpa using own ▸ others y (List.mem_append_left after member)
    simp [own, early]
  · simp [own]

theorem find_remove {i : Nat} (pos : (fds.entries.findIdx? fun x => x.fd = w.fd) = some i) (fd : Int) :
    (fds.remove i).find fd = if w.fd = fd then none else fds.find fd := by
  obtain ⟨before, x, after, cut, rfl, own, others⟩ := position_split pos
  have left : (fds.remove before.length).entries = before ++ after := by
    change fds.entries.eraseIdx before.length = before ++ after
    rw [cut, List.eraseIdx_append_of_length_le (Nat.le_refl _)]
    simp
  rw [← own] at others ⊢
  rw [FdList.find, FdList.find, left, cut, find_split others]
  split
  · rename_i same
    rw [List.find?_eq_none]
    intro y member
    simpa using same ▸ others y member
  · rfl

theorem find_update {i : Nat} (pos : (fds.entries.findIdx? fun x => x.fd = w.fd) = some i)
    (ready : Ready) (fd : Int) :
    (fds.update i ready).find fd =
      if w.fd = fd then (fds.find fd).map fun x => { x with interest := ready } else fds.find fd := by
  obtain ⟨before, x, after, cut, rfl, own, others⟩ := position_split pos
  have updated : (fds.update before.length ready).entries =
      before ++ { x with interest := ready } :: after := by
    change fds.entries.modify before.length _ = _
    rw [cut, List.modify_eq_take_cons_drop (by simp)]
    simp
  rw [← own] at others ⊢
  have others' : ∀ y ∈ before ++ after, y.fd ≠ ({ x with interest := ready } : Fd).fd := others
  rw [FdList.find, FdList.find, updated, cut, find_split others', find_split others]
  split <;> rfl

theorem find_absent (pos : (fds.entries.findIdx? fun x => x.fd = w.fd) = none) :
    fds.find w.fd = none := by
  rw [FdList.find, List.find?_eq_none]
  intro x member
  simpa using List.findIdx?_eq_none_iff.mp pos x member

theorem find_push (pushed : fds.push registers w = some next) (fd : Int) :
    next.find fd = if w.fd = fd then some ⟨w.fd, toReady w, .empty⟩ else fds.find fd := by
  unfold FdList.push at pushed
  split at pushed
  · rename_i fresh
    cases pushed
    have others : ∀ y ∈ fds.entries ++ [], y.fd ≠ (⟨w.fd, toReady w, .empty⟩ : Fd).fd := by
      intro y member same
      rw [List.append_nil] at member
      exact fresh.1 (List.mem_map.mpr ⟨y, member, same⟩)
    have split := find_split others fd
    rwa [List.append_nil] at split
  · cases pushed

theorem find_change (taken : fds.change registers w = some next) (fd : Int) :
    next.find fd = if w.fd = fd then track (fds.find fd) w else fds.find fd := by
  unfold FdList.change at taken
  cases pos : fds.entries.findIdx? fun x => x.fd = w.fd with
  | some i =>
    obtain ⟨before, x, after, cut, _, own, others⟩ := position_split pos
    have watched : fds.find w.fd = some x := by
      rw [find_eq_some_iff, cut]
      exact ⟨by simp, own⟩
    simp only [pos] at taken
    split at taken
    · rename_i removed
      cases taken
      rw [find_remove pos]
      split
      · rw [track, if_pos removed]
      · rfl
    · rename_i kept
      cases taken
      rw [find_update pos]
      split
      · rename_i same
        rw [← same, watched, track, if_neg kept]
        rfl
      · rfl
  | none =>
    simp only [pos] at taken
    split at taken
    · rename_i removed
      cases taken
      split
      · rename_i same
        rw [← same, find_absent pos, track, if_pos removed]
      · rfl
    · rename_i kept
      rw [find_push taken]
      split
      · rename_i same
        rw [← same, find_absent pos, track, if_neg kept]
        rfl
      · rfl

end Watches

section Tracking
variable {start : Option Fd} {ws : List Watch}

theorem foldl_track_concat (start : Option Fd) (ws : List Watch) (w : Watch) :
    (ws ++ [w]).foldl track start = track (ws.foldl track start) w := by
  rw [List.foldl_append]
  rfl

theorem track_eq_none_iff {watched : Option Fd} {w : Watch} :
    track watched w = none ↔ toReady w = .empty := by
  unfold track
  split <;> simp_all

theorem unwatched_cases (gone : ws.foldl track start = none) :
    start = none ∨ ∃ v ∈ ws, toReady v = .empty := by
  induction ws using List.reverseRecOn with
  | nil => exact Or.inl gone
  | append_singleton ws w _ =>
    rw [foldl_track_concat, track_eq_none_iff] at gone
    exact Or.inr ⟨w, by simp, gone⟩

theorem notReady_cases {x : Fd} (watched : ws.foldl track start = some x) :
    (∃ y, start = some y ∧ (∀ v ∈ ws, toReady v ≠ .empty) ∧ x.notReady = y.notReady) ∨
      ((start = none ∨ ∃ v ∈ ws, toReady v = .empty) ∧ x.notReady = .empty) := by
  induction ws using List.reverseRecOn generalizing x with
  | nil => exact Or.inl ⟨x, watched, nofun, rfl⟩
  | append_singleton ws w ih =>
    rw [foldl_track_concat] at watched
    have kept : toReady w ≠ .empty := by
      intro removed
      rw [track_eq_none_iff.mpr removed] at watched
      cases watched
    rw [track, if_neg kept] at watched
    have value := Option.some.inj watched
    have earlier : (∃ v ∈ ws, toReady v = .empty) → ∃ v ∈ ws ++ [w], toReady v = .empty := by
      rintro ⟨v, member, removed⟩
      exact ⟨v, List.mem_append_left [w] member, removed⟩
    cases before : ws.foldl track start with
    | some y =>
      have same : x.notReady = y.notReady := by rw [← value, before]; rfl
      rcases ih before with ⟨z, first, all, old⟩ | ⟨lost, nothing⟩
      · refine Or.inl ⟨z, first, ?_, same.trans old⟩
        intro v member
        rcases List.mem_append.mp member with earlier | last
        · exact all v earlier
        · rwa [List.mem_singleton.mp last]
      · exact Or.inr ⟨lost.imp_right earlier, same.trans nothing⟩
    | none =>
      have new : x.notReady = .empty := by rw [← value, before]; rfl
      exact Or.inr ⟨(unwatched_cases before).imp_right earlier, new⟩

theorem within_empty {r : Ready} (within : r.Within .empty) : r = .empty := by
  obtain ⟨readable, writable⟩ := r
  obtain ⟨no_read, no_write⟩ := within
  cases readable <;> cases writable <;> simp_all [Ready.empty]

/-- After the changes, what is watched has been polled not ready for its interests exactly when the
    last change leaves it so. -/
theorem within_iff_last (start : Option Fd) (ws : List Watch) :
    (∀ x, ws.foldl track start = some x → x.interest.Within x.notReady) ↔
      match ws.getLast? with
      | none => ∀ x, start = some x → x.interest.Within x.notReady
      | some w => toReady w = .empty ∨ ∃ y, start = some y ∧
          (∀ v ∈ ws, toReady v ≠ .empty) ∧ (toReady w).Within y.notReady := by
  rcases List.eq_nil_or_concat ws with rfl | ⟨ws, w, rfl⟩
  · rfl
  · rw [List.concat_eq_append, List.getLast?_concat]
    simp only
    by_cases removed : toReady w = .empty
    · rw [foldl_track_concat, track_eq_none_iff.mpr removed]
      exact iff_of_true nofun (Or.inl removed)
    · cases watched : (ws ++ [w]).foldl track start with
      | none =>
        rw [foldl_track_concat, track_eq_none_iff] at watched
        exact absurd watched removed
      | some x =>
        have interest : x.interest = toReady w := by
          rw [foldl_track_concat, track, if_neg removed] at watched
          rw [← Option.some.inj watched]
          cases ws.foldl track start <;> rfl
        simp only [Option.some.injEq, forall_eq', removed, false_or, interest]
        rcases notReady_cases watched with ⟨y, rfl, all, same⟩ | ⟨lost, nothing⟩
        · rw [same]
          constructor
          · exact fun within => ⟨y, rfl, all, within⟩
          · rintro ⟨z, first, _, within⟩
            rwa [Option.some.inj first]
        · rw [nothing]
          refine iff_of_false (fun within => removed (within_empty within)) ?_
          rintro ⟨y, rfl, all, _⟩
          rcases lost with unwatched | ⟨v, member, gone⟩
          · cases unwatched
          · exact all v member gone

end Tracking

section Calls
variable {σ ι : Type} {env : Env σ ι} {s next : DBusItems σ ι} {poll : Poll ι}

def itemOf : ConnectionItem ι → Option ι
  | .item x => some x
  | .watchFd _ => none

theorem eat_all {registers : Int → Bool} {items : List (ConnectionItem ι)} {fds after : FdList}
    {queued pending : List ι}
    (eaten : items.foldlM (eat registers) (fds, queued) = some (after, pending)) :
    pending = queued ++ items.filterMap itemOf ∧
      ∀ fd, after.find fd =
        ((items.filterMap watchChange).filter fun w => w.fd = fd).foldl track (fds.find fd) := by
  induction items generalizing fds queued with
  | nil =>
    cases eaten
    simp
  | cons item items ih =>
    rw [List.foldlM_cons] at eaten
    obtain ⟨⟨middle, more⟩, first, rest⟩ := Option.bind_eq_some_iff.mp eaten
    obtain ⟨queue, watches⟩ := ih rest
    cases item with
    | item x =>
      cases first
      refine ⟨?_, watches⟩
      rw [queue, List.append_assoc]
      rfl
    | watchFd w =>
      obtain ⟨changed, step, same⟩ := Option.map_eq_some_iff.mp first
      cases same
      refine ⟨queue, ?_⟩
      intro fd
      rw [watches, find_change step]
      by_cases own : w.fd = fd
      · simp [watchChange, own]
      · simp [watchChange, own]

theorem find_polled (available : Int → Ready) (fds : FdList) (fd : Int) :
    (fds.polled available).find fd = (fds.find fd).map (Fd.polled available) := by
  rw [FdList.find, FdList.polled, List.find?_map]
  rfl

theorem within_minus_iff {r interest available : Ready} :
    r.Within (interest.minus available) ↔ r.Within interest ∧ r.inter available = .empty := by
  obtain ⟨r1, r2⟩ := r
  obtain ⟨i1, i2⟩ := interest
  obtain ⟨a1, a2⟩ := available
  revert r1 r2 i1 i2 a1 a2
  decide

theorem settled_iff (env : Env σ ι) (s : DBusItems σ ι) (fd : Int) :
    settled env s fd ↔ ∀ x, (changes env s fd).foldl track ((s.fds.polled env.available).find fd) =
      some x → x.interest.Within x.notReady := by
  rw [within_iff_last, find_polled, settled]
  cases (changes env s fd).getLast? with
  | none =>
    simp only
    constructor
    · intro still x watched
      obtain ⟨y, here, rfl⟩ := Option.map_eq_some_iff.mp watched
      obtain ⟨member, rfl⟩ := find_eq_some_iff.mp here
      exact within_minus_iff.mpr ⟨⟨id, id⟩, still y member rfl⟩
    · rintro within x member rfl
      have here : s.fds.find x.fd = some x := find_eq_some_iff.mpr ⟨member, rfl⟩
      have polled := within (x.polled env.available) (by rw [here]; rfl)
      exact (within_minus_iff.mp polled).2
  | some w =>
    simp only
    refine or_congr_right ⟨?_, ?_⟩
    · rintro ⟨x, member, rfl, kept, within, still⟩
      have here : s.fds.find x.fd = some x := find_eq_some_iff.mpr ⟨member, rfl⟩
      exact ⟨x.polled env.available, by rw [here]; rfl, kept, within_minus_iff.mpr ⟨within, still⟩⟩
    · rintro ⟨y, watched, kept, within⟩
      obtain ⟨x, here, rfl⟩ := Option.map_eq_some_iff.mp watched
      obtain ⟨member, rfl⟩ := find_eq_some_iff.mp here
      obtain ⟨had, still⟩ := within_minus_iff.mp within
      exact ⟨x, member, rfl, kept, had, still⟩

theorem wakeful_iff_find (next : DBusItems σ ι) :
    Wakeful .pending next ↔ ∀ fd x, next.fds.find fd = some x → x.interest.Within x.notReady := by
  constructor
  · intro wakeful fd x found
    exact wakeful rfl x (find_eq_some_iff.mp found).1
  · intro all _ x member
    exact all x.fd x (find_eq_some_iff.mpr ⟨member, rfl⟩)

theorem pollNext_cases (called : s.pollNext env = some (poll, next)) :
    (s.pendingItems ≠ [] ∧ poll ≠ .pending) ∨
    (s.pendingItems = [] ∧ ∃ items,
      (answers env s).foldlM (eat env.registers) (s.fds.polled env.available, []) =
        some (next.fds, items) ∧
      ((items ≠ [] ∧ poll ≠ .pending) ∨ (items = [] ∧ poll = .pending))) := by
  unfold DBusItems.pollNext at called
  cases waiting : s.pendingItems with
  | cons x rest =>
    rw [waiting] at called
    cases called
    exact Or.inl ⟨List.cons_ne_nil x rest, nofun⟩
  | nil =>
    rw [waiting] at called
    obtain ⟨⟨fds, items⟩, eaten, result⟩ := Option.map_eq_some_iff.mp called
    refine Or.inr ⟨rfl, items, ?_⟩
    cases items with
    | nil =>
      cases result
      exact ⟨eaten, Or.inr ⟨rfl, rfl⟩⟩
    | cons x items =>
      cases result
      exact ⟨eaten, Or.inl ⟨List.cons_ne_nil x items, nofun⟩⟩

theorem filterMap_itemOf_eq_nil_iff {items : List (ConnectionItem ι)} :
    items.filterMap itemOf = [] ↔ ¬ ∃ x, .item x ∈ items := by
  rw [List.filterMap_eq_nil_iff]
  constructor
  · rintro none_there ⟨x, member⟩
    cases none_there _ member
  · intro absent item member
    cases item with
    | item x => exact absurd ⟨x, member⟩ absent
    | watchFd w => rfl

end Calls

/-- A call that tells to wait leaves a waker with every interest exactly when the bus has been
    quiet in it. -/
theorem pending_wakes_iff {σ ι : Type} {env : Env σ ι} {s next : DBusItems σ ι} {poll : Poll ι}
    (called : s.pollNext env = some (poll, next)) : Wakeful poll next ↔ quiet env s := by
  rcases pollNext_cases called with ⟨waiting, answered⟩ | ⟨idle, items, eaten, outcome⟩
  · exact iff_of_true (fun pending => absurd pending answered) (Or.inl waiting)
  · obtain ⟨queue, watches⟩ := eat_all eaten
    rw [List.nil_append] at queue
    rcases outcome with ⟨some_item, answered⟩ | ⟨no_item, rfl⟩
    · refine iff_of_true (fun pending => absurd pending answered) (Or.inr (Or.inl ?_))
      by_contra none_given
      exact some_item (queue.trans (filterMap_itemOf_eq_nil_iff.mpr none_given))
    · have none_given : ¬ ∃ x, .item x ∈ answers env s :=
        filterMap_itemOf_eq_nil_iff.mp (queue.symm.trans no_item)
      rw [wakeful_iff_find, quiet]
      simp only [idle, ne_eq, not_true, none_given, false_or, settled_iff, watches]
      rfl

/-- The bus has stopped watching one file descriptor, the other is not ready. -/
theorem pending_wakes_two :
    ∃ poll next, DBusItems.pollNext
        (⟨fun fd => ⟨decide (fd = 5), false⟩, fun _ => true,
          fun _ _ _ => ([.watchFd ⟨5, false, false⟩], ())⟩ : Env Unit Unit)
        ⟨(), ⟨[⟨5, ⟨true, false⟩, .empty⟩, ⟨6, ⟨true, true⟩, .empty⟩], by decide⟩, []⟩ =
          some (poll, next) ∧
      (Wakeful poll next ↔ quiet
        (⟨fun fd => ⟨decide (fd = 5), false⟩, fun _ => true,
          fun _ _ _ => ([.watchFd ⟨5, false, false⟩], ())⟩ : Env Unit Unit)
        ⟨(), ⟨[⟨5, ⟨true, false⟩, .empty⟩, ⟨6, ⟨true, true⟩, .empty⟩], by decide⟩, []⟩) :=
  ⟨_, _, rfl, pending_wakes_iff rfl⟩

/-- One readable file descriptor, for which the bus has no item: the task is told to wait, and
    nothing will wake it. -/
theorem ready_without_item :
    ∃ next, DBusItems.pollNext
        (⟨fun _ => ⟨true, false⟩, fun _ => true, fun _ _ _ => ([], ())⟩ : Env Unit Unit)
        ⟨(), ⟨[⟨5, ⟨true, false⟩, .empty⟩], by simp⟩, []⟩ = some (.pending, next) ∧
      ¬ Wakeful .pending next := by
  refine ⟨_, rfl, ?_⟩
  intro wakeful
  exact absurd (wakeful rfl ⟨5, ⟨true, false⟩, .empty⟩ (by decide)) (by decide)

end BusItems
