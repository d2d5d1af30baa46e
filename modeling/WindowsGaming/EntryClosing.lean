import WindowsGaming.EntryDesk

/- What is left of a temporary entry when its connection closes. Nobody tells the controller:
   the entry's own task finds out with the next message it cannot forward. -/
namespace EntryClosing
open Config Protocol Controller Control EntryChannels EntryDesk

/-- No task has anything to do: every channel is open and empty. -/
def TasksRan (s : Server) : Prop := ∀ f ∈ s.forwarders, f.pending = [] ∧ s.entry = some f.entry

instance : DecidablePred TasksRan := fun s =>
  inferInstanceAs (Decidable (∀ f ∈ s.forwarders, f.pending = [] ∧ s.entry = some f.entry))

/-- Once all woken tasks have run, the current entry's connection is open. -/
def EntryOpen (s : Server) : Prop :=
  TasksRan s → ∀ e ∈ s.entry, ∀ c ∈ s.granted[e]?, s.isReading c = true

instance : DecidablePred EntryOpen := fun s =>
  inferInstanceAs (Decidable (TasksRan s → ∀ e ∈ s.entry, ∀ c ∈ s.granted[e]?, s.isReading c = true))

/-- A connection closes during its entry only while some task is woken. -/
def noticed (s : Server) : Event → Prop
  | .close c => (∃ e ∈ s.entry, s.granted[e]? = some c) → ¬ TasksRan s
  | _ => True

instance : ∀ (s : Server) (e : Event), Decidable (noticed s e)
  | s, .close c => inferInstanceAs (Decidable ((∃ e ∈ s.entry, s.granted[e]? = some c) → ¬ TasksRan s))
  | _, .accept => inferInstanceAs (Decidable True)
  | _, .request .. => inferInstanceAs (Decidable True)
  | _, .poll _ => inferInstanceAs (Decidable True)
  | _, .acked _ => inferInstanceAs (Decidable True)
  | _, .call .. => inferInstanceAs (Decidable True)

def woken (d : Desk) (f : Forwarder) : Prop := f.pending ≠ [] ∨ d.entry ≠ some f.entry

structure Watched (d : Desk) : Prop where
  flags : ∀ e c conn, d.entry = some e → d.granted[e]? = some c → d.conns[c]? = some conn →
    conn.reading = true → conn.tempEntry = true
  closing : ∀ e c, d.entry = some e → d.granted[e]? = some c → d.isReading c = false →
    ∃ f ∈ d.forwarders, woken d f

section Turns
variable {s t : Server} {d : Desk}

theorem tasksRan_iff (s : Server) : TasksRan s ↔ ∀ f ∈ s.forwarders, ¬ woken (desk s) f := by
  simp [TasksRan, woken, desk]

def Kept (g : Conn → Conn) : Prop :=
  ∀ conn, (g conn).reading = conn.reading ∧ (g conn).tempEntry = conn.tempEntry

theorem kept_hear (cmds : List ControlCmdOut) : Kept (hear cmds) := by
  intro conn
  unfold hear
  split <;> exact ⟨rfl, rfl⟩

theorem watched_tell {k : Nat} {g : Conn → Conn} (kept : Kept g) (watched : Watched d) :
    Watched { d with conns := d.conns.modify k g } where
  flags := by
    intro e c conn on granted found reading
    simp only [List.getElem?_modify, Option.map_eq_map, Option.map_eq_some_iff] at found
    obtain ⟨old, foundOld, rfl⟩ := found
    have flagged := watched.flags e c old on granted foundOld
    by_cases here : k = c
    · simp only [here, if_true, (kept old).1, (kept old).2] at reading ⊢
      exact flagged reading
    · simp only [here, if_false] at reading ⊢
      exact flagged reading
  closing := by
    intro e c on granted closed
    rw [isReading_modify d c k g fun _ conn => (kept conn).1] at closed
    exact watched.closing e c on granted closed

theorem watched_hangUp {k : Nat} (watched : Watched d)
    (other : ∀ e, d.entry = some e → d.granted[e]? = some k → ∃ f ∈ d.forwarders, woken d f) :
    Watched (d.hangUp k) where
  flags := by
    intro e c conn on granted found reading
    simp only [Desk.hangUp, List.getElem?_modify, Option.map_eq_map, Option.map_eq_some_iff] at found
    obtain ⟨old, foundOld, rfl⟩ := found
    by_cases here : k = c
    · simp [here] at reading
    · simp only [here, if_false] at reading ⊢
      exact watched.flags e c old on granted foundOld reading
  closing := by
    intro e c on granted closed
    by_cases here : c = k
    · subst here
      exact other e on granted
    · have same := isReading_modify d c k (fun conn => { conn with reading := false })
        fun same => absurd same here
      exact watched.closing e c on granted (same.symm.trans closed)

theorem watched_none {conns : List Conn} {forwarders : List Forwarder} :
    Watched ⟨none, d.granted, conns, forwarders⟩ := ⟨nofun, nofun⟩

theorem watched_accept (tidy : Tidy d) (watched : Watched d) :
    Watched { d with conns := d.conns ++ [.new] } := by
  have older : ∀ e c, d.granted[e]? = some c → c < d.conns.length := fun e c granted =>
    tidy.seated c (List.mem_of_getElem? granted)
  have same : ∀ e c, d.granted[e]? = some c → (d.conns ++ [.new])[c]? = d.conns[c]? :=
    fun e c granted => List.getElem?_append_left (older e c granted)
  constructor
  · intro e c conn on granted found
    exact watched.flags e c conn on granted ((same e c granted).symm.trans found)
  · intro e c on granted closed
    refine watched.closing e c on granted ?_
    unfold Desk.isReading at closed ⊢
    rwa [same e c granted] at closed

theorem watched_work {entry : Option Nat} {ms : List (Nat × ControlCmdOut)} (watched : Watched d)
    (kept : ∀ k, entry = some k → d.entry = some k) :
    Watched { d with entry, forwarders := d.forwarders.map (receive ms) } where
  flags := fun e c conn on => watched.flags e c conn (kept e on)
  closing := by
    intro e c on granted closed
    obtain ⟨f, member, wakes⟩ := watched.closing e c (kept e on) granted closed
    refine ⟨receive ms f, List.mem_map_of_mem member, ?_⟩
    rcases wakes with waits | ended
    · left
      simp [receive, waits]
    · right
      rw [kept e on] at ended
      rw [on]
      exact ended

theorem watched_grant {c : Nat} (free : ∃ conn, d.conns[c]? = some conn ∧ conn.reading = true) :
    Watched { entry := some d.granted.length
              granted := d.granted ++ [c]
              conns := d.conns.modify c fun conn =>
                { conn with tempEntry := true, sent := conn.sent ++ [.temporaryLightAttached] }
              forwarders := d.forwarders ++ [⟨d.granted.length, c, []⟩] } := by
  obtain ⟨conn, found, reading⟩ := free
  constructor
  · rintro e k other ⟨⟩ granted found _
    have here : k = c := by simpa using granted.symm
    subst here
    simp only [List.getElem?_modify, if_true, Option.map_eq_map, Option.map_eq_some_iff] at found
    obtain ⟨old, _, rfl⟩ := found
    rfl
  · rintro e k ⟨⟩ granted closed
    have here : k = c := by simpa using granted.symm
    subst here
    simp [Desk.isReading, found, reading] at closed

theorem watched_forward {f : Forwarder} (tidy : Tidy (desk s)) (watched : Watched (desk s))
    (member : f ∈ s.forwarders) (goesOn : s.finishes f = false) :
    Watched { desk s with forwarders := s.forwarders.map fun g =>
      if g.entry = f.entry then { g with pending := [] } else g } where
  flags := watched.flags
  closing := by
    intro e c on granted closed
    have current : s.entry = some f.entry ∧ (s.isReading f.conn = true ∨ f.pending = []) := by
      simpa [Server.finishes, or_iff_not_imp_left] using goesOn
    cases on.symm.trans current.1
    have mine : f.conn = c := Option.some.inj ((tidy.known f member).symm.trans granted)
    have silent : f.pending = [] := by
      rcases current.2 with reading | silent
      · rw [mine, ← isReading_desk] at reading
        exact absurd (reading.symm.trans closed) (by simp)
      · exact silent
    obtain ⟨g, gMember, wakes⟩ := watched.closing f.entry c on granted closed
    have other : g.entry ≠ f.entry := by
      intro same
      have unique : g = f := List.inj_on_of_nodup_map tidy.nodup gMember member same
      subst unique
      rcases wakes with waits | ended
      · exact waits silent
      · exact ended on
    refine ⟨g, List.mem_map.mpr ⟨g, gMember, by simp [other]⟩, wakes⟩

theorem watched_turn {e : Event} {next : Desk} (tidy : Tidy (desk s)) (watched : Watched (desk s))
    (ok : noticed s e) (turn : Turn s e next) : Watched next := by
  cases turn with
  | accept => exact watched_accept tidy watched
  | work entry ms kept posted plain => exact watched_work watched kept
  | refuse free refused =>
    apply watched_hangUp watched
    intro e on granted
    obtain ⟨conn, found, reading, unflagged⟩ := isFree_conn free
    have flagged := watched.flags e _ conn on granted found reading
    exact absurd (flagged.symm.trans unflagged) (by simp)
  | exit f busy leaves => exact watched_none
  | grant free granted =>
    obtain ⟨conn, found, reading, _⟩ := isFree_conn free
    exact watched_grant ⟨conn, found, reading⟩
  | close reading =>
    apply watched_hangUp watched
    intro e on granted
    have wakes := ok ⟨e, on, granted⟩
    rw [tasksRan_iff] at wakes
    by_contra none
    exact wakes fun f member woke => none ⟨f, member, woke⟩
  | @forward f found goesOn =>
    have told := watched_tell (k := f.conn) (kept_hear f.pending)
      (watched_forward tidy watched (List.mem_of_find?_eq_some found) goesOn)
    exact told
  | finish found finishes => exact watched_none
  | @acked ack c => exact watched_tell (kept_hear [.ack]) watched

theorem entryOpen_of_watched (watched : Watched (desk s)) : EntryOpen s := by
  intro ran e on c granted
  by_contra closed
  have closed : (desk s).isReading c = false := by
    rw [isReading_desk]
    exact Bool.eq_false_of_not_eq_true closed
  obtain ⟨f, member, wakes⟩ := watched.closing e c on granted closed
  exact (tasksRan_iff s).mp ran f member wakes

/-- A connection that closes during its entry with no task woken leaves the entry behind. -/
theorem unnoticed_close {c : Nat} (taken : serverStep s (.close c) = some t) (left : EntryOpen t) :
    noticed s (.close c) := by
  rintro ⟨e, on, granted⟩ ran
  simp only [serverStep] at taken
  split at taken
  · cases taken
    have reading := left ran e on c granted
    simp only [Server.isReading, Server.hangUp, Server.updateConn, List.getElem?_modify,
      if_true] at reading
    cases found : s.conns[c]? <;> simp [found] at reading
  · cases taken

end Turns

/-- No temporary entry outlives its connection along a run exactly when every connection that
    closes during its entry does so while some task is woken. -/
theorem entry_ends_with_connection_iff (machine : MachineConfig) (hooks : HooksConfig)
    (es : List Event) :
    Runs.Always serverStep EntryOpen (start machine hooks) es ↔
      Runs.Meets serverStep noticed (start machine hooks) es := by
  refine Runs.always_iff_meets
    (fun s => s.controller.out = [] ∧ Tidy (desk s) ∧ Watched (desk s)) ?_ ?_ ?_
    ⟨rfl, tidy_start machine hooks, nofun, nofun⟩ es
  · rintro s e t ⟨nothing, tidy, watched⟩ ok taken
    obtain ⟨turn, empty⟩ := serverStep_turn nothing taken
    exact ⟨empty, tidy_turn tidy turn, watched_turn tidy watched ok turn⟩
  · rintro s ⟨_, _, watched⟩
    exact entryOpen_of_watched watched
  · rintro s e t _ taken left
    cases e with
    | close c => exact unnoticed_close taken left
    | _ => trivial

/-- A client that closes its connection during its entry leaves the host's input grabbed. -/
theorem entry_outlives_connection :
    ¬ Runs.Always serverStep EntryOpen (start .bare .bare)
      [.call .bare .gaHello, .accept, .request .bare 0 (.temporaryLightEntry 1 2), .poll 0,
        .close 0] := by
  decide +kernel

end EntryClosing
