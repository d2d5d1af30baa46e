import Mathlib.Data.List.Count
import WindowsGaming.Library.Runs
import WindowsGaming.Library.Journals

/- Claims of the desktop's selection. Each has a task that gives the selection back when nobody is
   left to answer requests, unless the compositor has cancelled the claim before. -/
namespace SelectionClaims

structure Claim where
  dropped : Bool
  cancelled : Bool
  finished : Bool
  requests : List String
  deriving DecidableEq, Repr

/-- What happened to a claim: its source was set or unset as the selection, or its Cancelled event
    was handled. -/
inductive Mark where
  | set
  | unset
  | cancelled
  deriving DecidableEq, Repr

structure Desktop where
  claims : List Claim
  log : List (Nat × Mark)
  deriving DecidableEq, Repr

def start : Desktop := ⟨[], []⟩

inductive Branch where
  | undo
  | token
  deriving DecidableEq, Repr

/-- One poll of the undo task: whether it ends, and if so, whether it undoes the claim. -/
def makeCancelable (first : Branch) (closed cancelled : Bool) : Option Bool :=
  match first with
  | .undo => if closed then some true else if cancelled then some false else none
  | .token => if cancelled then some false else if closed then some true else none

inductive Event where
  | claim
  | send (claim : Nat) (mimeType : String)
  | cancelled (claim : Nat)
  | drop (claim : Nat)
  | poll (claim : Nat) (first : Branch)
  deriving DecidableEq, Repr

def Desktop.change (i : Nat) (f : Claim → Claim) (marks : List Mark) (d : Desktop) : Desktop :=
  ⟨d.claims.modify i f, d.log ++ marks.map fun mark => (i, mark)⟩

/-- The event handler drops its sender when the claim is cancelled. -/
def Claim.send (mimeType : String) (c : Claim) : Claim :=
  if c.cancelled || c.dropped then c else { c with requests := c.requests ++ [mimeType] }

def desktopStep (d : Desktop) : Event → Option Desktop
  | .claim => some ⟨d.claims ++ [⟨false, false, false, []⟩], d.log ++ [(d.claims.length, .set)]⟩
  | .send i mimeType => d.claims[i]?.map fun _ => d.change i (Claim.send mimeType) []
  | .cancelled i =>
    d.claims[i]?.map fun _ => d.change i (fun c => { c with cancelled := true }) [.cancelled]
  | .drop i => d.claims[i]?.map fun _ => d.change i (fun c => { c with dropped := true }) []
  | .poll i first =>
    d.claims[i]?.bind fun c =>
      if c.finished then none
      else
        match makeCancelable first c.dropped c.cancelled with
        | some true => some (d.change i (fun c => { c with finished := true }) [.unset])
        | some false => some (d.change i (fun c => { c with finished := true }) [])
        | none => some d

def history (i : Nat) (log : List (Nat × Mark)) : List Mark :=
  (log.filter fun entry => entry.1 = i).map Prod.snd

/-- The claim is not undone after it was cancelled; if it was not and nobody answers requests any
    more, it is undone once, at the next poll of its task at the latest. -/
structure Undone (d : Desktop) (i : Nat) (c : Claim) : Prop where
  spares : ∀ before after, history i d.log = before ++ .cancelled :: after → .unset ∉ after
  once : c.cancelled = false → c.dropped = true →
    c.finished = true ∧ (history i d.log).count .unset = 1 ∨
      c.finished = false ∧ (history i d.log).count .unset = 0 ∧
        ∀ first, ∃ next, desktopStep d (.poll i first) = some next ∧
          (history i next.log).count .unset = 1

def SelectionsSpared (d : Desktop) : Prop :=
  ∀ (i : Nat) (c : Claim), d.claims[i]? = some c → Undone d i c

/-- A task whose claim is cancelled and unanswered looks at the cancellation first. -/
def considerate (d : Desktop) : Event → Prop
  | .poll i first => ∀ c ∈ d.claims[i]?, c.dropped = true → c.cancelled = true → first = .token
  | _ => True

structure Recorded (h : List Mark) (c : Claim) : Prop where
  cancelled : c.cancelled = true ↔ .cancelled ∈ h
  unset : c.finished = false → .unset ∉ h
  undone : c.cancelled = false → c.finished = true → h.count .unset = 1
  spares : ∀ before after, h = before ++ .cancelled :: after → .unset ∉ after

structure Consistent (d : Desktop) : Prop where
  recorded : ∀ (i : Nat) (c : Claim), d.claims[i]? = some c → Recorded (history i d.log) c
  fresh : ∀ i, d.claims.length ≤ i → history i d.log = []

section Steps
variable {d next : Desktop} {e : Event} {i : Nat} {c : Claim}

theorem history_append (i : Nat) (log more : List (Nat × Mark)) :
    history i (log ++ more) = history i log ++ history i more := by
  simp [history]

theorem history_marks (i j : Nat) (marks : List Mark) :
    history j (marks.map fun mark => (i, mark)) = if i = j then marks else [] := by
  by_cases same : i = j
  · simp [history, List.filter_map, Function.comp_def, same]
  · simp [history, List.filter_map, Function.comp_def, same]

theorem spares_append {h : List Mark} {mark : Mark}
    (spares : ∀ before after, h = before ++ .cancelled :: after → .unset ∉ after)
    (allowed : mark = .unset → .cancelled ∉ h) :
    ∀ before after, h ++ [mark] = before ++ .cancelled :: after → .unset ∉ after := by
  intro before after cut unset
  rcases List.eq_nil_or_concat after with rfl | ⟨rest, last, rfl⟩
  · cases unset
  · rw [List.concat_eq_append] at cut unset
    have split : h ++ [mark] = (before ++ .cancelled :: rest) ++ [last] := by simpa using cut
    obtain ⟨front, same⟩ := List.append_inj' split rfl
    cases same
    rcases List.mem_append.mp unset with old | now
    · exact spares before rest front old
    · exact allowed (List.mem_singleton.mp now).symm (by simp [front])

theorem consistent_change {f : Claim → Claim} {marks : List Mark} (consistent : Consistent d)
    (found : d.claims[i]? = some c) (changed : Recorded (history i d.log ++ marks) (f c)) :
    Consistent (d.change i f marks) := by
  have inside := (List.getElem?_eq_some_iff.mp found).1
  constructor
  · intro j k there
    simp only [Desktop.change] at there ⊢
    rw [history_append, history_marks]
    rw [List.getElem?_modify] at there
    by_cases same : i = j
    · subst same
      rw [found] at there
      simp only [if_true, Option.map_eq_map, Option.map_some, Option.some.injEq] at there ⊢
      exact there ▸ changed
    · simp only [same, if_false, Option.map_eq_map, Option.map_id'] at there ⊢
      rw [List.append_nil]
      exact consistent.recorded j k there
  · intro j beyond
    simp only [Desktop.change, List.length_modify] at beyond ⊢
    rw [history_append, history_marks, consistent.fresh j beyond, if_neg (by omega)]
    rfl

theorem recorded_append {h : List Mark} {mark : Mark} {k : Claim} (recorded : Recorded h c)
    (cancelled : k.cancelled = true ↔ c.cancelled = true ∨ mark = .cancelled)
    (unset : k.finished = false → c.finished = false ∧ mark ≠ .unset)
    (undone : k.cancelled = false → k.finished = true → (h ++ [mark]).count .unset = 1)
    (allowed : mark = .unset → c.cancelled = false) : Recorded (h ++ [mark]) k := by
  refine ⟨?_, ?_, undone, spares_append recorded.spares ?_⟩
  · rw [cancelled, recorded.cancelled, List.mem_append, List.mem_singleton, eq_comm (a := mark)]
  · intro running
    obtain ⟨before, other⟩ := unset running
    simp [recorded.unset before, other.symm]
  · intro same member
    rw [← recorded.cancelled, allowed same] at member
    cases member

theorem consistent_claim (consistent : Consistent d) (taken : desktopStep d .claim = some next) :
    Consistent next := by
  cases taken
  have blank := consistent.fresh d.claims.length (Nat.le_refl _)
  constructor
  · intro j k there
    rw [history_append]
    rcases Journals.getElem?_concat_cases there with old | ⟨rfl, rfl⟩
    · have inside := (List.getElem?_eq_some_iff.mp old).1
      have other : history j [(d.claims.length, Mark.set)] = [] := by
        simp [history, Nat.ne_of_gt inside]
      rw [other, List.append_nil]
      exact consistent.recorded j k old
    · have one : history d.claims.length [(d.claims.length, Mark.set)] = [.set] := by simp [history]
      rw [blank, one]
      refine ⟨by simp, by simp, nofun, ?_⟩
      intro before after cut
      cases before <;> simp at cut
  · intro j beyond
    rw [List.length_append, List.length_singleton] at beyond
    rw [history_append, consistent.fresh j (by omega)]
    simp [history, Nat.ne_of_lt (Nat.lt_of_succ_le beyond)]

theorem polled {first : Branch} (taken : desktopStep d (.poll i first) = some next) :
    ∃ c, d.claims[i]? = some c ∧ c.finished = false ∧
      (c.dropped = true ∧ (c.cancelled = true → first = .undo) ∧
          next = d.change i (fun c => { c with finished := true }) [.unset] ∨
        c.cancelled = true ∧ next = d.change i (fun c => { c with finished := true }) [] ∨
        next = d) := by
  obtain ⟨c, found, taken⟩ := Option.bind_eq_some_iff.mp taken
  refine ⟨c, found, ?_⟩
  cases finished : c.finished with
  | true => simp [finished] at taken
  | false =>
    refine ⟨rfl, ?_⟩
    cases first <;> cases dropped : c.dropped <;> cases cancelled : c.cancelled <;>
      simp [finished, makeCancelable, dropped, cancelled] at taken <;> simp [taken]

theorem consistent_poll {first : Branch} (consistent : Consistent d)
    (ok : considerate d (.poll i first)) (taken : desktopStep d (.poll i first) = some next) :
    Consistent next := by
  obtain ⟨c, found, running, cases⟩ := polled taken
  have recorded := consistent.recorded i c found
  have unset := recorded.unset running
  rcases cases with ⟨dropped, early, rfl⟩ | ⟨cancelled, rfl⟩ | rfl
  · have pending : c.cancelled = false := by
      by_contra cancelled
      rw [Bool.not_eq_false] at cancelled
      have other := ok c found dropped cancelled
      rw [early cancelled] at other
      cases other
    refine consistent_change consistent found (recorded_append recorded (by simp) nofun ?_ ?_)
    · intro _ _
      rw [List.count_append, List.count_eq_zero.mpr unset]
      rfl
    · exact fun _ => pending
  · refine consistent_change consistent found ?_
    rw [List.append_nil]
    refine ⟨recorded.cancelled, nofun, ?_, recorded.spares⟩
    intro pending _
    exact absurd cancelled (by simpa using pending)
  · exact consistent

theorem consistent_step (consistent : Consistent d) (ok : considerate d e)
    (taken : desktopStep d e = some next) : Consistent next := by
  cases e with
  | claim => exact consistent_claim consistent taken
  | send i mimeType =>
    obtain ⟨c, found, rfl⟩ := Option.map_eq_some_iff.mp taken
    have recorded := consistent.recorded i c found
    refine consistent_change consistent found ?_
    rw [List.append_nil]
    unfold Claim.send
    split
    · exact recorded
    · exact ⟨recorded.cancelled, recorded.unset, recorded.undone, recorded.spares⟩
  | cancelled i =>
    obtain ⟨c, found, rfl⟩ := Option.map_eq_some_iff.mp taken
    have recorded := consistent.recorded i c found
    refine consistent_change consistent found (recorded_append recorded (by simp) ?_ nofun nofun)
    exact fun running => ⟨running, nofun⟩
  | drop i =>
    obtain ⟨c, found, rfl⟩ := Option.map_eq_some_iff.mp taken
    have recorded := consistent.recorded i c found
    refine consistent_change consistent found ?_
    rw [List.append_nil]
    exact ⟨recorded.cancelled, recorded.unset, recorded.undone, recorded.spares⟩
  | poll i first => exact consistent_poll consistent ok taken

theorem undoes (found : d.claims[i]? = some c) (running : c.finished = false)
    (pending : c.cancelled = false) (dropped : c.dropped = true) (first : Branch) :
    desktopStep d (.poll i first) =
      some (d.change i (fun c => { c with finished := true }) [.unset]) := by
  cases first <;> simp [desktopStep, found, running, makeCancelable, pending, dropped]

theorem spared_of_consistent (consistent : Consistent d) : SelectionsSpared d := by
  intro i c found
  have recorded := consistent.recorded i c found
  refine ⟨recorded.spares, ?_⟩
  intro pending dropped
  cases finished : c.finished with
  | true => exact Or.inl ⟨rfl, recorded.undone pending finished⟩
  | false =>
    have none := List.count_eq_zero.mpr (recorded.unset finished)
    refine Or.inr ⟨rfl, none, ?_⟩
    intro first
    refine ⟨_, undoes found finished pending dropped first, ?_⟩
    simp only [Desktop.change]
    rw [history_append, history_marks, if_pos rfl, List.count_append, none]
    rfl

/-- A task that undoes its claim after the cancellation clears a later selection. -/
theorem considerate_of_spared (consistent : Consistent d) (taken : desktopStep d e = some next)
    (spared : SelectionsSpared next) : considerate d e := by
  cases e with
  | poll i first =>
    intro c found dropped cancelled
    cases first with
    | token => rfl
    | undo =>
      have running : c.finished = false := by
        obtain ⟨k, same, running, _⟩ := polled taken
        rw [Option.mem_def.mp found] at same
        cases same
        exact running
      simp only [desktopStep, Option.mem_def.mp found, Option.bind_some, running,
        Bool.false_eq_true, if_false, makeCancelable, dropped, if_true, Option.some.injEq] at taken
      subst taken
      obtain ⟨before, after, cut⟩ := List.append_of_mem
        ((consistent.recorded i c found).cancelled.mp cancelled)
      have undone := spared i { c with finished := true }
        (by simp [Desktop.change, Option.mem_def.mp found])
      refine absurd (?_ : Mark.unset ∈ after ++ [.unset]) (undone.spares before _ ?_)
      · simp
      · simp only [Desktop.change]
        rw [history_append, history_marks, if_pos rfl, cut, List.append_assoc]
        rfl
  | _ => trivial

end Steps

/-- A cancelled claim never clears a later selection and an abandoned one is undone once, exactly in
    the runs whose polls of the undo task look at the cancellation first where both have happened. -/
theorem selections_spared_iff (es : List Event) :
    Runs.Always desktopStep SelectionsSpared start es ↔ Runs.Meets desktopStep considerate start es := by
  have initial : Consistent start := ⟨nofun, fun _ _ => rfl⟩
  exact Runs.always_iff_meets Consistent (fun _ _ _ => consistent_step)
    (fun _ => spared_of_consistent) (fun _ _ _ => considerate_of_spared) initial es

/-- The receiver is dropped and the claim superseded before the undo task runs. -/
theorem superseded_claim_undone :
    ¬ Runs.Always desktopStep SelectionsSpared start
      [.claim, .drop 0, .claim, .cancelled 0, .poll 0 .undo] := by
  intro always
  have spared := Runs.always_last always rfl
  exact absurd ((spared 0 _ rfl).spares [.set] [.unset] (by decide)) (by decide)

end SelectionClaims
