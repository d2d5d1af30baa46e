import Mathlib.Data.List.Count
import Mathlib.Data.List.Induction

/- The window procedure of the guest's event loop. Whatever is not its own message goes to the
   registered listeners, the latest first, and a listener may ask to be removed. -/
namespace WindowListeners

structure Message where
  window : Nat
  message : UInt32
  wparam : UInt64
  lparam : Int64
  deriving DecidableEq, Repr

structure LRESULT where
  value : Int64
  deriving DecidableEq, Repr

inductive RemoveMeError where
  | removeMe
  deriving DecidableEq, Repr

inductive Effect where
  | offer (listener : Nat)
  | defWindowProc
  | destroyWindow
  | postQuitMessage (code : Int32)
  deriving DecidableEq, Repr

structure System where
  destroyWindow : Nat → Bool
  defWindowProc : Message → LRESULT

/-- A callback can do no more to the window than to register listeners. -/
structure WindowData (L : Type) where
  listeners : List L
  callbacks : List (List L)
  connected : Bool
  deriving DecidableEq, Repr

def wmDestroy : UInt32 := 0x0002

def wmUser : UInt32 := 0x0400

section Handling
variable {L : Type} (handle : L → Message → L × Except RemoveMeError (Option LRESULT))

def WindowData.registerListener (listener : L) (w : WindowData L) : WindowData L :=
  { w with listeners := w.listeners ++ [listener] }

def WindowData.runCallbacks (w : WindowData L) : WindowData L :=
  w.callbacks.flatten.foldl (fun w listener => w.registerListener listener) { w with callbacks := [] }

/-- The results in the order of the futures, each with the index of its listener. -/
def allResults (results : List (Except RemoveMeError (Option LRESULT))) :
    List (Except RemoveMeError (Option LRESULT) × Nat) := results.zipIdx.reverse

/-- `Vec::remove` panics on an index out of range. -/
def settle (w : List L × Option LRESULT) (res : Except RemoveMeError (Option LRESULT) × Nat) :
    Option (List L × Option LRESULT) :=
  match res with
  | (.ok o, _) => some (w.1, w.2.or o)
  | (.error _, i) => if i < w.1.length then some (w.1.eraseIdx i, w.2) else none

/-- `none` is a panic of the window's thread. -/
def WindowData.handleWm (sys : System) (msg : Message) (w : WindowData L) :
    Option (WindowData L × LRESULT × List Effect) :=
  if msg.message = wmUser then
    let w := w.runCallbacks
    if w.connected then some (w, ⟨0⟩, [])
    else if sys.destroyWindow msg.window then some (w, ⟨0⟩, [.destroyWindow])
    else none
  else if msg.message = wmDestroy then some (w, ⟨0⟩, [.postQuitMessage 0])
  else
    let handled := w.listeners.map fun x => handle x msg
    let results := allResults (handled.map Prod.snd)
    let offers := results.map fun res => Effect.offer res.2
    (results.foldlM settle (handled.map Prod.fst, none)).map fun (listeners, result) =>
      ({ w with listeners }, result.getD (sys.defWindowProc msg),
        offers ++ if result.isNone then [.defWindowProc] else [])

def stays (msg : Message) (listener : L) : Bool := (handle listener msg).2.isOk

def answer (msg : Message) (listener : L) : Option LRESULT :=
  (handle listener msg).2.toOption.join

/-- What the dispatch to some listeners must come to: the answer of the latest that has one, each
    listener handling the message once, and those that stay in their order. -/
structure Exact (sys : System) (msg : Message) (w next : WindowData L) (value : LRESULT)
    (effects : List Effect) : Prop where
  offered : ∀ i, effects.count (.offer i) = if i < w.listeners.length then 1 else 0
  kept : next.listeners =
    (w.listeners.filter (stays handle msg)).map fun x => (handle x msg).1
  value : value = (w.listeners.reverse.findSome? (answer handle msg)).getD (sys.defWindowProc msg)
  fallback : .defWindowProc ∈ effects ↔ ∀ x ∈ w.listeners, answer handle msg x = none
  rest : next.callbacks = w.callbacks ∧ next.connected = w.connected

end Handling

section Settling
variable {L : Type}

def remaining (handled : L × Except RemoveMeError (Option LRESULT)) : Option L :=
  if handled.2.isOk then some handled.1 else none

theorem allResults_concat (results : List (Except RemoveMeError (Option LRESULT)))
    (last : Except RemoveMeError (Option LRESULT)) :
    allResults (results ++ [last]) = (last, results.length) :: allResults results := by
  rw [allResults, List.zipIdx_append, List.reverse_append, Nat.zero_add]
  rfl

/-- The results come from the back, so a removal leaves all indices to come where they are. The
    listeners behind have been settled before. -/
theorem settle_results (handled : List (L × Except RemoveMeError (Option LRESULT)))
    (settled : List L) (found : Option LRESULT) :
    (allResults (handled.map Prod.snd)).foldlM settle (handled.map Prod.fst ++ settled, found) =
      some (handled.filterMap remaining ++ settled,
        found.or (handled.reverse.findSome? fun h => h.2.toOption.join)) := by
  induction handled using List.reverseRecOn generalizing settled found with
  | nil => simp [allResults]
  | append_singleton handled last ih =>
    obtain ⟨listener, res⟩ := last
    rw [List.map_append, List.map_append, List.map_singleton, List.map_singleton, allResults_concat,
      List.foldlM_cons, List.append_assoc, List.filterMap_append, List.append_assoc,
      List.reverse_append, List.findSome?_append]
    cases res with
    | ok o =>
      have step := ih (listener :: settled) (found.or o)
      simpa [settle, remaining, Except.isOk, Except.toBool, Except.toOption, Option.or_assoc]
        using step
    | error e =>
      have step := ih settled found
      have erased : (handled.map Prod.fst ++ listener :: settled).eraseIdx handled.length =
          handled.map Prod.fst ++ settled := by
        rw [List.eraseIdx_append_of_length_le (by simp)]
        simp
      simpa [settle, remaining, erased, Except.isOk, Except.toBool, Except.toOption] using step

theorem indices_allResults (results : List (Except RemoveMeError (Option LRESULT))) :
    (allResults results).map Prod.snd = (List.range results.length).reverse := by
  rw [allResults, List.map_reverse, List.zipIdx_map_snd, List.range_eq_range']

theorem offer_injective : Function.Injective Effect.offer := by
  intro i j same
  cases same
  rfl

theorem count_offers (results : List (Except RemoveMeError (Option LRESULT))) (i : Nat) :
    ((allResults results).map fun res => Effect.offer res.2).count (.offer i) =
      if i < results.length then 1 else 0 := by
  have offers : ((allResults results).map fun res => Effect.offer res.2) =
      (List.range results.length).reverse.map Effect.offer := by
    rw [← indices_allResults, List.map_map]
    rfl
  rw [offers, List.count_map_of_injective _ _ offer_injective, List.count_reverse,
    List.nodup_range.count]
  simp only [List.mem_range]

end Settling

section Dispatch
variable {L : Type} (handle : L → Message → L × Except RemoveMeError (Option LRESULT))

theorem remaining_handled (msg : Message) (listeners : List L) :
    (listeners.map fun x => handle x msg).filterMap remaining =
      (listeners.filter (stays handle msg)).map fun x => (handle x msg).1 := by
  induction listeners with
  | nil => rfl
  | cons x listeners ih =>
    by_cases kept : stays handle msg x = true
    · have own : remaining (handle x msg) = some (handle x msg).1 := if_pos kept
      simp [own, kept, ih]
    · have own : remaining (handle x msg) = none := if_neg kept
      simp [own, kept, ih]

theorem found_handled (msg : Message) (listeners : List L) :
    (listeners.map fun x => handle x msg).reverse.findSome? (fun h => h.2.toOption.join) =
      listeners.reverse.findSome? (answer handle msg) := by
  rw [← List.map_reverse, List.findSome?_map]
  rfl

end Dispatch

/-- Any other message than the two of the loop itself is dispatched to all listeners without a
    panic, whichever of them leave, and the latest answer counts. -/
theorem dispatch_exact {L : Type} (handle : L → Message → L × Except RemoveMeError (Option LRESULT))
    (sys : System) (msg : Message) (w : WindowData L) (not_user : msg.message ≠ wmUser)
    (not_destroy : msg.message ≠ wmDestroy) :
    ∃ next value effects, w.handleWm handle sys msg = some (next, value, effects) ∧
      Exact handle sys msg w next value effects := by
  have settled := settle_results (w.listeners.map fun x => handle x msg) [] none
  rw [List.append_nil, List.append_nil, remaining_handled, found_handled, Option.none_or] at settled
  simp only [WindowData.handleWm, if_neg not_user, if_neg not_destroy, settled, Option.map_some]
  refine ⟨_, _, _, rfl, ?_, rfl, rfl, ?_, rfl, rfl⟩
  · intro i
    have offered := count_offers ((w.listeners.map fun x => handle x msg).map Prod.snd) i
    rw [List.length_map, List.length_map] at offered
    rw [List.count_append, offered]
    split <;> split <;> simp
  · simp [List.findSome?_eq_none_iff]

/-- The first of three listeners answers, the second leaves. -/
theorem dispatch_three :
    ∃ next value effects,
      WindowData.handleWm (fun x _ => (x, x)) ⟨fun _ => true, fun _ => ⟨0⟩⟩ ⟨1, 0x0312, 5, 0⟩
        ⟨[.ok (some ⟨7⟩), .error .removeMe, .ok none], [], true⟩ = some (next, value, effects) ∧
      Exact (fun x _ => (x, x)) ⟨fun _ => true, fun _ => ⟨0⟩⟩ ⟨1, 0x0312, 5, 0⟩
        ⟨[.ok (some ⟨7⟩), .error .removeMe, .ok none], [], true⟩ next value effects :=
  dispatch_exact _ _ _ _ (by decide) (by decide)

end WindowListeners
