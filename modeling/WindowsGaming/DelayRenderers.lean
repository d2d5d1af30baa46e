import Mathlib.Data.List.AList

/- Contents are put onto the Windows clipboard one format at a time. Delay-rendered ones leave a
   renderer in a table, for when somebody asks for the format. -/
namespace DelayRenderers

def cfDib : UInt32 := 8

def cfUnicodeText : UInt32 := 13

/-- Each with the sender for the request to render. -/
inductive DelayRenderedClipboardData where
  | text (sender : Nat)
  | image (sender : Nat)
  | customBytes (format : UInt32) (sender : Nat)
  | customHandle (format : UInt32) (sender : Nat)
  deriving DecidableEq, Repr

def DelayRenderedClipboardData.format : DelayRenderedClipboardData → UInt32
  | .text _ => cfUnicodeText
  | .image _ => cfDib
  | .customBytes format _ => format
  | .customHandle format _ => format

inductive ClipboardFormatData where
  | text (text : String)
  | image (dib : List UInt8)
  | customBytes (format : UInt32) (buf : List UInt8)
  | customHandle (format : UInt32) (handle : Nat)
  deriving DecidableEq, Repr

def ClipboardFormatData.format : ClipboardFormatData → UInt32
  | .text _ => cfUnicodeText
  | .image _ => cfDib
  | .customBytes format _ => format
  | .customHandle format _ => format

inductive ClipboardFormatContent where
  | delayRendered (renderer : DelayRenderedClipboardData)
  | immediate (data : ClipboardFormatData)
  deriving DecidableEq, Repr

def ClipboardFormatContent.format : ClipboardFormatContent → UInt32
  | .delayRendered renderer => renderer.format
  | .immediate data => data.format

def ClipboardFormatContent.isDelayRendered : ClipboardFormatContent → Bool
  | .delayRendered _ => true
  | .immediate _ => false

structure WindowsClipboard where
  delayRenderers : AList fun _ : UInt32 => DelayRenderedClipboardData
  /-- What this call has placed on the clipboard; of a format, Windows keeps the latest. -/
  placed : AList fun _ : UInt32 => ClipboardFormatContent

def WindowsClipboard.post (w : WindowsClipboard) :
    List (ClipboardFormatContent × Bool) → WindowsClipboard × Bool
  | [] => (w, true)
  | (.delayRendered renderer, accepted) :: rest =>
    let format := renderer.format
    let w := { w with delayRenderers := w.delayRenderers.insert format renderer }
    if accepted then { w with placed := w.placed.insert format (.delayRendered renderer) }.post rest
    else (w, false)
  | (.immediate data, accepted) :: rest =>
    if accepted then { w with placed := w.placed.insert data.format (.immediate data) }.post rest
    else (w, false)

def send (emptied : Bool) (contents : List (ClipboardFormatContent × Bool))
    (delayRenderers : AList fun _ : UInt32 => DelayRenderedClipboardData) : WindowsClipboard × Bool :=
  if emptied then WindowsClipboard.post ⟨∅, ∅⟩ contents else (⟨delayRenderers, ∅⟩, false)

/-- There is a renderer for each format that is delay-rendered on the clipboard, and no other. -/
def RenderersMatch (w : WindowsClipboard) : Prop :=
  ∀ format, format ∈ w.delayRenderers ↔
    ∃ renderer, w.placed.lookup format = some (.delayRendered renderer)

def attempted : List (ClipboardFormatContent × Bool) → List ClipboardFormatContent
  | [] => []
  | (content, accepted) :: rest => content :: if accepted then attempted rest else []

def accepted (contents : List (ClipboardFormatContent × Bool)) : List ClipboardFormatContent :=
  (contents.takeWhile Prod.snd).map Prod.fst

def latest (contents : List (ClipboardFormatContent × Bool)) (format : UInt32) :
    Option ClipboardFormatContent :=
  ((accepted contents).filter fun content => content.format = format).getLast?

/-- Whoever is delay-rendered or fails to be is not overwritten: the last content of the format that
    is accepted is delay-rendered, too. Nothing is left of an earlier call. -/
def unspoiled (emptied : Bool) (contents : List (ClipboardFormatContent × Bool))
    (delayRenderers : AList fun _ : UInt32 => DelayRenderedClipboardData) : Prop :=
  if emptied then ∀ content ∈ attempted contents, content.isDelayRendered = true →
    ∃ last ∈ latest contents content.format, last.isDelayRendered = true
  else ∀ format, format ∉ delayRenderers

section Posting
variable {w : WindowsClipboard} {contents : List (ClipboardFormatContent × Bool)}

theorem isDelayRendered_iff {content : ClipboardFormatContent} :
    content.isDelayRendered = true ↔ ∃ renderer, content = .delayRendered renderer := by
  cases content <;> simp [ClipboardFormatContent.isDelayRendered]

theorem mem_post (format : UInt32) : format ∈ (w.post contents).1.delayRenderers ↔
    format ∈ w.delayRenderers ∨
      ∃ content ∈ attempted contents, content.isDelayRendered = true ∧ content.format = format := by
  induction contents generalizing w with
  | nil => simp [WindowsClipboard.post, attempted]
  | cons entry rest ih =>
    obtain ⟨content, taken⟩ := entry
    cases content with
    | delayRendered renderer =>
      cases taken with
      | true =>
        simp only [WindowsClipboard.post, if_true, ih, AList.mem_insert, attempted, List.mem_cons,
          exists_eq_or_imp, ClipboardFormatContent.isDelayRendered, true_and,
          ClipboardFormatContent.format]
        rw [or_assoc, or_left_comm, eq_comm]
      | false =>
        simp only [WindowsClipboard.post, Bool.false_eq_true, if_false, AList.mem_insert, attempted,
          List.mem_singleton, exists_eq_left, ClipboardFormatContent.isDelayRendered, true_and,
          ClipboardFormatContent.format]
        rw [or_comm, eq_comm]
    | immediate data =>
      cases taken with
      | true =>
        simp [WindowsClipboard.post, ih, attempted, ClipboardFormatContent.isDelayRendered]
      | false => simp [WindowsClipboard.post, attempted, ClipboardFormatContent.isDelayRendered]

theorem latest_cons (content : ClipboardFormatContent) (format : UInt32) :
    latest ((content, true) :: contents) format =
      (latest contents format).or (if content.format = format then some content else none) := by
  simp only [latest, accepted, List.takeWhile_cons, if_true, List.map_cons, List.filter_cons]
  split
  · rename_i same
    rw [if_pos (of_decide_eq_true same), List.getLast?_cons]
    cases ((List.map Prod.fst (List.takeWhile Prod.snd contents)).filter
      fun content => content.format = format).getLast? <;> rfl
  · rename_i other
    rw [if_neg (by simpa using other), Option.or_none]

theorem lookup_post (format : UInt32) : (w.post contents).1.placed.lookup format =
    (latest contents format).or (w.placed.lookup format) := by
  induction contents generalizing w with
  | nil => rfl
  | cons entry rest ih =>
    obtain ⟨content, taken⟩ := entry
    cases taken with
    | false => cases content <;> rfl
    | true =>
      have inserted : ((w.post ((content, true) :: rest)).1.placed.lookup format) =
          (latest rest format).or ((w.placed.insert content.format content).lookup format) := by
        cases content <;> simp [WindowsClipboard.post, ih, ClipboardFormatContent.format]
      rw [inserted, latest_cons, Option.or_assoc]
      by_cases same : content.format = format
      · rw [if_pos same, ← same, AList.lookup_insert]
        rfl
      · rw [if_neg same, AList.lookup_insert_ne (Ne.symm same)]
        rfl

theorem latest_format {format : UInt32} {last : ClipboardFormatContent}
    (found : last ∈ latest contents format) : last.format = format :=
  of_decide_eq_true (List.mem_filter.mp (List.mem_of_getLast? found)).2

theorem latest_attempted {format : UInt32} {last : ClipboardFormatContent}
    (found : last ∈ latest contents format) : last ∈ attempted contents := by
  have member := (List.mem_filter.mp (List.mem_of_getLast? found)).1
  clear found
  induction contents with
  | nil => cases member
  | cons entry rest ih =>
    obtain ⟨content, taken⟩ := entry
    cases taken with
    | false => cases member
    | true =>
      rcases List.mem_cons.mp member with rfl | later
      · exact List.mem_cons_self
      · exact List.mem_cons_of_mem _ (ih later)

theorem match_emptied_iff (contents : List (ClipboardFormatContent × Bool)) :
    RenderersMatch (WindowsClipboard.post ⟨∅, ∅⟩ contents).1 ↔
      ∀ content ∈ attempted contents, content.isDelayRendered = true →
        ∃ last ∈ latest contents content.format, last.isDelayRendered = true := by
  simp only [RenderersMatch, mem_post, lookup_post, AList.lookup_empty, Option.or_none,
    AList.notMem_empty, false_or]
  constructor
  · intro same content tried delayed
    obtain ⟨renderer, found⟩ := (same content.format).mp ⟨content, tried, delayed, rfl⟩
    exact ⟨_, found, rfl⟩
  · intro lasting format
    constructor
    · rintro ⟨content, tried, delayed, rfl⟩
      obtain ⟨last, found, remains⟩ := lasting content tried delayed
      obtain ⟨renderer, rfl⟩ := isDelayRendered_iff.mp remains
      exact ⟨renderer, found⟩
    · rintro ⟨renderer, found⟩
      exact ⟨_, latest_attempted found, rfl, latest_format found⟩

end Posting

/-- The table matches what the call has placed on the clipboard exactly if no format that is
    delay-rendered or should have been ends up with other contents or with none. -/
theorem renderers_match_iff (emptied : Bool) (contents : List (ClipboardFormatContent × Bool))
    (delayRenderers : AList fun _ : UInt32 => DelayRenderedClipboardData) :
    RenderersMatch (send emptied contents delayRenderers).1 ↔
      unspoiled emptied contents delayRenderers := by
  cases emptied with
  | true =>
    simp only [send, unspoiled, if_true]
    exact match_emptied_iff contents
  | false =>
    simp only [send, unspoiled, Bool.false_eq_true, if_false, RenderersMatch, AList.lookup_empty,
      reduceCtorEq, exists_false, iff_false]

/-- Text is delay-rendered, and then text is there at once; an image is to be delay-rendered, but
    Windows refuses it. -/
theorem spoiled_renderers :
    ¬ RenderersMatch (send true
        [(.delayRendered (.text 0), true), (.immediate (.text "now"), true)] ∅).1 ∧
      ¬ RenderersMatch (send true
        [(.delayRendered (.text 0), true), (.delayRendered (.image 1), false)] ∅).1 := by
  constructor
  · intro same
    obtain ⟨renderer, found⟩ := (same cfUnicodeText).mp (by decide)
    cases found
  · intro same
    obtain ⟨renderer, found⟩ := (same cfDib).mp (by decide)
    cases found

end DelayRenderers
