import WindowsGaming.Library.Utf8
import WindowsGaming.LinuxPaste
import WindowsGaming.ReceivedText

/- Text on its way from Windows to Linux: the guest agent receives it from the clipboard as it is
   when the request comes, which may be another one than its newest offer is for. -/
namespace WindowsText
open Config Protocol Controller Utf8 LinuxPaste ReceivedText DelayRenderers

structure Desk where
  desktop : Desktop
  clipboard : Clipboard
  current : Option ClipboardOffer
  looked : List (Clipboard × Option ClipboardOffer)

def start (machine : MachineConfig) (hooks : HooksConfig) (clipboard : Clipboard)
    (current : Option ClipboardOffer) : Desk :=
  ⟨LinuxPaste.start machine hooks, clipboard, current, []⟩

/-- What the guest agent makes of an image is left to the environment. -/
inductive Event where
  | windowsCopy (clipboard : Clipboard)
  | clipboardUpdate (formats : List UInt32)
  | answer (image : Option (List UInt8))
  | desktop (e : LinuxPaste.Event)

def readClipboard (formats : List UInt32) (clipboard : Clipboard) : Option ClipboardOffer :=
  if formats.isEmpty then none else some ⟨clipboard.sequenceNumber, formats⟩

def requestedContents (clipboard : Clipboard) (current : Option ClipboardOffer)
    (image : Option (List UInt8)) (typ : ClipboardType) : Option (List UInt8) :=
  let data : Option (Option (List UInt8)) := match current with
    | none => some none
    | some offer =>
      match typ with
      | .invalid => some none
      | .text => (offer.receiveString clipboard).map fun text : Except Error String =>
          text.toOption.map fun s => encode s.toList
      | .image => some image
  data.map fun data => data.getD []

def asked (d : Desktop) : Option ClipboardType :=
  match d.toGuest with
  | .clipboard (some (.requestClipboardContents kind)) :: _ => ClipboardType.fromI32 kind
  | _ => none

def deskStep (d : Desk) : Event → Option Desk
  | .windowsCopy clipboard => some { d with clipboard }
  | .clipboardUpdate formats => some { d with current := readClipboard formats d.clipboard }
  | .answer image => do
    let typ ← asked d.desktop
    let buf ← requestedContents d.clipboard d.current image typ
    let desktop ← desktopStep d.desktop (.answer buf)
    some { d with desktop, looked := d.looked ++ [(d.clipboard, d.current)] }
  | .desktop (.answer _) => none
  | .desktop e => (desktopStep d.desktop e).map fun desktop => { d with desktop }

/-- A paste request comes while none is remembered. -/
def unhurried (d : Desk) : Event → Bool
  | .desktop e => LinuxPaste.unhurried d.desktop e
  | _ => true

/-- The offer is for the clipboard as it is, which holds the text and its terminator. -/
def Holds (clipboard : Clipboard) (current : Option ClipboardOffer) (s : String) : Prop :=
  ∃ offer block rest, current = some offer ∧
    offer.receiveBytes clipboard cfUnicodeText = .ok block ∧
    block = renderText s ++ rest ∧ rest.length ≤ 1

/-- What the target of a text gets is UTF-8, of the text that the clipboard held when the guest
    agent looked, and nothing where the offer had expired or was for no text. -/
def TextsArrive (d : Desk) : Prop :=
  ∀ i buf event, (i, buf) ∈ d.desktop.given → d.desktop.requests[i]? = some event →
    event.desiredType = .text →
    ∃ clipboard current, d.looked[i]? = some (clipboard, current) ∧
      (∃ s, fromUtf8 buf = some s) ∧
      (∀ s, Holds clipboard current s → buf = encode s.toList) ∧
      ((∀ offer ∈ current, ∀ block, offer.receiveBytes clipboard cfUnicodeText ≠ .ok block) →
        buf = [])

section Texts
variable {clipboard : Clipboard} {current : Option ClipboardOffer} {image : Option (List UInt8)}
  {buf : List UInt8}

theorem requested_utf8 (answered : requestedContents clipboard current image .text = some buf) :
    ∃ s, fromUtf8 buf = some s := by
  have empty : ∃ s, fromUtf8 [] = some s := ⟨[], fromUtf8_eq_some_iff.mpr rfl⟩
  cases current with
  | none =>
    cases answered
    exact empty
  | some offer =>
    simp only [requestedContents, Option.map_map, Option.map_eq_some_iff, Function.comp_apply] at answered
    obtain ⟨text, -, rfl⟩ := answered
    cases text with
    | error e => exact empty
    | ok s => exact ⟨s.toList, fromUtf8_eq_some_iff.mpr rfl⟩

theorem requested_holds {s : String} (holds : Holds clipboard current s)
    (answered : requestedContents clipboard current image .text = some buf) :
    buf = encode s.toList := by
  obtain ⟨offer, block, rest, rfl, received, rfl, last⟩ := holds
  have long : ¬ (renderText s ++ rest).length ≤ 1 := by
    intro short
    have units := ofLeBytes_renderText s rest
    rw [Utf16.ofLeBytes_eq_nil_iff.mpr short] at units
    simp at units
  have text : offer.receiveString clipboard = some (.ok s) := by
    rw [receiveString_eq received, if_neg long, text_tight s last]
  simp only [requestedContents, text, Option.map_some] at answered
  exact (Option.some.inj answered).symm

theorem requested_nothing
    (nothing : ∀ offer ∈ current, ∀ block, offer.receiveBytes clipboard cfUnicodeText ≠ .ok block)
    (answered : requestedContents clipboard current image .text = some buf) : buf = [] := by
  cases current with
  | none =>
    cases answered
    rfl
  | some offer =>
    have failed : ∃ e, offer.receiveBytes clipboard cfUnicodeText = .error e := by
      cases received : offer.receiveBytes clipboard cfUnicodeText with
      | error e => exact ⟨e, rfl⟩
      | ok block => exact absurd received (nothing offer rfl block)
    obtain ⟨e, failed⟩ := failed
    have text : offer.receiveString clipboard = some (.error e) := by
      rw [ClipboardOffer.receiveString, failed]
    simp only [requestedContents, text, Option.map_some] at answered
    exact (Option.some.inj answered).symm

end Texts

section Steps
variable {d next : Desk}

structure Sound (d : Desk) : Prop where
  calm : Unhurried d.desktop
  known : d.looked.length = d.desktop.answers.length
  answered : ∀ (n : Nat) (kind : Int32) (buf : List UInt8) (clipboard : Clipboard)
    (current : Option ClipboardOffer), d.desktop.answers[n]? = some (kind, buf) →
    d.looked[n]? = some (clipboard, current) → ∃ typ image,
      ClipboardType.fromI32 kind = some typ ∧
        requestedContents clipboard current image typ = some buf

theorem answers_kept {a b : Desktop} {e : LinuxPaste.Event} (other : ∀ buf, e ≠ .answer buf)
    (taken : desktopStep a e = some b) : b.answers = a.answers := by
  cases e with
  | answer buf => exact absurd rfl (other buf)
  | paste mimeType =>
    cases taken
    rfl
  | deliver env =>
    simp only [desktopStep] at taken
    split at taken
    · cases taken
      rfl
    · cases taken
  | respond =>
    simp only [desktopStep] at taken
    split at taken
    · cases taken
      rfl
    · cases taken

theorem answer_cases {a b : Desktop} {buf : List UInt8} {typ : ClipboardType}
    (request : asked a = some typ) (taken : desktopStep a (.answer buf) = some b) :
    ∃ kind, ClipboardType.fromI32 kind = some typ ∧ b.answers = a.answers ++ [(kind, buf)] := by
  unfold asked at request
  split at request
  · rename_i kind _ pipe
    simp only [desktopStep, pipe] at taken
    cases taken
    exact ⟨kind, request, rfl⟩
  · cases request

theorem sound_answer {image : Option (List UInt8)} (sound : Sound d)
    (taken : deskStep d (.answer image) = some next) : Sound next := by
  simp only [deskStep, Option.bind_eq_bind, Option.bind_eq_some_iff, Option.some.injEq] at taken
  obtain ⟨typ, request, buf, contents, desktop, answered, rfl⟩ := taken
  obtain ⟨kind, known, grown⟩ := answer_cases request answered
  refine ⟨unhurried_step sound.calm rfl answered, by simp [grown, sound.known], ?_⟩
  intro n k b clipboard current there looked
  rw [grown] at there
  rcases Journals.getElem?_concat_both sound.known.symm there looked with ⟨old, before⟩ | ⟨new, same⟩
  · exact sound.answered n k b clipboard current old before
  · cases new
    cases same
    exact ⟨typ, image, known, contents⟩

theorem sound_step {e : Event} (sound : Sound d) (ok : unhurried d e = true)
    (taken : deskStep d e = some next) : Sound next := by
  cases e with
  | windowsCopy clipboard =>
    cases taken
    exact ⟨sound.calm, sound.known, sound.answered⟩
  | clipboardUpdate formats =>
    cases taken
    exact ⟨sound.calm, sound.known, sound.answered⟩
  | answer image => exact sound_answer sound taken
  | desktop e =>
    by_cases answer : ∃ buf, e = .answer buf
    · obtain ⟨buf, rfl⟩ := answer
      cases taken
    · have other : ∀ buf, e ≠ .answer buf := fun buf same => answer ⟨buf, same⟩
      have stepped : (desktopStep d.desktop e).map (fun desktop => { d with desktop }) = some next := by
        cases e <;> first | exact taken | exact absurd rfl (other _)
      obtain ⟨desktop, moved, rfl⟩ := Option.map_eq_some_iff.mp stepped
      have kept := answers_kept other moved
      refine ⟨unhurried_step sound.calm ok moved, by simpa [kept] using sound.known, ?_⟩
      intro n kind buf clipboard current there looked
      rw [kept] at there
      exact sound.answered n kind buf clipboard current there looked

theorem arrive_of_sound (sound : Sound d) : TextsArrive d := by
  intro i buf event given request text
  obtain ⟨x, refines, one⟩ := sound.calm
  obtain ⟨asker, there, answer⟩ := (paired_of_refines refines one.paired).1 (i, buf) given
  cases there.symm.trans request
  have inside := (List.getElem?_eq_some_iff.mp answer).1
  rw [← sound.known] at inside
  obtain ⟨⟨clipboard, current⟩, looked⟩ : ∃ p, d.looked[i]? = some p :=
    ⟨_, List.getElem?_eq_getElem inside⟩
  obtain ⟨typ, image, known, contents⟩ := sound.answered i _ buf clipboard current answer looked
  rw [text] at known
  cases known
  exact ⟨clipboard, current, looked, requested_utf8 contents,
    fun s holds => requested_holds holds contents, fun nothing => requested_nothing nothing contents⟩

end Steps

/-- Text copied in Windows is pasted on Linux as it is, in every run in which no paste request
    overlaps another one. -/
theorem text_reaches_linux (machine : MachineConfig) (hooks : HooksConfig) (clipboard : Clipboard)
    (current : Option ClipboardOffer) (es : List Event)
    (calm : Runs.Meets deskStep (fun d e => unhurried d e = true)
      (start machine hooks clipboard current) es) :
    Runs.Always deskStep TextsArrive (start machine hooks clipboard current) es := by
  have initial : Sound (start machine hooks clipboard current) :=
    ⟨⟨_, refines_start machine hooks, LatestRequest.oneOut_new⟩, rfl, by
      simp [start, LinuxPaste.start]⟩
  refine Runs.always_mono (fun _ => arrive_of_sound) ?_
  exact Runs.always_of_invariant Sound (fun _ _ _ => sound_step) initial calm

/-- The clipboard is replaced before the guest agent is told: the first paste gets nothing. -/
theorem replaced_reaches_linux :
    Runs.Always deskStep TextsArrive
      (start .bare .bare ⟨1, fun _ => .ok (renderText "Grüße")⟩ (some ⟨1, [cfUnicodeText]⟩))
      [.desktop (.paste "text/plain"), .windowsCopy ⟨2, fun _ => .ok (renderText "neu")⟩,
        .answer none, .desktop (.deliver .bare), .desktop .respond, .clipboardUpdate [cfUnicodeText],
        .desktop (.paste "UTF8_STRING"), .answer none, .desktop (.deliver .bare),
        .desktop .respond] :=
  text_reaches_linux _ _ _ _ _ (by decide +kernel)

end WindowsText
