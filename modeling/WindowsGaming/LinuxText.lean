import WindowsGaming.Library.Utf8
import WindowsGaming.Clientpipe
import WindowsGaming.ReceivedText
import WindowsGaming.WindowsPaste

/- Text on its way from Linux to Windows: the driver reads what the selection offers as UTF-8, the
   guest agent renders what it is answered as UTF-16. The selection may change at any time. -/
namespace LinuxText
open Protocol Controller Utf8 WindowsPaste

/-- What the owner writes for each of the types it offers; `none` where reading it fails. -/
structure ClipboardOffer where
  mimeTypes : List String
  contents : String → Option (List UInt8)

def textMime : String := "text/plain;charset=utf-8"

def ClipboardOffer.receiveBytes (mime : String) (offer : ClipboardOffer) : Option (List UInt8) :=
  if mime ∈ offer.mimeTypes then offer.contents mime else none

def ClipboardOffer.receiveString (offer : ClipboardOffer) : Option String :=
  (offer.receiveBytes textMime).bind fun v => (fromUtf8 v).map String.ofList

def readContents (typ : ClipboardType) (offer : Option ClipboardOffer) : List UInt8 :=
  let contents := offer.bind fun offer =>
    match typ with
    | .invalid => none
    | .text => offer.receiveString.map fun s => encode s.toList
    | .image => offer.receiveBytes clipboardMimePng
  contents.getD []

def renderReceived (bytes : List UInt8) : List UInt8 :=
  ReceivedText.renderText (String.ofList (fromUtf8Lossy bytes))

structure Desk where
  guest : Guest
  linux : Option ClipboardOffer
  reading : Option (Option ClipboardOffer)
  reads : List (Option ClipboardOffer)

def start (linux : Option ClipboardOffer) : Desk := ⟨WindowsPaste.start, linux, none, []⟩

inductive Event where
  | linuxCopy (offer : Option ClipboardOffer)
  | get
  | reply
  | guest (e : WindowsPaste.Event)

def asked (g : Guest) : Option ClipboardType :=
  match g.toDriver with
  | .clipboard (some (.requestClipboardContents kind)) :: _ => ClipboardType.fromI32 kind
  | _ => none

/-- The driver's command handler takes one request after the other. -/
def deskStep (d : Desk) : Event → Option Desk
  | .linuxCopy offer => some { d with linux := offer }
  | .get =>
    if (asked d.guest).isSome ∧ d.reading.isNone then some { d with reading := some d.linux }
    else none
  | .reply =>
    match d.reading, asked d.guest with
    | some offer, some typ =>
      (guestStep d.guest (.answer (readContents typ offer))).map fun guest =>
        { d with guest, reading := none, reads := d.reads ++ [offer] }
    | _, _ => none
  | .guest (.answer _) => none
  | .guest e => (guestStep d.guest e).map fun guest => { d with guest }

/-- A request is remembered in Windows while no other is. -/
def alone (d : Desk) : Event → Bool
  | .guest e => WindowsPaste.alone d.guest e
  | _ => true

def Offers (offer : Option ClipboardOffer) (s : String) : Prop :=
  ∃ o, offer = some o ∧ textMime ∈ o.mimeTypes ∧ o.contents textMime = some (encode s.toList)

/-- The text of a selection; it is empty where none is offered that is UTF-8. -/
def TextOf (offer : Option ClipboardOffer) (s : String) : Prop :=
  Offers offer s ∨ s = "" ∧ ∀ t, ¬ Offers offer t

/-- Every text renderer that was answered renders the text of what the driver got hold of for its
    own request, and whoever receives the block reads that text. -/
def TextsArrive (d : Desk) : Prop :=
  ∀ (i : Nat) (buf : List UInt8), (i, buf) ∈ d.guest.received →
    d.guest.renderers[i]? = some ClipboardType.text →
    ∃ (n : Nat) (offer : Option ClipboardOffer) (s : String),
      d.guest.requests[n]? = some (i, ClipboardType.text) ∧ d.reads[n]? = some offer ∧
      TextOf offer s ∧ renderReceived buf = ReceivedText.renderText s ∧
      ∀ (clipboard : ReceivedText.Clipboard) (o : ReceivedText.ClipboardOffer),
        o.receiveBytes clipboard DelayRenderers.cfUnicodeText = .ok (renderReceived buf) →
        o.receiveString clipboard = some (.ok s)

section Texts
variable {offer : Option ClipboardOffer} {s : String}

theorem receiveString_eq_some_iff {o : ClipboardOffer} : o.receiveString = some s ↔
    textMime ∈ o.mimeTypes ∧ o.contents textMime = some (encode s.toList) := by
  unfold ClipboardOffer.receiveString ClipboardOffer.receiveBytes
  by_cases offered : textMime ∈ o.mimeTypes
  · rw [if_pos offered]
    simp only [Option.bind_eq_some_iff, Option.map_eq_some_iff, fromUtf8_eq_some_iff, offered,
      true_and]
    constructor
    · rintro ⟨bytes, read, cs, rfl, rfl⟩
      rw [read, String.toList_ofList]
    · intro read
      exact ⟨_, read, s.toList, rfl, String.ofList_toList⟩
  · simp [offered]

theorem readContents_text (offer : Option ClipboardOffer) :
    ∃ s, TextOf offer s ∧ readContents .text offer = encode s.toList := by
  cases offer with
  | none =>
    refine ⟨"", Or.inr ⟨rfl, ?_⟩, rfl⟩
    rintro t ⟨o, none, -⟩
    cases none
  | some o =>
    cases received : o.receiveString with
    | some s =>
      refine ⟨s, Or.inl ⟨o, rfl, receiveString_eq_some_iff.mp received⟩, ?_⟩
      simp [readContents, received]
    | none =>
      refine ⟨"", Or.inr ⟨rfl, ?_⟩, ?_⟩
      · rintro t ⟨_, same, offered⟩
        cases same
        rw [receiveString_eq_some_iff.mpr offered] at received
        cases received
      · simp [readContents, received, encode]

theorem renderReceived_encode (s : String) :
    renderReceived (encode s.toList) = ReceivedText.renderText s := by
  have whole := lossy_encode s.toList []
  simp only [List.append_nil] at whole
  rw [renderReceived, whole]
  simp [fromUtf8Lossy, scan, scanFrom]

theorem receiveString_renderText {clipboard : ReceivedText.Clipboard}
    {o : ReceivedText.ClipboardOffer}
    (holds : o.receiveBytes clipboard DelayRenderers.cfUnicodeText = .ok (ReceivedText.renderText s)) :
    o.receiveString clipboard = some (.ok s) := by
  have long : ¬ (ReceivedText.renderText s).length ≤ 1 := by
    intro short
    have units := ReceivedText.ofLeBytes_renderText s []
    rw [List.append_nil, Utf16.ofLeBytes_eq_nil_iff.mpr short] at units
    simp at units
  have last : ([] : List UInt8).length ≤ 1 := Nat.zero_le 1
  have text := ReceivedText.text_tight s last
  rw [List.append_nil] at text
  rw [ReceivedText.receiveString_eq holds, if_neg long, text]

end Texts

section Steps
variable {d next : Desk}

structure Sound (d : Desk) : Prop where
  paired : ∃ x, Refines d.guest x
  known : d.reads.length = d.guest.answers.length
  read : ∀ (n : Nat) (kind : Int32) (buf : List UInt8) (offer : Option ClipboardOffer),
    d.guest.answers[n]? = some (kind, buf) → d.reads[n]? = some offer →
    ∃ typ, ClipboardType.fromI32 kind = some typ ∧ buf = readContents typ offer

theorem answers_kept {g h : Guest} {e : WindowsPaste.Event} (other : ∀ buf, e ≠ .answer buf)
    (taken : guestStep g e = some h) : h.answers = g.answers := by
  cases e with
  | answer buf => exact absurd rfl (other buf)
  | grab types =>
    cases taken
    rfl
  | receive =>
    simp only [guestStep] at taken
    split at taken
    · rename_i cmd toGuest pipe
      unfold Guest.receive at taken
      split at taken
      · rename_i types
        split at taken
        · cases taken
        · cases taken
          obtain ⟨more, table, same⟩ :=
            foldl_promise types.types { g with toGuest, delayRenderers := ∅ }
          rw [same]
      · cases taken
        rfl
      · cases taken
    · cases taken
  | request i =>
    simp only [guestStep] at taken
    split at taken
    · obtain ⟨kind, -, rfl⟩ := Option.map_eq_some_iff.mp taken
      rfl
    · cases taken
  | _ =>
    simp only [guestStep] at taken
    split at taken
    · cases taken
      rfl
    · cases taken

theorem answer_cases {g h : Guest} {buf : List UInt8} {typ : ClipboardType}
    (request : asked g = some typ) (taken : guestStep g (.answer buf) = some h) :
    ∃ kind, ClipboardType.fromI32 kind = some typ ∧ h.answers = g.answers ++ [(kind, buf)] := by
  unfold asked at request
  split at request
  · rename_i kind _ pipe
    simp only [guestStep, pipe] at taken
    cases taken
    exact ⟨kind, request, rfl⟩
  · cases request

theorem sound_reply (sound : Sound d) (taken : deskStep d .reply = some next) : Sound next := by
  simp only [deskStep] at taken
  split at taken
  · rename_i offer typ _ request
    obtain ⟨guest, answered, rfl⟩ := Option.map_eq_some_iff.mp taken
    obtain ⟨x, refines⟩ := sound.paired
    obtain ⟨kind, known, grown⟩ := answer_cases request answered
    refine ⟨refines_step refines rfl answered, ?_, ?_⟩
    · simp [grown, sound.known]
    · intro n k buf o there read
      rw [grown] at there
      rcases Journals.getElem?_concat_both sound.known.symm there read with ⟨old, before⟩ | ⟨new, rfl⟩
      · exact sound.read n k buf o old before
      · cases new
        exact ⟨typ, known, rfl⟩
  · cases taken

theorem sound_step {e : Event} (sound : Sound d) (ok : alone d e = true)
    (taken : deskStep d e = some next) : Sound next := by
  cases e with
  | linuxCopy offer =>
    cases taken
    exact ⟨sound.paired, sound.known, sound.read⟩
  | get =>
    simp only [deskStep, Option.ite_none_right_eq_some, Option.some.injEq] at taken
    obtain ⟨-, rfl⟩ := taken
    exact ⟨sound.paired, sound.known, sound.read⟩
  | reply => exact sound_reply sound taken
  | guest e =>
    by_cases answer : ∃ buf, e = .answer buf
    · obtain ⟨buf, rfl⟩ := answer
      cases taken
    · have other : ∀ buf, e ≠ .answer buf := fun buf same => answer ⟨buf, same⟩
      have stepped : (guestStep d.guest e).map (fun guest => { d with guest }) = some next := by
        cases e <;> first | exact taken | exact absurd rfl (other _)
      obtain ⟨guest, moved, rfl⟩ := Option.map_eq_some_iff.mp stepped
      obtain ⟨x, refines⟩ := sound.paired
      have kept := answers_kept other moved
      refine ⟨refines_step refines ok moved, by simpa [kept] using sound.known, ?_⟩
      intro n kind buf offer there read
      rw [kept] at there
      exact sound.read n kind buf offer there read

theorem arrive_of_sound (sound : Sound d) : TextsArrive d := by
  intro i buf received renderer
  obtain ⟨x, refines⟩ := sound.paired
  obtain ⟨n, kind, own, request, answer⟩ := (paired_of_refines refines).own (i, buf) received
  cases own.symm.trans renderer
  have inside := (List.getElem?_eq_some_iff.mp answer).1
  rw [← sound.known] at inside
  have read := List.getElem?_eq_getElem inside
  obtain ⟨typ, known, rfl⟩ := sound.read n _ buf _ answer read
  cases known
  obtain ⟨s, text, contents⟩ := readContents_text d.reads[n]
  have block : renderReceived (readContents .text d.reads[n]) = ReceivedText.renderText s := by
    rw [contents, renderReceived_encode]
  refine ⟨n, _, s, request, read, text, block, ?_⟩
  intro clipboard o holds
  rw [block] at holds
  exact receiveString_renderText holds

end Steps

def greeting : ClipboardOffer := ⟨[textMime], fun _ => some (encode "Grüße".toList)⟩

end LinuxText
