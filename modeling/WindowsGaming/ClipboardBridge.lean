import WindowsGaming.Clientpipe

/- The ends of the bridge between two clipboards: what a side announces of its own clipboard, and the
   proxy that it puts there when the other side announces something. -/
namespace ClipboardBridge
open Config Protocol Controller Clientpipe

def ourMimeMarker : String := "application/from-windows"

/-- A selection of the desktop. What the driver claims carries its marker. -/
structure Selection where
  mimeTypes : List String
  ours : Bool
  marked : ours = true → ourMimeMarker ∈ mimeTypes
  deriving DecidableEq, Repr

inductive Owner where
  | eventLoop
  | other
  deriving DecidableEq, Repr

structure Offer where
  owner : Owner
  hasString : Bool
  hasImage : Bool
  deriving DecidableEq, Repr

def foreignSelection (mimeTypes : List String) : Selection := ⟨mimeTypes, false, nofun⟩

def foreignOffer (hasString hasImage : Bool) : Offer := ⟨.other, hasString, hasImage⟩

def offeredTypes (hasText hasImage : Bool) : ClipboardTypes :=
  let types : ClipboardTypes := ⟨[]⟩
  let types := if hasText then types.pushTypes .text else types
  if hasImage then types.pushTypes .image else types

def Selection.types (offer : Selection) : ClipboardTypes :=
  offeredTypes (offer.mimeTypes.contains "text/plain;charset=utf-8")
    (offer.mimeTypes.contains "image/png")

def Offer.types (offer : Offer) : ClipboardTypes := offeredTypes offer.hasString offer.hasImage

def clipboardListener (linux : Option Selection) (controller : Controller) : Controller :=
  match linux with
  | some offer =>
    if ourMimeMarker ∉ offer.mimeTypes then controller.grabWinClipboard offer.types
    else controller
  | none => controller

def clipWatch (windows : Option Offer) : Option GaCmdIn :=
  match windows with
  | some offer =>
    if offer.owner ≠ .eventLoop then some (.clipboard (some (.grabClipboard offer.types)))
    else none
  | none => none

def mimeTypesOf : ClipboardType → List String
  | .invalid => []
  | .text => plaintextMimeTypes
  | .image => [clipboardMimePng]

def claim (types : ClipboardTypes) : Selection :=
  { mimeTypes := ourMimeMarker :: types.types.flatMap mimeTypesOf
    ours := true
    marked := fun _ => List.mem_cons_self }

def delayRendered (types : ClipboardTypes) : Option Offer :=
  if .invalid ∈ types.types then none
  else some
    { owner := .eventLoop
      hasString := types.types.contains .text
      hasImage := types.types.contains .image }

def toGrabber : Effect → Option ClipboardTypes
  | .x11ClipboardGrabber types => some types
  | _ => none

theorem types_valid (offer : Selection) : .invalid ∉ offer.types.types := by
  unfold Selection.types
  generalize offer.mimeTypes.contains "text/plain;charset=utf-8" = hasText
  generalize offer.mimeTypes.contains "image/png" = hasImage
  cases hasText <;> cases hasImage <;> decide

theorem without_out {c : Controller} (out : c.out = []) : { c with out := [] } = c := by
  rw [← out]

theorem listener_cases (linux : Option Selection) (c : Controller) :
    ((linux.all fun offer => ourMimeMarker ∈ offer.mimeTypes) = true ∧
      clipboardListener linux c = c) ∨
    ∃ offer : Selection, linux = some offer ∧ ourMimeMarker ∉ offer.mimeTypes ∧
      clipboardListener linux c = c.grabWinClipboard offer.types := by
  cases linux with
  | none => exact Or.inl ⟨rfl, rfl⟩
  | some offer =>
    by_cases marked : ourMimeMarker ∈ offer.mimeTypes
    · left
      simp [clipboardListener, marked]
    · right
      exact ⟨offer, rfl, marked, by simp [clipboardListener, marked]⟩

theorem clipWatch_cases (windows : Option Offer) :
    (windows.all fun offer => offer.owner = .eventLoop) = true ∧ clipWatch windows = none ∨
      ∃ offer : Offer, windows = some offer ∧ offer.owner ≠ .eventLoop ∧
        clipWatch windows = some (.clipboard (some (.grabClipboard offer.types))) := by
  cases windows with
  | none => exact Or.inl ⟨rfl, rfl⟩
  | some offer =>
    by_cases own : offer.owner = .eventLoop
    · left
      simp [clipWatch, own]
    · right
      exact ⟨offer, rfl, own, by simp [clipWatch, own]⟩

theorem delayRendered_owner {types : ClipboardTypes} {offer : Offer}
    (rendered : delayRendered types = some offer) : offer.owner = .eventLoop := by
  simp only [delayRendered] at rendered
  split at rendered
  · cases rendered
  · cases rendered
    rfl

end ClipboardBridge
