import WindowsGaming.DelayRenderers
import WindowsGaming.Library.Utf16

/- Text from the Windows clipboard comes as a block of global memory. Its size is what `GlobalSize`
   says, which may be more than whoever put the text there had asked for. -/
namespace ReceivedText
open DelayRenderers Utf16

inductive Error where
  | clipboardOfferExpired
  | formatNotAvailable
  | windows (code : UInt32)
  deriving DecidableEq, Repr

structure Clipboard where
  sequenceNumber : UInt32
  receiveBuffer : UInt32 → Except UInt32 (List UInt8)

structure ClipboardOffer where
  sequence : UInt32
  formats : List UInt32
  deriving DecidableEq, Repr

def ClipboardOffer.receiveBytes (clipboard : Clipboard) (format : UInt32) (offer : ClipboardOffer) :
    Except Error (List UInt8) :=
  if format ∈ offer.formats then
    if clipboard.sequenceNumber ≠ offer.sequence then .error .clipboardOfferExpired
    else (clipboard.receiveBuffer format).mapError .windows
  else .error .formatNotAvailable

/-- The last unit is taken to be the terminator; `none` is the panic where there is no unit. The
    bytes are aligned, so `align_to` leaves out at most the last one. -/
def ClipboardOffer.receiveString (clipboard : Clipboard) (offer : ClipboardOffer) :
    Option (Except Error String) :=
  match offer.receiveBytes clipboard cfUnicodeText with
  | .error e => some (.error e)
  | .ok memory =>
    let stringmem := ofLeBytes memory
    if stringmem.length = 0 then none
    else some (.ok (String.ofList (decodeLossy (stringmem.take (stringmem.length - 1)))))

def renderText (s : String) : List UInt8 := toLeBytes (encode s.toList ++ [0])

/-- Receiving the block gives a result, and a text without NUL that the block holds in front of a
    terminator is given back, whatever further bytes there are. -/
structure Received (block : List UInt8) (result : Option (Except Error String)) : Prop where
  returns : result.isSome = true
  text : ∀ (s : String) (rest : List UInt8), '\x00' ∉ s.toList → block = renderText s ++ rest →
    result = some (.ok s)

/-- There is a unit to take off the end, and a text's terminator is the last unit. -/
def tight (block : List UInt8) : Prop :=
  2 ≤ block.length ∧ ∀ (s : String) (rest : List UInt8), '\x00' ∉ s.toList →
    block = renderText s ++ rest → rest.length ≤ 1

section Blocks
variable {clipboard : Clipboard} {offer : ClipboardOffer} {block : List UInt8}

theorem ofLeBytes_renderText (s : String) (rest : List UInt8) :
    ofLeBytes (renderText s ++ rest) = encode s.toList ++ 0 :: ofLeBytes rest := by
  rw [renderText, ofLeBytes_toLeBytes, List.append_assoc, List.singleton_append]

theorem receiveString_eq (received : offer.receiveBytes clipboard cfUnicodeText = .ok block) :
    offer.receiveString clipboard =
      if block.length ≤ 1 then none
      else some (.ok (String.ofList (decodeLossy (ofLeBytes block).dropLast))) := by
  unfold ClipboardOffer.receiveString
  rw [received]
  simp only [List.length_eq_zero_iff, ofLeBytes_eq_nil_iff, List.dropLast_eq_take]

theorem text_tight (s : String) {rest : List UInt8} (last : rest.length ≤ 1) :
    String.ofList (decodeLossy (ofLeBytes (renderText s ++ rest)).dropLast) = s := by
  have nothing : ofLeBytes rest = [] := ofLeBytes_eq_nil_iff.mpr last
  have whole := decode_encode s.toList []
  rw [List.append_nil, decodeLossy, List.append_nil] at whole
  rw [ofLeBytes_renderText, nothing, List.dropLast_concat, whole, String.ofList_toList]

theorem text_loose (s : String) {rest : List UInt8} (more : ¬ rest.length ≤ 1) :
    String.ofList (decodeLossy (ofLeBytes (renderText s ++ rest)).dropLast) ≠ s := by
  have further : ofLeBytes rest ≠ [] := fun nothing => more (ofLeBytes_eq_nil_iff.mp nothing)
  have plain : ¬ isLeading 0 := by decide
  rw [ofLeBytes_renderText, List.dropLast_append_cons, List.dropLast_cons_of_ne_nil further,
    decode_encode, decodeLossy_single plain]
  intro same
  have lengths := congrArg (fun t => t.toList.length) same
  simp at lengths

end Blocks

/-- What is received of a block is right exactly when the block is tight. -/
theorem received_iff_tight {clipboard : Clipboard} {offer : ClipboardOffer} {block : List UInt8}
    (received : offer.receiveBytes clipboard cfUnicodeText = .ok block) :
    Received block (offer.receiveString clipboard) ↔ tight block := by
  rw [receiveString_eq received]
  constructor
  · rintro ⟨returns, text⟩
    split at returns
    · cases returns
    · rename_i long
      refine ⟨by omega, ?_⟩
      intro s rest plain holds
      by_contra more
      have same := text s rest plain holds
      rw [if_neg long, holds] at same
      exact text_loose s more (Except.ok.inj (Option.some.inj same))
  · rintro ⟨long, last⟩
    rw [if_neg (by omega)]
    refine ⟨rfl, ?_⟩
    intro s rest plain holds
    rw [holds, text_tight s (last s rest plain holds)]

/-- A block exactly as large as the text and its terminator. -/
theorem received_exact_block :
    Received (renderText "A")
        (ClipboardOffer.receiveString ⟨1, fun _ => .ok (renderText "A")⟩ ⟨1, [cfUnicodeText]⟩) ↔
      tight (renderText "A") :=
  received_iff_tight rfl

/-- An "A" in a block of eight bytes is received with two NULs behind it, and receiving an empty block
    panics. -/
theorem larger_block_received :
    ¬ Received (renderText "A" ++ [0, 0, 0, 0])
        (ClipboardOffer.receiveString ⟨1, fun _ => .ok (renderText "A" ++ [0, 0, 0, 0])⟩
          ⟨1, [cfUnicodeText]⟩) ∧
      ¬ Received [] (ClipboardOffer.receiveString ⟨1, fun _ => .ok []⟩ ⟨1, [cfUnicodeText]⟩) := by
  constructor
  · intro received
    exact absurd (received.text "A" [0, 0, 0, 0] (by decide) rfl) (by decide)
  · intro received
    exact absurd received.returns (by decide)

end ReceivedText
