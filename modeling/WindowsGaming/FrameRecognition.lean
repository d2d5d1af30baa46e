import WindowsGaming.ClientpipeCodec

/- Which bytes the decoders of the pipe take for a frame. A length may be spelled with more bytes than
   it needs, and some bytes spell no length at all. -/
namespace FrameRecognition
open Protocol ClientpipeCodec
open Leb128 (Spells)

/-- Every spelling of a 64-bit number is accepted and nothing else; the shortest one is known. -/
structure Varints (prost : Prost) : Prop where
  accepts : ∀ p n rest, Spells 9 p n → prost.decodeVarint (p ++ rest) = some (UInt64.ofNat n, rest)
  rejects : ∀ buf, (∀ p n rest, Spells 9 p n → buf ≠ p ++ rest) → prost.decodeVarint buf = none
  encodedLen : ∀ n, prost.encodedLenVarint n = (Leb128.encode 9 n.toNat).length

def IsFrame (frame : List UInt8) : Prop :=
  ∃ length payload : List UInt8, Spells 9 length payload.length ∧ frame = length ++ payload

variable {M : Type}

structure Recognises (decode : List UInt8 → Option (Option M × List UInt8)) (buf : List UInt8) :
    Prop where
  waits : ∀ frame, IsFrame frame → buf <+: frame → buf ≠ frame → decode buf = some (none, buf)
  removes : ∀ frame rest, IsFrame frame → buf = frame ++ rest → ∃ res, decode buf = some (res, rest)
  notices : (∀ more frame rest, IsFrame frame → buf ++ more ≠ frame ++ rest) →
    decode buf ≠ some (none, buf)
  safe : ∃ res rest, decode buf = some (res, rest) ∧ rest <:+ buf

/-- No length is invalid, and that of a whole frame is spelled with as few bytes as possible. -/
def plain (buf : List UInt8) : Prop :=
  ¬ Leb128.Invalid 9 buf ∧ ∀ length payload rest : List UInt8, Spells 9 length payload.length →
    buf = length ++ payload ++ rest → length.length = (Leb128.encode 9 payload.length).length

section Frames
variable {prost : Prost} {wire : Wire M} {buf : List UInt8}

theorem frame_unique {f g s t : List UInt8} (first : IsFrame f) (second : IsFrame g)
    (same : f ++ s = g ++ t) : f = g := by
  obtain ⟨length, payload, spells, rfl⟩ := first
  obtain ⟨length', payload', spells', rfl⟩ := second
  rw [List.append_assoc, List.append_assoc] at same
  have read := Leb128.decode_spells spells (payload ++ s)
  rw [same, Leb128.decode_spells spells', Option.some.injEq, Prod.mk.injEq] at read
  obtain ⟨equal, behind⟩ := read
  obtain ⟨rfl, rfl⟩ := List.append_inj behind equal
  rw [List.append_cancel_right same]

theorem length_toNat {length : List UInt8} {n : Nat} (spells : Spells 9 length n) :
    (UInt64.ofNat n).toNat = n := by
  rw [UInt64.toNat_ofNat', Nat.mod_eq_of_lt]
  exact spells.fits

/-- The bytes that are removed are counted as if the length were spelled the shortest way. -/
theorem frame_decoded (varints : Varints prost) (wire : Wire M) {length payload : List UInt8}
    (rest : List UInt8) (spells : Spells 9 length payload.length) :
    decodeFrame prost wire (length ++ payload ++ rest) = some ((wire.decode payload).getD none,
      (length ++ payload ++ rest).drop (payload.length + (Leb128.encode 9 payload.length).length)) := by
  have read := varints.accepts length payload.length (payload ++ rest) spells
  rw [← List.append_assoc] at read
  have shortest := Leb128.encode_shortest spells
  have enough : payload.length ≤ (payload ++ rest).length := by
    rw [List.length_append]
    exact Nat.le_add_right _ _
  have inside : payload.length + (Leb128.encode 9 payload.length).length ≤
      (length ++ payload ++ rest).length := by
    rw [List.length_append, List.length_append]
    omega
  simp only [decodeFrame, read, length_toNat spells, enough, if_true, varints.encodedLen, inside,
    List.take_left]

theorem nothing_decoded (varints : Varints prost) (wire : Wire M)
    (unfinished : ∀ frame rest, IsFrame frame → buf ≠ frame ++ rest) :
    decodeFrame prost wire buf = some (none, buf) := by
  by_cases spelled : ∃ p n rest, Spells 9 p n ∧ buf = p ++ rest
  · obtain ⟨p, n, rest, spells, rfl⟩ := spelled
    apply decodeFrame_short (varints.accepts p n rest spells)
    rw [length_toNat spells]
    by_contra enough
    have front : (rest.take n).length = n := List.length_take_of_le (Nat.le_of_not_lt enough)
    refine unfinished (p ++ rest.take n) (rest.drop n) ⟨p, rest.take n, ?_, rfl⟩ ?_
    · rw [front]
      exact spells
    · rw [List.append_assoc, List.take_append_drop]
  · apply decodeFrame_nothing
    refine varints.rejects buf ?_
    intro p n rest spells same
    exact spelled ⟨p, n, rest, spells, same⟩

theorem invalid_unfinished (invalid : Leb128.Invalid 9 buf) (more frame rest : List UInt8)
    (framed : IsFrame frame) : buf ++ more ≠ frame ++ rest := by
  obtain ⟨length, payload, spells, rfl⟩ := framed
  intro same
  have nothing := Leb128.decode_invalid invalid more
  rw [same, List.append_assoc, Leb128.decode_spells spells] at nothing
  cases nothing

theorem valid_continues (valid : ¬ Leb128.Invalid 9 buf) :
    ∃ more frame rest, IsFrame frame ∧ buf ++ more = frame ++ rest := by
  cases read : Leb128.decode 9 buf with
  | some pair =>
    obtain ⟨n, rest⟩ := pair
    obtain ⟨p, rfl, spells⟩ := Leb128.spells_of_decode read
    have front : ((rest ++ List.replicate n 0).take n).length = n := by simp
    refine ⟨List.replicate n 0, p ++ (rest ++ List.replicate n 0).take n,
      (rest ++ List.replicate n 0).drop n, ⟨p, _, by rwa [front], rfl⟩, ?_⟩
    rw [List.append_assoc, List.append_assoc, List.take_append_drop]
  | none =>
    rcases Leb128.decode_none read with incomplete | invalid
    · obtain ⟨n, spells⟩ := Leb128.spells_incomplete incomplete
      refine ⟨[0] ++ List.replicate n 0, buf ++ [0] ++ List.replicate n 0, [],
        ⟨buf ++ [0], List.replicate n 0, by simpa using spells, rfl⟩, by simp⟩
    · exact absurd invalid valid

theorem recognises_of_plain (varints : Varints prost) (wire : Wire M) (ok : plain buf) :
    Recognises (decodeFrame prost wire) buf := by
  obtain ⟨valid, shortest⟩ := ok
  have removed : ∀ frame rest, IsFrame frame → buf = frame ++ rest →
      ∃ res, decodeFrame prost wire buf = some (res, rest) := by
    rintro _ rest ⟨length, payload, spells, rfl⟩ same
    have few := shortest length payload rest spells same
    refine ⟨(wire.decode payload).getD none, ?_⟩
    rw [same, frame_decoded varints wire rest spells, ← few, Nat.add_comm, ← List.length_append,
      List.drop_left]
  constructor
  · rintro frame framed ⟨tail, rfl⟩ proper
    apply nothing_decoded varints wire
    rintro front rest early rfl
    have same := frame_unique framed early (s := []) (t := rest ++ tail) (by simp)
    have none_left : rest ++ tail = [] := by
      rw [List.append_assoc] at same
      exact List.append_right_eq_self.mp same
    rw [(List.append_eq_nil_iff.mp none_left).2] at proper
    simp at proper
  · exact removed
  · intro never
    obtain ⟨more, frame, rest, framed, same⟩ := valid_continues valid
    exact absurd same (never more frame rest framed)
  · by_cases finished : ∃ frame rest, IsFrame frame ∧ buf = frame ++ rest
    · obtain ⟨frame, rest, framed, same⟩ := finished
      obtain ⟨res, decoded⟩ := removed frame rest framed same
      exact ⟨res, rest, decoded, frame, same.symm⟩
    · refine ⟨none, buf, nothing_decoded varints wire ?_, List.suffix_rfl⟩
      intro frame rest framed same
      exact finished ⟨frame, rest, framed, same⟩

theorem plain_of_recognises (varints : Varints prost) (wire : Wire M)
    (recognises : Recognises (decodeFrame prost wire) buf) : plain buf := by
  constructor
  · intro invalid
    apply recognises.notices (invalid_unfinished invalid)
    apply nothing_decoded varints wire
    intro frame rest framed
    simpa using invalid_unfinished invalid [] frame rest framed
  · rintro length payload rest spells rfl
    obtain ⟨res, decoded⟩ := recognises.removes (length ++ payload) rest ⟨_, _, spells, rfl⟩ rfl
    rw [frame_decoded varints wire rest spells, Option.some.injEq, Prod.mk.injEq] at decoded
    have left := congrArg List.length decoded.2
    have shortest := Leb128.encode_shortest spells
    rw [List.length_drop, List.length_append, List.length_append] at left
    omega

end Frames

/-- Both decoders recognise the frames exactly in the buffers that begin with no invalid length and
    with no whole frame whose length is spelled with more bytes than it needs. -/
theorem frames_recognised_iff {prost : Prost} (varints : Varints prost) (buf : List UInt8) :
    (Recognises (Driver.decode prost) buf ↔ plain buf) ∧
      (Recognises (GuestAgent.decode prost) buf ↔ plain buf) :=
  ⟨⟨plain_of_recognises varints _, recognises_of_plain varints _⟩,
    ⟨plain_of_recognises varints _, recognises_of_plain varints _⟩⟩

theorem sample_varints : Varints sample := by
  refine ⟨?_, ?_, fun _ => rfl⟩
  · intro p n rest spells
    simp [sample, Leb128.decode_spells spells]
  · intro buf unspelled
    cases read : Leb128.decode 9 buf with
    | none => simp [sample, read]
    | some pair =>
      obtain ⟨n, rest⟩ := pair
      obtain ⟨p, rfl, spells⟩ := Leb128.spells_of_decode read
      exact absurd rfl (unspelled p n rest spells)

theorem part_recognised :
    (Recognises (Driver.decode sample) [130] ↔ plain [130]) ∧
      (Recognises (GuestAgent.decode sample) [130] ↔ plain [130]) :=
  frames_recognised_iff sample_varints [130]

/-- A length of two bytes that fits in one leaves a byte of the frame behind, and ten bytes that
    spell no length are waited on for ever. -/
theorem overlong_length_miscounted :
    ¬ Recognises (Driver.decode sample) [130, 0, 10, 0] ∧
      ¬ Recognises (Driver.decode sample) (List.replicate 10 255) := by
  constructor
  · intro recognises
    have zero : Spells 8 [0] 0 := Leb128.spells_single.mpr (by decide)
    have spells : Spells 9 [130, 0] 2 :=
      (Leb128.spells_cons (by simp)).mpr ⟨by decide, 0, zero, by decide⟩
    obtain ⟨res, decoded⟩ := recognises.removes [130, 0, 10, 0] [] ⟨[130, 0], [10, 0], spells, rfl⟩ rfl
    have left : Driver.decode sample [130, 0, 10, 0] = some (some .pong, [0]) := by decide +kernel
    rw [left] at decoded
    cases decoded
  · intro recognises
    have invalid : Leb128.Invalid 9 (List.replicate 10 255) := by
      simp [Leb128.Invalid]
    exact recognises.notices (invalid_unfinished invalid) (by decide +kernel)

end FrameRecognition
