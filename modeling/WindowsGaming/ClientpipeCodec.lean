import Mathlib.Data.List.Infix
import WindowsGaming.Library.ChunkedDecoder
import WindowsGaming.Library.Leb128
import WindowsGaming.Protocol

/- The two codecs of the pipe between the driver and the guest agent. Each message is a
   frame: the length of its protobuf encoding as a varint, and the encoding. -/
namespace ClientpipeCodec
open Protocol ChunkedDecoder

/-- What prost does with a message that is one `oneof` field. -/
structure Wire (M : Type) where
  /-- Fails with `none`; a message whose `oneof` is not set is `some none`. -/
  decode : List UInt8 → Option (Option M)
  encode : M → List UInt8
  encodedLen : M → Nat
  encodeLengthDelimited : M → Nat → Option (List UInt8)

structure Prost where
  decodeVarint : List UInt8 → Option (UInt64 × List UInt8)
  encodeVarint : UInt64 → List UInt8
  encodedLenVarint : UInt64 → Nat
  gaCmdOut : Wire GaCmdOut
  gaCmdIn : Wire GaCmdIn

variable {M : Type}

/-- Decode the frame in front of the buffer; a bad one is skipped. `none` is the panic of a
    `split_to` behind the end. -/
def decodeFrame (prost : Prost) (wire : Wire M) (buf : List UInt8) :
    Option (Option M × List UInt8) :=
  let (res, consumed) :=
    match prost.decodeVarint buf with
    | some (len, rbuf) =>
      if len.toNat ≤ rbuf.length then
        (wire.decode (rbuf.take len.toNat), len.toNat + prost.encodedLenVarint len)
      else (some none, 0)
    | none => (some none, 0)
  if consumed ≤ buf.length then some (res.getD none, buf.drop consumed) else none

def encodeFrame (prost : Prost) (wire : Wire M) (cmd : M) (buf : List UInt8) :
    Option (List UInt8) :=
  let len := wire.encodedLen cmd
  let capacity := len + prost.encodedLenVarint (UInt64.ofNat len)
  (wire.encodeLengthDelimited cmd capacity).map (buf ++ ·)

def Driver.decode (prost : Prost) : List UInt8 → Option (Option GaCmdIn × List UInt8) :=
  decodeFrame prost prost.gaCmdIn

def Driver.encode (prost : Prost) : GaCmdOut → List UInt8 → Option (List UInt8) :=
  encodeFrame prost prost.gaCmdOut

def GuestAgent.decode (prost : Prost) : List UInt8 → Option (Option GaCmdOut × List UInt8) :=
  decodeFrame prost prost.gaCmdOut

def GuestAgent.encode (prost : Prost) : GaCmdIn → List UInt8 → Option (List UInt8) :=
  encodeFrame prost prost.gaCmdIn

def encodeAll (encode : M → List UInt8 → Option (List UInt8)) (cmds : List M) :
    Option (List UInt8) :=
  cmds.foldlM (fun buf cmd => encode cmd buf) []

structure Prost.Canonical (prost : Prost) : Prop where
  whole : ∀ n rest, prost.decodeVarint (prost.encodeVarint n ++ rest) = some (n, rest)
  part : ∀ n p, p <+: prost.encodeVarint n → p ≠ prost.encodeVarint n →
    prost.decodeVarint p = none
  encodedLen : ∀ n, prost.encodedLenVarint n = (prost.encodeVarint n).length

/-- What can be in memory has a length that is a `usize`. -/
structure Payload where
  bytes : List UInt8
  fits : bytes.length < 2 ^ 64
  deriving DecidableEq

def Payload.len (payload : Payload) : UInt64 := UInt64.ofNat payload.bytes.length

def Payload.frame (prost : Prost) (payload : Payload) : List UInt8 :=
  prost.encodeVarint payload.len ++ payload.bytes

def Payload.message (wire : Wire M) (payload : Payload) : Option M :=
  (wire.decode payload.bytes).getD none

theorem len_toNat (payload : Payload) : payload.len.toNat = payload.bytes.length := by
  rw [Payload.len, UInt64.toNat_ofNat', Nat.mod_eq_of_lt payload.fits]

section Framing
variable {prost : Prost}

theorem varint_nonempty (canonical : prost.Canonical) (n : UInt64) : prost.encodeVarint n ≠ [] := by
  intro empty
  have behind := canonical.whole n (prost.encodeVarint (n + 1))
  have alone := canonical.whole (n + 1) []
  rw [empty, List.nil_append] at behind
  rw [List.append_nil, behind] at alone
  simp at alone

theorem decodeFrame_nothing {wire : Wire M} {buf : List UInt8}
    (nothing : prost.decodeVarint buf = none) : decodeFrame prost wire buf = some (none, buf) := by
  simp [decodeFrame, nothing]

theorem decodeFrame_short {wire : Wire M} {buf rbuf : List UInt8} {len : UInt64}
    (read : prost.decodeVarint buf = some (len, rbuf)) (short : rbuf.length < len.toNat) :
    decodeFrame prost wire buf = some (none, buf) := by
  simp [decodeFrame, read, Nat.not_le_of_lt short]

theorem decodeFrame_whole (canonical : prost.Canonical) (wire : Wire M) (payload : Payload)
    (rest : List UInt8) : decodeFrame prost wire (payload.frame prost ++ rest) =
      some (payload.message wire, rest) := by
  have length : (payload.frame prost).length =
      payload.len.toNat + prost.encodedLenVarint payload.len := by
    rw [Payload.frame, List.length_append, canonical.encodedLen, len_toNat, Nat.add_comm]
  have read := canonical.whole payload.len (payload.bytes ++ rest)
  rw [← List.append_assoc] at read
  have enough : payload.len.toNat ≤ (payload.bytes ++ rest).length := by
    rw [len_toNat, List.length_append]
    exact Nat.le_add_right _ _
  have front : (payload.bytes ++ rest).take payload.len.toNat = payload.bytes := by
    rw [len_toNat, List.take_left]
  have inside : payload.len.toNat + prost.encodedLenVarint payload.len ≤
      (payload.frame prost ++ rest).length := by
    rw [← length, List.length_append]
    exact Nat.le_add_right _ _
  simp only [decodeFrame, Payload.frame, read, enough, if_true, front] at inside ⊢
  rw [if_pos inside, ← length, Payload.frame, List.drop_left]
  rfl

theorem decodeFrame_part (canonical : prost.Canonical) (wire : Wire M) (payload : Payload)
    (p : List UInt8) (part : p <+: payload.frame prost) (proper : p ≠ payload.frame prost) :
    decodeFrame prost wire p = some (none, p) := by
  by_cases inside : p.length < (prost.encodeVarint payload.len).length
  · have front := List.prefix_of_prefix_length_le part (List.prefix_append _ _)
      (Nat.le_of_lt inside)
    apply decodeFrame_nothing
    apply canonical.part payload.len p front
    rintro rfl
    exact Nat.lt_irrefl _ inside
  · have front := List.prefix_of_prefix_length_le (List.prefix_append _ payload.bytes) part
      (Nat.le_of_not_lt inside)
    obtain ⟨q, rfl⟩ := front
    have piece : q <+: payload.bytes := (List.prefix_append_right_inj _).mp part
    apply decodeFrame_short (canonical.whole payload.len q)
    rw [len_toNat]
    apply Nat.lt_of_le_of_ne piece.length_le
    intro same
    exact proper (by rw [Payload.frame, piece.eq_of_length same])

def framing (canonical : prost.Canonical) (wire : Wire M) :
    Framing (decodeFrame prost wire) Payload where
  bytes := Payload.frame prost
  yields := Payload.message wire
  nonempty _ := List.append_ne_nil_of_left_ne_nil (varint_nonempty canonical _) _
  whole := decodeFrame_whole canonical wire
  part := decodeFrame_part canonical wire
  empty := decodeFrame_nothing
    (canonical.part 0 [] List.nil_prefix (varint_nonempty canonical 0).symm)

end Framing

structure Sized (wire : Wire M) where
  cmd : M
  fits : (wire.encode cmd).length < 2 ^ 64

def Sized.payload {wire : Wire M} (message : Sized wire) : Payload :=
  ⟨wire.encode message.cmd, message.fits⟩

structure Wire.Faithful (prost : Prost) (wire : Wire M) (cmd : M) : Prop where
  decodes : wire.decode (wire.encode cmd) = some (some cmd)
  encodedLen : wire.encodedLen cmd = (wire.encode cmd).length
  delimited : ∀ capacity,
    let frame := prost.encodeVarint (UInt64.ofNat (wire.encode cmd).length) ++ wire.encode cmd
    frame.length ≤ capacity → wire.encodeLengthDelimited cmd capacity = some frame

section RoundTrip
variable {prost : Prost} {wire : Wire M}

theorem encodeFrame_eq (canonical : prost.Canonical) (message : Sized wire)
    (faithful : wire.Faithful prost message.cmd) (buf : List UInt8) :
    encodeFrame prost wire message.cmd buf = some (buf ++ message.payload.frame prost) := by
  have fits : (message.payload.frame prost).length ≤ wire.encodedLen message.cmd +
      prost.encodedLenVarint (UInt64.ofNat (wire.encodedLen message.cmd)) := by
    rw [faithful.encodedLen, canonical.encodedLen, Payload.frame, List.length_append, Nat.add_comm]
    exact Nat.le_refl _
  have written := faithful.delimited _ fits
  simp only [encodeFrame, written, Option.map_some]
  rfl

theorem foldlM_encodeFrame (canonical : prost.Canonical) (messages : List (Sized wire))
    (faithful : ∀ message ∈ messages, wire.Faithful prost message.cmd) (buf : List UInt8) :
    (messages.map Sized.cmd).foldlM (fun buf cmd => encodeFrame prost wire cmd buf) buf =
      some (buf ++ (framing canonical wire).stream (messages.map Sized.payload)) := by
  induction messages generalizing buf with
  | nil => simp [Framing.stream]
  | cons message messages ih =>
    have first := encodeFrame_eq canonical message (faithful message List.mem_cons_self) buf
    have rest := ih fun m member => faithful m (List.mem_cons_of_mem _ member)
    simp only [List.map_cons, List.foldlM_cons, first, Option.bind_eq_bind, Option.bind_some, rest]
    simp [Framing.stream, framing]

theorem message_sent {message : Sized wire} (faithful : wire.Faithful prost message.cmd) :
    message.payload.message wire = some message.cmd := by
  simp [Payload.message, Sized.payload, faithful.decodes]

theorem messages_sent (canonical : prost.Canonical) (messages : List (Sized wire))
    (faithful : ∀ message ∈ messages, wire.Faithful prost message.cmd) :
    (framing canonical wire).messages (messages.map Sized.payload) = messages.map Sized.cmd := by
  induction messages with
  | nil => rfl
  | cons message messages ih =>
    have first := message_sent (faithful message List.mem_cons_self)
    have rest := ih fun m member => faithful m (List.mem_cons_of_mem _ member)
    simp only [Framing.messages, framing, List.map_cons, List.filterMap_cons, first] at rest ⊢
    rw [rest]

/-- Messages that are encoded one after another are decoded again, however the bytes are cut. -/
def RoundTrips (encode : M → List UInt8 → Option (List UInt8))
    (decode : List UInt8 → Option (Option M × List UInt8)) (cmds : List M) : Prop :=
  ∃ bytes, encodeAll encode cmds = some bytes ∧
    ∀ chunks : List (List UInt8), chunks.flatten = bytes →
      ∀ fuel, bytes.length < fuel → feed decode fuel chunks [] = some (cmds, [])

theorem frames_round_trip (canonical : prost.Canonical) (messages : List (Sized wire))
    (faithful : ∀ message ∈ messages, wire.Faithful prost message.cmd) :
    RoundTrips (encodeFrame prost wire) (decodeFrame prost wire) (messages.map Sized.cmd) := by
  refine ⟨_, foldlM_encodeFrame canonical messages faithful [], ?_⟩
  intro chunks cut fuel enough
  rw [← cut] at enough
  have all : ∀ payload ∈ messages.map Sized.payload,
      (framing canonical wire).good payload = true := by
    intro payload member
    obtain ⟨message, sent, rfl⟩ := List.mem_map.mp member
    simp [Framing.good, framing, message_sent (faithful message sent)]
  have read := (framing canonical wire).feed_all_good all cut enough
  rwa [messages_sent canonical messages faithful] at read

end RoundTrip

theorem pipe_round_trip {prost : Prost} (canonical : prost.Canonical)
    (outgoing : List (Sized prost.gaCmdOut)) (incoming : List (Sized prost.gaCmdIn))
    (faithful_out : ∀ message ∈ outgoing, prost.gaCmdOut.Faithful prost message.cmd)
    (faithful_in : ∀ message ∈ incoming, prost.gaCmdIn.Faithful prost message.cmd) :
    RoundTrips (Driver.encode prost) (GuestAgent.decode prost) (outgoing.map Sized.cmd) ∧
    RoundTrips (GuestAgent.encode prost) (Driver.decode prost) (incoming.map Sized.cmd) :=
  ⟨frames_round_trip canonical outgoing faithful_out,
    frames_round_trip canonical incoming faithful_in⟩

def sampleWire {M : Type} [DecidableEq M] (table : List (M × List UInt8)) : Wire M :=
  let encode := fun cmd => ((table.find? fun entry => entry.1 = cmd).map Prod.snd).getD []
  { decode := fun bytes =>
      if bytes = [] then some none
      else (table.find? fun entry => entry.2 = bytes).map fun entry => some entry.1
    encode
    encodedLen := fun cmd => (encode cmd).length
    encodeLengthDelimited := fun cmd capacity =>
      let frame := Leb128.encode 9 (encode cmd).length ++ encode cmd
      if frame.length ≤ capacity then some frame else none }

def sample : Prost :=
  { decodeVarint := fun buf =>
      (Leb128.decode 9 buf).map fun (n, rest) => (UInt64.ofNat n, rest)
    encodeVarint := fun n => Leb128.encode 9 n.toNat
    encodedLenVarint := fun n => (Leb128.encode 9 n.toNat).length
    gaCmdOut := sampleWire [(.ping, [10, 0]), (.suspend, [138, 1, 0]), (.shutdown, [162, 1, 0])]
    gaCmdIn := sampleWire [(.pong, [10, 0]), (.reportBoot, [18, 0]), (.suspending, [130, 1, 0])] }

theorem sample_canonical : sample.Canonical := by
  refine ⟨?_, ?_, fun _ => rfl⟩
  · intro n rest
    have fits : n.toNat < 2 * 128 ^ 9 := n.toNat_lt
    simp [sample, Leb128.decode_encode fits rest]
  · intro n p part proper
    have fits : n.toNat < 2 * 128 ^ 9 := n.toNat_lt
    simp [sample, Leb128.decode_incomplete fits part proper]

theorem sample_faithful {M : Type} [DecidableEq M] (table : List (M × List UInt8)) (cmd : M)
    (short : ((sampleWire table).encode cmd).length < 2 ^ 64)
    (decodes : (sampleWire table).decode ((sampleWire table).encode cmd) = some (some cmd)) :
    (sampleWire table).Faithful sample cmd := by
  refine ⟨decodes, rfl, ?_⟩
  intro capacity frame fits
  have same : frame = Leb128.encode 9 ((sampleWire table).encode cmd).length ++
      (sampleWire table).encode cmd := by
    have length : (UInt64.ofNat ((sampleWire table).encode cmd).length).toNat =
        ((sampleWire table).encode cmd).length := by
      rw [UInt64.toNat_ofNat', Nat.mod_eq_of_lt short]
    simp only [frame, sample, length]
  rw [same] at fits ⊢
  exact if_pos fits

theorem sample_round_trip :
    RoundTrips (Driver.encode sample) (GuestAgent.decode sample) [.ping, .shutdown, .ping] ∧
    RoundTrips (GuestAgent.encode sample) (Driver.decode sample) [.reportBoot, .pong] := by
  refine pipe_round_trip sample_canonical
    [⟨.ping, by decide⟩, ⟨.shutdown, by decide⟩, ⟨.ping, by decide⟩]
    [⟨.reportBoot, by decide⟩, ⟨.pong, by decide⟩] ?_ ?_
  · intro message member
    simp only [List.mem_cons, List.not_mem_nil, or_false] at member
    rcases member with rfl | rfl | rfl <;> exact sample_faithful _ _ (by decide) (by decide)
  · intro message member
    simp only [List.mem_cons, List.not_mem_nil, or_false] at member
    rcases member with rfl | rfl <;> exact sample_faithful _ _ (by decide) (by decide)

section Skipping
variable {prost : Prost} {wire : Wire M}

/-- Every frame with a message in it or behind it has arrived when there are still as many
    chunks to come as bad frames from it on, up to the last message. -/
def Timely (canonical : prost.Canonical) (wire : Wire M) (chunks : List (List UInt8))
    (payloads : List Payload) : Prop :=
  (framing canonical wire).InTime 0 (chunks.map List.length) 0 payloads

instance (canonical : prost.Canonical) (wire : Wire M) (chunks : List (List UInt8))
    (payloads : List Payload) : Decidable (Timely canonical wire chunks payloads) :=
  inferInstanceAs (Decidable ((framing canonical wire).InTime _ _ _ _))

def received (canonical : prost.Canonical) (wire : Wire M) (n : Nat) (payloads : List Payload) :
    List Payload :=
  (framing canonical wire).received n payloads

theorem delivered_iff_timely (canonical : prost.Canonical) {chunks : List (List UInt8)}
    {payloads : List Payload} {fuel : Nat}
    (cut : chunks.flatten = payloads.flatMap (Payload.frame prost))
    (enough : chunks.flatten.length < fuel) :
    Delivers (decodeFrame prost wire) fuel chunks (payloads.filterMap (Payload.message wire)) ↔
      Timely canonical wire chunks payloads := by
  have cut' : chunks.flatten = (framing canonical wire).stream payloads ++ [] := by
    rw [cut, List.append_nil]
    rfl
  exact (framing canonical wire).delivers_iff (framing canonical wire).unfinished_nil cut' enough

theorem so_far_iff_timely (canonical : prost.Canonical) {chunks : List (List UInt8)}
    {payloads : List Payload} {fuel : Nat}
    (cut : chunks.flatten = payloads.flatMap (Payload.frame prost))
    (enough : chunks.flatten.length < fuel) (k : Nat) :
    let whole := received canonical wire (chunks.take k).flatten.length payloads
    Delivers (decodeFrame prost wire) fuel (chunks.take k)
        (whole.filterMap (Payload.message wire)) ↔
      Timely canonical wire (chunks.take k) whole := by
  intro whole
  have part : (chunks.take k).flatten <+: chunks.flatten := (List.take_prefix k chunks).flatten
  have front : (chunks.take k).flatten <+: (framing canonical wire).stream payloads := by
    rwa [cut] at part
  obtain ⟨tail, unfinished, same⟩ := (framing canonical wire).received_cut front
  exact (framing canonical wire).delivers_iff unfinished same
    (Nat.lt_of_le_of_lt part.length_le enough)

end Skipping

/-- A bad frame holds back what is behind it until the next chunk. The messages of the good
    frames are delivered exactly when there are enough chunks for that. -/
theorem bad_frames_iff {prost : Prost} (canonical : prost.Canonical)
    (payloads : List Payload) (chunks : List (List UInt8)) (fuel : Nat)
    (cut : chunks.flatten = payloads.flatMap (Payload.frame prost))
    (enough : chunks.flatten.length < fuel) :
    ((Delivers (Driver.decode prost) fuel chunks
          (payloads.filterMap (Payload.message prost.gaCmdIn)) ↔
        Timely canonical prost.gaCmdIn chunks payloads) ∧
      ∀ k, let whole := received canonical prost.gaCmdIn (chunks.take k).flatten.length payloads
        (Delivers (Driver.decode prost) fuel (chunks.take k)
            (whole.filterMap (Payload.message prost.gaCmdIn)) ↔
          Timely canonical prost.gaCmdIn (chunks.take k) whole)) ∧
    ((Delivers (GuestAgent.decode prost) fuel chunks
          (payloads.filterMap (Payload.message prost.gaCmdOut)) ↔
        Timely canonical prost.gaCmdOut chunks payloads) ∧
      ∀ k, let whole := received canonical prost.gaCmdOut (chunks.take k).flatten.length payloads
        (Delivers (GuestAgent.decode prost) fuel (chunks.take k)
            (whole.filterMap (Payload.message prost.gaCmdOut)) ↔
          Timely canonical prost.gaCmdOut (chunks.take k) whole)) :=
  ⟨⟨delivered_iff_timely canonical cut enough, so_far_iff_timely canonical cut enough⟩,
    ⟨delivered_iff_timely canonical cut enough, so_far_iff_timely canonical cut enough⟩⟩

def badThenPong : List Payload := [⟨[255], by decide⟩, ⟨[10, 0], by decide⟩]

/-- In two chunks the pong is delivered. -/
theorem pong_in_two_chunks :
    Delivers (Driver.decode sample) 9 [[1, 255, 2], [10, 0]] [.pong] := by
  have timely : Timely sample_canonical sample.gaCmdIn [[1, 255, 2], [10, 0]] badThenPong := by
    decide +kernel
  exact (bad_frames_iff sample_canonical badThenPong [[1, 255, 2], [10, 0]] 9 rfl
    (by decide)).1.1.mpr timely

/-- In one chunk it waits for whatever comes next. -/
theorem pong_held_back :
    ¬ Delivers (Driver.decode sample) 9 [badThenPong.flatMap (Payload.frame sample)]
      (badThenPong.filterMap (Payload.message sample.gaCmdIn)) := by
  rintro ⟨rest, delivered⟩
  have nothing : feed (Driver.decode sample) 9 [badThenPong.flatMap (Payload.frame sample)] [] =
      some ([], [2, 10, 0]) := by decide +kernel
  have one : badThenPong.filterMap (Payload.message sample.gaCmdIn) = [.pong] := by decide +kernel
  rw [nothing, one] at delivered
  cases delivered

end ClientpipeCodec
