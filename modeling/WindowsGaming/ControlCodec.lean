import WindowsGaming.Library.ChunkedDecoder
import WindowsGaming.Library.LittleEndian
import WindowsGaming.Protocol

/- Control requests as bytes. The table of the program that sends them and the table of the
   driver that reads them are written by hand, each in its own crate. -/
namespace ControlCodec
open Protocol ChunkedDecoder

def getI32Le (buf : List UInt8) : Int32 :=
  ⟨⟨BitVec.ofNat 32 (LittleEndian.decode (buf.take 4))⟩⟩

def putI32Le (n : Int32) : List UInt8 := LittleEndian.encode 4 n.toBitVec.toNat

def front (buf : List UInt8) : Option (ControlCmdIn × Nat) :=
  match buf.head?.map UInt8.toNat with
  | some 1 => some (.ioEntry, 1)
  | some 2 => some (.shutdown, 1)
  | some 3 => some (.forceIoEntry, 1)
  | some 4 => some (.ioExit, 1)
  | some 5 => some (.suspend, 1)
  | some 6 => some (.tryIoEntry, 1)
  | some 7 => some (.lightEntry, 1)
  | some 8 =>
    if buf.length < 9 then none
    else some (.temporaryLightEntry (getI32Le (buf.drop 1)) (getI32Le (buf.drop 5)), 9)
  | some 9 => some (.enterBackupMode, 1)
  | some 10 => some (.leaveBackupMode, 1)
  | some _ => none
  | none => none

/-- Decoding never fails: what is not a command yet, or never will be, stays in the buffer. -/
def decode (buf : List UInt8) : Option (Option ControlCmdIn × List UInt8) :=
  match front buf with
  | some (cmd, size) => some (some cmd, buf.drop size)
  | none => some (none, buf)

/-- The byte the command line writes for a request; it panics on a temporary entry. -/
def controlSend : ControlCmdIn → Option UInt8
  | .ioEntry => some 1
  | .tryIoEntry => some 6
  | .lightEntry => some 7
  | .shutdown => some 2
  | .forceIoEntry => some 3
  | .ioExit => some 4
  | .suspend => some 5
  | .temporaryLightEntry _ _ => none
  | .enterBackupMode => some 9
  | .leaveBackupMode => some 10

def encode (cmd : ControlCmdIn) : List UInt8 :=
  match cmd with
  | .temporaryLightEntry x y => 8 :: (putI32Le x ++ putI32Le y)
  | _ => (controlSend cmd).toList

theorem length_putI32Le (n : Int32) : (putI32Le n).length = 4 := by simp [putI32Le]

theorem getI32Le_putI32Le (n : Int32) (rest : List UInt8) : getI32Le (putI32Le n ++ rest) = n := by
  have fits : n.toBitVec.toNat < 256 ^ 4 := n.toBitVec.isLt
  unfold getI32Le
  rw [List.take_append_of_le_length (by rw [length_putI32Le]),
    List.take_of_length_le (by rw [length_putI32Le])]
  unfold putI32Le
  rw [LittleEndian.decode_encode 4 _ fits, BitVec.ofNat_toNat, BitVec.setWidth_eq]
  rfl

theorem putI32Le_getI32Le {buf : List UInt8} (four : 4 ≤ buf.length) :
    putI32Le (getI32Le buf) = buf.take 4 := by
  have length : (buf.take 4).length = 4 := by
    rw [List.length_take]
    omega
  have fits := LittleEndian.decode_lt (buf.take 4)
  have back := LittleEndian.encode_decode (buf.take 4)
  rw [length] at fits back
  have value : (getI32Le buf).toBitVec.toNat = LittleEndian.decode (buf.take 4) := by
    change (BitVec.ofNat 32 (LittleEndian.decode (buf.take 4))).toNat = _
    rw [BitVec.toNat_ofNat]
    exact Nat.mod_eq_of_lt fits
  unfold putI32Le
  rw [value]
  exact back

theorem decode_encode (cmd : ControlCmdIn) (rest : List UInt8) :
    decode (encode cmd ++ rest) = some (some cmd, rest) := by
  cases cmd with
  | temporaryLightEntry x y =>
    have long : ¬ (8 :: (putI32Le x ++ putI32Le y) ++ rest).length < 9 := by
      simp only [List.cons_append, List.length_cons, List.length_append, length_putI32Le]
      omega
    have second : (putI32Le x ++ (putI32Le y ++ rest)).drop 4 = putI32Le y ++ rest :=
      List.drop_left' (length_putI32Le x)
    have behind : (putI32Le x ++ (putI32Le y ++ rest)).drop 8 = rest := by
      rw [← List.append_assoc]
      exact List.drop_left' (by simp [length_putI32Le])
    have found : front (8 :: (putI32Le x ++ putI32Le y) ++ rest) =
        some (.temporaryLightEntry x y, 9) := by
      unfold front
      change (if _ then none else some (_, 9)) = _
      rw [if_neg long]
      simp only [List.cons_append, List.append_assoc, List.drop_succ_cons, List.drop_zero, second,
        getI32Le_putI32Le]
    unfold decode encode
    rw [found]
    simp [behind]
  | _ => rfl

theorem encode_ne_nil (cmd : ControlCmdIn) : encode cmd ≠ [] := by
  cases cmd <;> simp [encode, controlSend]

theorem front_long {tail : List UInt8} (long : ¬ (8 :: tail).length < 9) :
    encode (.temporaryLightEntry (getI32Le tail) (getI32Le (tail.drop 4))) ++ tail.drop 8 =
      8 :: tail := by
  rw [List.length_cons] at long
  have first : putI32Le (getI32Le tail) = tail.take 4 := putI32Le_getI32Le (by omega)
  have second : putI32Le (getI32Le (tail.drop 4)) = (tail.drop 4).take 4 :=
    putI32Le_getI32Le (by rw [List.length_drop]; omega)
  have behind : tail.drop 8 = (tail.drop 4).drop 4 := by rw [List.drop_drop]
  simp only [encode]
  rw [first, second, behind, List.cons_append, List.append_assoc, List.take_append_drop,
    List.take_append_drop]

theorem front_found {buf : List UInt8} {cmd : ControlCmdIn} {size : Nat}
    (found : front buf = some (cmd, size)) : buf = encode cmd ++ buf.drop size := by
  cases buf with
  | nil => simp [front] at found
  | cons b tail =>
    have byte : ∀ n, some b.toNat = some n → b = UInt8.ofNat n := by
      intro n same
      rw [← Option.some.inj same, UInt8.ofNat_toNat]
    simp only [front, List.head?_cons, Option.map_some] at found
    split at found
    case h_8 eight =>
      rw [byte 8 eight] at found ⊢
      split at found
      · cases found
      · rename_i long
        cases found
        exact (front_long long).symm
    case h_11 => cases found
    case h_12 => cases found
    all_goals
      rename_i opcode
      cases found
      rw [byte _ opcode]
      rfl

theorem decode_found {buf rest : List UInt8} {cmd : ControlCmdIn}
    (found : decode buf = some (some cmd, rest)) : buf = encode cmd ++ rest := by
  unfold decode at found
  split at found
  · rename_i taken
    cases found
    exact front_found taken
  · cases found

theorem decode_iff (buf rest : List UInt8) (cmd : ControlCmdIn) :
    decode buf = some (some cmd, rest) ↔ buf = encode cmd ++ rest := by
  constructor
  · exact decode_found
  · intro cut
    rw [cut]
    exact decode_encode cmd rest

theorem decode_cases (buf : List UInt8) :
    (∃ cmd rest, decode buf = some (some cmd, rest)) ∨ decode buf = some (none, buf) := by
  unfold decode
  cases front buf with
  | none => exact Or.inr rfl
  | some taken => exact Or.inl ⟨taken.1, buf.drop taken.2, rfl⟩

theorem encode_cut {cmd other : ControlCmdIn} {rest : List UInt8}
    (cut : encode cmd = encode other ++ rest) : rest = [] := by
  have first := decode_encode cmd []
  rw [List.append_nil, cut, decode_encode] at first
  cases first
  rfl

def framing : Framing decode ControlCmdIn where
  bytes := encode
  yields := some
  nonempty := encode_ne_nil
  whole := decode_encode
  part := by
    intro cmd p part proper
    rcases decode_cases p with ⟨other, rest, found⟩ | nothing
    · obtain ⟨more, whole⟩ := part
      have cut := decode_found found
      rw [cut, List.append_assoc] at whole
      have nothing := encode_cut whole.symm
      rw [List.append_eq_nil_iff] at nothing
      rw [nothing.1, nothing.2, List.append_nil, List.append_nil] at whole
      rw [nothing.1, List.append_nil] at cut
      exact absurd (cut.trans whole) proper
    · exact nothing
  empty := rfl

/-- Requests are read as they were written, however the stream is cut, and of any buffer
    exactly a whole request at its front is taken. -/
theorem control_stream_round_trip :
    (∀ (cmds : List ControlCmdIn) (chunks : List (List UInt8)) (fuel : Nat),
      chunks.flatten = cmds.flatMap encode → chunks.flatten.length < fuel →
        feed decode fuel chunks [] = some (cmds, [])) ∧
    ∀ buf, (∀ cmd rest, decode buf = some (some cmd, rest) ↔ buf = encode cmd ++ rest) ∧
      ((∀ cmd rest, buf ≠ encode cmd ++ rest) → decode buf = some (none, buf)) := by
  refine ⟨?_, ?_⟩
  · intro cmds chunks fuel cut enough
    have all : ∀ cmd ∈ cmds, framing.good cmd = true := fun _ _ => rfl
    have fed := framing.feed_all_good all cut enough
    rwa [Framing.messages, show framing.yields = some from rfl, List.filterMap_some] at fed
  · intro buf
    refine ⟨fun cmd rest => decode_iff buf rest cmd, ?_⟩
    intro other
    rcases decode_cases buf with ⟨cmd, rest, found⟩ | nothing
    · exact absurd (decode_found found) (other cmd rest)
    · exact nothing

theorem split_entry_read :
    feed decode 20 [[1, 8, 254, 255], [255, 255, 7, 0], [0, 0, 4]] [] =
      some ([.ioEntry, .temporaryLightEntry (-2) 7, .ioExit], []) :=
  control_stream_round_trip.1 _ _ _ (by decide) (by decide)

end ControlCodec
