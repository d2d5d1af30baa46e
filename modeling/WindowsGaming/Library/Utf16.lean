import WindowsGaming.Library.LittleEndian

/- Text as UTF-16 code units. Decoding is lossy: a surrogate that is not half of a pair becomes a
   replacement character. -/
namespace Utf16

def replacement : Char := '\uFFFD'

def isLeading (u : UInt16) : Prop := 0xD800 ≤ u.toNat ∧ u.toNat < 0xDC00

def isTrailing (u : UInt16) : Prop := 0xDC00 ≤ u.toNat ∧ u.toNat < 0xE000

instance : DecidablePred isLeading := fun _ => inferInstanceAs (Decidable (_ ∧ _))

instance : DecidablePred isTrailing := fun _ => inferInstanceAs (Decidable (_ ∧ _))

def combine (lead trail : UInt16) : Char :=
  Char.ofNat (0x10000 + (lead.toNat - 0xD800) * 0x400 + (trail.toNat - 0xDC00))

def single (u : UInt16) : Char :=
  if isLeading u ∨ isTrailing u then replacement else Char.ofNat u.toNat

def encodeChar (c : Char) : List UInt16 :=
  if c.toNat < 0x10000 then [UInt16.ofNat c.toNat]
  else
    let n := c.toNat - 0x10000
    [UInt16.ofNat (0xD800 + n / 0x400), UInt16.ofNat (0xDC00 + n % 0x400)]

def encode (cs : List Char) : List UInt16 := cs.flatMap encodeChar

def decodeLossy : List UInt16 → List Char
  | [] => []
  | [u] => [single u]
  | u :: v :: rest =>
    if isLeading u ∧ isTrailing v then combine u v :: decodeLossy rest
    else single u :: decodeLossy (v :: rest)

def toLeBytes (units : List UInt16) : List UInt8 :=
  units.flatMap fun u => LittleEndian.encode 2 u.toNat

/-- The units of some bytes; a last byte without a partner is not looked at. -/
def ofLeBytes : List UInt8 → List UInt16
  | low :: high :: rest => UInt16.ofNat (LittleEndian.decode [low, high]) :: ofLeBytes rest
  | _ => []

section Characters
variable {c : Char}

theorem decodeLossy_single {u : UInt16} (unpaired : ¬ isLeading u) (rest : List UInt16) :
    decodeLossy (u :: rest) = single u :: decodeLossy rest := by
  cases rest with
  | nil => rfl
  | cons v rest => rw [decodeLossy, if_neg fun pair => unpaired pair.1]

theorem toNat_cases (c : Char) :
    c.toNat < 0xD800 ∨ 0xE000 ≤ c.toNat ∧ c.toNat < 0x10000 ∨
      0x10000 ≤ c.toNat ∧ c.toNat < 0x110000 := by
  have valid : c.toNat.isValidChar := c.valid
  unfold Nat.isValidChar at valid
  omega

theorem decode_basic (basic : c.toNat < 0x10000) (rest : List UInt16) :
    decodeLossy (UInt16.ofNat c.toNat :: rest) = c :: decodeLossy rest := by
  have value : (UInt16.ofNat c.toNat).toNat = c.toNat := UInt16.toNat_ofNat_of_lt' basic
  have plain : ¬ (isLeading (UInt16.ofNat c.toNat) ∨ isTrailing (UInt16.ofNat c.toNat)) := by
    have := toNat_cases c
    unfold isLeading isTrailing
    rw [value]
    omega
  rw [decodeLossy_single fun leading => plain (Or.inl leading), single, if_neg plain, value,
    Char.ofNat_toNat]

theorem decode_pair (high : 0x10000 ≤ c.toNat) (rest : List UInt16) :
    decodeLossy (UInt16.ofNat (0xD800 + (c.toNat - 0x10000) / 0x400) ::
      UInt16.ofNat (0xDC00 + (c.toNat - 0x10000) % 0x400) :: rest) = c :: decodeLossy rest := by
  have bound := toNat_cases c
  have lead : (UInt16.ofNat (0xD800 + (c.toNat - 0x10000) / 0x400)).toNat =
      0xD800 + (c.toNat - 0x10000) / 0x400 := by
    apply UInt16.toNat_ofNat_of_lt'
    change _ < 65536
    omega
  have trail : (UInt16.ofNat (0xDC00 + (c.toNat - 0x10000) % 0x400)).toNat =
      0xDC00 + (c.toNat - 0x10000) % 0x400 := by
    apply UInt16.toNat_ofNat_of_lt'
    change _ < 65536
    omega
  have paired : isLeading (UInt16.ofNat (0xD800 + (c.toNat - 0x10000) / 0x400)) ∧
      isTrailing (UInt16.ofNat (0xDC00 + (c.toNat - 0x10000) % 0x400)) := by
    unfold isLeading isTrailing
    rw [lead, trail]
    omega
  have whole : 0x10000 + (0xD800 + (c.toNat - 0x10000) / 0x400 - 0xD800) * 0x400 +
      (0xDC00 + (c.toNat - 0x10000) % 0x400 - 0xDC00) = c.toNat := by omega
  rw [decodeLossy, if_pos paired, combine, lead, trail, whole, Char.ofNat_toNat]

theorem decode_encodeChar (c : Char) (rest : List UInt16) :
    decodeLossy (encodeChar c ++ rest) = c :: decodeLossy rest := by
  unfold encodeChar
  split
  · rename_i basic
    exact decode_basic basic rest
  · rename_i high
    exact decode_pair (Nat.le_of_not_lt high) rest

end Characters

theorem decode_encode (cs : List Char) (rest : List UInt16) :
    decodeLossy (encode cs ++ rest) = cs ++ decodeLossy rest := by
  induction cs with
  | nil => rfl
  | cons c cs ih =>
    rw [encode, List.flatMap_cons, List.append_assoc, decode_encodeChar, List.cons_append]
    exact congrArg _ ih

theorem ofLeBytes_toLeBytes (units : List UInt16) (rest : List UInt8) :
    ofLeBytes (toLeBytes units ++ rest) = units ++ ofLeBytes rest := by
  induction units with
  | nil => rfl
  | cons u units ih =>
    have whole := LittleEndian.decode_encode 2 u.toNat (by simpa using u.toNat_lt)
    rw [toLeBytes, List.flatMap_cons, List.append_assoc]
    change UInt16.ofNat (LittleEndian.decode (LittleEndian.encode 2 u.toNat)) ::
      ofLeBytes (toLeBytes units ++ rest) = _
    rw [whole, UInt16.ofNat_toNat, ih, List.cons_append]

theorem ofLeBytes_eq_nil_iff {bytes : List UInt8} : ofLeBytes bytes = [] ↔ bytes.length ≤ 1 := by
  match bytes with
  | [] => simp [ofLeBytes]
  | [_] => simp [ofLeBytes]
  | _ :: _ :: _ => simp [ofLeBytes]

end Utf16
