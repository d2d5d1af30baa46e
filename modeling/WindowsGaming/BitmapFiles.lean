import WindowsGaming.ImageCursor
import WindowsGaming.Library.LittleEndian
import WindowsGaming.Library.Programs
import WindowsGaming.ReceivedText

/- Images from the Windows clipboard. What the clipboard holds is a bitmap file without the file
   header; a header is made up for it, and the decoder reads both as if they were one file. An image
   is put there as CF_DIB and received as CF_DIBV5, which Windows makes of it. -/
namespace BitmapFiles
open DelayRenderers ImageCursor Programs ReceivedText

inductive Request where
  | readExact (len : Nat)
  | seek (pos : SeekFrom)
  deriving DecidableEq, Repr

inductive Reply where
  | readExact (buf : Option (List UInt8))
  | seek (pos : Nat)
  deriving DecidableEq, Repr

/-- The loop of `Read::read_exact`: it ends with nothing left to fill or with an empty read, and
    every other round fills something. -/
def fillRest : Nat → Nat → MultiCursor → Option (MultiCursor × List UInt8)
  | 0, _, c => some (c, [])
  | rounds + 1, left, c =>
    if left = 0 then some (c, [])
    else (c.read left).bind fun (next, buf) =>
      if buf = [] then some (next, [])
      else (fillRest rounds (left - buf.length) next).map fun (last, rest) => (last, buf ++ rest)

def readExact (len : Nat) (c : MultiCursor) : Option (MultiCursor × Option (List UInt8)) :=
  (fillRest len len c).map fun (next, buf) => (next, if buf.length = len then some buf else none)

def readStep (c : MultiCursor) : Request → Option (MultiCursor × Reply)
  | .readExact len => (readExact len c).map fun (next, buf) => (next, .readExact buf)
  | .seek pos => (c.seek pos).map fun (next, pos) => (next, .seek pos)

/-- Anything that fills whole buffers and seeks. -/
def Decoder (Image : Type) := Program Request Reply (Option Image)

structure FileHeader where
  bfType : UInt16
  bfSize : UInt32
  bfReserved1 : UInt16
  bfReserved2 : UInt16
  bfOffBits : UInt32
  deriving DecidableEq, Repr

def FileHeader.bytes (hdr : FileHeader) : List UInt8 :=
  LittleEndian.encode 2 hdr.bfType.toNat ++ LittleEndian.encode 4 hdr.bfSize.toNat ++
    LittleEndian.encode 2 hdr.bfReserved1.toNat ++ LittleEndian.encode 2 hdr.bfReserved2.toNat ++
      LittleEndian.encode 4 hdr.bfOffBits.toNat

def fileHeaderSize : Nat := 14

structure V5Header where
  bV5Size : UInt32
  bV5Compression : UInt32
  bV5SizeImage : UInt32
  bV5ClrUsed : UInt32
  deriving DecidableEq, Repr

def u32At (offset : Nat) (mem : List UInt8) : Option UInt32 :=
  let field := (mem.drop offset).take 4
  if field.length = 4 then some (UInt32.ofNat (LittleEndian.decode field)) else none

def v5Header (mem : List UInt8) : Option V5Header := do
  some ⟨← u32At 0 mem, ← u32At 16 mem, ← u32At 20 mem, ← u32At 32 mem⟩

def biBitfields : UInt32 := 3

/-- How many entries of four bytes come between the header and the pixels: the masks count as three. -/
def V5Header.colorsUsed (v5 : V5Header) : Nat :=
  if v5.bV5Compression = biBitfields then 3 else v5.bV5ClrUsed.toNat

def synthesize (v5 : V5Header) : FileHeader :=
  let pixelsOffset := fileHeaderSize + v5.bV5Size.toNat + v5.colorsUsed * 4
  let totalSize := pixelsOffset + v5.bV5SizeImage.toNat
  { bfType := 0x4D42  -- BM
    bfSize := UInt32.ofNat totalSize
    bfReserved1 := 0
    bfReserved2 := 0
    bfOffBits := UInt32.ofNat pixelsOffset }

def cfDibV5 : UInt32 := 17

/-- `none` where a seek overflows, or where the header is not all there. -/
def receiveImage {Image : Type} (load : Decoder Image) (clipboard : Clipboard)
    (offer : ClipboardOffer) : Option (Except Error (Option Image)) :=
  match offer.receiveBytes clipboard cfDibV5 with
  | .error e => some (.error e)
  | .ok mem => (v5Header mem).bind fun v5 =>
    (run readStep load ⟨[(synthesize v5).bytes, mem], 0⟩).map fun (_, image) => .ok image

def renderImage (buf : List UInt8) : Option (UInt32 × List UInt8) :=
  if 14 ≤ buf.length then some (cfDib, buf.drop 14) else none

/-- The clipboard with a block on it, out of which Windows makes others by itself. -/
def holding (convert : List UInt8 → List UInt8) (sequenceNumber : UInt32)
    (sent : UInt32 × List UInt8) : Clipboard where
  sequenceNumber
  receiveBuffer format :=
    if format = sent.1 then .ok sent.2
    else if sent.1 = cfDib ∧ format = cfDibV5 then .ok (convert sent.2)
    else .error 0

/-- A bitmap file: the file header, which says where the pixels begin and how long the file is, the
    header with its own size and that of the pixels, the colors or masks, and the pixels. -/
structure BitmapFile where
  header : List UInt8
  colors : List UInt8
  pixels : List UInt8
  v5 : V5Header
  read : v5Header header = some v5
  ownSize : v5.bV5Size.toNat = header.length
  ownColors : colors.length = v5.colorsUsed * 4
  ownPixels : v5.bV5SizeImage.toNat = pixels.length
  small : fileHeaderSize + header.length + colors.length + pixels.length < 2 ^ 32

def BitmapFile.dib (f : BitmapFile) : List UInt8 := f.header ++ f.colors ++ f.pixels

def BitmapFile.fileHeader (f : BitmapFile) : FileHeader where
  bfType := 0x4D42
  bfSize := UInt32.ofNat (fileHeaderSize + f.dib.length)
  bfReserved1 := 0
  bfReserved2 := 0
  bfOffBits := UInt32.ofNat (fileHeaderSize + f.header.length + f.colors.length)

def BitmapFile.bytes (f : BitmapFile) : List UInt8 := f.fileHeader.bytes ++ f.dib

structure Picture where
  /-- The width, the height, the planes and the bits of a pixel. -/
  shape : List UInt8
  compression : UInt32
  colors : List UInt8
  pixels : List UInt8
  deriving DecidableEq, Repr

def BitmapFile.picture (f : BitmapFile) : Picture :=
  ⟨(f.header.drop 4).take 12, f.v5.bV5Compression, f.colors, f.pixels⟩

/-- What Windows makes of a bitmap has the same picture under a header of 124 bytes. The block may be
    larger than that. -/
def Converted (f : BitmapFile) (block : List UInt8) : Prop :=
  ∃ (g : BitmapFile) (behind : List UInt8),
    block = g.dib ++ behind ∧ g.header.length = 124 ∧ g.picture = f.picture

section Decoding
variable {Image : Type} (load : Decoder Image)

def decode (bytes : List UInt8) : Option (Option Image) := (run readStep load ⟨[bytes], 0⟩).map Prod.snd

/-- The decoder understands the longer header too, and goes by the picture alone. -/
def GoesByPicture (f : BitmapFile) : Prop :=
  ∀ (g : BitmapFile) (behind : List UInt8), g.header.length = 124 → g.picture = f.picture →
    (g.bytes ++ behind).length ≤ i64Max → decode load (g.bytes ++ behind) = decode load f.bytes

end Decoding

section Reading
variable {bufs : List (List UInt8)} {position : Nat}

theorem fillRest_eq (fits : bufs.flatten.length ≤ i64Max) {rounds left : Nat}
    (enough : left ≤ rounds) :
    fillRest rounds left ⟨bufs, position⟩ =
      some (⟨bufs, position + ((bufs.flatten.drop position).take left).length⟩,
        (bufs.flatten.drop position).take left) := by
  induction rounds generalizing left position with
  | zero =>
    obtain rfl : left = 0 := by omega
    simp [fillRest]
  | succ rounds ih =>
    rw [fillRest]
    split
    · rename_i filled
      simp [filled]
    · rename_i wanted
      obtain ⟨start, short, last⟩ := @right_read bufs position left
      rw [read_eq fits, Option.bind_some]
      generalize (fillFrom bufs position).take left = buf at start short last
      simp only
      split
      · rename_i empty
        have behind := (last empty).resolve_left wanted
        simp [empty, List.drop_eq_nil_of_le behind]
      · rename_i some_read
        have progress := List.length_pos_iff.mpr some_read
        obtain ⟨rest, whole⟩ := start
        have later : bufs.flatten.drop (position + buf.length) = rest := by
          rw [← List.drop_drop, ← whole, List.drop_left]
        have joined : (bufs.flatten.drop position).take left =
            buf ++ rest.take (left - buf.length) := by
          rw [← whole, List.take_append, List.take_of_length_le short]
        rw [ih (by omega), later, joined, List.length_append, Option.map_some, Nat.add_assoc]

def sought (total position : Nat) : SeekFrom → Option Nat
  | .start i => some i
  | .current i => (addI64 (asI64 position) i).map asU64
  | .fromEnd i => if total ≤ i64Max then (addI64 total i).map asU64 else none

theorem seek_eq_sought (pos : SeekFrom) (c : MultiCursor) :
    c.seek pos =
      (sought c.totalLen c.position pos).map fun position => ({ c with position }, position) := by
  cases pos <;> rfl

def SameFile (flat : List UInt8) (c d : MultiCursor) : Prop :=
  c.bufs.flatten = flat ∧ d.bufs.flatten = flat ∧ c.position = d.position

theorem readStep_alike {flat : List UInt8} (fits : flat.length ≤ i64Max) :
    Alike (SameFile flat) readStep readStep := by
  rintro ⟨bufs, position⟩ ⟨others, _⟩ op ⟨rfl, same, rfl⟩
  have fits' : others.flatten.length ≤ i64Max := by rwa [same]
  cases op with
  | readExact len =>
    simp only [readStep, readExact, fillRest_eq fits (Nat.le_refl len),
      fillRest_eq fits' (Nat.le_refl len), Option.map_some, same]
    exact .some ⟨⟨rfl, same, rfl⟩, rfl⟩
  | seek pos =>
    simp only [readStep, seek_eq_sought, totalLen_eq, same]
    cases sought bufs.flatten.length position pos with
    | none => exact .none
    | some target => exact .some ⟨⟨rfl, same, rfl⟩, rfl⟩

end Reading

section Headers
variable {mem : List UInt8} {offset : Nat}

theorem u32At_append {value : UInt32} (read : u32At offset mem = some value) (more : List UInt8) :
    u32At offset (mem ++ more) = some value := by
  unfold u32At at read ⊢
  simp only at read ⊢
  split at read
  · rename_i whole
    have inside : offset ≤ mem.length := by
      rw [List.length_take, List.length_drop] at whole
      omega
    have enough : 4 ≤ (mem.drop offset).length := by
      rw [List.length_take] at whole
      omega
    rw [List.drop_append_of_le_length inside, List.take_append_of_le_length enough, if_pos whole]
    exact read
  · cases read

theorem v5Header_append {v5 : V5Header} (said : v5Header mem = some v5) (more : List UInt8) :
    v5Header (mem ++ more) = some v5 := by
  simp only [v5Header, Option.bind_eq_bind, Option.bind_eq_some_iff, Option.some.injEq] at said ⊢
  obtain ⟨size, at_0, compression, at_16, image, at_20, colors, at_32, rfl⟩ := said
  exact ⟨size, u32At_append at_0 more, compression, u32At_append at_16 more, image,
    u32At_append at_20 more, colors, u32At_append at_32 more, rfl⟩

theorem length_bytes (hdr : FileHeader) : hdr.bytes.length = fileHeaderSize := by
  simp [FileHeader.bytes, fileHeaderSize]

theorem length_dib (f : BitmapFile) :
    f.dib.length = f.header.length + f.colors.length + f.pixels.length := by
  simp [BitmapFile.dib, Nat.add_assoc]

theorem synthesize_eq (f : BitmapFile) : synthesize f.v5 = f.fileHeader := by
  simp only [synthesize, BitmapFile.fileHeader, length_dib, f.ownSize, ← f.ownColors, f.ownPixels,
    Nat.add_assoc]

theorem v5Header_dib (f : BitmapFile) : v5Header f.dib = some f.v5 := by
  rw [BitmapFile.dib, List.append_assoc]
  exact v5Header_append f.read _

end Headers

theorem renderImage_eq (f : BitmapFile) : renderImage f.bytes = some (cfDib, f.dib) := by
  have long : 14 ≤ f.bytes.length := by
    rw [BitmapFile.bytes, List.length_append, length_bytes]
    exact Nat.le_add_right _ _
  have header : f.fileHeader.bytes.length = 14 := length_bytes f.fileHeader
  rw [renderImage, if_pos long, BitmapFile.bytes, ← header, List.drop_left]

theorem receiveImage_eq {Image : Type} (load : Decoder Image) {clipboard : Clipboard}
    {offer : ClipboardOffer} (g : BitmapFile) {behind : List UInt8}
    (received : offer.receiveBytes clipboard cfDibV5 = .ok (g.dib ++ behind))
    (fits : (g.bytes ++ behind).length ≤ i64Max) :
    receiveImage load clipboard offer = (decode load (g.bytes ++ behind)).map .ok := by
  have header : v5Header (g.dib ++ behind) = some g.v5 := v5Header_append (v5Header_dib g) behind
  have same : SameFile (g.bytes ++ behind) ⟨[g.fileHeader.bytes, g.dib ++ behind], 0⟩
      ⟨[g.bytes ++ behind], 0⟩ := ⟨by simp [BitmapFile.bytes], by simp, rfl⟩
  have alike := result_eq (readStep_alike fits) load same
  unfold receiveImage
  rw [received]
  simp only [header, Option.bind_some, synthesize_eq]
  rw [decode, ← alike, Option.map_map]
  rfl

theorem receiveBytes_converted (convert : List UInt8 → List UInt8) (dib : List UInt8) (n : UInt32)
    {formats : List UInt32} (offered : cfDibV5 ∈ formats) :
    ClipboardOffer.receiveBytes (holding convert n (cfDib, dib)) cfDibV5 ⟨n, formats⟩ =
      .ok (convert dib) := by
  have other : cfDibV5 ≠ cfDib := by decide
  simp [ClipboardOffer.receiveBytes, offered, holding, other, Except.mapError]

def onePixel : BitmapFile where
  header := [40, 1, 1].flatMap (LittleEndian.encode 4) ++ [1, 24].flatMap (LittleEndian.encode 2) ++
    [0, 4, 0, 0, 0, 0].flatMap (LittleEndian.encode 4)
  colors := []
  pixels := [0x10, 0x20, 0x30, 0]
  v5 := ⟨40, 0, 4, 0⟩
  read := by decide
  ownSize := by decide
  ownColors := by decide
  ownPixels := by decide
  small := by decide

def firstPixel : Decoder (List UInt8) :=
  .call (.seek (.start 10)) fun _ => .call (.readExact 4) fun offset =>
    match offset with
    | .readExact (some offset) =>
      .call (.seek (.start (LittleEndian.decode offset))) fun _ => .call (.readExact 3) fun pixel =>
        match pixel with
        | .readExact pixel => .done pixel
        | .seek _ => .done none
    | _ => .done none

theorem readExact_eq {bytes : List UInt8} (fits : bytes.length ≤ i64Max) (position len : Nat)
    (inside : position + len ≤ bytes.length) :
    readExact len ⟨[bytes], position⟩ =
      some (⟨[bytes], position + len⟩, some ((bytes.drop position).take len)) := by
  have whole : ((bytes.drop position).take len).length = len := by
    rw [List.length_take, List.length_drop]
    omega
  rw [readExact, fillRest_eq (by simpa using fits) (Nat.le_refl len)]
  simp [whole]

theorem offset_bytes (f : BitmapFile) (more : List UInt8) :
    ((f.bytes ++ more).drop 10).take 4 = LittleEndian.encode 4 f.fileHeader.bfOffBits.toNat := by
  rw [BitmapFile.bytes, FileHeader.bytes, List.append_assoc, List.append_assoc,
    List.drop_left' (by simp), List.take_left' (by simp)]

theorem pixels_bytes (f : BitmapFile) (more : List UInt8) :
    (f.bytes ++ more).drop f.fileHeader.bfOffBits.toNat = f.pixels ++ more := by
  have small := f.small
  have offset : f.fileHeader.bfOffBits.toNat =
      (f.fileHeader.bytes ++ f.header ++ f.colors).length := by
    rw [List.length_append, List.length_append, length_bytes]
    exact Nat.mod_eq_of_lt (by omega)
  have split : f.bytes ++ more =
      f.fileHeader.bytes ++ f.header ++ f.colors ++ (f.pixels ++ more) := by
    simp [BitmapFile.bytes, BitmapFile.dib]
  rw [offset, split, List.drop_left]

theorem firstPixel_eq (f : BitmapFile) (more : List UInt8) (pixel : 3 ≤ f.pixels.length)
    (fits : (f.bytes ++ more).length ≤ i64Max) :
    decode firstPixel (f.bytes ++ more) = some (some (f.pixels.take 3)) := by
  have behind := congrArg List.length (pixels_bytes f more)
  rw [List.length_drop, @List.length_append _ f.pixels more] at behind
  have header : 10 + 4 ≤ (f.bytes ++ more).length := by
    rw [BitmapFile.bytes, List.append_assoc, List.length_append, length_bytes]
    exact Nat.le_add_right _ _
  have inside : f.fileHeader.bfOffBits.toNat + 3 ≤ (f.bytes ++ more).length := by omega
  have offset : LittleEndian.decode (LittleEndian.encode 4 f.fileHeader.bfOffBits.toNat) =
      f.fileHeader.bfOffBits.toNat := LittleEndian.decode_encode _ _ f.fileHeader.bfOffBits.toNat_lt
  simp [decode, firstPixel, run, readStep, MultiCursor.seek, readExact_eq fits _ _ header,
    offset_bytes, offset, readExact_eq fits _ _ inside, pixels_bytes,
    List.take_append_of_le_length pixel]

theorem firstPixel_goes (f : BitmapFile) (pixel : 3 ≤ f.pixels.length)
    (fits : f.bytes.length ≤ i64Max) : GoesByPicture firstPixel f := by
  intro g behind _ same room
  have pixels : g.pixels = f.pixels := congrArg Picture.pixels same
  have alone := firstPixel_eq f [] pixel (by simpa using fits)
  rw [List.append_nil] at alone
  rw [firstPixel_eq g behind (by rwa [pixels]) room, pixels, alone]

/-- No masks, and the colors are those of LCS_sRGB, for LCS_GM_IMAGES. -/
def colorSpace : List UInt8 :=
  List.replicate 16 0 ++ LittleEndian.encode 4 0x73524742 ++ List.replicate 48 0 ++
    LittleEndian.encode 4 4 ++ List.replicate 12 0

def lengthen (dib : List UInt8) : List UInt8 :=
  LittleEndian.encode 4 124 ++ (dib.drop 4).take 36 ++ colorSpace ++ dib.drop 40 ++ [0, 0]

def onePixelLengthened : BitmapFile where
  header := LittleEndian.encode 4 124 ++ (onePixel.header.drop 4).take 36 ++ colorSpace
  colors := []
  pixels := onePixel.pixels
  v5 := ⟨124, 0, 4, 0⟩
  read := by decide
  ownSize := by decide
  ownColors := by decide
  ownPixels := by decide
  small := by decide

end BitmapFiles
