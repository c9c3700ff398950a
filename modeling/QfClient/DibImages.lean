import QfClient.LocalClipboard

/-!
# Device-independent bitmaps

An image crosses the wire as a BMP file without its first 14 bytes. `imageFromDib` puts
a file header back in front of what arrives, and has to work out for it where the
pixels start. `pixelStart` is where they do start, by the kind of the info header.
-/

namespace QfClient

open LittleEndian

structure DibHeader where
  headerSize : UInt32
  bitCount : UInt16
  compression : UInt32
  colorUsed : UInt32
  deriving DecidableEq, Repr

def dibHeader (dib : Bytes) : DibHeader :=
  let headerSize := uint32At dib 0
  if 40 ≤ headerSize ∧ 40 ≤ dib.length then
    ⟨headerSize, uint16At dib 14, uint32At dib 16, uint32At dib 32⟩
  else ⟨headerSize, 0, 0, 0⟩

namespace DibHeader

variable (header : DibHeader)

def colorTableBytes : UInt32 :=
  if 0 < header.colorUsed then header.colorUsed * 4
  else if 0 < header.bitCount ∧ header.bitCount ≤ 8 then (1 <<< header.bitCount.toUInt32) * 4
  else 0

def bitfieldsBytes : UInt32 := if header.headerSize = 40 ∧ header.compression = 3 then 12 else 0

def pixelOffset : UInt32 :=
  14 + header.headerSize + header.bitfieldsBytes + header.colorTableBytes

end DibHeader

def dibFileSize (dib : Bytes) : UInt32 := 14 + UInt32.ofNat dib.length

def bmpFileHeader (fileSize pixelOffset : UInt32) : Bytes :=
  [0x42, 0x4D] ++ leUInt32 fileSize ++ leUInt16 0 ++ leUInt16 0 ++ leUInt32 pixelOffset

/-- The BMP file that `imageFromDib` builds, unless it rejects the bytes. -/
def bmpFromDib (dib : Bytes) : Option Bytes :=
  if dib.length < 40 then none
  else
    let header := dibHeader dib
    if header.headerSize < 12 ∨ dib.length < header.headerSize.toNat then none
    else some (bmpFileHeader (dibFileSize dib) header.pixelOffset ++ dib)

/-- `fromData` is `QImage::fromData` for the format BMP. -/
def imageFromDib (fromData : Bytes → QImage) (dib : Bytes) : QImage :=
  match bmpFromDib dib with
  | none => ⟨true, none, none⟩
  | some bmp => fromData bmp

variable {dib bmp : Bytes} {fileSize pixelOffset : UInt32}

@[simp] theorem length_bmpFileHeader (fileSize pixelOffset : UInt32) :
    (bmpFileHeader fileSize pixelOffset).length = 14 := by
  simp [bmpFileHeader]

theorem uint32At_bmpFileHeader (fileSize pixelOffset : UInt32) (dib : Bytes) :
    uint32At (bmpFileHeader fileSize pixelOffset ++ dib) 2 = fileSize ∧
      uint32At (bmpFileHeader fileSize pixelOffset ++ dib) 10 = pixelOffset := by
  have hsize : bmpFileHeader fileSize pixelOffset ++ dib = [0x42, 0x4D] ++
      (leUInt32 fileSize ++ (leUInt16 0 ++ leUInt16 0 ++ leUInt32 pixelOffset ++ dib)) := by
    simp only [bmpFileHeader, List.append_assoc]
  have hoffset : bmpFileHeader fileSize pixelOffset ++ dib =
      ([0x42, 0x4D] ++ leUInt32 fileSize ++ leUInt16 0 ++ leUInt16 0) ++
        (leUInt32 pixelOffset ++ dib) := by
    simp only [bmpFileHeader, List.append_assoc]
  constructor
  · have hmagic : ([0x42, 0x4D] : Bytes).length = 2 := rfl
    rw [hsize, uint32At_append _ hmagic, uint32At_zero]
  · rw [hoffset, uint32At_append _ (by simp), uint32At_zero]

@[simp] theorem dibHeader_headerSize (dib : Bytes) :
    (dibHeader dib).headerSize = uint32At dib 0 := by
  simp only [dibHeader]
  split_ifs <;> rfl

theorem bmpFromDib_eq (hsize : 40 ≤ dib.length) (hmin : 12 ≤ uint32At dib 0)
    (hmax : (uint32At dib 0).toNat ≤ dib.length) :
    bmpFromDib dib =
      some (bmpFileHeader (dibFileSize dib) (dibHeader dib).pixelOffset ++ dib) := by
  rw [bmpFromDib, if_neg (Nat.not_lt.mpr hsize)]
  simp only [dibHeader_headerSize]
  rw [if_neg]
  rintro (hlt | hlt)
  · exact absurd hlt (UInt32.not_lt.mpr hmin)
  · omega

/-- The size of the file is that of the bytes and the file header. -/
theorem toNat_dibFileSize (hlen : dib.length < 2 ^ 32 - 14) :
    (dibFileSize dib).toNat = 14 + dib.length := by
  have hofNat : (UInt32.ofNat dib.length).toNat = dib.length :=
    UInt32.toNat_ofNat_of_lt' (lt_of_lt_of_le hlen (by decide))
  rw [dibFileSize, UInt32.toNat_add, hofNat]
  have hfourteen : (14 : UInt32).toNat = 14 := rfl
  omega

def paletteEntries (biClrUsed : UInt32) (biBitCount : UInt16) : ℕ :=
  if biClrUsed ≠ 0 then biClrUsed.toNat
  else if biBitCount ≤ 8 then 2 ^ biBitCount.toNat else 0

/-- The start of the pixel array, for an info header of 40 bytes or more and for a
core header of 12 bytes. -/
def pixelStart (dib : Bytes) : Option ℕ :=
  let biSize := uint32At dib 0
  if 40 ≤ biSize then
    some (biSize.toNat + (if biSize = 40 ∧ uint32At dib 16 = 3 then 12 else 0) +
      4 * paletteEntries (uint32At dib 32) (uint16At dib 14))
  else if biSize = 12 then some (12 + 3 * paletteEntries 0 (uint16At dib 10))
  else none

structure DibHeader.NoWrap (header : DibHeader) : Prop where
  colors : 0 < header.colorUsed → header.colorUsed.toNat * 4 < 2 ^ 32
  offset : 14 + header.headerSize.toNat + header.bitfieldsBytes.toNat +
    header.colorTableBytes.toNat < 2 ^ 32

structure LeadsToPixels (dib bmp : Bytes) : Prop where
  bfOffBits : ∃ start, pixelStart dib = some start ∧ (uint32At bmp 10).toNat = 14 + start
  inside : uint32At bmp 10 ≤ uint32At bmp 2
  offset : (dibHeader dib).NoWrap
  size : 14 + dib.length < 2 ^ 32

def DibRejected (dib : Bytes) : Prop :=
  dib.length < 40 ∨ uint32At dib 0 < 12 ∨ dib.length < (uint32At dib 0).toNat

/-- An info header whose pixels start inside the bytes, and which has a bit count or a
number of colours, or a core header without a palette. -/
def PixelsFound (dib : Bytes) : Prop :=
  (40 ≤ uint32At dib 0 ∧ (uint32At dib 32 = 0 → uint16At dib 14 ≠ 0) ∧
      ∃ start, pixelStart dib = some start ∧ start ≤ dib.length) ∨
    (uint32At dib 0 = 12 ∧ 8 < uint16At dib 10)

theorem bmpFromDib_rejected (h : DibRejected dib) : bmpFromDib dib = none := by
  unfold bmpFromDib
  simp only [dibHeader_headerSize]
  rcases h with hshort | hheader
  · rw [if_pos hshort]
  · split_ifs
    · rfl
    · rfl

variable {header : DibHeader}

theorem toNat_pixelOffset (h : header.NoWrap) :
    header.pixelOffset.toNat =
      14 + header.headerSize.toNat + header.bitfieldsBytes.toNat +
        header.colorTableBytes.toNat := by
  have hoffset := h.offset
  have hfourteen : (14 : UInt32).toNat = 14 := rfl
  rw [DibHeader.pixelOffset, UInt32.toNat_add, UInt32.toNat_add, UInt32.toNat_add, hfourteen]
  omega

theorem toNat_default_palette {bitCount : UInt16} (h : bitCount ≤ 8) :
    ((1 <<< bitCount.toUInt32) * 4 : UInt32).toNat = 4 * 2 ^ bitCount.toNat := by
  have hbits : bitCount.toNat ≤ 8 := UInt16.le_iff_toNat_le.mp h
  have hpow : 2 ^ bitCount.toNat ≤ 2 ^ 8 := Nat.pow_le_pow_right (by decide) hbits
  have hone : (1 : UInt32).toNat = 1 := rfl
  have hfour : (4 : UInt32).toNat = 4 := rfl
  rw [UInt32.toNat_mul, UInt32.toNat_shiftLeft, UInt16.toNat_toUInt32, hone, hfour,
    Nat.mod_eq_of_lt (by omega : bitCount.toNat < 32), Nat.one_shiftLeft]
  omega

/-- The palette is counted right, unless the header has neither a bit count nor a
number of colours. -/
theorem toNat_colorTableBytes (hcolors : header.colorUsed.toNat * 4 < 2 ^ 32)
    (hbits : header.colorUsed = 0 → header.bitCount ≠ 0) :
    header.colorTableBytes.toNat = 4 * paletteEntries header.colorUsed header.bitCount := by
  unfold DibHeader.colorTableBytes paletteEntries
  by_cases hused : header.colorUsed = 0
  · rw [hused, if_neg (UInt32.lt_irrefl 0), if_neg (not_not_intro rfl)]
    have hpos : 0 < header.bitCount := UInt16.pos_iff_ne_zero.mpr (hbits hused)
    by_cases hle : header.bitCount ≤ 8
    · rw [if_pos ⟨hpos, hle⟩, if_pos hle]
      exact toNat_default_palette hle
    · rw [if_neg (fun h => hle h.2), if_neg hle]
      rfl
  · have hfour : (4 : UInt32).toNat = 4 := rfl
    rw [if_pos (UInt32.pos_iff_ne_zero.mpr hused), if_pos hused, UInt32.toNat_mul, hfour]
    omega

theorem dibHeader_info (hsize : 40 ≤ dib.length) (hinfo : 40 ≤ uint32At dib 0) :
    dibHeader dib =
      ⟨uint32At dib 0, uint16At dib 14, uint32At dib 16, uint32At dib 32⟩ :=
  if_pos ⟨hinfo, hsize⟩

theorem dibHeader_small (hinfo : ¬ 40 ≤ uint32At dib 0) :
    dibHeader dib = ⟨uint32At dib 0, 0, 0, 0⟩ := if_neg (fun h => hinfo h.1)

theorem pixelStart_info (hsize : 40 ≤ dib.length) (hinfo : 40 ≤ uint32At dib 0) :
    pixelStart dib = some ((uint32At dib 0).toNat + (dibHeader dib).bitfieldsBytes.toNat +
      4 * paletteEntries (uint32At dib 32) (uint16At dib 14)) := by
  rw [dibHeader_info hsize hinfo]
  simp only [pixelStart, if_pos hinfo, DibHeader.bitfieldsBytes]
  split_ifs <;> rfl

/-- An info header whose pixels start inside the bytes. -/
theorem leadsToPixels_info (hlen : dib.length < 2 ^ 32 - 14) (hsize : 40 ≤ dib.length)
    (hinfo : 40 ≤ uint32At dib 0) (hbits : uint32At dib 32 = 0 → uint16At dib 14 ≠ 0) {start : ℕ}
    (hstart : pixelStart dib = some start) (hinside : start ≤ dib.length) :
    LeadsToPixels dib
      (bmpFileHeader (dibFileSize dib) (dibHeader dib).pixelOffset ++ dib) := by
  have heq := Option.some.inj (hstart.symm.trans (pixelStart_info hsize hinfo))
  have hlen' : 14 + dib.length < 2 ^ 32 := by omega
  have hcolors : 0 < uint32At dib 32 → (uint32At dib 32).toNat * 4 < 2 ^ 32 := by
    intro hpos
    rw [paletteEntries, if_pos (UInt32.pos_iff_ne_zero.mp hpos)] at heq
    omega
  have htable : (dibHeader dib).colorTableBytes.toNat =
      4 * paletteEntries (uint32At dib 32) (uint16At dib 14) := by
    rw [dibHeader_info hsize hinfo]
    refine toNat_colorTableBytes ?_ hbits
    by_cases hzero : uint32At dib 32 = 0
    · have hnone : (0 : UInt32).toNat * 4 < 2 ^ 32 := by decide
      rwa [hzero]
    · exact hcolors (UInt32.pos_iff_ne_zero.mpr hzero)
  have hnowrap : (dibHeader dib).NoWrap := by
    refine ⟨?_, ?_⟩
    · rw [dibHeader_info hsize hinfo]
      exact hcolors
    · rw [dibHeader_headerSize, htable]
      omega
  obtain ⟨hbfSize, hbfOffBits⟩ :=
    uint32At_bmpFileHeader (dibFileSize dib) (dibHeader dib).pixelOffset dib
  have hoffset : (dibHeader dib).pixelOffset.toNat = 14 + start := by
    rw [toNat_pixelOffset hnowrap, dibHeader_headerSize, htable]
    omega
  refine ⟨⟨start, hstart, ?_⟩, ?_, hnowrap, hlen'⟩
  · rw [hbfOffBits, hoffset]
  · rw [hbfSize, hbfOffBits, UInt32.le_iff_toNat_le, hoffset, toNat_dibFileSize hlen]
    omega

/-- A core header without a palette. -/
theorem leadsToPixels_core (hlen : dib.length < 2 ^ 32 - 14) (hsize : 40 ≤ dib.length)
    (hcore : uint32At dib 0 = 12) (hbits : 8 < uint16At dib 10) :
    LeadsToPixels dib
      (bmpFileHeader (dibFileSize dib) (dibHeader dib).pixelOffset ++ dib) := by
  have hheader : dibHeader dib = ⟨12, 0, 0, 0⟩ := by
    rw [dibHeader_small (by rw [hcore]; decide), hcore]
  have hstart : pixelStart dib = some 12 := by
    rw [pixelStart, hcore]
    simp only [paletteEntries, if_neg (UInt16.not_le.mpr hbits)]
    rfl
  obtain ⟨hbfSize, hbfOffBits⟩ :=
    uint32At_bmpFileHeader (dibFileSize dib) (dibHeader dib).pixelOffset dib
  refine ⟨⟨12, hstart, ?_⟩, ?_, ?_, by omega⟩
  · rw [hbfOffBits, hheader]
    rfl
  · rw [hbfSize, hbfOffBits, UInt32.le_iff_toNat_le, toNat_dibFileSize hlen, hheader]
    have htwentySix : (DibHeader.pixelOffset ⟨12, 0, 0, 0⟩).toNat = 26 := rfl
    omega
  · rw [hheader]
    exact ⟨fun h => absurd h (by decide), by decide⟩

theorem pixelsFound_of_leadsToPixels (hlen : dib.length < 2 ^ 32 - 14) (hsize : 40 ≤ dib.length)
    (h : LeadsToPixels dib
      (bmpFileHeader (dibFileSize dib) (dibHeader dib).pixelOffset ++ dib)) :
    PixelsFound dib := by
  obtain ⟨hbfSize, hbfOffBits⟩ :=
    uint32At_bmpFileHeader (dibFileSize dib) (dibHeader dib).pixelOffset dib
  obtain ⟨start, hstart, hoffset⟩ := h.bfOffBits
  have hinside := UInt32.le_iff_toNat_le.mp h.inside
  rw [hbfOffBits, toNat_pixelOffset h.offset, dibHeader_headerSize] at hoffset
  rw [hbfSize, hbfOffBits, toNat_pixelOffset h.offset, toNat_dibFileSize hlen,
    dibHeader_headerSize] at hinside
  by_cases hinfo : 40 ≤ uint32At dib 0
  · refine Or.inl ⟨hinfo, fun hused hbits => ?_, start, hstart, by omega⟩
    -- Without a bit count the palette has one entry, and none is left room for.
    have heq := Option.some.inj (hstart.symm.trans (pixelStart_info hsize hinfo))
    have htable : (dibHeader dib).colorTableBytes.toNat = 0 := by
      rw [dibHeader_info hsize hinfo, hused, hbits]
      rfl
    have hone : paletteEntries (uint32At dib 32) (uint16At dib 14) = 1 := by
      rw [hused, hbits]
      rfl
    omega
  · simp only [pixelStart, if_neg hinfo] at hstart
    split_ifs at hstart with hcore
    refine Or.inr ⟨hcore, UInt16.not_le.mp fun hbits => ?_⟩
    have hpalette : paletteEntries 0 (uint16At dib 10) = 2 ^ (uint16At dib 10).toNat := by
      rw [paletteEntries, if_neg (not_not_intro rfl), if_pos hbits]
    have hpos : 0 < 2 ^ (uint16At dib 10).toNat := Nat.two_pow_pos _
    have heq := Option.some.inj hstart
    rw [dibHeader_small hinfo, hcore] at hoffset
    have hnone : (DibHeader.bitfieldsBytes ⟨12, 0, 0, 0⟩).toNat = 0 ∧
        (DibHeader.colorTableBytes ⟨12, 0, 0, 0⟩).toNat = 0 ∧ (12 : UInt32).toNat = 12 :=
      ⟨rfl, rfl, rfl⟩
    omega

/-- The file header that is put in front of the bytes leads to the pixels if and only
if they are an info header whose pixels start inside them, with a bit count or a number
of colours, or a core header without a palette; all that the header does not fit into
is rejected. -/
theorem bmp_leads_to_pixels_iff (dib : Bytes) (hlen : dib.length < 2 ^ 32 - 14) :
    (∀ bmp, bmpFromDib dib = some bmp → LeadsToPixels dib bmp) ↔
      DibRejected dib ∨ PixelsFound dib := by
  by_cases hrejected : DibRejected dib
  · refine iff_of_true (fun bmp hbmp => ?_) (Or.inl hrejected)
    rw [bmpFromDib_rejected hrejected] at hbmp
    exact absurd hbmp (by simp)
  · unfold DibRejected at hrejected
    push Not at hrejected
    obtain ⟨hsize, hmin, hmax⟩ := hrejected
    have hbmp := bmpFromDib_eq hsize (UInt32.not_lt.mp hmin) hmax
    constructor
    · intro hall
      exact Or.inr (pixelsFound_of_leadsToPixels hlen hsize (hall _ hbmp))
    · intro hcases bmp hbmp'
      obtain rfl := Option.some.inj (hbmp.symm.trans hbmp')
      rcases hcases with hrejected | hfound
      · rw [bmpFromDib_rejected hrejected] at hbmp
        exact absurd hbmp (by simp)
      · rcases hfound with ⟨hinfo, hbits, start, hstart, hinside⟩ | ⟨hcore, hbits⟩
        · exact leadsToPixels_info hlen hsize hinfo hbits hstart hinside
        · exact leadsToPixels_core hlen hsize hcore hbits

def coreDib (bitCount : UInt8) : Bytes :=
  [12, 0, 0, 0, 2, 0, 2, 0, 1, 0, bitCount, 0] ++ List.replicate 28 0

theorem bmp_leads_to_pixels_true_colour :
    ∃ bmp, bmpFromDib (coreDib 24) = some bmp ∧ LeadsToPixels (coreDib 24) bmp := by
  have hfound : PixelsFound (coreDib 24) := Or.inr ⟨by decide, by decide⟩
  have hleads := (bmp_leads_to_pixels_iff (coreDib 24) (by decide)).mpr (Or.inr hfound)
  exact ⟨_, rfl, hleads _ rfl⟩

def manyColoursDib : Bytes :=
  [40, 0, 0, 0, 2, 0, 0, 0, 2, 0, 0, 0, 1, 0, 24, 0] ++ List.replicate 19 0 ++ [0x40] ++
    List.replicate 4 0

/-- With one bit per pixel the offset points into the palette of the core header; with
2^30 colours it points in front of the palette, whose length is taken for zero. -/
theorem bmp_does_not_lead_to_pixels :
    (∃ bmp, bmpFromDib (coreDib 1) = some bmp ∧ uint32At bmp 10 = 14 + 12 ∧
      pixelStart (coreDib 1) = some (12 + 3 * 2) ∧ ¬ LeadsToPixels (coreDib 1) bmp) ∧
    ∃ bmp, bmpFromDib manyColoursDib = some bmp ∧ uint32At bmp 10 = 14 + 40 ∧
      pixelStart manyColoursDib = some (40 + 4 * 2 ^ 30) ∧ ¬ LeadsToPixels manyColoursDib bmp := by
  constructor
  · refine ⟨_, rfl, by decide, by decide, fun h => ?_⟩
    obtain ⟨start, hstart, hoffset⟩ := h.bfOffBits
    have hstart' : pixelStart (coreDib 1) = some 18 := by decide
    obtain rfl := Option.some.inj (hstart.symm.trans hstart')
    exact absurd hoffset (by decide)
  · refine ⟨_, rfl, by decide, by decide, fun h => ?_⟩
    have hcolors := h.offset.colors (by decide)
    exact absurd hcolors (by decide)

/-- A BMP file as `QImage::save` writes it: an uncompressed bitmap with an info header
of 40 bytes, and a palette whose length is in the header. -/
structure IsQtBmp (bmp : Bytes) : Prop where
  magic : bmp.take 2 = [0x42, 0x4D]
  bfSize : (uint32At bmp 2).toNat = bmp.length
  bfReserved : uint16At bmp 6 = 0 ∧ uint16At bmp 8 = 0
  bfOffBits : (uint32At bmp 10).toNat = 54 + 4 * (uint32At bmp 46).toNat
  biSize : uint32At bmp 14 = 40
  biCompression : uint32At bmp 30 = 0
  biClrUsed : uint16At bmp 28 ≤ 8 → 0 < uint32At bmp 46
  infoHeader : 54 ≤ bmp.length

theorem IsQtBmp.take_header (h : IsQtBmp bmp) :
    bmp.take 14 = bmpFileHeader (uint32At bmp 2) (uint32At bmp 10) := by
  have hlength := h.infoHeader
  have hsplit : bmp.take 14 = bmp.take 2 ++ (bmp.drop 2).take 4 ++ (bmp.drop 6).take 2 ++
      (bmp.drop 8).take 2 ++ (bmp.drop 10).take 4 := by
    rw [← List.take_add, ← List.take_add, ← List.take_add, ← List.take_add]
  have hreserved₁ : leUInt16 0 = (bmp.drop 6).take 2 := by
    rw [← h.bfReserved.1, leUInt16_uint16At (by omega)]
  have hreserved₂ : leUInt16 0 = (bmp.drop 8).take 2 := by
    rw [← h.bfReserved.2, leUInt16_uint16At (by omega)]
  rw [hsplit, h.magic, bmpFileHeader, leUInt32_uint32At (by omega), leUInt32_uint32At (by omega),
    ← hreserved₁, ← hreserved₂]

/-- The file header is rebuilt as it was. -/
theorem bmpFromDib_drop (h : IsQtBmp bmp) (hlen : bmp.length < 2 ^ 32) :
    bmpFromDib (bmp.drop 14) = some bmp := by
  have hlength := h.infoHeader
  have hdrop : (bmp.drop 14).length = bmp.length - 14 := List.length_drop
  have hforty : (40 : UInt32).toNat = 40 := rfl
  have hsize : uint32At (bmp.drop 14) 0 = 40 := by rw [uint32At_drop, h.biSize]
  have hinfo : 40 ≤ uint32At (bmp.drop 14) 0 := by
    rw [hsize]
    exact UInt32.le_refl _
  have hheader : dibHeader (bmp.drop 14) = ⟨40, uint16At bmp 28, 0, uint32At bmp 46⟩ := by
    rw [dibHeader_info (by omega) hinfo, hsize, uint16At_drop, uint32At_drop, uint32At_drop,
      h.biCompression]
  have hbits : uint32At bmp 46 = 0 → uint16At bmp 28 ≠ 0 := by
    intro hused hzero
    have hpos := h.biClrUsed (by rw [hzero]; decide)
    rw [hused] at hpos
    exact absurd hpos (by decide)
  have hoffset : 54 + 4 * (uint32At bmp 46).toNat < 2 ^ 32 := by
    rw [← h.bfOffBits]
    exact UInt32.toNat_lt _
  have hpalette : paletteEntries (uint32At bmp 46) (uint16At bmp 28) = (uint32At bmp 46).toNat := by
    unfold paletteEntries
    split_ifs with hused hle
    · rfl
    · exact absurd (UInt32.pos_iff_ne_zero.mp (h.biClrUsed hle)) hused
    · rw [not_not.mp hused]
      rfl
  have htable : (DibHeader.colorTableBytes ⟨40, uint16At bmp 28, 0, uint32At bmp 46⟩).toNat =
      4 * (uint32At bmp 46).toNat := by
    rw [toNat_colorTableBytes (by simp only; omega) hbits, hpalette]
  have hfields : (DibHeader.bitfieldsBytes ⟨40, uint16At bmp 28, 0, uint32At bmp 46⟩).toNat = 0 :=
    rfl
  have hpixels : (dibHeader (bmp.drop 14)).pixelOffset = uint32At bmp 10 := by
    apply UInt32.toNat_inj.mp
    rw [hheader, toNat_pixelOffset ⟨fun _ => by simp only; omega, by simp only; omega⟩, htable,
      hfields, h.bfOffBits]
    simp only [hforty]
  have hfile : dibFileSize (bmp.drop 14) = uint32At bmp 2 := by
    apply UInt32.toNat_inj.mp
    rw [toNat_dibFileSize (by omega), h.bfSize]
    omega
  rw [bmpFromDib_eq (by omega) (by rw [hsize]; decide) (by rw [hsize]; omega), hfile, hpixels,
    ← h.take_header, List.take_append_drop]

/-- An image in the local clipboard comes back from its own answer as the same file, and
so as the same image. -/
theorem dib_round_trip (fromData : Bytes → QImage) (serialize : SerializeFileList)
    (remoteFlags : Option UInt32) (files : List ClipboardInfoFile) (mimeData : MimeData)
    (himage : mimeData.hasImage = true) (hnull : mimeData.imageData.isNull = false)
    (hbmp : mimeData.imageData.bmp = some bmp) (hlen : bmp.length < 2 ^ 32) (h : IsQtBmp bmp) :
    (localFormatData serialize remoteFlags files mimeData cfDib).bind FormatDataAnswer.response =
        some ⟨cbResponseOk, bmp.drop 14⟩ ∧
      updateClipboardDataFromRemote ⟨bmp.drop 14, cfDib, ""⟩ = some .dib ∧
      bmpFromDib (bmp.drop 14) = some bmp ∧
      imageFromDib fromData (bmp.drop 14) = fromData bmp := by
  have hback := bmpFromDib_drop h hlen
  refine ⟨?_, rfl, hback, ?_⟩
  · have hlength : (bmp.drop 14).length % 2 ^ 32 = (bmp.drop 14).length := by
      rw [List.length_drop]
      exact Nat.mod_eq_of_lt (by omega)
    rw [localFormatData, if_neg (fun htext => absurd htext.2 (by decide)), if_pos ⟨himage, rfl⟩]
    simp only [imageAnswer, hnull, hbmp, Bool.false_eq_true, if_false, Option.map_some,
      Option.bind_some, FormatDataAnswer.response]
    rw [hlength, List.take_length]
  · rw [imageFromDib, hback]

def twoColourBmp : Bytes :=
  [0x42, 0x4D, 66, 0, 0, 0, 0, 0, 0, 0, 62, 0, 0, 0] ++
    [40, 0, 0, 0, 1, 0, 0, 0, 1, 0, 0, 0, 1, 0, 1, 0] ++ List.replicate 16 0 ++
    [2, 0, 0, 0, 2, 0, 0, 0] ++ [0, 0, 0, 0, 255, 255, 255, 0] ++ [128, 0, 0, 0]

theorem dib_round_trip_two_colours :
    (localFormatData (fun _ _ => (1, none)) none []
        ⟨false, [], true, ⟨false, some twoColourBmp, none⟩, false, []⟩ cfDib).bind
          FormatDataAnswer.response = some ⟨cbResponseOk, twoColourBmp.drop 14⟩ ∧
      bmpFromDib (twoColourBmp.drop 14) = some twoColourBmp := by
  have h : IsQtBmp twoColourBmp := ⟨by decide, by decide, ⟨by decide, by decide⟩, by decide,
    by decide, by decide, fun _ => by decide, by decide⟩
  obtain ⟨hsent, -, hback, -⟩ := dib_round_trip (fun bmp => ⟨false, some bmp, none⟩)
    (fun _ _ => (1, none)) none [] ⟨false, [], true, ⟨false, some twoColourBmp, none⟩, false, []⟩
    rfl rfl rfl (by decide) h
  exact ⟨hsent, hback⟩

end QfClient
