import Mathlib.Data.List.Forall2
import QfClient.Capabilities
import QfClient.FormatListReader

/-!
# Writing a Format List

`cliprdr_packet_format_list_new` gives every long name as many code units as the name
has bytes, and one for the NUL; a short name gets 16 units, of which the last is a NUL.
Read back, a list of long names is the list that was written exactly when the names are
ASCII, and one of short names when no name is longer than 15 bytes.
-/

namespace QfClient

open LittleEndian Unicode WinPR

/-- What `cliprdr_packet_format_list_new` calls: the reallocation of the stream, with
its policy, and `ConvertUtf8NToWChar`. -/
structure NameWriter where
  growth : Growth
  realloc : ℕ → Bool
  convertUtf8N : Bytes → Option (List UInt16)

structure NameWriter.Faithful (writer : NameWriter) : Prop where
  realloc : ∀ size, writer.realloc size = true
  convertUtf8N : ∀ text, writer.convertUtf8N (utf8 text) = some (utf16 text)

structure NameWriter.Strict (writer : NameWriter) : Prop extends writer.Faithful where
  refuses : ∀ bytes, (∀ text, utf8 text ≠ bytes) → writer.convertUtf8N bytes = none

/-- The bytes in front of the NUL that `strlen` counts; a null pointer has none. -/
def cString (name : Option String) : Bytes := (utf8 (name.getD "").toList).takeWhile (· ≠ 0)

/-- `Stream_Write_UTF16_String_From_UTF8` with `fill`; the inner `none` is its failure. -/
def streamWriteUtf16String (writer : NameWriter) (s : WStream) (wcharLength : ℕ) (src : Bytes) :
    Option (Option WStream) :=
  if s.capacity - s.position < 2 * wcharLength then some none
  else
    match writer.convertUtf8N src with
    | none => some none
    | some units =>
        if wcharLength < units.length then some none
        else
          (s.write? ((units ++ List.replicate (wcharLength - units.length) 0).flatMap
            leUInt16)).map some

def formatNameCharSize (useLongFormatNames useAsciiNames : Bool) : ℕ :=
  if useLongFormatNames || !useAsciiNames then 2 else 1

def writeName (writer : NameWriter) (useLongFormatNames useAsciiNames : Bool) (s : WStream)
    (name : Bytes) : Option (Option WStream) :=
  let maxLength := if useLongFormatNames then name.length + 1 else if useAsciiNames then 32 else 16
  let length := if useLongFormatNames then name.length else min (maxLength - 1) name.length
  if 0 < length then
    if useAsciiNames then
      ((s.write? (name.take length)).bind
        (WStream.write? · (List.replicate (maxLength - length) 0))).map some
    else streamWriteUtf16String writer s maxLength (name.take length)
  else
    (s.write? (List.replicate
      (maxLength * formatNameCharSize useLongFormatNames useAsciiNames) 0)).map some

/-- One turn of the loop over the formats; the inner `none` is the jump to `fail`. -/
def writeFormat (writer : NameWriter) (useLongFormatNames useAsciiNames : Bool) (s : WStream)
    (format : CliprdrFormat) : Option (Option WStream) :=
  let name := cString format.formatName
  let size := 4 + max 32
    ((name.length + 1) * formatNameCharSize useLongFormatNames useAsciiNames)
  match s.ensureRemainingCapacity writer.growth (writer.realloc size) size with
  | none => some none
  | some s =>
      match s.1.write? (leUInt32 format.formatId) with
      | none => none
      | some s => writeName writer useLongFormatNames useAsciiNames s name

def writeFormats (writer : NameWriter) (useLongFormatNames useAsciiNames : Bool) :
    WStream → List CliprdrFormat → Option (Option WStream)
  | s, [] => some (some s)
  | s, format :: formats =>
      match writeFormat writer useLongFormatNames useAsciiNames s format with
      | none => none
      | some none => some none
      | some (some s) => writeFormats writer useLongFormatNames useAsciiNames s formats

/-- `formatList->numFormats * 36` is computed in 32 bits. -/
def cliprdrPacketFormatListNew (context : CliprdrPlugin) (writer : NameWriter)
    (formats : List CliprdrFormat) (useLongFormatNames useAsciiNames : Bool) :
    Option (Option WStream) :=
  match cliprdrPacketNew context cbFormatList 0 (UInt32.ofNat formats.length * 36).toNat with
  | none => none
  | some none => some none
  | some (some s) => writeFormats writer useLongFormatNames useAsciiNames s formats

def sendFormatList (context : CliprdrPlugin) (writer : NameWriter) (useLongFormatNames : Bool)
    (formats : List CliprdrFormat) : Outcome :=
  match cliprdrPacketFormatListNew context writer formats useLongFormatNames false with
  | none => none
  | some none => some (errorInternalError, [])
  | some (some s) => cliprdrPacketSend context s

/-- A list of no formats is sent once. -/
def cliprdrClientFormatList (context : CliprdrPlugin) (writer : NameWriter)
    (caps : CliprdrCapabilities) (formats : List CliprdrFormat) : CliprdrCapabilities × Outcome :=
  let filtered := cliprdrFilterFormatList formats context.featureMask localToRemote
  if filtered = [] ∧ caps.initialFormatListSent then (caps, some (channelRcOk, []))
  else
    let caps := { caps with initialFormatListSent := true }
    (caps, sendFormatList context writer caps.useLongFormatNames filtered)

variable {context : CliprdrPlugin} {writer : NameWriter} {reader : NameReader} {s : WStream}
  {format : CliprdrFormat} {formats : List CliprdrFormat} {text : List Char} {room : ℕ}

/-- The empty list of the beginning is a list like any other. -/
theorem cliprdrClientFormatList_nil (context : CliprdrPlugin) (writer : NameWriter)
    (caps : CliprdrCapabilities) :
    cliprdrClientFormatList context writer caps [] = cliprdrClientEmptyFormatList context caps := by
  have hfilter : cliprdrFilterFormatList [] context.featureMask localToRemote = [] := by
    rw [cliprdrFilterFormatList]
    split_ifs <;> rfl
  have hempty : (UInt32.ofNat ([] : List CliprdrFormat).length * 36).toNat = 0 := by decide
  rw [cliprdrClientFormatList, cliprdrClientEmptyFormatList]
  simp only [hfilter, true_and]
  by_cases hsent : caps.initialFormatListSent = true
  · rw [if_pos hsent, if_pos hsent]
  · rw [if_neg hsent, if_neg hsent, sendFormatList, cliprdrPacketFormatListNew, hempty]
    cases cliprdrPacketNew context cbFormatList 0 0 with
    | none => rfl
    | some s => cases s <;> rfl

def NameReader.decoding : NameReader where
  calloc _ := true
  strndup _ := true
  convertWCharN units := (decodeUtf16 units).map String.ofList

theorem NameReader.decoding_strict : NameReader.decoding.Strict :=
  ⟨fun _ => rfl, fun _ => rfl, fun _ => rfl⟩

def NameWriter.encoding : NameWriter where
  growth := .exact
  realloc _ := true
  convertUtf8N bytes := bytes.toByteArray.utf8Decode?.map fun text => utf16 text.toList

theorem NameWriter.encoding_faithful : NameWriter.encoding.Faithful where
  realloc _ := rfl
  convertUtf8N text := by
    change (List.utf8Encode text).utf8Decode?.map _ = _
    rw [List.utf8Decode?_utf8Encode, Option.map_some]

theorem NameWriter.encoding_strict : NameWriter.encoding.Strict where
  toFaithful := NameWriter.encoding_faithful
  refuses bytes hbytes := by
    cases hdecode : bytes.toByteArray.utf8Decode? with
    | none =>
        change bytes.toByteArray.utf8Decode?.map _ = none
        rw [hdecode, Option.map_none]
    | some characters =>
        have hsome := Option.isSome_iff_exists.mpr ⟨_, hdecode⟩
        obtain ⟨text, htext⟩ := ByteArray.isSome_utf8Decode?_iff.mp hsome
        exact absurd (List.toByteArray_inj.mp htext).symm (hbytes text)

def nameText (format : CliprdrFormat) : List Char := (format.formatName.getD "").toList

/-- No name holds a NUL, as is the case for C strings. -/
def NamesNulFree (formats : List CliprdrFormat) : Prop :=
  ∀ format ∈ formats, ∀ c ∈ nameText format, c.toNat ≠ 0

instance (formats : List CliprdrFormat) : Decidable (NamesNulFree formats) :=
  have (format : CliprdrFormat) : Decidable (∀ c ∈ nameText format, c.toNat ≠ 0) :=
    List.decidableBAll (fun c : Char => c.toNat ≠ 0) (nameText format)
  List.decidableBAll (fun format => ∀ c ∈ nameText format, c.toNat ≠ 0) formats

def nameRoom (useLongFormatNames : Bool) (format : CliprdrFormat) : ℕ :=
  if useLongFormatNames then (utf8 (nameText format)).length + 1 else 16

def writtenText (useLongFormatNames : Bool) (format : CliprdrFormat) : List Char :=
  if useLongFormatNames then nameText format else fitUtf8 15 (nameText format)

def CutsBetweenCharacters (useLongFormatNames : Bool) (formats : List CliprdrFormat) : Prop :=
  useLongFormatNames = false → ∀ format ∈ formats,
    utf8 (fitUtf8 15 (nameText format)) = (utf8 (nameText format)).take 15

def wireName (room : ℕ) (text : List Char) : List UInt16 :=
  utf16 text ++ List.replicate (room - (utf16 text).length) 0

def wireFormat (useLongFormatNames : Bool) (format : CliprdrFormat) : Bytes :=
  leUInt32 format.formatId ++
    (wireName (nameRoom useLongFormatNames format)
      (writtenText useLongFormatNames format)).flatMap leUInt16

theorem length_utf16_writtenText_lt (useLongFormatNames : Bool) (format : CliprdrFormat) :
    (utf16 (writtenText useLongFormatNames format)).length <
      nameRoom useLongFormatNames format := by
  have hle := length_utf16_le (writtenText useLongFormatNames format)
  cases useLongFormatNames with
  | true =>
      simp only [writtenText, nameRoom, if_true] at hle ⊢
      omega
  | false =>
      have hcut := length_utf8_fitUtf8_le 15 (nameText format)
      simp only [writtenText, nameRoom, Bool.false_eq_true, if_false] at hle ⊢
      omega

theorem length_wireName (h : (utf16 text).length < room) : (wireName room text).length = room := by
  rw [wireName, List.length_append, List.length_replicate]
  omega

theorem length_wireFormat (useLongFormatNames : Bool) (format : CliprdrFormat) :
    (wireFormat useLongFormatNames format).length =
      4 + 2 * nameRoom useLongFormatNames format := by
  rw [wireFormat, List.length_append, length_leUInt32,
    length_flatMap_of_length length_leUInt16,
    length_wireName (length_utf16_writtenText_lt useLongFormatNames format)]

theorem cString_eq (h : ∀ c ∈ nameText format, c.toNat ≠ 0) :
    cString format.formatName = utf8 (nameText format) := by
  change (utf8 (nameText format)).takeWhile (· ≠ 0) = _
  rw [List.takeWhile_eq_self_iff]
  intro byte hbyte
  have hne : byte ≠ 0 := by
    rintro rfl
    exact zero_notMem_utf8 h hbyte
  simpa using hne

theorem streamWriteUtf16String_eq (hw : writer.Faithful) (hroom : (utf16 text).length < room)
    (hfits : s.position + 2 * room ≤ s.capacity) :
    ∃ h, streamWriteUtf16String writer s room (utf8 text) =
      some (some (s.write ((wireName room text).flatMap leUInt16) h)) := by
  have hlen : ((wireName room text).flatMap leUInt16).length = 2 * room := by
    rw [length_flatMap_of_length length_leUInt16, length_wireName hroom]
  refine ⟨by omega, ?_⟩
  rw [streamWriteUtf16String, if_neg (by omega), hw.convertUtf8N]
  simp only
  rw [if_neg (by omega)]
  change (s.write? ((wireName room text).flatMap leUInt16)).map some = _
  rw [WStream.write?_eq_some (by omega), Option.map_some]

theorem writtenText_eq_nil (useLongFormatNames : Bool) (h : nameText format = []) :
    writtenText useLongFormatNames format = [] := by
  rw [writtenText, h]
  split_ifs <;> rfl

/-- The bytes handed to the converter are the encoding of what is written. -/
theorem take_writtenText (useLongFormatNames : Bool)
    (hcut : CutsBetweenCharacters useLongFormatNames [format]) :
    (utf8 (nameText format)).take
        (if useLongFormatNames = true then (utf8 (nameText format)).length
          else min (nameRoom useLongFormatNames format - 1) (utf8 (nameText format)).length) =
      utf8 (writtenText useLongFormatNames format) := by
  cases useLongFormatNames with
  | true => simp only [if_true, writtenText, List.take_length]
  | false =>
      have hfit := hcut rfl format (List.mem_singleton_self format)
      simp only [Bool.false_eq_true, if_false, writtenText, nameRoom]
      rw [hfit, ← List.take_eq_take_min]

theorem replicate_zero_eq (room : ℕ) :
    List.replicate (room * 2) (0 : UInt8) = (wireName room []).flatMap leUInt16 := by
  rw [wireName, utf16_nil, List.nil_append, List.length_nil, Nat.sub_zero]
  induction room with
  | zero => rfl
  | succ room ih =>
      rw [Nat.succ_mul, List.replicate_add, ih, List.replicate_succ' (n := room),
        List.flatMap_append]
      rfl

theorem formatNameCharSize_utf16 (useLongFormatNames : Bool) :
    formatNameCharSize useLongFormatNames false = 2 := by
  rw [formatNameCharSize, Bool.not_false, Bool.or_true, if_pos rfl]

theorem writeName_eq (hw : writer.Faithful) (useLongFormatNames : Bool)
    (hcut : CutsBetweenCharacters useLongFormatNames [format])
    (hfits : s.position + 2 * nameRoom useLongFormatNames format ≤ s.capacity) :
    ∃ h, writeName writer useLongFormatNames false s (utf8 (nameText format)) =
      some (some (s.write ((wireName (nameRoom useLongFormatNames format)
        (writtenText useLongFormatNames format)).flatMap leUInt16) h)) := by
  have hlt := length_utf16_writtenText_lt useLongFormatNames format
  have hroom : (if useLongFormatNames = true then (utf8 (nameText format)).length + 1 else 16) =
      nameRoom useLongFormatNames format := rfl
  simp only [writeName, Bool.false_eq_true, if_false]
  rw [hroom, take_writtenText useLongFormatNames hcut, formatNameCharSize_utf16]
  by_cases hempty : utf8 (nameText format) = []
  · have htext := writtenText_eq_nil useLongFormatNames (utf8_eq_nil_iff.mp hempty)
    have hnil : (utf8 (nameText format)).length = 0 := List.length_eq_zero_iff.mpr hempty
    rw [if_neg (by split_ifs <;> omega), replicate_zero_eq, htext]
    refine ⟨?_, ?_⟩
    · rw [length_flatMap_of_length length_leUInt16, ← htext, length_wireName hlt]
      exact hfits
    · rw [WStream.write?_eq_some, Option.map_some]
  · have hpositive := List.length_pos_iff.mpr hempty
    rw [if_pos (by rw [nameRoom]; split_ifs <;> omega)]
    exact streamWriteUtf16String_eq hw hlt hfits

/-- A turn of the loop appends the wire form of its format. -/
theorem writeFormat_eq (hw : writer.Faithful) (useLongFormatNames : Bool)
    (hlength : s.capacity ≤ s.length) (hnul : ∀ c ∈ nameText format, c.toNat ≠ 0)
    (hcut : CutsBetweenCharacters useLongFormatNames [format]) :
    ∃ s', writeFormat writer useLongFormatNames false s format = some (some s') ∧
      s'.written = s.written ++ wireFormat useLongFormatNames format ∧
      s'.capacity ≤ s'.length := by
  have hcString := cString_eq hnul
  obtain ⟨grown, hgrown⟩ := WStream.ensureRemainingCapacity_isSome (s := s) writer.growth
    (4 + max 32 (((cString format.formatName).length + 1) *
      formatNameCharSize useLongFormatNames false))
  obtain ⟨-, hwritten, -⟩ := WStream.ensureRemainingCapacity_eq_some writer.growth hgrown
  have hgrownLength := WStream.ensureRemainingCapacity_length writer.growth hgrown hlength
  have hroom : 2 * nameRoom useLongFormatNames format ≤
      max 32 (((cString format.formatName).length + 1) *
        formatNameCharSize useLongFormatNames false) := by
    rw [formatNameCharSize_utf16, nameRoom, hcString]
    split_ifs <;> omega
  have hsize := grown.2
  have hid : grown.1.position + (leUInt32 format.formatId).length ≤ grown.1.capacity := by
    rw [length_leUInt32]
    omega
  obtain ⟨hfits, hname⟩ := writeName_eq (s := grown.1.write _ hid) hw useLongFormatNames hcut (by
    rw [WStream.position_write, WStream.capacity_write, length_leUInt32]
    omega)
  rw [← hcString] at hname
  simp only [writeFormat, hw.realloc, hgrown, WStream.write?_eq_some hid, hname]
  refine ⟨_, rfl, ?_, ?_⟩
  · rw [WStream.written_write, WStream.written_write, hwritten, List.append_assoc]
    rfl
  · simpa only [WStream.capacity_write, WStream.length_write] using hgrownLength

theorem writeFormats_eq (hw : writer.Faithful) (useLongFormatNames : Bool)
    (hlength : s.capacity ≤ s.length) (hnul : NamesNulFree formats)
    (hcut : CutsBetweenCharacters useLongFormatNames formats) :
    ∃ s', writeFormats writer useLongFormatNames false s formats = some (some s') ∧
      s'.written = s.written ++ formats.flatMap (wireFormat useLongFormatNames) ∧
      s'.capacity ≤ s'.length := by
  induction formats generalizing s with
  | nil => exact ⟨s, rfl, (List.append_nil _).symm, hlength⟩
  | cons format formats ih =>
      obtain ⟨hhead, htail⟩ := List.forall_mem_cons.mp hnul
      have hcutHead : CutsBetweenCharacters useLongFormatNames [format] := fun hshort =>
        List.forall_mem_singleton.mpr (hcut hshort format List.mem_cons_self)
      have hcutTail : CutsBetweenCharacters useLongFormatNames formats := fun hshort other hother =>
        hcut hshort other (List.mem_cons_of_mem _ hother)
      obtain ⟨next, hnext, hwritten, hnextLength⟩ :=
        writeFormat_eq hw useLongFormatNames hlength hhead hcutHead
      obtain ⟨last, hlast, hall, hlastLength⟩ := ih hnextLength htail hcutTail
      refine ⟨last, ?_, ?_, hlastLength⟩
      · simp only [writeFormats, hnext, hlast]
      · rw [hall, hwritten, List.append_assoc, List.flatMap_cons]

/-- The length asked for is a multiple of four, so it is not the largest one. -/
theorem formatListLength_lt (formats : List CliprdrFormat) :
    (UInt32.ofNat formats.length * 36).toNat < 4294967295 := by
  have hlt := (UInt32.ofNat formats.length * 36).toNat_lt
  rw [UInt32.toNat_mul] at hlt ⊢
  change _ * 36 % _ < _ at hlt ⊢
  omega

/-- A name that is cut inside a character is refused by the converter. -/
theorem writeFormat_refused (hw : writer.Strict) (hnul : ∀ c ∈ nameText format, c.toNat ≠ 0)
    (hcut : utf8 (fitUtf8 15 (nameText format)) ≠ (utf8 (nameText format)).take 15) :
    writeFormat writer false false s format = some none := by
  have hcString := cString_eq hnul
  obtain ⟨grown, hgrown⟩ := WStream.ensureRemainingCapacity_isSome (s := s) writer.growth
    (4 + max 32 (((cString format.formatName).length + 1) * formatNameCharSize false false))
  have hsize := grown.2
  have hid : grown.1.position + (leUInt32 format.formatId).length ≤ grown.1.capacity := by
    rw [length_leUInt32]
    omega
  have hnotText : ∀ text, utf8 text ≠ (utf8 (nameText format)).take 15 := by
    intro text htext
    exact hcut (by rw [fitUtf8_eq_of_take htext, htext])
  have hpositive : 0 < min 15 (utf8 (nameText format)).length := by
    have hne := hnotText []
    rw [utf8_nil] at hne
    rw [← List.length_take]
    exact List.length_pos_iff.mpr hne.symm
  simp only [writeFormat, hw.realloc, hgrown, WStream.write?_eq_some hid, hcString]
  change writeName writer false false _ _ = _
  simp only [writeName, Bool.false_eq_true, if_false]
  rw [if_pos hpositive, ← List.take_eq_take_min, streamWriteUtf16String, hw.refuses _ hnotText]
  split_ifs <;> rfl

theorem writeFormats_refused (hw : writer.Strict) (hlength : s.capacity ≤ s.length)
    (hnul : NamesNulFree formats) (hcut : ¬ CutsBetweenCharacters false formats) :
    writeFormats writer false false s formats = some none := by
  induction formats generalizing s with
  | nil => exact absurd (fun _ => List.forall_mem_nil _) hcut
  | cons format formats ih =>
      obtain ⟨hhead, htail⟩ := List.forall_mem_cons.mp hnul
      by_cases hfit : utf8 (fitUtf8 15 (nameText format)) = (utf8 (nameText format)).take 15
      · obtain ⟨next, hnext, -, hnextLength⟩ := writeFormat_eq hw.toFaithful false hlength hhead
          fun _ => List.forall_mem_singleton.mpr hfit
        have hcutTail : ¬ CutsBetweenCharacters false formats := fun hall =>
          hcut fun hshort => List.forall_mem_cons.mpr ⟨hfit, hall hshort⟩
        simp only [writeFormats, hnext]
        exact ih hnextLength htail hcutTail
      · simp only [writeFormats, writeFormat_refused hw hhead hfit]

/-- One name that is cut inside a character keeps the whole list from going out. -/
theorem sendFormatList_refused (h : context.Works) (hw : writer.Strict)
    (hnul : NamesNulFree formats) (hcut : ¬ CutsBetweenCharacters false formats) :
    sendFormatList context writer false formats = some (errorInternalError, []) := by
  obtain ⟨s, hs, -, -, hcap, hlength⟩ :=
    cliprdrPacketNew_eq cbFormatList 0 (h.streamNew _) (formatListLength_lt formats)
  have hrefused := writeFormats_refused (s := s) hw (by omega) hnul hcut
  simp only [sendFormatList, cliprdrPacketFormatListNew, hs, hrefused]

/-- The accented character has the fifteenth byte and one more. -/
example : sendFormatList .permissive .encoding false [⟨0xC009, some "abcdefghijklmné"⟩] =
    some (errorInternalError, []) :=
  sendFormatList_refused CliprdrPlugin.permissive_works NameWriter.encoding_strict (by decide)
    fun hcut => absurd (hcut rfl) (by decide)

/-- The formats go out in one packet, unless it is too long for its header. -/
theorem sendFormatList_eq (h : context.Works) (hw : writer.Faithful) (useLongFormatNames : Bool)
    (hnul : NamesNulFree formats) (hcut : CutsBetweenCharacters useLongFormatNames formats)
    (hmax : (formats.flatMap (wireFormat useLongFormatNames)).length ≤ 4294967279) :
    sendFormatList context writer useLongFormatNames formats = some (channelRcOk,
      [packet cbFormatList 0 (formats.flatMap (wireFormat useLongFormatNames))]) := by
  obtain ⟨s, hs, hwritten, hpos, hcap, hlength⟩ :=
    cliprdrPacketNew_eq cbFormatList 0 (h.streamNew _) (formatListLength_lt formats)
  obtain ⟨s', hs', hwritten', hlength'⟩ :=
    writeFormats_eq (s := s) hw useLongFormatNames (by omega) hnul hcut
  have hnew : cliprdrPacketFormatListNew context writer formats useLongFormatNames false =
      some (some s') := by
    rw [cliprdrPacketFormatListNew, hs]
    exact hs'
  rw [sendFormatList, hnew]
  refine cliprdrPacketSend_eq h ?_ ?_ hmax
  · rw [hwritten', hwritten]
  · exact s'.position_le.trans hlength'

def receiveFormatList (reader : NameReader) (useLongFormatNames : Bool) (bytes : Bytes) :
    Except UInt32 (List CliprdrFormat) :=
  match readHeader bytes with
  | none => .error errorInvalidData
  | some (header, body) => cliprdrReadFormatList reader header useLongFormatNames body

/-- A format with the name that a text is read as; the empty name becomes a null pointer. -/
def namedFormat (formatId : UInt32) (text : List Char) : CliprdrFormat :=
  ⟨formatId, if text = [] then none else some (String.ofList text)⟩

theorem receiveFormatList_packet (reader : NameReader) (useLongFormatNames : Bool) {body : Bytes}
    (h : body.length ≤ 4294967279) :
    receiveFormatList reader useLongFormatNames (packet cbFormatList 0 body) =
      cliprdrReadFormatList reader ⟨cbFormatList, 0, UInt32.ofNat body.length⟩
        useLongFormatNames body := by
  rw [receiveFormatList, readHeader_packet cbFormatList 0 body (by omega)]

theorem readEntries_eq_ok_iff {α : Type} {read : α → Except UInt32 CliprdrFormat}
    {entries : List α} :
    readEntries read entries = .ok formats ↔
      List.Forall₂ (fun entry format => read entry = .ok format) entries formats := by
  induction entries generalizing formats with
  | nil =>
      cases formats with
      | nil => exact iff_of_true rfl .nil
      | cons format formats => exact iff_of_false (by simp [readEntries]) (fun h => nomatch h)
  | cons entry entries ih =>
      rw [readEntries]
      cases hentry : read entry with
      | error error =>
          refine iff_of_false (by simp) (fun h => ?_)
          cases h with
          | cons hhead _ =>
              rw [hentry] at hhead
              cases hhead
      | ok format =>
          cases formats with
          | nil =>
              refine iff_of_false (fun h => ?_) (fun h => nomatch h)
              cases hrest : readEntries read entries with
              | error error => simp [hrest, Except.map] at h
              | ok others => simp [hrest, Except.map] at h
          | cons format' formats =>
              rw [List.forall₂_cons, ← ih, hentry, Except.ok.injEq]
              cases readEntries read entries with
              | error error => simp [Except.map]
              | ok others => simp [Except.map]

def encodedEntry (format : CliprdrFormat) : UInt32 × List UInt16 :=
  (format.formatId, utf16 (nameText format))

theorem ofList_injective {text other : List Char} (h : String.ofList text = String.ofList other) :
    text = other := by
  rw [← String.toList_ofList (l := text), h, String.toList_ofList]

/-- A name is read from its encoding and from nothing else. -/
theorem readLongEntry_eq_ok_iff (hr : reader.Strict) {entry : UInt32 × List UInt16}
    {formatId : UInt32} :
    readLongEntry reader entry = .ok (namedFormat formatId text) ↔
      entry = (formatId, utf16 text) := by
  obtain ⟨id, units⟩ := entry
  rw [Prod.mk.injEq]
  by_cases hunits : units = []
  · rw [readLongEntry, if_pos hunits, hunits, eq_comm (a := []), utf16_eq_nil_iff, namedFormat,
      Except.ok.injEq, CliprdrFormat.mk.injEq]
    by_cases htext : text = [] <;> simp [htext]
  · rw [readLongEntry, if_neg hunits, hr.convertWCharN]
    constructor
    · intro h
      cases hdecode : decodeUtf16 units with
      | none => simp [hdecode] at h
      | some read =>
          have hread := decodeUtf16_eq_some_iff.mp hdecode
          simp only [hdecode, Option.map_some, namedFormat, Except.ok.injEq,
            CliprdrFormat.mk.injEq] at h
          obtain ⟨rfl, hname⟩ := h
          by_cases htext : text = []
          · simp [htext] at hname
          · rw [if_neg htext, Option.some.injEq] at hname
            rw [hread, ofList_injective hname]
            exact ⟨rfl, rfl⟩
    · rintro ⟨rfl, rfl⟩
      have htext : text ≠ [] := fun h => hunits (utf16_eq_nil_iff.mpr h)
      simp only [decodeUtf16_utf16, Option.map_some, namedFormat, if_neg htext]

theorem readEntries_long_iff (hr : reader.Strict) {entries : List (UInt32 × List UInt16)} :
    readEntries (readLongEntry reader) entries =
        .ok (formats.map fun format => namedFormat format.formatId (nameText format)) ↔
      entries = formats.map encodedEntry := by
  have heq : List.Forall₂ (· = ·) entries (formats.map encodedEntry) ↔
      entries = formats.map encodedEntry := by
    rw [List.forall₂_eq_eq_eq]
  rw [readEntries_eq_ok_iff, List.forall₂_map_right_iff, ← heq, List.forall₂_map_right_iff]
  simp only [readLongEntry_eq_ok_iff hr]
  rfl

theorem nulFree_encodedEntry (hnul : NamesNulFree formats) :
    NulFree (formats.map encodedEntry) := by
  intro entry hentry
  obtain ⟨format, hformat, rfl⟩ := List.mem_map.mp hentry
  exact zero_notMem_utf16 (hnul format hformat)

theorem length_encodedEntry_le (format : CliprdrFormat) :
    (longEntry (encodedEntry format)).length ≤ (wireFormat true format).length := by
  have hle := length_utf16_le (nameText format)
  simp only [length_longEntry, length_wireFormat, nameRoom, if_true, encodedEntry]
  omega

theorem length_encodedEntry_eq_iff (format : CliprdrFormat) :
    (longEntry (encodedEntry format)).length = (wireFormat true format).length ↔
      IsAscii (nameText format) := by
  rw [← length_utf16_eq_iff]
  simp only [length_longEntry, length_wireFormat, nameRoom, if_true, encodedEntry]
  omega

/-- For an ASCII name the writer leaves no more room than the reader takes. -/
theorem wireFormat_of_isAscii (h : IsAscii (nameText format)) :
    wireFormat true format = longEntry (encodedEntry format) := by
  have hlen := length_utf16_eq_iff.mpr h
  simp only [wireFormat, nameRoom, writtenText, if_true, wireName, longEntry, encodedEntry]
  rw [hlen, Nat.add_sub_cancel_left, List.replicate_one]

/-- The wire form of a list is a sequence of encoded entries only if the names are ASCII. -/
theorem isAscii_of_flatMap_eq
    (h : (formats.flatMap (wireFormat true)).length ≤
      ((formats.map encodedEntry).flatMap longEntry).length) :
    ∀ format ∈ formats, IsAscii (nameText format) := by
  have hle : ∀ others : List CliprdrFormat,
      ((others.map encodedEntry).flatMap longEntry).length ≤
        (others.flatMap (wireFormat true)).length := by
    intro others
    induction others with
    | nil => exact le_rfl
    | cons other others ih =>
        have hother := length_encodedEntry_le other
        rw [List.map_cons, List.flatMap_cons, List.flatMap_cons, List.length_append,
          List.length_append]
        omega
  induction formats with
  | nil => simp
  | cons format formats ih =>
      have hformat := length_encodedEntry_le format
      have hformats := hle formats
      rw [List.map_cons, List.flatMap_cons, List.flatMap_cons, List.length_append,
        List.length_append] at h
      refine List.forall_mem_cons.mpr ⟨?_, ih (by omega)⟩
      exact (length_encodedEntry_eq_iff format).mp (by omega)

theorem receiveFormatList_long_iff (hr : reader.Strict) (hnul : NamesNulFree formats)
    (hmax : (formats.flatMap (wireFormat true)).length ≤ 4294967279) :
    receiveFormatList reader true (packet cbFormatList 0 (formats.flatMap (wireFormat true))) =
        .ok (formats.map fun format => namedFormat format.formatId (nameText format)) ↔
      ∀ format ∈ formats, IsAscii (nameText format) := by
  have hlen : (UInt32.ofNat (formats.flatMap (wireFormat true)).length).toNat =
      (formats.flatMap (wireFormat true)).length :=
    UInt32.toNat_ofNat_of_lt' (by change _ < 4294967296; omega)
  rw [receiveFormatList_packet reader true hmax, readFormatList_long_iff]
  simp only [hlen, List.take_length, readEntries_long_iff hr]
  constructor
  · rintro ⟨-, entries, -, hentries, -, rfl⟩
    exact isAscii_of_flatMap_eq (congrArg List.length hentries).le
  · intro hascii
    refine ⟨le_rfl, _, nulFree_encodedEntry hnul, ?_, Or.inr (hr.calloc _), rfl⟩
    rw [List.flatMap_map]
    exact List.flatMap_congr fun format hformat => wireFormat_of_isAscii (hascii format hformat)

/-- A list sent with long names reads back as it was exactly when the names are ASCII. -/
theorem long_format_list_round_trip_iff (h : context.Works) (hw : writer.Faithful)
    (hr : reader.Strict) (hnul : NamesNulFree formats)
    (hmax : (formats.flatMap (wireFormat true)).length ≤ 4294967279) :
    ∃ bytes, sendFormatList context writer true formats = some (channelRcOk, [bytes]) ∧
      (receiveFormatList reader true bytes =
          .ok (formats.map fun format => namedFormat format.formatId (nameText format)) ↔
        ∀ format ∈ formats, IsAscii (nameText format)) := by
  have hcut : CutsBetweenCharacters true formats := by
    intro hshort
    cases hshort
  exact ⟨_, sendFormatList_eq h hw true hnul hcut hmax, receiveFormatList_long_iff hr hnul hmax⟩

/-- A list with a name outside ASCII does not read back. -/
theorem long_format_list_accented :
    ∃ bytes, sendFormatList .permissive .encoding true [⟨0xC009, some "été"⟩, ⟨13, none⟩] =
        some (channelRcOk, [bytes]) ∧
      receiveFormatList .decoding true bytes ≠
        .ok ([⟨0xC009, some "été"⟩, ⟨13, none⟩].map fun format : CliprdrFormat =>
          namedFormat format.formatId (nameText format)) := by
  have hnul : NamesNulFree [⟨0xC009, some "été"⟩, ⟨13, none⟩] := by decide
  obtain ⟨bytes, hsend, hback⟩ := long_format_list_round_trip_iff CliprdrPlugin.permissive_works
    NameWriter.encoding_faithful NameReader.decoding_strict hnul (by decide)
  exact ⟨bytes, hsend, fun hsame => absurd (hback.mp hsame) (by decide)⟩

def shortBlock (text : List Char) : Bytes := (wireName 16 text).flatMap leUInt16

theorem length_utf16_fitUtf8_le (text : List Char) : (utf16 (fitUtf8 15 text)).length ≤ 15 :=
  (length_utf16_le _).trans (length_utf8_fitUtf8_le 15 text)

theorem char16Units_shortBlock (text : List Char) :
    char16Units (shortBlock text) = wireName 16 text := char16Units_flatMap _

theorem length_shortBlock (h : (utf16 text).length ≤ 15) : (shortBlock text).length = 32 := by
  rw [shortBlock, length_flatMap_of_length length_leUInt16, length_wireName (by omega)]

/-- The block of a short name reads as the name, which a NUL always ends. -/
theorem readShortEntry_shortBlock (hr : reader.Strict) (formatId : UInt32)
    (hnul : ∀ c ∈ text, c.toNat ≠ 0) (hlen : (utf16 text).length ≤ 15) :
    readShortEntry reader false (formatId, shortBlock text) =
      .ok (namedFormat formatId text) := by
  have hzero := zero_notMem_utf16 hnul
  have hunits : wireName 16 text =
      utf16 text ++ 0 :: List.replicate (15 - (utf16 text).length) 0 := by
    rw [wireName, ← List.replicate_succ]
    congr 2
    omega
  have hname : wcharName ((shortBlock text).take 32) = utf16 text := by
    rw [List.take_of_length_le (length_shortBlock hlen).le, wcharName, char16Units_shortBlock,
      hunits, List.takeWhile_append_of_pos]
    · simp
    · intro unit hunit
      have hne : unit ≠ 0 := by
        rintro rfl
        exact hzero hunit
      simpa using hne
  have hhead : (char16Units (shortBlock text)).head? = some 0 ↔ text = [] := by
    rw [char16Units_shortBlock, hunits, ← utf16_eq_nil_iff]
    cases hutf : utf16 text with
    | nil => simp
    | cons unit units =>
        rw [hutf] at hzero
        simp only [List.cons_append, List.head?_cons, Option.some.injEq]
        exact iff_of_false (fun h => hzero (h ▸ List.mem_cons_self)) (List.cons_ne_nil _ _)
  rw [readShortEntry, readShortName, if_neg (by simp)]
  by_cases htext : text = []
  · rw [if_pos (hhead.mpr htext), namedFormat, if_pos htext]
  · rw [if_neg (fun h => htext (hhead.mp h)), hname, hr.convertWCharN, decodeUtf16_utf16,
      namedFormat, if_neg htext]
    rfl

theorem forall_mem_fitUtf8 {P : Char → Prop} (h : ∀ c ∈ text, P c) (room : ℕ) :
    ∀ c ∈ fitUtf8 room text, P c :=
  fun c hc => h c ((fitUtf8_leading room text).subset hc)

theorem namedFormat_injective {formatId : UInt32} {text other : List Char}
    (h : namedFormat formatId text = namedFormat formatId other) : text = other := by
  have hname := congrArg CliprdrFormat.formatName h
  simp only [namedFormat] at hname
  by_cases htext : text = []
  · by_cases hother : other = []
    · rw [htext, hother]
    · simp [htext, hother] at hname
  · by_cases hother : other = []
    · simp [htext, hother] at hname
    · rw [if_neg htext, if_neg hother, Option.some.injEq] at hname
      exact ofList_injective hname

theorem length_flatMap_wireFormat_short (formats : List CliprdrFormat) :
    (formats.flatMap (wireFormat false)).length = 36 * formats.length := by
  have hformat (format : CliprdrFormat) : (wireFormat false format).length = 36 :=
    length_wireFormat false format
  rw [length_flatMap_of_length hformat, Nat.mul_comm]

/-- With short names every name arrives cut to 15 bytes. -/
theorem receiveFormatList_short (hr : reader.Strict) (hnul : NamesNulFree formats)
    (hmax : 36 * formats.length ≤ 4294967279) :
    receiveFormatList reader false (packet cbFormatList 0 (formats.flatMap (wireFormat false))) =
      .ok (formats.map fun format =>
        namedFormat format.formatId (fitUtf8 15 (nameText format))) := by
  set entries := formats.map fun format : CliprdrFormat =>
    (format.formatId, shortBlock (fitUtf8 15 (nameText format))) with hentries
  have hbody : formats.flatMap (wireFormat false) = entries.flatMap shortEntry := by
    rw [hentries, List.flatMap_map]
    rfl
  have hblocks : Blocks entries := by
    intro entry hentry
    obtain ⟨format, -, rfl⟩ := List.mem_map.mp hentry
    exact length_shortBlock (length_utf16_fitUtf8_le _)
  have hmaxBody : (formats.flatMap (wireFormat false)).length ≤ 4294967279 := by
    rwa [length_flatMap_wireFormat_short]
  have hdataLen : (UInt32.ofNat (formats.flatMap (wireFormat false)).length).toNat =
      (formats.flatMap (wireFormat false)).length :=
    UInt32.toNat_ofNat_of_lt' (by change _ < 4294967296; omega)
  have hdata : UInt32.ofNat (formats.flatMap (wireFormat false)).length = 0 ∨ formats ≠ [] := by
    by_cases hnil : formats = []
    · exact Or.inl (by rw [hnil]; rfl)
    · exact Or.inr hnil
  rw [receiveFormatList_packet reader false hmaxBody, readFormatList_short_iff]
  refine ⟨hdataLen.le, entries, [], hblocks, by simp, ?_, ?_, ?_⟩
  · rw [hdataLen, List.take_length, hbody, List.append_nil]
  · refine hdata.imp_right fun hne => ⟨?_, hr.calloc _⟩
    rwa [hentries, ne_eq, List.map_eq_nil_iff]
  · rw [readEntries_eq_ok_iff, hentries, List.forall₂_map_left_iff, List.forall₂_map_right_iff,
      List.forall₂_same]
    intro format hformat
    have hflags : decide ((0 : UInt16) &&& cbAsciiNames ≠ 0) = false := by decide
    simp only [hflags]
    exact readShortEntry_shortBlock hr _ (forall_mem_fitUtf8 (hnul format hformat) 15)
      (length_utf16_fitUtf8_le _)

/-- A name of at most 15 bytes is not cut. -/
theorem cutsBetweenCharacters_of_length
    (h : ∀ format ∈ formats, (utf8 (nameText format)).length ≤ 15) :
    CutsBetweenCharacters false formats := by
  intro _ format hformat
  have hlength := h format hformat
  rw [fitUtf8_eq_self_iff.mpr hlength, List.take_of_length_le hlength]

/-- A list of formats with short names arrives with every name cut to 15 bytes, unless one is
cut inside a character, when nothing goes out. So it arrives as it was exactly when no name
is longer than 15 bytes. -/
theorem short_format_list_round_trip_iff (h : context.Works) (hw : writer.Strict)
    (hr : reader.Strict) (hnul : NamesNulFree formats)
    (hmax : 36 * formats.length ≤ 4294967279) :
    (CutsBetweenCharacters false formats →
      ∃ bytes, sendFormatList context writer false formats = some (channelRcOk, [bytes]) ∧
        receiveFormatList reader false bytes =
          .ok (formats.map fun format =>
            namedFormat format.formatId (fitUtf8 15 (nameText format)))) ∧
    (¬ CutsBetweenCharacters false formats →
      sendFormatList context writer false formats = some (errorInternalError, [])) ∧
    ((∃ bytes, sendFormatList context writer false formats = some (channelRcOk, [bytes]) ∧
        receiveFormatList reader false bytes =
          .ok (formats.map fun format => namedFormat format.formatId (nameText format))) ↔
      ∀ format ∈ formats, (utf8 (nameText format)).length ≤ 15) := by
  have hread := receiveFormatList_short hr hnul hmax
  rw [← length_flatMap_wireFormat_short] at hmax
  have hsend := fun hcut => sendFormatList_eq h hw.toFaithful false hnul hcut hmax
  refine ⟨fun hcut => ⟨_, hsend hcut, hread⟩, sendFormatList_refused h hw hnul, ?_, ?_⟩
  · rintro ⟨bytes, hbytes, hback⟩ format hformat
    by_cases hcut : CutsBetweenCharacters false formats
    · rw [hsend hcut, Option.some.injEq, Prod.mk.injEq] at hbytes
      obtain rfl := List.singleton_inj.mp hbytes.2
      rw [hread, Except.ok.injEq, List.map_inj_left] at hback
      exact fitUtf8_eq_self_iff.mp (namedFormat_injective (hback format hformat))
    · rw [sendFormatList_refused h hw hnul hcut, Option.some.injEq, Prod.mk.injEq] at hbytes
      exact absurd hbytes.2 (by simp)
  · intro hall
    refine ⟨_, hsend (cutsBetweenCharacters_of_length hall), ?_⟩
    rw [hread, Except.ok.injEq, List.map_inj_left]
    intro format hformat
    rw [fitUtf8_eq_self_iff.mpr (hall format hformat)]

/-- The name of a file list is cut, so the list does not arrive as it was. -/
theorem short_format_list_file_and_image :
    (∃ bytes, sendFormatList .permissive .encoding false
          [⟨0xD001, some "FileGroupDescriptorW"⟩, ⟨0xC001, some "PNG"⟩] =
        some (channelRcOk, [bytes]) ∧
      receiveFormatList .decoding false bytes =
        .ok ([⟨0xD001, some "FileGroupDescriptorW"⟩, ⟨0xC001, some "PNG"⟩].map
          fun format : CliprdrFormat =>
            namedFormat format.formatId (fitUtf8 15 (nameText format)))) ∧
      ¬ ∃ bytes, sendFormatList .permissive .encoding false
          [⟨0xD001, some "FileGroupDescriptorW"⟩, ⟨0xC001, some "PNG"⟩] =
        some (channelRcOk, [bytes]) ∧
      receiveFormatList .decoding false bytes =
        .ok ([⟨0xD001, some "FileGroupDescriptorW"⟩, ⟨0xC001, some "PNG"⟩].map
          fun format : CliprdrFormat => namedFormat format.formatId (nameText format)) := by
  have hnul : NamesNulFree [⟨0xD001, some "FileGroupDescriptorW"⟩, ⟨0xC001, some "PNG"⟩] := by
    decide
  obtain ⟨hcut, -, hsame⟩ := short_format_list_round_trip_iff CliprdrPlugin.permissive_works
    NameWriter.encoding_strict NameReader.decoding_strict hnul (by decide)
  exact ⟨hcut fun _ => by decide, fun hback => absurd (hsame.mp hback) (by decide)⟩

def ArrivesNamed (useLongFormatNames : Bool) (formats : List CliprdrFormat) : Prop :=
  ∀ format ∈ formats, format.formatName ≠ some "" ∧ IsAscii (nameText format) ∧
    (useLongFormatNames = false → (utf8 (nameText format)).length ≤ 15)

theorem namedFormat_nameText (h : format.formatName ≠ some "") :
    namedFormat format.formatId (nameText format) = format := by
  obtain ⟨formatId, formatName⟩ := format
  cases formatName with
  | none => rfl
  | some name =>
      have hne : name.toList ≠ [] := by
        intro hnil
        apply h
        rw [← String.ofList_toList (s := name), hnil]
      simp only [namedFormat, nameText, Option.getD_some, if_neg hne, String.ofList_toList]

/-- Formats with short ASCII names arrive as they are. -/
theorem receiveFormatList_eq (hr : reader.Strict) (hnul : NamesNulFree formats)
    {useLongFormatNames : Bool} (hnamed : ArrivesNamed useLongFormatNames formats)
    (hmax : (formats.flatMap (wireFormat useLongFormatNames)).length ≤ 4294967279) :
    receiveFormatList reader useLongFormatNames
        (packet cbFormatList 0 (formats.flatMap (wireFormat useLongFormatNames))) =
      .ok formats := by
  have hself : formats.map (fun format => namedFormat format.formatId (nameText format)) =
      formats := by
    rw [List.map_congr_left fun format hformat => namedFormat_nameText (hnamed format hformat).1,
      List.map_id']
  cases useLongFormatNames with
  | true =>
      have hread := (receiveFormatList_long_iff hr hnul hmax).mpr
        fun format hformat => (hnamed format hformat).2.1
      rwa [hself] at hread
  | false =>
      rw [length_flatMap_wireFormat_short] at hmax
      have hcut : formats.map (fun format =>
          namedFormat format.formatId (fitUtf8 15 (nameText format))) =
          formats.map fun format => namedFormat format.formatId (nameText format) := by
        apply List.map_congr_left
        intro format hformat
        rw [fitUtf8_eq_self_iff.mpr ((hnamed format hformat).2.2 rfl)]
      rw [receiveFormatList_short hr hnul hmax, hcut, hself]

end QfClient
