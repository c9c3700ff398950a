import QfClient.FileServe

/-!
# Ranges of files that change

A captured file may shrink or grow before the server asks for a range of it.
`sendFileRange` checks the offset against the size recorded at the capture and counts
the bytes from the size on the disk. What it then hands to the clipboard channel is
`rangeResponse`, whose length the server has a say in.
-/

namespace QfClient

open LittleEndian WinPR

abbrev FileContent := {content : Bytes // content.length < 2 ^ 63}

/-- A file opened for reading. A position from 2^63 on is negative as a `qint64`; every
other one can be set, and behind the end nothing is read. -/
def FileContent.openFile (content : FileContent) : OpenFile where
  size := UInt64.ofNat content.1.length
  seek offset := offset.toNat < 2 ^ 63
  read offset maxSize := some ((content.1.drop offset.toNat).take maxSize.toNat)
  read_length_le offset maxSize data h := by
    rw [← Option.some.inj h]
    exact List.length_take_le _ _

abbrev DiskContents := QString → Option FileContent

def DiskContents.disk (contents : DiskContents) : Disk := fun path =>
  (contents path).map FileContent.openFile

/-- The response that `sendFileRange` passes to `ClientFileContentsResponse`, if it
gets as far. -/
def rangeResponse (disk : Disk) (request : FileContentsRequest) (fileInfo : ClipboardInfoFile) :
    Option FileContentsResponse :=
  if fileInfo.isDirectory then none
  else if fileInfo.total ≤ request.offset then none
  else
    match disk fileInfo.localPath with
    | none => none
    | some file =>
        if file.seek request.offset then
          match file.read request.offset (bytesToRead file request) with
          | none => none
          | some data =>
              if data.length ≠ (bytesToRead file request).toNat then none
              else some ⟨cbResponseOk, request.streamId, UInt32.ofNat data.length, some data⟩
        else none

/-- `sendFileRange` gets to the subtraction of the offset from the size of the file. -/
structure ReachesSize (disk : Disk) (request : FileContentsRequest) (fileInfo : ClipboardInfoFile)
    (file : OpenFile) : Prop where
  notDirectory : fileInfo.isDirectory = false
  belowTotal : request.offset < fileInfo.total
  opened : disk fileInfo.localPath = some file
  positioned : file.seek request.offset = true

variable {disk : Disk} {contents : DiskContents} {request : FileContentsRequest}
  {fileInfo : ClipboardInfoFile} {content : FileContent} {plugin : CliprdrPlugin}

theorem sendFileRange_eq (context : CliprdrPlugin) (disk : Disk) (request : FileContentsRequest)
    (fileInfo : ClipboardInfoFile) :
    sendFileRange context disk request fileInfo =
      (rangeResponse disk request fileInfo).elim responseFailed
        (cliprdrClientFileContentsResponse context) := by
  unfold sendFileRange rangeResponse
  split_ifs with hdir htotal
  · rfl
  · rfl
  · cases disk fileInfo.localPath with
    | none => rfl
    | some file =>
        simp only
        split_ifs with hseek
        · cases file.read request.offset (bytesToRead file request) with
          | none => rfl
          | some data =>
              simp only
              split_ifs with hlength
              · rfl
              · rfl
        · rfl

theorem toNat_size (content : FileContent) :
    content.openFile.size.toNat = content.1.length :=
  UInt64.toNat_ofNat_of_lt' (lt_of_lt_of_le content.2 (by decide))

/-- The count is the smaller of the requested bytes and those left, for an offset inside
the file. -/
theorem toNat_bytesToRead (h : request.offset.toNat ≤ content.1.length) :
    (bytesToRead content.openFile request).toNat =
      min request.cbRequested.toNat (content.1.length - request.offset.toNat) := by
  have hsize := toNat_size content
  have hsub : (content.openFile.size - request.offset).toNat =
      content.1.length - request.offset.toNat := by
    rw [UInt64.toNat_sub_of_le _ _ (by rw [UInt64.le_iff_toNat_le, hsize]; exact h), hsize]
  simp only [bytesToRead]
  split_ifs with hle
  · rw [UInt64.le_iff_toNat_le, hsub, UInt32.toNat_toUInt64] at hle
    rw [hsub]
    omega
  · rw [UInt64.le_iff_toNat_le, hsub, UInt32.toNat_toUInt64] at hle
    rw [UInt32.toNat_toUInt64]
    omega

theorem rangeResponse_of_reaches (h : ReachesSize contents.disk request fileInfo content.openFile) :
    rangeResponse contents.disk request fileInfo =
      let data := (content.1.drop request.offset.toNat).take
        (bytesToRead content.openFile request).toNat
      if data.length ≠ (bytesToRead content.openFile request).toNat then none
      else some ⟨cbResponseOk, request.streamId, UInt32.ofNat data.length, some data⟩ := by
  unfold rangeResponse
  rw [h.notDirectory, if_neg (by simp), if_neg (UInt64.not_le.mpr h.belowTotal), h.opened]
  simp only [h.positioned, if_true]
  rfl

/-- The response carries the bytes on the disk from the offset on, as many as are asked
for and left, and none behind the recorded size. -/
structure CarriesRange (content : FileContent) (request : FileContentsRequest) (total : UInt64)
    (response : FileContentsResponse) : Prop where
  ok : response.msgFlags = cbResponseOk
  payload : response.payload = (content.1.drop request.offset.toNat).take
    (min request.cbRequested.toNat (content.1.length - request.offset.toNat))
  belowTotal : request.offset.toNat +
    min request.cbRequested.toNat (content.1.length - request.offset.toNat) ≤ total.toNat

structure RangeExact (contents : DiskContents) (request : FileContentsRequest)
    (fileInfo : ClipboardInfoFile) : Prop where
  noWrap : ∀ content : FileContent,
    ReachesSize contents.disk request fileInfo content.openFile →
      request.offset ≤ content.openFile.size
  carries : ∀ response, rangeResponse contents.disk request fileInfo = some response →
    ∃ content, contents fileInfo.localPath = some content ∧
      CarriesRange content request fileInfo.total response

def RangeRefused (contents : DiskContents) (request : FileContentsRequest)
    (fileInfo : ClipboardInfoFile) : Prop :=
  fileInfo.isDirectory = true ∨ fileInfo.total ≤ request.offset ∨
    contents fileInfo.localPath = none ∨ 2 ^ 63 ≤ request.offset.toNat

/-- The file still reaches the offset, and has not grown into the range. -/
def RangeRecorded (contents : DiskContents) (request : FileContentsRequest)
    (fileInfo : ClipboardInfoFile) : Prop :=
  ∃ content, contents fileInfo.localPath = some content ∧
    request.offset.toNat ≤ content.1.length ∧
    request.offset.toNat +
      min request.cbRequested.toNat (content.1.length - request.offset.toNat) ≤ fileInfo.total.toNat

theorem ReachesSize.not_refused (h : ReachesSize contents.disk request fileInfo content.openFile) :
    ¬ RangeRefused contents request fileInfo := by
  rintro (hdir | htotal | hnone | hfar)
  · rw [h.notDirectory] at hdir
    cases hdir
  · exact absurd htotal (UInt64.not_le.mpr h.belowTotal)
  · have hopened := h.opened
    rw [DiskContents.disk, hnone] at hopened
    cases hopened
  · have hpositioned : request.offset.toNat < 2 ^ 63 := of_decide_eq_true h.positioned
    omega

theorem reachesSize (hcontent : contents fileInfo.localPath = some content)
    (h : ¬ RangeRefused contents request fileInfo) :
    ReachesSize contents.disk request fileInfo content.openFile := by
  unfold RangeRefused at h
  push Not at h
  obtain ⟨hdir, htotal, -, hfar⟩ := h
  refine ⟨by simpa using hdir, UInt64.not_le.mp htotal, ?_, decide_eq_true hfar⟩
  rw [DiskContents.disk, hcontent, Option.map_some]

theorem rangeResponse_refused (h : RangeRefused contents request fileInfo) :
    rangeResponse contents.disk request fileInfo = none := by
  unfold rangeResponse
  split_ifs with hdir htotal
  · rfl
  · rfl
  · cases hcontent : contents fileInfo.localPath with
    | none => simp only [DiskContents.disk, hcontent, Option.map_none]
    | some content =>
        have hfar : 2 ^ 63 ≤ request.offset.toNat := by
          rcases h with hdir' | htotal' | hnone | hfar
          · exact absurd hdir' hdir
          · exact absurd htotal' htotal
          · exact absurd (hcontent.symm.trans hnone) (by simp)
          · exact hfar
        have hseek : content.openFile.seek request.offset = false :=
          decide_eq_false (Nat.not_lt.mpr hfar)
        simp only [DiskContents.disk, hcontent, Option.map_some, hseek, Bool.false_eq_true,
          if_false]

/-- The response for an offset inside the file. -/
theorem rangeResponse_inside
    (h : ReachesSize contents.disk request fileInfo content.openFile)
    (hinside : request.offset.toNat ≤ content.1.length) :
    ∃ data, data.length =
        min request.cbRequested.toNat (content.1.length - request.offset.toNat) ∧
      data = (content.1.drop request.offset.toNat).take
        (min request.cbRequested.toNat (content.1.length - request.offset.toNat)) ∧
      rangeResponse contents.disk request fileInfo =
        some ⟨cbResponseOk, request.streamId, UInt32.ofNat data.length, some data⟩ := by
  have hcount := toNat_bytesToRead hinside
  have hlength : ((content.1.drop request.offset.toNat).take
      (bytesToRead content.openFile request).toNat).length =
      (bytesToRead content.openFile request).toNat := by
    rw [List.length_take, List.length_drop, hcount]
    omega
  refine ⟨(content.1.drop request.offset.toNat).take
    (bytesToRead content.openFile request).toNat, ?_, by rw [hcount], ?_⟩
  · rw [hlength, hcount]
  · rw [rangeResponse_of_reaches h]
    exact if_neg (not_not_intro hlength)

theorem payload_eq (msgFlags : UInt16) (streamId : UInt32) {data : Bytes}
    (h : data.length < 2 ^ 32) :
    FileContentsResponse.payload ⟨msgFlags, streamId, UInt32.ofNat data.length, some data⟩ =
      data := by
  simp only [FileContentsResponse.payload, Option.getD_some, UInt32.toNat_ofNat_of_lt' h,
    List.take_length]

/-- A range is served exactly, with the offset never above the size, if and only if the
request is refused before, or the file reaches the offset and ends, as far as it is asked
for, within the recorded size. -/
theorem range_exact_iff (contents : DiskContents) (request : FileContentsRequest)
    (fileInfo : ClipboardInfoFile) :
    (∀ context, sendFileRange context contents.disk request fileInfo =
        (rangeResponse contents.disk request fileInfo).elim responseFailed
          (cliprdrClientFileContentsResponse context)) ∧
      (RangeExact contents request fileInfo ↔
        RangeRefused contents request fileInfo ∨ RangeRecorded contents request fileInfo) := by
  refine ⟨fun context => sendFileRange_eq context _ _ _, ?_, ?_⟩
  · intro h
    by_cases hrefused : RangeRefused contents request fileInfo
    · exact Or.inl hrefused
    · have hsome : contents fileInfo.localPath ≠ none := fun hnone =>
        hrefused (Or.inr (Or.inr (Or.inl hnone)))
      obtain ⟨content, hcontent⟩ := Option.ne_none_iff_exists'.mp hsome
      have hreaches := reachesSize hcontent hrefused
      have hinside : request.offset.toNat ≤ content.1.length := by
        rw [← toNat_size content]
        exact UInt64.le_iff_toNat_le.mp (h.noWrap content hreaches)
      obtain ⟨data, -, -, hresponse⟩ := rangeResponse_inside hreaches hinside
      obtain ⟨content', hcontent', hcarries⟩ := h.carries _ hresponse
      obtain rfl := Option.some.inj (hcontent.symm.trans hcontent')
      exact Or.inr ⟨content, hcontent, hinside, hcarries.belowTotal⟩
  · rintro (hrefused | ⟨content, hcontent, hinside, htotal⟩)
    · constructor
      · exact fun content hreaches => absurd hrefused hreaches.not_refused
      · intro response hresponse
        rw [rangeResponse_refused hrefused] at hresponse
        cases hresponse
    · have hdisk : contents.disk fileInfo.localPath = some content.openFile := by
        rw [DiskContents.disk, hcontent, Option.map_some]
      constructor
      · intro content' hreaches
        have hsame := Option.some.inj (hdisk.symm.trans hreaches.opened)
        rw [← hsame, UInt64.le_iff_toNat_le, toNat_size]
        exact hinside
      · intro response hresponse
        have hreaches : ReachesSize contents.disk request fileInfo content.openFile := by
          refine reachesSize hcontent fun hrefused => ?_
          rw [rangeResponse_refused hrefused] at hresponse
          cases hresponse
        obtain ⟨data, hlength, hdata, hsome⟩ := rangeResponse_inside hreaches hinside
        obtain rfl := Option.some.inj (hsome.symm.trans hresponse)
        have hlt : data.length < 2 ^ 32 := by
          have hcb := request.cbRequested.toNat_lt
          omega
        refine ⟨content, hcontent, rfl, ?_, htotal⟩
        rw [payload_eq _ _ hlt]
        exact hdata

def onDisk (path : QString) (content : FileContent) : DiskContents := fun path' =>
  if path' = path then some content else none

def rangeRequest (offset cbRequested : UInt32) : FileContentsRequest :=
  ⟨1, 0, fileContentsRange, offset, 0, cbRequested, none⟩

def recordedFile (total : UInt64) : ClipboardInfoFile := ⟨[0x61], [Qt.slash, 0x61], total, false⟩

/-- Once the file has shrunk below the offset the subtraction wraps; once it has grown
the bytes behind the recorded size are sent. -/
theorem range_not_exact_after_change :
    ¬ RangeExact (onDisk [Qt.slash, 0x61] ⟨[1, 2, 3, 4], by decide⟩) (rangeRequest 8 4)
        (recordedFile 10) ∧
      rangeResponse (onDisk [Qt.slash, 0x61] ⟨[1, 2, 3, 4], by decide⟩).disk (rangeRequest 0 4)
        (recordedFile 2) = some ⟨cbResponseOk, 1, 4, some [1, 2, 3, 4]⟩ ∧
      ¬ RangeExact (onDisk [Qt.slash, 0x61] ⟨[1, 2, 3, 4], by decide⟩) (rangeRequest 0 4)
        (recordedFile 2) := by
  have hresponse : rangeResponse (onDisk [Qt.slash, 0x61] ⟨[1, 2, 3, 4], by decide⟩).disk
      (rangeRequest 0 4) (recordedFile 2) = some ⟨cbResponseOk, 1, 4, some [1, 2, 3, 4]⟩ := by
    decide
  refine ⟨fun h => ?_, hresponse, fun h => ?_⟩
  · have hle := h.noWrap ⟨[1, 2, 3, 4], by decide⟩ ⟨rfl, by decide, rfl, by decide⟩
    exact absurd hle (by decide)
  · obtain ⟨content, hcontent, hcarries⟩ := h.carries _ hresponse
    obtain rfl : ⟨[1, 2, 3, 4], by decide⟩ = content := Option.some.inj hcontent
    exact absurd hcarries.belowTotal (by decide)

/-- The 32-bit length of the body does not wrap, the packet has room for the body, and
the assertions on the sizes of the packet hold when it is built and when it is sent. -/
structure ResponseFits (plugin : CliprdrPlugin) (response : FileContentsResponse) : Prop where
  noWrap : (4 + response.cbRequested).toNat = 4 + response.cbRequested.toNat
  newAssertion : (4 + response.cbRequested).toNat < 4294967295
  room : ∃ s, cliprdrPacketNew plugin cbFileContentsResponse response.msgFlags
      (4 + response.cbRequested).toNat = some (some s) ∧
    s.position + (4 + response.payload.length) ≤ s.capacity
  sendAssertion : ∃ s, cliprdrPacketFileContentsResponseNew plugin response = some (some s) ∧
    8 ≤ s.position ∧ s.position ≤ 4294967295 - 8

theorem responseFits_iff (h : plugin.Ready) (msgFlags : UInt16) (streamId : UInt32) {data : Bytes}
    (hdata : data.length < 2 ^ 32) :
    ResponseFits plugin ⟨msgFlags, streamId, UInt32.ofNat data.length, some data⟩ ↔
      data.length ≤ 4294967275 := by
  set response : FileContentsResponse :=
    ⟨msgFlags, streamId, UInt32.ofNat data.length, some data⟩ with hresponse
  have hpayload : response.payload = data := payload_eq msgFlags streamId hdata
  have hcount : response.cbRequested.toNat = data.length := UInt32.toNat_ofNat_of_lt' hdata
  have hsum : (4 + response.cbRequested).toNat = (4 + data.length) % 2 ^ 32 := by
    rw [UInt32.toNat_add, hcount]
    rfl
  -- A packet for a body that does not wrap has room for it, and ends behind it.
  have hbuilt : 4 + data.length < 4294967295 →
      ∃ s s', cliprdrPacketNew plugin cbFileContentsResponse msgFlags
          (4 + response.cbRequested).toNat = some (some s) ∧
        s.position = 8 ∧ s.capacity = 4 + data.length + 8 ∧
        cliprdrPacketFileContentsResponseNew plugin response = some (some s') ∧
        s'.position = 12 + data.length := by
    intro hlt
    rw [hsum, Nat.mod_eq_of_lt (by omega)]
    obtain ⟨s, hs, -, hpos, hcap, -⟩ := 
      cliprdrPacketNew_eq cbFileContentsResponse msgFlags (h.streamNew _) hlt
    obtain ⟨s', hs', -, hpos', -⟩ :=
      cliprdrWriteFileContentsResponse_eq (s := s) response (by rw [hpayload]; omega)
    refine ⟨s, s', hs, hpos, hcap, ?_, ?_⟩
    · rw [cliprdrPacketFileContentsResponseNew, hsum, Nat.mod_eq_of_lt (by omega)]
      simp only [hresponse] at hs' ⊢
      simp only [hs, hs']
    · rw [hpos', hpayload, hpos]
  constructor
  · intro hfits
    have hwrap := hfits.noWrap
    have hnew := hfits.newAssertion
    rw [hwrap, hcount] at hnew
    obtain ⟨s, s', -, -, -, hs', hpos'⟩ := hbuilt hnew
    obtain ⟨s'', hs'', -, hle⟩ := hfits.sendAssertion
    obtain rfl := Option.some.inj (Option.some.inj (hs'.symm.trans hs''))
    omega
  · intro hle
    obtain ⟨s, s', hs, hpos, hcap, hs', hpos'⟩ := hbuilt (by omega)
    refine ⟨?_, ?_, ⟨s, hs, ?_⟩, ⟨s', hs', ?_, ?_⟩⟩
    · rw [hsum, hcount, Nat.mod_eq_of_lt (by omega)]
    · rw [hsum, Nat.mod_eq_of_lt (by omega)]
      omega
    · rw [hpayload]
      omega
    · omega
    · omega

/-- The response to a range request for an unchanged file fits its packet if and only if
the range has at most `UINT32_MAX` less 20 bytes. -/
theorem range_response_fits_iff (h : plugin.Ready) (contents : DiskContents)
    (request : FileContentsRequest) (fileInfo : ClipboardInfoFile) (content : FileContent)
    (hfile : fileInfo.isDirectory = false) (hcontent : contents fileInfo.localPath = some content)
    (htotal : fileInfo.total.toNat = content.1.length)
    (hoffset : request.offset.toNat < content.1.length) :
    ∃ response, rangeResponse contents.disk request fileInfo = some response ∧
      sendFileRange plugin contents.disk request fileInfo =
        cliprdrClientFileContentsResponse plugin response ∧
      (ResponseFits plugin response ↔
        min request.cbRequested.toNat (content.1.length - request.offset.toNat) ≤ 4294967275) := by
  have hreaches : ReachesSize contents.disk request fileInfo content.openFile := by
    refine reachesSize hcontent ?_
    have hsmall := content.2
    rintro (hdir | hle | hnone | hfar)
    · rw [hfile] at hdir
      cases hdir
    · rw [UInt64.le_iff_toNat_le, htotal] at hle
      omega
    · exact absurd (hcontent.symm.trans hnone) (by simp)
    · omega
  obtain ⟨data, hlength, -, hresponse⟩ := rangeResponse_inside hreaches (Nat.le_of_lt hoffset)
  have hlt : data.length < 2 ^ 32 := by
    have hcb := request.cbRequested.toNat_lt
    omega
  refine ⟨_, hresponse, ?_, ?_⟩
  · rw [sendFileRange_eq, hresponse, Option.elim_some]
  · rw [responseFits_iff h _ _ hlt, hlength]

theorem range_response_fits_two_bytes :
    ∃ response, rangeResponse (onDisk [Qt.slash, 0x61] ⟨[1, 2, 3, 4], by decide⟩).disk
        (rangeRequest 1 2) (recordedFile 4) = some response ∧
      ResponseFits .permissive response := by
  obtain ⟨response, hresponse, -, hfits⟩ := range_response_fits_iff CliprdrPlugin.permissive_ready
    (onDisk [Qt.slash, 0x61] ⟨[1, 2, 3, 4], by decide⟩) (rangeRequest 1 2) (recordedFile 4)
    ⟨[1, 2, 3, 4], by decide⟩ rfl rfl rfl (by decide)
  exact ⟨response, hresponse, hfits.mpr (by decide)⟩

/-- Of a file of four gigabytes the server may ask for so many bytes that the length of
the body wraps to zero, and the response does not fit. -/
theorem range_response_too_long :
    ∃ (content : FileContent) (response : FileContentsResponse), content.1.length = 2 ^ 32 ∧
      rangeResponse (onDisk [Qt.slash, 0x61] content).disk (rangeRequest 0 4294967292)
          (recordedFile 4294967296) = some response ∧
        4 + response.cbRequested = 0 ∧ ¬ ResponseFits .permissive response ∧
        sendFileRange .permissive (onDisk [Qt.slash, 0x61] content).disk
          (rangeRequest 0 4294967292) (recordedFile 4294967296) = none := by
  obtain ⟨content, hlength⟩ : ∃ content : FileContent, content.1.length = 2 ^ 32 :=
    ⟨⟨List.replicate (2 ^ 32) 0, by rw [List.length_replicate]; decide⟩, List.length_replicate⟩
  have hcontent : onDisk [Qt.slash, 0x61] content (recordedFile 4294967296).localPath =
    some content := rfl
  have hrefused : ¬ RangeRefused (onDisk [Qt.slash, 0x61] content) (rangeRequest 0 4294967292)
      (recordedFile 4294967296) := by
    rintro (hdir | hle | hnone | hfar)
    · exact absurd hdir (by decide)
    · exact absurd hle (by decide)
    · cases hnone
    · exact absurd hfar (by decide)
  have hzero : (rangeRequest 0 4294967292).offset.toNat = 0 := by decide
  have hcount : (rangeRequest 0 4294967292).cbRequested.toNat = 4294967292 := rfl
  obtain ⟨data, hdata, -, hresponse⟩ :=
    rangeResponse_inside (reachesSize hcontent hrefused) (by omega)
  have hlen : data.length = 4294967292 := by omega
  have hlt : data.length < 2 ^ 32 := by omega
  refine ⟨content, _, hlength, hresponse, ?_, ?_, ?_⟩
  · have hsum : 4 + UInt32.ofNat 4294967292 = 0 := by decide
    rw [hlen]
    exact hsum
  · rw [responseFits_iff CliprdrPlugin.permissive_ready _ _ hlt]
    omega
  · rw [sendFileRange_eq, hresponse, Option.elim_some,
      cliprdrClientFileContentsResponse_eq CliprdrPlugin.permissive_ready _ _ hlt,
      if_neg (by omega)]

end QfClient
