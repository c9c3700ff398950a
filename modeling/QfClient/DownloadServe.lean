import QfClient.Download
import QfClient.FileServe
import QfClient.Tiling

/-!
# Downloading from a serving client

The downloading half runs against a peer that answers every request with
`serverFileContentsRequest`: each exchange arms the slot, sends the request,
stores the response that the peer's packet carries and waits for it. With the
content of the file unchanged on the peer's disk the loop ends with that content
at the local path.
-/

namespace QfClient

open LittleEndian Machine Tiling

def OpenFile.ofBytes (content : Bytes) : OpenFile where
  size := UInt64.ofNat content.length
  seek _ := true
  read offset maxSize := some ((content.drop offset.toNat).take maxSize.toNat)
  read_length_le := by
    intro offset maxSize data h
    obtain rfl := Option.some.inj h
    exact List.length_take_le _ _

/-- One request from its arming to the end of its wait: the request, and the
result of the wait. `none` is an exchange that does not come to that. -/
def exchange (peer : FileContentsRequest → Outcome) (slot : RemoteSlot) (job : RemoteFileJob)
    (state : DownloadState) : Option (RemoteSlot × FileContentsRequest × Option Bytes) :=
  match state.request job (nextRemoteStreamId slot.nextStreamId).1 with
  | none => none
  | some request =>
      match peer request with
      | some (rc, [packet]) =>
          if rc = channelRcOk then
            match receiveFileContentsResponse packet with
            | none => none
            | some response =>
                match run slotStep slot
                    [.arm state.kind, .send channelRcOk, .response response, .wait] with
                | some (slot, [_, _, _, (_, .waited _ result)]) => some (slot, request, result)
                | _ => none
          else none
      | _ => none

structure DownloadRun where
  slot : RemoteSlot
  state : DownloadState
  files : LocalFiles
  requests : List FileContentsRequest

/-- `download_remote_file` for at most `fuel` exchanges; `none` is out of fuel or
a failed exchange. -/
def downloadRemoteFile (peer : FileContentsRequest → Outcome) (job : RemoteFileJob) :
    ℕ → DownloadRun → Option DownloadRun
  | fuel, r =>
      match r.state with
      | .returned _ => some r
      | state =>
          match fuel with
          | 0 => none
          | fuel + 1 =>
              match exchange peer r.slot job state with
              | none => none
              | some (slot, request, result) =>
                  let next := state.resume .succeeds job r.files result
                  downloadRemoteFile peer job fuel
                    ⟨slot, next.1, next.2, r.requests ++ [request]⟩

def RemoteSlot.exchanged (slot : RemoteSlot) : RemoteSlot :=
  { slot with
    pending := .empty
    nextStreamId := (nextRemoteStreamId slot.nextStreamId).2
    pc := .idle }

structure RemoteSlot.Open (slot : RemoteSlot) : Prop where
  pc : slot.pc = .idle
  stopped : slot.stopped = false

theorem RemoteSlot.Open.exchanged {slot : RemoteSlot} (h : slot.Open) : slot.exchanged.Open :=
  ⟨rfl, h.stopped⟩

theorem run_exchange {slot : RemoteSlot} (h : slot.Open) (kind : RemoteRequestKind)
    {response : FileContentsResponse}
    (hid : response.streamId = (nextRemoteStreamId slot.nextStreamId).1)
    (hok : response.msgFlags = cbResponseOk) :
    ∃ e₁ e₂ e₃ i streamId, run slotStep slot
        [.arm kind, .send channelRcOk, .response response, .wait] =
      some (slot.exchanged, [e₁, e₂, e₃, (i, .waited streamId (some response.payload))]) := by
  set streamId := (nextRemoteStreamId slot.nextStreamId).1 with hstreamId
  let armed : RemoteSlot :=
    { slot with
      pending := pendingOf streamId kind none
      nextStreamId := (nextRemoteStreamId slot.nextStreamId).2
      pc := .armed streamId }
  let waiting : RemoteSlot := { armed with pc := .waiting streamId }
  let filled : RemoteSlot := { waiting with pending := pendingOf streamId kind (some response) }
  have harm : slotStep slot (.arm kind) = some (armed, .armed streamId) := by
    simp only [slotStep, h.pc]
    rfl
  have hsend : slotStep armed (.send channelRcOk) = some (waiting, .sent true) := rfl
  have hexpects : waiting.pending.expects response = true := by
    simp [waiting, armed, hid]
  have hresponse : slotStep waiting (.response response) = some (filled, .responded true) := by
    simp only [slotStep, serverFileContentsResponse, hexpects, if_true]
    rfl
  have hwait : slotStep filled .wait =
      some (slot.exchanged, .waited streamId (some response.payload)) := by
    have hover : filled.waitOver streamId = true := by
      simp [RemoteSlot.waitOver, filled]
    have hresult : filled.result = some response.payload := by
      rw [result_pendingOf (s := filled) h.stopped rfl, if_pos hok]
    simp only [slotStep, filled, waiting] at hover hresult ⊢
    rw [if_pos hover, hresult]
    rfl
  refine ⟨(.arm kind, .armed streamId), (.send channelRcOk, .sent true),
    (.response response, .responded true), .wait, streamId, ?_⟩
  simp only [run, harm, hsend, hresponse, hwait]

/-- A response with the request's stream id comes back as the result of the wait. -/
theorem exchange_eq {peer : FileContentsRequest → Outcome} {slot : RemoteSlot}
    {job : RemoteFileJob} {state : DownloadState} {request : FileContentsRequest} {data : Bytes}
    (h : slot.Open)
    (hrequest : state.request job (nextRemoteStreamId slot.nextStreamId).1 = some request)
    (hid : request.streamId = (nextRemoteStreamId slot.nextStreamId).1)
    (hpeer : peer request = some (channelRcOk,
      [fileContentsResponsePacket cbResponseOk request.streamId data]))
    (hlen : data.length ≤ 4294967275) :
    exchange peer slot job state = some (slot.exchanged, request, some data) := by
  obtain ⟨response, hreceive, hok, hstream, hpayload⟩ :=
    receive_fileContentsResponsePacket cbResponseOk request.streamId hlen
  obtain ⟨e₁, e₂, e₃, i, streamId, hrun⟩ :=
    run_exchange h state.kind (hstream.trans hid) hok
  simp only [exchange, hrequest, hpeer, if_true, hreceive, hrun, hpayload]

/-- The peer serves `files` from `disk`, where entry `listIndex` is a regular
file with the content `content`. -/
structure ServesContent (peer : CliprdrPlugin) (files : List ClipboardInfoFile) (disk : Disk)
    (listIndex : UInt32) (content : Bytes) : Prop where
  ready : peer.Ready
  entry : ∃ fileInfo, files[listIndex.toNat]? = some fileInfo ∧ fileInfo.isDirectory = false ∧
    fileInfo.total.toNat = content.length ∧
    disk fileInfo.localPath = some (.ofBytes content)
  small : content.length < 2 ^ 63

def peerOf (peer : CliprdrPlugin) (files : List ClipboardInfoFile) (disk : Disk) :
    FileContentsRequest → Outcome :=
  serverFileContentsRequest (some peer) (some files) disk

variable {peer : CliprdrPlugin} {files : List ClipboardInfoFile} {disk : Disk}
  {listIndex : UInt32} {content : Bytes} {offset : UInt64} {job : RemoteFileJob}

/-- The two halves of the offset recombine on the serving side. -/
theorem requestRemoteRange_offset (streamId listIndex : UInt32) (offset : UInt64)
    (count : UInt32) : (requestRemoteRange streamId listIndex offset count).offset = offset :=
  join32_high32_low32 offset

theorem ServesContent.toNat_size (h : ServesContent peer files disk listIndex content) :
    (UInt64.ofNat content.length).toNat = content.length :=
  UInt64.toNat_ofNat_of_lt' (lt_trans h.small (by decide))

theorem ServesContent.lt_iff (h : ServesContent peer files disk listIndex content) :
    offset < UInt64.ofNat content.length ↔ offset.toNat < content.length := by
  rw [UInt64.lt_iff_toNat_lt, h.toNat_size]

theorem ServesContent.toNat_bytesToRequest (h : ServesContent peer files disk listIndex content)
    (hoff : offset < UInt64.ofNat content.length) :
    (bytesToRequest (UInt64.ofNat content.length) offset).toNat =
      min 65536 (content.length - offset.toNat) := by
  rw [bytesToRequest_toNat hoff, h.toNat_size]

theorem ServesContent.size (h : ServesContent peer files disk listIndex content)
    (streamId : UInt32) :
    peerOf peer files disk (requestRemoteSize streamId listIndex) = some (channelRcOk,
      [fileContentsResponsePacket cbResponseOk streamId
        (leUInt64 (UInt64.ofNat content.length))]) := by
  obtain ⟨fileInfo, hentry, hdir, htotal, -⟩ := h.entry
  have hserves : Serves files disk (requestRemoteSize streamId listIndex)
      (leUInt64 (if fileInfo.isDirectory then 0 else fileInfo.total)) :=
    .size hentry (requestRemoteSize_asks _ _)
  rw [peerOf, serverFileContentsRequest_of_servable h.ready hserves, if_pos (by simp), hdir]
  simp only [Bool.false_eq_true, if_false, ← htotal, UInt64.ofNat_toNat]
  rfl

/-- The bytes of a chunk, as the serving side reads them. -/
theorem ServesContent.range (h : ServesContent peer files disk listIndex content)
    (streamId : UInt32) (hoff : offset < UInt64.ofNat content.length) :
    peerOf peer files disk (requestRemoteRange streamId listIndex offset
        (bytesToRequest (UInt64.ofNat content.length) offset)) = some (channelRcOk,
      [fileContentsResponsePacket cbResponseOk streamId ((content.drop offset.toNat).take
        (bytesToRequest (UInt64.ofNat content.length) offset).toNat)]) := by
  obtain ⟨fileInfo, hentry, hdir, htotal, hdisk⟩ := h.entry
  set count := bytesToRequest (UInt64.ofNat content.length) offset with hcount
  have hmin := h.toNat_bytesToRequest hoff
  rw [← hcount] at hmin
  have hlt := h.lt_iff.mp hoff
  have htotal' : fileInfo.total = UInt64.ofNat content.length := by
    rw [← htotal, UInt64.ofNat_toNat]
  -- The serving side reads what was asked for: the request never exceeds what is left.
  have hbytes : (bytesToRead (.ofBytes content) (requestRemoteRange streamId listIndex offset
      count)) = count.toUInt64 := by
    have hsub : (UInt64.ofNat content.length - offset).toNat = content.length - offset.toNat := by
      rw [UInt64.toNat_sub_of_le _ _ (UInt64.le_of_lt hoff), h.toNat_size]
    have hoffset := requestRemoteRange_offset streamId listIndex offset count
    simp only [bytesToRead, hoffset, OpenFile.ofBytes]
    split_ifs with hle
    · apply UInt64.toNat_inj.mp
      rw [UInt64.le_iff_toNat_le, hsub] at hle
      simp only [requestRemoteRange, UInt32.toNat_toUInt64] at hle ⊢
      rw [hsub]
      omega
    · rfl
  have hserves : Serves files disk (requestRemoteRange streamId listIndex offset count)
      ((content.drop offset.toNat).take count.toNat) := by
    have hasks := requestRemoteRange_asks streamId listIndex offset count
    refine .range hentry hasks.1 hasks.2 hdir ?_ hdisk rfl ?_ ?_
    · rw [requestRemoteRange_offset, htotal']
      exact hoff
    · rw [hbytes, requestRemoteRange_offset]
      simp only [OpenFile.ofBytes, UInt32.toNat_toUInt64]
    · rw [hbytes, UInt32.toNat_toUInt64, List.length_take, List.length_drop]
      omega
  have hlen : ((content.drop offset.toNat).take count.toNat).length ≤ 4294967275 := by
    rw [List.length_take]
    omega
  rw [peerOf, serverFileContentsRequest_of_servable h.ready hserves, if_pos hlen]
  rfl

def rangeInterval (request : FileContentsRequest) : Interval :=
  ⟨request.offset.toNat, request.cbRequested.toNat⟩

def IsChunkRequest (listIndex : UInt32) (request : FileContentsRequest) : Prop :=
  request.listIndex = listIndex ∧ ¬ request.asksSize ∧ request.asksRange ∧
    request.cbRequested.toNat ≤ 65536

theorem downloadRemoteFile_returned {peer : FileContentsRequest → Outcome} {r : DownloadRun}
    {path : Option QString} (h : r.state = .returned path) (fuel : ℕ) :
    downloadRemoteFile peer job fuel r = some r := by
  unfold downloadRemoteFile
  simp only [h]

/-- One exchange of the loop. -/
theorem downloadRemoteFile_exchange {peer : FileContentsRequest → Outcome} {r : DownloadRun}
    {slot : RemoteSlot} {request : FileContentsRequest} {result : Option Bytes}
    (h : ∀ path, r.state ≠ .returned path)
    (he : exchange peer r.slot job r.state = some (slot, request, result)) (fuel : ℕ) :
    downloadRemoteFile peer job (fuel + 1) r =
      downloadRemoteFile peer job fuel ⟨slot, (r.state.resume .succeeds job r.files result).1,
        (r.state.resume .succeeds job r.files result).2, r.requests ++ [request]⟩ := by
  conv_lhs => unfold downloadRemoteFile
  split
  · rename_i path hpath
    exact absurd hpath (h path)
  · simp only [he]

theorem append_take {files : LocalFiles} {path : QString} {n m : ℕ}
    (h : files path = some (content.take n)) :
    files.append path ((content.drop n).take m) =
      Function.update files path (some (content.take (n + m))) := by
  rw [LocalFiles.append, h, Option.map_some, List.take_add]

/-- From an offset on, the loop fetches the rest of the content in chunks. -/
theorem chunkLoop_downloads (h : ServesContent peer files disk job.listIndex content) :
    ∀ (left : ℕ) (offset : UInt64) (slot : RemoteSlot) (localFiles : LocalFiles)
      (log : List FileContentsRequest),
      offset.toNat + left = content.length → slot.Open →
      localFiles job.localPath = some (content.take offset.toNat) →
      ∃ slot' ranges fuel, (∀ n, fuel ≤ n → downloadRemoteFile (peerOf peer files disk) job n
          ⟨slot, chunkLoop job (UInt64.ofNat content.length) offset, localFiles, log⟩ =
        some ⟨slot', .returned (some job.localPath),
          Function.update localFiles job.localPath (some content), log ++ ranges⟩) ∧
      Tiles offset.toNat (ranges.map rangeInterval) content.length ∧
      ∀ request ∈ ranges, IsChunkRequest job.listIndex request := by
  intro left
  induction left using Nat.strong_induction_on with
  | _ left ih =>
      intro offset slot localFiles log hleft hslot hfile
      by_cases hoff : offset < UInt64.ofNat content.length
      · have hlt := h.lt_iff.mp hoff
        set count := bytesToRequest (UInt64.ofNat content.length) offset with hcount
        have hmin := h.toNat_bytesToRequest hoff
        rw [← hcount] at hmin
        set streamId := (nextRemoteStreamId slot.nextStreamId).1 with hstreamId
        set request := requestRemoteRange streamId job.listIndex offset count with hrequest
        set chunk := (content.drop offset.toNat).take count.toNat with hchunk
        have hlen : chunk.length = count.toNat := by
          rw [hchunk, List.length_take, List.length_drop]
          omega
        have hexchange : exchange (peerOf peer files disk) slot job
            (.fetch (UInt64.ofNat content.length) offset) =
            some (slot.exchanged, request, some chunk) :=
          exchange_eq hslot rfl rfl (h.range streamId hoff) (by omega)
        have hnext : (offset + UInt64.ofNat chunk.length).toNat = offset.toNat + count.toNat := by
          have hsmall := h.small
          rw [UInt64.toNat_add, hlen, UInt64.toNat_ofNat', Nat.mod_eq_of_lt (by omega),
            Nat.mod_eq_of_lt (by omega)]
        obtain ⟨slot', ranges, fuel, hrun, htiles, hranges⟩ := ih (left - count.toNat) (by omega)
          (offset + UInt64.ofNat chunk.length) slot.exchanged
          (localFiles.append job.localPath chunk) (log ++ [request]) (by omega) hslot.exchanged
          (by rw [hchunk, append_take hfile, Function.update_self, ← hchunk, hnext])
        refine ⟨slot', request :: ranges, fuel + 1, fun n hn => ?_, ?_, ?_⟩
        · obtain ⟨n, rfl⟩ : ∃ m, n = m + 1 := ⟨n - 1, by omega⟩
          rw [chunkLoop, if_pos hoff,
            downloadRemoteFile_exchange (fun path he => absurd he (by simp)) hexchange]
          simp only [DownloadState.resume, rangeAnswered_chunk localFiles hlen]
          rw [hrun n (by omega), LocalFiles.append, Function.update_idem, List.append_assoc,
            List.singleton_append]
        · have hstart : (rangeInterval request).start = offset.toNat := by
            rw [rangeInterval, hrequest, requestRemoteRange_offset]
          have hstop : (rangeInterval request).stop = offset.toNat + count.toNat := by
            rw [Interval.stop, hstart]
            rfl
          rw [← hstart, List.map_cons]
          refine .cons ?_ ?_
          · change 0 < count.toNat
            omega
          · rw [hstop, ← hnext]
            exact htiles
        · refine List.forall_mem_cons.mpr ⟨⟨rfl, ?_⟩, hranges⟩
          have hasks := requestRemoteRange_asks streamId job.listIndex offset count
          refine ⟨hasks.1, hasks.2, ?_⟩
          change count.toNat ≤ 65536
          omega
      · have hge : content.length ≤ offset.toNat := not_lt.mp (mt h.lt_iff.mpr hoff)
        have hend : offset.toNat = content.length := by omega
        refine ⟨slot, [], 0, fun n _ => ?_, ?_, by simp⟩
        · rw [chunkLoop, if_neg hoff, downloadRemoteFile_returned rfl]
          rw [hend, List.take_length] at hfile
          rw [← hfile, Function.update_eq_self, List.append_nil]
        · rw [hend]
          exact .nil _

/-- Downloading entry `listIndex` from a serving peer ends, with the content of
the entry's file at the local path. The requests are one for the size and then
one for each chunk, and the chunks tile the file. -/
theorem download_of_serving_peer (job : RemoteFileJob)
    (h : ServesContent peer files disk job.listIndex content) (slot : RemoteSlot)
    (hslot : slot.Open) (localFiles : LocalFiles) :
    ∃ slot' size ranges fuel,
      (∀ n, fuel ≤ n → downloadRemoteFile (peerOf peer files disk) job n
          ⟨slot, .querySize, localFiles, []⟩ =
        some ⟨slot', .returned (some job.localPath),
          Function.update localFiles job.localPath (some content), size :: ranges⟩) ∧
      size.listIndex = job.listIndex ∧ size.asksSize ∧
      (∀ request ∈ ranges, IsChunkRequest job.listIndex request) ∧
      (∀ iv ∈ ranges.map rangeInterval, 0 < iv.length ∧ iv.length ≤ 65536) ∧
      (ranges.map rangeInterval).Pairwise (fun iv iv' => iv.stop ≤ iv'.start) ∧
      (∀ x, (∃ iv ∈ ranges.map rangeInterval, iv.start ≤ x ∧ x < iv.stop) ↔ x < content.length) ∧
      (ranges = [] ↔ content = []) ∧
      ∀ streamId listIndex offset count,
        (requestRemoteRange streamId listIndex offset count).offset = offset := by
  set streamId := (nextRemoteStreamId slot.nextStreamId).1 with hstreamId
  have hexchange : exchange (peerOf peer files disk) slot job .querySize = some (slot.exchanged,
      requestRemoteSize streamId job.listIndex, some (leUInt64 (UInt64.ofNat content.length))) :=
    exchange_eq hslot rfl rfl (h.size streamId) (by simp)
  obtain ⟨slot', ranges, fuel, hrun, htiles, hranges⟩ := chunkLoop_downloads h content.length 0
    slot.exchanged (localFiles.truncate job.localPath) [requestRemoteSize streamId job.listIndex]
    (by simp) hslot.exchanged (by simp [LocalFiles.truncate])
  refine ⟨slot', requestRemoteSize streamId job.listIndex, ranges, fuel + 1, fun n hn => ?_, rfl,
    requestRemoteSize_asks _ _, hranges, ?_, htiles.pairwise, ?_, ?_, requestRemoteRange_offset⟩
  · obtain ⟨n, rfl⟩ : ∃ m, n = m + 1 := ⟨n - 1, by omega⟩
    rw [downloadRemoteFile_exchange (fun path he => absurd he (by simp)) hexchange]
    simp only [DownloadState.resume, sizeAnswered_size, List.nil_append]
    rw [hrun n (by omega), LocalFiles.truncate, Function.update_idem, List.singleton_append]
  · intro iv hiv
    refine ⟨htiles.length_pos iv hiv, ?_⟩
    obtain ⟨request, hmem, rfl⟩ := List.mem_map.mp hiv
    exact (hranges request hmem).2.2.2
  · intro x
    rw [htiles.mem_iff]
    simp
  · have hnil := htiles.eq_nil_iff
    rw [List.map_eq_nil_iff] at hnil
    rw [hnil, eq_comm]
    simp

theorem download_of_serving_peer_three_bytes :
    ∃ slot' size ranges fuel, downloadRemoteFile
        (peerOf .permissive [⟨[], [], 3, false⟩] (fun _ => some (.ofBytes [1, 2, 3])))
        ⟨0, [], [], 0⟩ fuel ⟨.initial, .querySize, fun _ => none, []⟩ =
      some ⟨slot', .returned (some []), Function.update (fun _ => none) [] (some [1, 2, 3]),
        size :: ranges⟩ ∧ ranges ≠ [] := by
  have hserves : ServesContent .permissive [⟨[], [], 3, false⟩]
      (fun _ => some (.ofBytes [1, 2, 3])) 0 [1, 2, 3] :=
    ⟨CliprdrPlugin.permissive_ready, ⟨_, rfl, rfl, rfl, rfl⟩, by decide⟩
  obtain ⟨slot', size, ranges, fuel, hrun, -, -, -, -, -, -, hnil, -⟩ :=
    download_of_serving_peer ⟨0, [], [], 0⟩ hserves .initial ⟨rfl, rfl⟩ (fun _ => none)
  exact ⟨slot', size, ranges, fuel, hrun fuel (Nat.le_refl _),
    fun h => absurd (hnil.mp h) (by simp)⟩

end QfClient
