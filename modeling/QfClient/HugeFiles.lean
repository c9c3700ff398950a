import QfClient.Capabilities
import QfClient.DownloadLoop
import QfClient.FileServe

/-!
# Files of four gigabytes and more

The chunk loop of a download counts in 64 bits, and its requests carry both
halves of the offset. The client does not announce huge file support, so the
request whose chunk reaches the end of the first four gigabytes is refused
locally and the download fails there: exactly the files below that size arrive.
-/

namespace QfClient

open LittleEndian

def servedData (content : Bytes) (request : FileContentsRequest) : Bytes :=
  if request.asksSize then leUInt64 (UInt64.ofNat content.length)
  else (content.drop request.offset.toNat).take request.cbRequested.toNat

/-- A server that answers every request it is sent, and a disk that takes every
write. A request the client refuses does not reach it. -/
def servedCorrectly (context : CliprdrPlugin) (content : Bytes) : DownloadEnv :=
  fun _ request =>
    match cliprdrClientFileContentsRequest context request with
    | none => (.unsent, .succeeds)
    | some (rc, _) =>
        if rc = channelRcOk then
          let data := servedData content request
          (.answered ⟨cbResponseOk, request.streamId, UInt32.ofNat data.length, some data⟩,
            .succeeds)
        else (.unsent, .succeeds)

variable {context : CliprdrPlugin} {content : Bytes} {job : RemoteFileJob}
  {p : DownloadProgress} {offset : UInt64} {request : FileContentsRequest}

/-- The offset is inside the file. -/
theorem lt_length_iff (hlen : content.length < 2 ^ 64) :
    offset < UInt64.ofNat content.length ↔ offset.toNat < content.length := by
  rw [UInt64.lt_iff_toNat_lt, UInt64.toNat_ofNat_of_lt' hlen]

theorem length_servedData (content : Bytes) (request : FileContentsRequest) :
    (servedData content request).length < 2 ^ 32 := by
  rw [servedData]
  split_ifs
  · rw [length_leUInt64]
    decide
  · have hlt := request.cbRequested.toNat_lt
    rw [List.length_take]
    omega

/-- What the loop gets: the correct data for a request that passes the checks. -/
theorem servedCorrectly_eq (h : context.Works)
    (hmask : context.featureMask &&& cliprdrFlagRemoteToLocalFiles ≠ 0) (content : Bytes) (n : ℕ)
    (request : FileContentsRequest) :
    (servedCorrectly context content n request).1.result =
        (if PassesLocalChecks context request then some (servedData content request) else none) ∧
      (servedCorrectly context content n request).2 = .succeeds := by
  have hrc : errorInvalidParameter ≠ channelRcOk := by decide
  rw [servedCorrectly, cliprdrClientFileContentsRequest_eq h hmask]
  by_cases hpass : PassesLocalChecks context request
  · simp only [if_pos hpass, if_true, RequestFate.result, FileContentsResponse.payload,
      Option.getD_some, UInt32.toNat_ofNat_of_lt' (length_servedData content request),
      List.take_length, and_self]
  · simp only [if_neg hpass, if_neg hrc, RequestFate.result, and_self]

theorem passes_size (streamId listIndex : UInt32) :
    PassesLocalChecks context (requestRemoteSize streamId listIndex) := by
  have hle : (8 : UInt32).toNat + (0 : UInt32).toNat ≤ 4294967295 := by decide
  exact Or.inr ⟨hle, rfl⟩

/-- Without huge file support a chunk passes when it ends before the limit. -/
theorem passes_range_iff (hhuge : context.hasHugeFileSupport = false) (streamId listIndex : UInt32)
    {offset : UInt64} {count : UInt32} (hcount : 0 < count.toNat) :
    PassesLocalChecks context (requestRemoteRange streamId listIndex offset count) ↔
      offset.toNat + count.toNat < 2 ^ 32 := by
  have hlow : (low32 offset).toNat = offset.toNat % 2 ^ 32 := toNat_low32 offset
  have hhigh : (high32 offset).toNat = offset.toNat / 2 ^ 32 := toNat_high32 offset
  have hmax := offset.toNat_lt
  have hzero : high32 offset = 0 ↔ offset.toNat / 2 ^ 32 = 0 := by
    rw [← hhigh, ← UInt32.toNat_inj]
    rfl
  simp only [PassesLocalChecks, hhuge, Bool.false_eq_true, false_or, requestRemoteRange, hlow,
    hzero]
  omega

structure SmallFilesOnly (context : CliprdrPlugin) : Prop where
  works : context.Works
  remoteToLocalFiles : context.featureMask &&& cliprdrFlagRemoteToLocalFiles ≠ 0
  noHugeFiles : context.hasHugeFileSupport = false

theorem servedData_size (content : Bytes) (streamId listIndex : UInt32) :
    servedData content (requestRemoteSize streamId listIndex) =
      leUInt64 (UInt64.ofNat content.length) :=
  if_pos (requestRemoteSize_asks streamId listIndex)

theorem servedData_range (content : Bytes) (streamId listIndex : UInt32) (offset : UInt64)
    (count : UInt32) :
    servedData content (requestRemoteRange streamId listIndex offset count) =
      (content.drop offset.toNat).take count.toNat := by
  have hoffset : (requestRemoteRange streamId listIndex offset count).offset = offset :=
    join32_high32_low32 offset
  rw [servedData, if_neg (requestRemoteRange_asks streamId listIndex offset count).1, hoffset]
  rfl

/-- The size query is answered, and the loop starts. -/
theorem next_start_served (h : SmallFilesOnly context) (content : Bytes) (job : RemoteFileJob)
    (nextStreamId : UInt32) (files : LocalFiles) :
    (DownloadProgress.start nextStreamId files).next (servedCorrectly context content) job =
      ⟨(nextRemoteStreamId nextStreamId).2, chunkLoop job (UInt64.ofNat content.length) 0,
        files.truncate job.localPath,
        [requestRemoteSize (nextRemoteStreamId nextStreamId).1 job.listIndex], []⟩ := by
  set request := requestRemoteSize (nextRemoteStreamId nextStreamId).1 job.listIndex with hrequest
  obtain ⟨hresult, hio⟩ :=
    servedCorrectly_eq h.works h.remoteToLocalFiles content 0 request
  rw [if_pos (passes_size _ _), hrequest, servedData_size] at hresult
  rw [next_start, ← hrequest, hio, hresult, sizeAnswered_size]

/-- A range query below the limit is answered with its chunk; one that reaches
the limit ends the download. -/
theorem next_fetch_served (job : RemoteFileJob) (h : SmallFilesOnly context)
    (hstate : p.state = .fetch (UInt64.ofNat content.length) offset)
    (hlt : offset < UInt64.ofNat content.length) (hlen : content.length < 2 ^ 64) :
    let count := (bytesToRequest (UInt64.ofNat content.length) offset).toNat
    let request := requestRemoteRange (nextRemoteStreamId p.nextStreamId).1 job.listIndex offset
      (bytesToRequest (UInt64.ofNat content.length) offset)
    let p' := p.next (servedCorrectly context content) job
    p'.requests = p.requests ++ [request] ∧
      (PassesLocalChecks context request ↔ offset.toNat + count < 2 ^ 32) ∧
      (offset.toNat + count < 2 ^ 32 →
        p'.state = chunkLoop job (UInt64.ofNat content.length)
            (offset + (bytesToRequest (UInt64.ofNat content.length) offset).toUInt64) ∧
          p'.accepted = p.accepted ++ [(content.drop offset.toNat).take count]) ∧
      (2 ^ 32 ≤ offset.toNat + count → p'.state = .returned none) := by
  intro count request p'
  have hsize : (UInt64.ofNat content.length).toNat = content.length :=
    UInt64.toNat_ofNat_of_lt' hlen
  have hnw := noWrap_of_lt hlt
  have hcount := hnw.count
  have hltNat : offset.toNat < content.length := (lt_length_iff hlen).mp hlt
  obtain ⟨hresult, hio⟩ := servedCorrectly_eq h.works h.remoteToLocalFiles content
    p.requests.length request
  have hpass : PassesLocalChecks context request ↔ offset.toNat + count < 2 ^ 32 :=
    passes_range_iff h.noHugeFiles _ _ hnw.pos
  have hnext := next_fetching (servedCorrectly context content) job hstate
  have hrequest : requestRemoteRange _ _ _ _ = request := rfl
  simp only [hrequest, hio] at hnext
  rw [show p' = _ from hnext]
  refine ⟨rfl, hpass, fun hsmall => ?_, fun hbig => ?_⟩
  · set chunk := (content.drop offset.toNat).take count with hchunk
    rw [if_pos (hpass.mpr hsmall), servedData_range] at hresult
    change _ = some chunk at hresult
    have hlength : chunk.length = count := by
      rw [hchunk, List.length_take, List.length_drop]
      omega
    have hofNat : UInt32.ofNat chunk.length =
        bytesToRequest (UInt64.ofNat content.length) offset := by
      rw [hlength, UInt32.ofNat_toNat]
    have hcast : UInt64.ofNat chunk.length =
        (bytesToRequest (UInt64.ofNat content.length) offset).toUInt64 := by
      rw [hlength]
      apply UInt64.toNat_inj.mp
      rw [UInt32.toNat_toUInt64]
      exact UInt64.toNat_ofNat_of_lt' (lt_trans (UInt32.toNat_lt _) (by decide))
    rw [hresult, rangeAnswered_chunk p.files hlength, hcast]
    refine ⟨rfl, ?_⟩
    rw [acceptedChunk, if_pos hofNat, Option.toList_some]
  · rw [if_neg (fun hp => absurd (hpass.mp hp) (by omega))] at hresult
    rw [hresult]
    rfl

inductive Served (content : Bytes) (job : RemoteFileJob) (p : DownloadProgress) : Prop
  | fetching (offset : UInt64) : p.state = .fetch (UInt64.ofNat content.length) offset →
      offset < UInt64.ofNat content.length →
      p.accepted.flatten = content.take offset.toNat → Served content job p
  | complete : p.state = .returned (some job.localPath) → p.accepted.flatten = content →
      Served content job p

theorem served_chunkLoop (hlen : content.length < 2 ^ 64)
    (hstate : p.state = chunkLoop job (UInt64.ofNat content.length) offset)
    (hle : offset.toNat ≤ content.length)
    (haccepted : p.accepted.flatten = content.take offset.toNat) : Served content job p := by
  by_cases hlt : offset < UInt64.ofNat content.length
  · exact .fetching offset (by rw [hstate, chunkLoop, if_pos hlt]) hlt haccepted
  · refine .complete (by rw [hstate, chunkLoop, if_neg hlt]) ?_
    rw [lt_length_iff hlen] at hlt
    rw [haccepted, List.take_of_length_le (by omega)]

theorem served_next (h : SmallFilesOnly context) (hsmall : content.length < 2 ^ 32)
    (hserved : Served content job p)
    (hpasses : ∀ request ∈ p.requests, PassesLocalChecks context request) :
    Served content job (p.next (servedCorrectly context content) job) ∧
      ∀ request ∈ (p.next (servedCorrectly context content) job).requests,
        PassesLocalChecks context request := by
  have hlen : content.length < 2 ^ 64 := by omega
  have hsize : (UInt64.ofNat content.length).toNat = content.length :=
    UInt64.toNat_ofNat_of_lt' hlen
  cases hserved with
  | complete hstate haccepted =>
      rw [next_returned hstate]
      exact ⟨.complete hstate haccepted, hpasses⟩
  | fetching offset hstate hlt haccepted =>
      obtain ⟨hrequests, hpass, hnext, -⟩ := next_fetch_served job h hstate hlt hlen
      have hnw := noWrap_of_lt hlt
      have hcount := hnw.count
      have hltNat : offset.toNat < content.length := (lt_length_iff hlen).mp hlt
      have hbelow : offset.toNat + (bytesToRequest (UInt64.ofNat content.length) offset).toNat <
          2 ^ 32 := by omega
      obtain ⟨hstate', haccepted'⟩ := hnext hbelow
      have hoff := hnw.next
      refine ⟨served_chunkLoop hlen hstate' (by omega) ?_, ?_⟩
      · rw [haccepted', List.flatten_concat, haccepted, hoff, List.take_add]
      · rw [hrequests]
        intro request hmem
        rcases List.mem_append.mp hmem with hmem | hmem
        · exact hpasses request hmem
        · rw [List.mem_singleton.mp hmem]
          exact hpass.mpr hbelow

theorem served_after (h : SmallFilesOnly context) (hsmall : content.length < 2 ^ 32)
    (job : RemoteFileJob) (nextStreamId : UInt32) (files : LocalFiles) (n : ℕ) :
    let after := downloadAfter (servedCorrectly context content) job (.start nextStreamId files)
    Served content job (after (n + 1)) ∧
      ∀ request ∈ (after (n + 1)).requests, PassesLocalChecks context request := by
  intro after
  induction n with
  | zero =>
      have hnext := next_start_served h content job nextStreamId files
      have hafter : after (0 + 1) =
          (DownloadProgress.start nextStreamId files).next (servedCorrectly context content) job :=
        rfl
      rw [hafter, hnext]
      constructor
      · have hle : (0 : UInt64).toNat ≤ content.length := Nat.zero_le _
        exact served_chunkLoop (by omega) rfl hle rfl
      intro request hmem
      rw [List.mem_singleton.mp hmem]
      exact passes_size _ _
  | succ n ih => exact served_next h hsmall ih.1 ih.2

/-- The chunks below the limit arrive one after the other. -/
theorem reaches_limit (h : SmallFilesOnly context) (hlen : content.length < 2 ^ 64)
    (hbig : 2 ^ 32 ≤ content.length) (job : RemoteFileJob) (nextStreamId : UInt32)
    (files : LocalFiles) (k : ℕ) (hk : k ≤ 65535) :
    (downloadAfter (servedCorrectly context content) job (.start nextStreamId files)
      (k + 1)).state = .fetch (UInt64.ofNat content.length) (UInt64.ofNat (65536 * k)) := by
  have hsize : (UInt64.ofNat content.length).toNat = content.length :=
    UInt64.toNat_ofNat_of_lt' hlen
  have hoffset : ∀ j ≤ 65535, (UInt64.ofNat (65536 * j)).toNat = 65536 * j := fun j hj =>
    UInt64.toNat_ofNat_of_lt' (lt_of_lt_of_le (show 65536 * j < 2 ^ 64 by omega) (le_refl _))
  have hlt : ∀ j ≤ 65535, UInt64.ofNat (65536 * j) < UInt64.ofNat content.length := by
    intro j hj
    rw [lt_length_iff hlen, hoffset j hj]
    omega
  induction k with
  | zero =>
      rw [downloadAfter, downloadAfter, next_start_served h]
      exact if_pos (hlt 0 hk)
  | succ k ih =>
      have hstate := ih (by omega)
      have hk' : k ≤ 65535 := by omega
      obtain ⟨-, -, hnext, -⟩ := next_fetch_served job h hstate (hlt k hk') hlen
      have hnw := noWrap_of_lt (hlt k hk')
      have hcount := hnw.count
      rw [hoffset k hk', hsize] at hcount
      rw [hoffset k hk'] at hnext
      obtain ⟨hstate', -⟩ := hnext (by omega)
      have hoff : UInt64.ofNat (65536 * k) +
          (bytesToRequest (UInt64.ofNat content.length) (UInt64.ofNat (65536 * k))).toUInt64 =
          UInt64.ofNat (65536 * (k + 1)) := by
        apply UInt64.toNat_inj.mp
        rw [hnw.next, hoffset k hk', hoffset (k + 1) hk]
        omega
      rw [downloadAfter, hstate', hoff, chunkLoop, if_pos (hlt (k + 1) hk)]

/-- The last chunk of the first four gigabytes is refused. -/
theorem refused_at_limit (h : SmallFilesOnly context) (hlen : content.length < 2 ^ 64)
    (hbig : 2 ^ 32 ≤ content.length) (job : RemoteFileJob) (nextStreamId : UInt32)
    (files : LocalFiles) :
    let after := downloadAfter (servedCorrectly context content) job (.start nextStreamId files)
    (∃ request ∈ (after 65537).requests, ¬ PassesLocalChecks context request) ∧
      (after 65537).state = .returned none := by
  intro after
  have hsize : (UInt64.ofNat content.length).toNat = content.length :=
    UInt64.toNat_ofNat_of_lt' hlen
  have hstate : (after 65536).state =
      .fetch (UInt64.ofNat content.length) (UInt64.ofNat (65536 * 65535)) :=
    reaches_limit h hlen hbig job nextStreamId files 65535 (Nat.le_refl _)
  have hoffset : (UInt64.ofNat (65536 * 65535)).toNat = 65536 * 65535 := rfl
  have hlt : UInt64.ofNat (65536 * 65535) < UInt64.ofNat content.length := by
    rw [lt_length_iff hlen, hoffset]
    omega
  obtain ⟨hrequests, hpass, -, hend⟩ := next_fetch_served job h hstate hlt hlen
  have hcount := (noWrap_of_lt hlt).count
  rw [hoffset, hsize] at hcount
  rw [hoffset] at hpass hend
  have hover : 2 ^ 32 ≤ 65536 * 65535 +
      (bytesToRequest (UInt64.ofNat content.length) (UInt64.ofNat (65536 * 65535))).toNat := by
    omega
  refine ⟨⟨_, ?_, fun hp => absurd (hpass.mp hp) (by omega)⟩, hend hover⟩
  have hafter : after 65537 = (after 65536).next (servedCorrectly context content) job := rfl
  rw [hafter, hrequests]
  exact List.mem_append_right _ (List.mem_singleton_self _)

theorem smallFilesOnly_negotiate (h : context.Works)
    (hmask : context.featureMask &&& cliprdrFlagRemoteToLocalFiles ≠ 0)
    (caps : CliprdrCapabilities) (serverFlags : UInt32) :
    SmallFilesOnly (context.agreed (negotiate context caps serverFlags).1) :=
  ⟨⟨h.streamNew, h.accepts⟩, hmask,
    negotiate_hasHugeFileSupport h caps serverFlags⟩

theorem sent_iff_passes (h : SmallFilesOnly context) (request : FileContentsRequest) :
    (∃ sent, cliprdrClientFileContentsRequest context request = some (channelRcOk, [sent])) ↔
      PassesLocalChecks context request := by
  rw [cliprdrClientFileContentsRequest_eq h.works h.remoteToLocalFiles]
  by_cases hpass : PassesLocalChecks context request
  · rw [if_pos hpass]
    exact iff_of_true ⟨_, rfl⟩ hpass
  · rw [if_neg hpass]
    refine iff_of_false ?_ hpass
    rintro ⟨sent, hsent⟩
    have hnil : ([] : List Bytes) = [sent] := congrArg Prod.snd (Option.some.inj hsent)
    cases hnil

/-- Every request of the download is sent, and the file arrives, exactly when it
is smaller than four gigabytes. The capabilities of the server make no difference. -/
theorem download_negotiated_iff (context : CliprdrPlugin) (h : context.Works)
    (hmask : context.featureMask &&& cliprdrFlagRemoteToLocalFiles ≠ 0)
    (caps : CliprdrCapabilities) (serverFlags : UInt32) (content : Bytes)
    (hlen : content.length < 2 ^ 64) (job : RemoteFileJob) (nextStreamId : UInt32)
    (files : LocalFiles) :
    let negotiated := context.agreed (negotiate context caps serverFlags).1
    let after := downloadAfter (servedCorrectly negotiated content) job
      (.start nextStreamId files)
    ((∀ n, ∀ request ∈ (after n).requests,
        ∃ sent, cliprdrClientFileContentsRequest negotiated request =
          some (channelRcOk, [sent])) ↔ content.length < 2 ^ 32) ∧
      ((∃ n, (after n).state = .returned (some job.localPath) ∧
        (after n).files job.localPath = some content) ↔ content.length < 2 ^ 32) := by
  intro negotiated after
  have hclient : SmallFilesOnly negotiated := smallFilesOnly_negotiate h hmask caps serverFlags
  by_cases hsmall : content.length < 2 ^ 32
  · have hserved := served_after hclient hsmall job nextStreamId files
    refine ⟨iff_of_true (fun n request hmem => ?_) hsmall, iff_of_true ?_ hsmall⟩
    · rw [sent_iff_passes hclient]
      cases n with
      | zero => cases hmem
      | succ n => exact (hserved n).2 request hmem
    · obtain ⟨n, path, hreturned⟩ :=
        downloadAfter_returns (servedCorrectly negotiated content) job nextStreamId files
      cases (hserved n).1 with
      | fetching offset hstate => exact absurd (hstate.symm.trans hreturned) (by simp)
      | complete hstate haccepted =>
          refine ⟨n + 1, hstate, ?_⟩
          cases follows_after (servedCorrectly negotiated content) job nextStreamId files n with
          | fetching size off hs => exact absurd (hstate.symm.trans hs) (by simp)
          | removed size hs => exact absurd (hstate.symm.trans hs) (by simp)
          | notOpened hs => exact absurd (hstate.symm.trans hs) (by simp)
          | complete size hs hopen hfiles =>
              rw [hfiles, LocalFiles.written, Function.update_self, haccepted]
  · obtain ⟨⟨request, hmem, hrefused⟩, hend⟩ :=
      refused_at_limit hclient hlen (Nat.not_lt.mp hsmall) job nextStreamId files
    refine ⟨iff_of_false (fun hall => ?_) hsmall, iff_of_false ?_ hsmall⟩
    · exact hrefused ((sent_iff_passes hclient request).mp (hall 65537 request hmem))
    · rintro ⟨n, hstate, -⟩
      rcases Nat.le_total n 65537 with hle | hle
      · have hsame := downloadAfter_returned hstate hle
        rw [hsame, hstate] at hend
        cases hend
      · have hsame := downloadAfter_returned hend hle
        change (after n).state = _ at hstate
        rw [show after n = after 65537 from hsame, hend] at hstate
        cases hstate

theorem download_negotiated_three_bytes :
    let negotiated := CliprdrPlugin.permissive.agreed
      (negotiate .permissive ⟨true, true, true, true, true, false, false⟩ 0x3E).1
    let after := downloadAfter (servedCorrectly negotiated [1, 2, 3]) ⟨0, [], [], 0⟩
      (.start 1 (fun _ => none))
    ∃ n, (after n).state = .returned (some []) ∧ (after n).files [] = some [1, 2, 3] :=
  (download_negotiated_iff .permissive CliprdrPlugin.permissive_works (by decide)
    ⟨true, true, true, true, true, false, false⟩ 0x3E [1, 2, 3] (by decide) ⟨0, [], [], 0⟩ 1
    (fun _ => none)).2.mpr (by decide)

/-- With every capability on the side of the server, the download of a file of
exactly four gigabytes is refused one of its requests and fails. -/
theorem download_of_four_gigabytes_refused :
    let negotiated := CliprdrPlugin.permissive.agreed
      (negotiate .permissive ⟨true, true, true, true, true, false, false⟩ 0x3E).1
    0x3E &&& cbHugeFileSupportEnabled ≠ 0 ∧ 0x3E &&& cbStreamFileClipEnabled ≠ 0 ∧
      ∃ content : Bytes, content.length = 2 ^ 32 ∧
        let after := downloadAfter (servedCorrectly negotiated content) ⟨0, [], [], 0⟩
          (.start 1 (fun _ => none))
        (∃ request ∈ (after 65537).requests,
          cliprdrClientFileContentsRequest negotiated request =
            some (errorInvalidParameter, [])) ∧
          (after 65537).state = .returned none := by
  intro negotiated
  have hclient : SmallFilesOnly negotiated :=
    smallFilesOnly_negotiate CliprdrPlugin.permissive_works (by decide) _ _
  obtain ⟨content, hlength⟩ : ∃ content : Bytes, content.length = 2 ^ 32 :=
    ⟨List.replicate (2 ^ 32) 0, List.length_replicate⟩
  obtain ⟨⟨request, hmem, hrefused⟩, hend⟩ :=
    refused_at_limit hclient (by omega) (Nat.le_of_eq hlength.symm) ⟨0, [], [], 0⟩ 1
      (fun _ => none)
  refine ⟨by decide, by decide, content, hlength, ⟨request, hmem, ?_⟩, hend⟩
  rw [cliprdrClientFileContentsRequest_eq hclient.works hclient.remoteToLocalFiles,
    if_neg hrefused]

end QfClient
