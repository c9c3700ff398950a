import QfClient.Download

/-!
# Downloads that fail

`download_remote_file` against an arbitrary environment: each request may fail to
be sent, be answered by any response or be cut short by the stop, and each access
to the local file may fail. Once the file is open the offset is the number of
bytes written and stays below the announced size, so every accepted chunk brings
the loop closer to its end and a failure is the only other way out of it.
-/

namespace QfClient

open LittleEndian

inductive RequestFate where
  | unsent
  | stopped
  | answered (response : FileContentsResponse)
  deriving DecidableEq, Repr

/-- What `wait_remote_response` hands back; `none` is `false`. -/
def RequestFate.result : RequestFate → Option Bytes
  | unsent => none
  | stopped => none
  | answered response => if response.msgFlags = cbResponseOk then some response.payload else none

/-- The fate of the request with a given number, and the state of the local disk
when its result is used. -/
abbrev DownloadEnv := ℕ → FileContentsRequest → RequestFate × LocalIo

structure DownloadProgress where
  nextStreamId : UInt32
  state : DownloadState
  files : LocalFiles
  requests : List FileContentsRequest
  accepted : List Bytes

def DownloadProgress.start (nextStreamId : UInt32) (files : LocalFiles) : DownloadProgress :=
  ⟨nextStreamId, .querySize, files, [], []⟩

def acceptedChunk : DownloadState → Option Bytes → Option Bytes
  | .fetch fileSize offset, some chunk =>
      if UInt32.ofNat chunk.length = bytesToRequest fileSize offset then some chunk else none
  | _, _ => none

/-- `download_remote_file` from one request to the next. -/
def DownloadProgress.next (env : DownloadEnv) (job : RemoteFileJob) (p : DownloadProgress) :
    DownloadProgress :=
  let drawn := nextRemoteStreamId p.nextStreamId
  match p.state.request job drawn.1 with
  | none => p
  | some request =>
      let fate := env p.requests.length request
      let r := p.state.resume fate.2 job p.files fate.1.result
      { nextStreamId := drawn.2
        state := r.1
        files := r.2
        requests := p.requests ++ [request]
        accepted := p.accepted ++ (acceptedChunk p.state fate.1.result).toList }

def downloadAfter (env : DownloadEnv) (job : RemoteFileJob) (start : DownloadProgress) :
    ℕ → DownloadProgress
  | 0 => start
  | n + 1 => (downloadAfter env job start n).next env job

def announcedSize : Option Bytes → Option UInt64
  | none => none
  | some data =>
      if data.length < 8 then none else some (UInt64.ofNat (leNat (data.take 8)))

variable {env : DownloadEnv} {job : RemoteFileJob} {p start : DownloadProgress}
  {fileSize offset : UInt64} {files : LocalFiles}

theorem FileContentsResponse.length_payload (response : FileContentsResponse) :
    response.payload.length < 2 ^ 32 := by
  have hle : response.payload.length ≤ response.cbRequested.toNat := List.length_take_le _ _
  have hlt := response.cbRequested.toNat_lt
  omega

theorem RequestFate.length_result (fate : RequestFate) :
    ∀ data, fate.result = some data → data.length < 2 ^ 32 := by
  intro data h
  cases fate with
  | unsent => cases h
  | stopped => cases h
  | answered response =>
      simp only [result] at h
      split_ifs at h
      obtain rfl := Option.some.inj h
      exact response.length_payload

theorem next_returned {path : Option QString} (h : p.state = .returned path) :
    p.next env job = p := by
  simp only [DownloadProgress.next, h, DownloadState.request]

/-- The size query, and what comes of its fate. -/
theorem next_start (env : DownloadEnv) (job : RemoteFileJob) (nextStreamId : UInt32)
    (files : LocalFiles) :
    let request := requestRemoteSize (nextRemoteStreamId nextStreamId).1 job.listIndex
    let fate := env 0 request
    let r := sizeAnswered fate.2 job files fate.1.result
    (DownloadProgress.start nextStreamId files).next env job =
      ⟨(nextRemoteStreamId nextStreamId).2, r.1, r.2, [request], []⟩ := rfl

/-- A request of the loop, and what comes of its fate. -/
theorem next_fetching (env : DownloadEnv) (job : RemoteFileJob)
    (h : p.state = .fetch fileSize offset) :
    let request := requestRemoteRange (nextRemoteStreamId p.nextStreamId).1 job.listIndex offset
      (bytesToRequest fileSize offset)
    let fate := env p.requests.length request
    let r := rangeAnswered fate.2 job fileSize offset p.files fate.1.result
    p.next env job = ⟨(nextRemoteStreamId p.nextStreamId).2, r.1, r.2, p.requests ++ [request],
      p.accepted ++ (acceptedChunk (.fetch fileSize offset) fate.1.result).toList⟩ := by
  simp only [DownloadProgress.next, h, DownloadState.request, DownloadState.resume]

/-- The answer to the size query either ends the function with the files as they
were, or starts the loop on the truncated file. -/
theorem sizeAnswered_cases (io : LocalIo) (job : RemoteFileJob) (files : LocalFiles)
    (result : Option Bytes) :
    (sizeAnswered io job files result = (.returned none, files) ∧
        ∀ size, announcedSize result = some size → io.opens = false) ∨
      ∃ size, announcedSize result = some size ∧ io.opens = true ∧
        sizeAnswered io job files result =
          (chunkLoop job size 0, files.truncate job.localPath) := by
  cases result with
  | none => exact Or.inl ⟨rfl, fun size h => by cases h⟩
  | some data =>
      by_cases hlen : data.length < 8
      · refine Or.inl ⟨by simp only [sizeAnswered, if_pos hlen], fun size h => ?_⟩
        simp only [announcedSize, if_pos hlen] at h
        cases h
      · cases hopen : io.opens with
        | false =>
            refine Or.inl ⟨?_, fun size _ => rfl⟩
            simp only [sizeAnswered, if_neg hlen, hopen, Bool.false_eq_true, if_false]
        | true =>
            refine Or.inr ⟨UInt64.ofNat (leNat (data.take 8)), ?_, rfl, ?_⟩
            · simp only [announcedSize, if_neg hlen]
            · simp only [sizeAnswered, if_neg hlen, hopen, if_true]

/-- The answer to a range query either removes the file, or is a chunk of the
requested length, which is written. -/
theorem rangeAnswered_cases (io : LocalIo) (job : RemoteFileJob) (fileSize offset : UInt64)
    (files : LocalFiles) (result : Option Bytes) :
    rangeAnswered io job fileSize offset files result =
        (.returned none, files.remove job.localPath) ∨
      ∃ chunk, result = some chunk ∧ acceptedChunk (.fetch fileSize offset) result = some chunk ∧
        UInt32.ofNat chunk.length = bytesToRequest fileSize offset ∧
        rangeAnswered io job fileSize offset files result =
          (chunkLoop job fileSize (offset + UInt64.ofNat chunk.length),
            files.append job.localPath chunk) := by
  cases result with
  | none => exact Or.inl rfl
  | some chunk =>
      by_cases hlen : UInt32.ofNat chunk.length = bytesToRequest fileSize offset
      · cases hwrite : io.writes with
        | false =>
            left
            simp only [rangeAnswered, ne_eq, hlen, not_true, if_false, hwrite,
              Bool.false_eq_true]
        | true =>
            refine Or.inr ⟨chunk, rfl, ?_, hlen, ?_⟩
            · simp only [acceptedChunk, hlen, if_true]
            · simp only [rangeAnswered, ne_eq, hlen, not_true, if_false, hwrite, if_true]
      · left
        simp only [rangeAnswered, ne_eq, hlen, not_false_eq_true, if_true]

/-- Nothing wraps while the offset is below the size: not the rest of the file,
not the cast of the chunk length, not the offset behind the chunk. -/
structure NoWrap (fileSize offset : UInt64) : Prop where
  rest : (fileSize - offset).toNat = fileSize.toNat - offset.toNat
  count : (bytesToRequest fileSize offset).toNat = min 65536 (fileSize.toNat - offset.toNat)
  pos : 0 < (bytesToRequest fileSize offset).toNat
  next : (offset + (bytesToRequest fileSize offset).toUInt64).toNat =
    offset.toNat + (bytesToRequest fileSize offset).toNat
  halves : join32 (high32 offset) (low32 offset) = offset

theorem noWrap_of_lt (h : offset < fileSize) : NoWrap fileSize offset := by
  have hlt : offset.toNat < fileSize.toNat := UInt64.lt_iff_toNat_lt.mp h
  have hmax := fileSize.toNat_lt
  have hcount := bytesToRequest_toNat h
  have hnext : (offset + (bytesToRequest fileSize offset).toUInt64).toNat =
      offset.toNat + (bytesToRequest fileSize offset).toNat := by
    rw [UInt64.toNat_add, UInt32.toNat_toUInt64, Nat.mod_eq_of_lt (by omega)]
  exact ⟨UInt64.toNat_sub_of_le _ _ (UInt64.le_of_lt h), hcount, by omega, hnext,
    join32_high32_low32 offset⟩

/-- An accepted payload has the requested length, and moves the offset by it. -/
theorem offset_add_chunk {chunk : Bytes} (h : offset < fileSize) (hlt : chunk.length < 2 ^ 32)
    (hlen : UInt32.ofNat chunk.length = bytesToRequest fileSize offset) :
    chunk.length = (bytesToRequest fileSize offset).toNat ∧
      (offset + UInt64.ofNat chunk.length).toNat = offset.toNat + chunk.length := by
  have hn := noWrap_of_lt h
  have hchunk : chunk.length = (bytesToRequest fileSize offset).toNat := by
    rw [← hlen, UInt32.toNat_ofNat_of_lt' hlt]
  have hcast : UInt64.ofNat chunk.length = (bytesToRequest fileSize offset).toUInt64 := by
    apply UInt64.toNat_inj.mp
    rw [UInt32.toNat_toUInt64, ← hchunk]
    exact UInt64.toNat_ofNat_of_lt' (lt_trans hlt (by decide))
  refine ⟨hchunk, ?_⟩
  rw [hcast, hn.next, hchunk]

/-- A range query either ends the function or adds a chunk to the file. -/
theorem next_fetching_cases (env : DownloadEnv) (job : RemoteFileJob)
    (h : p.state = .fetch fileSize offset) (hlt : offset < fileSize) :
    ((p.next env job).state = .returned none ∧
        (p.next env job).files = p.files.remove job.localPath) ∨
      ∃ chunk, (p.next env job).accepted = p.accepted ++ [chunk] ∧
        (p.next env job).files = p.files.append job.localPath chunk ∧
        (p.next env job).state = chunkLoop job fileSize (offset + UInt64.ofNat chunk.length) ∧
        chunk.length = (bytesToRequest fileSize offset).toNat ∧
        (offset + UInt64.ofNat chunk.length).toNat = offset.toNat + chunk.length := by
  set request := requestRemoteRange (nextRemoteStreamId p.nextStreamId).1 job.listIndex offset
    (bytesToRequest fileSize offset) with hrequest
  set fate := env p.requests.length request with hfate
  rw [next_fetching env job h, ← hrequest, ← hfate]
  rcases rangeAnswered_cases fate.2 job fileSize offset p.files fate.1.result with
    heq | ⟨chunk, hchunk, haccept, hlen, heq⟩
  · exact .inl ⟨congrArg Prod.fst heq, congrArg Prod.snd heq⟩
  · obtain ⟨hcount, hoffset⟩ := offset_add_chunk hlt (fate.1.length_result chunk hchunk) hlen
    refine .inr ⟨chunk, ?_, congrArg Prod.snd heq, congrArg Prod.fst heq, hcount, hoffset⟩
    rw [haccept, Option.toList_some]

def Opened (first : RequestFate × LocalIo) (size : UInt64) : Prop :=
  announcedSize first.1.result = some size ∧ first.2.opens = true

def LocalFiles.written (files : LocalFiles) (job : RemoteFileJob) (accepted : List Bytes) :
    LocalFiles := Function.update files job.localPath (some accepted.flatten)

inductive Follows (job : RemoteFileJob) (files : LocalFiles) (first : RequestFate × LocalIo)
    (p : DownloadProgress) : Prop
  | fetching (fileSize offset : UInt64) : p.state = .fetch fileSize offset →
      Opened first fileSize → offset < fileSize → p.files = files.written job p.accepted →
      offset.toNat = p.accepted.flatten.length → Follows job files first p
  | complete (fileSize : UInt64) : p.state = .returned (some job.localPath) →
      Opened first fileSize → p.files = files.written job p.accepted →
      p.accepted.flatten.length = fileSize.toNat → Follows job files first p
  | removed (fileSize : UInt64) : p.state = .returned none → Opened first fileSize →
      p.files = files.remove job.localPath → Follows job files first p
  | notOpened : p.state = .returned none → (∀ size, ¬ Opened first size) → p.files = files →
      Follows job files first p

variable {first : RequestFate × LocalIo}

/-- The test of the loop, with what is written so far. -/
theorem follows_chunkLoop (hstate : p.state = chunkLoop job fileSize offset)
    (hopen : Opened first fileSize) (hle : offset ≤ fileSize)
    (hfiles : p.files = files.written job p.accepted)
    (hoff : offset.toNat = p.accepted.flatten.length) : Follows job files first p := by
  by_cases hlt : offset < fileSize
  · exact .fetching fileSize offset (by rw [hstate, chunkLoop, if_pos hlt]) hopen hlt hfiles hoff
  · have heq : offset = fileSize := UInt64.le_antisymm hle (UInt64.not_lt.mp hlt)
    refine .complete fileSize (by rw [hstate, chunkLoop, if_neg hlt]) hopen hfiles ?_
    rw [← hoff, heq]

theorem LocalFiles.append_written (files : LocalFiles) (job : RemoteFileJob)
    (accepted : List Bytes) (chunk : Bytes) :
    (files.written job accepted).append job.localPath chunk =
      files.written job (accepted ++ [chunk]) := by
  rw [LocalFiles.append, LocalFiles.written, Function.update_idem, Function.update_self,
    LocalFiles.written, List.flatten_concat, Option.map_some]

theorem LocalFiles.remove_written (files : LocalFiles) (job : RemoteFileJob)
    (accepted : List Bytes) :
    (files.written job accepted).remove job.localPath = files.remove job.localPath :=
  Function.update_idem ..

/-- The size query. -/
theorem follows_first (env : DownloadEnv) (job : RemoteFileJob) (nextStreamId : UInt32)
    (files : LocalFiles) :
    Follows job files (env 0 (requestRemoteSize (nextRemoteStreamId nextStreamId).1 job.listIndex))
      ((DownloadProgress.start nextStreamId files).next env job) := by
  set first := env 0 (requestRemoteSize (nextRemoteStreamId nextStreamId).1 job.listIndex)
    with hfirst
  rw [next_start, ← hfirst]
  rcases sizeAnswered_cases first.2 job files first.1.result with
    ⟨heq, hclosed⟩ | ⟨size, hsize, hopen, heq⟩
  · rw [heq]
    exact .notOpened rfl (fun size h => absurd h.2 (by simp [hclosed size h.1])) rfl
  · rw [heq]
    have hle : (0 : UInt64) ≤ size := UInt64.le_iff_toNat_le.mpr (Nat.zero_le _)
    exact follows_chunkLoop rfl ⟨hsize, hopen⟩ hle rfl rfl

theorem follows_next (env : DownloadEnv) (h : Follows job files first p) :
    Follows job files first (p.next env job) := by
  cases h with
  | complete size hstate hopen hfiles hlen =>
      rw [next_returned hstate]
      exact .complete size hstate hopen hfiles hlen
  | removed size hstate hopen hfiles =>
      rw [next_returned hstate]
      exact .removed size hstate hopen hfiles
  | notOpened hstate hclosed hfiles =>
      rw [next_returned hstate]
      exact .notOpened hstate hclosed hfiles
  | fetching fileSize offset hstate hopen hlt hfiles hoff =>
      rcases next_fetching_cases env job hstate hlt with
        ⟨hreturned, hremoved⟩ | ⟨chunk, haccepted, happended, hloop, hcount, hoff'⟩
      · refine .removed fileSize hreturned hopen ?_
        rw [hremoved, hfiles, LocalFiles.remove_written]
      · have hltNat : offset.toNat < fileSize.toNat := UInt64.lt_iff_toNat_lt.mp hlt
        have hbound := (noWrap_of_lt hlt).count
        have hle : offset + UInt64.ofNat chunk.length ≤ fileSize := by
          rw [UInt64.le_iff_toNat_le, hoff']
          omega
        refine follows_chunkLoop hloop hopen hle ?_ ?_
        · rw [haccepted, happended, hfiles]
          exact files.append_written job p.accepted chunk
        · rw [haccepted, List.flatten_concat, List.length_append, hoff', hoff]

/-- A range query that does not end the function brings the offset closer to the size. -/
theorem fetch_progress (env : DownloadEnv) (job : RemoteFileJob)
    (h : p.state = .fetch fileSize offset) (hlt : offset < fileSize) :
    (∃ path, (p.next env job).state = .returned path) ∨
      ∃ offset', (p.next env job).state = .fetch fileSize offset' ∧
        offset.toNat < offset'.toNat := by
  rcases next_fetching_cases env job h hlt with
    ⟨hreturned, -⟩ | ⟨chunk, -, -, hloop, hcount, hoff⟩
  · exact .inl ⟨none, hreturned⟩
  · by_cases hmore : offset + UInt64.ofNat chunk.length < fileSize
    · refine .inr ⟨offset + UInt64.ofNat chunk.length, ?_, ?_⟩
      · rw [hloop, chunkLoop, if_pos hmore]
      · have hpos := (noWrap_of_lt hlt).pos
        omega
    · exact .inl ⟨some job.localPath, by rw [hloop, chunkLoop, if_neg hmore]⟩

theorem downloadAfter_succ (env : DownloadEnv) (job : RemoteFileJob) (start : DownloadProgress)
    (n : ℕ) :
    downloadAfter env job start (n + 1) = downloadAfter env job (start.next env job) n := by
  induction n with
  | zero => rfl
  | succ n ih => rw [downloadAfter, ih, downloadAfter]

theorem downloadAfter_returned {path : Option QString} {n : ℕ}
    (h : (downloadAfter env job start n).state = .returned path) {m : ℕ} (hm : n ≤ m) :
    downloadAfter env job start m = downloadAfter env job start n := by
  induction m, hm using Nat.le_induction with
  | base => rfl
  | succ m _ ih => rw [downloadAfter, ih, next_returned h]

theorem follows_after (env : DownloadEnv) (job : RemoteFileJob) (nextStreamId : UInt32)
    (files : LocalFiles) (n : ℕ) :
    Follows job files (env 0 (requestRemoteSize (nextRemoteStreamId nextStreamId).1 job.listIndex))
      (downloadAfter env job (.start nextStreamId files) (n + 1)) := by
  induction n with
  | zero => exact follows_first env job nextStreamId files
  | succ n ih => exact follows_next _ ih

/-- From any position the loop comes to an end: what is left of the file decreases. -/
theorem follows_returns (env : DownloadEnv) :
    ∀ (left : ℕ) (p : DownloadProgress), Follows job files first p →
      (∀ fileSize offset, p.state = .fetch fileSize offset →
        fileSize.toNat - offset.toNat = left) →
      ∃ n path, (downloadAfter env job p n).state = .returned path := by
  intro left
  induction left using Nat.strong_induction_on with
  | _ left ih =>
      intro p h hleft
      cases h with
      | complete size hstate hopen hfiles hlen => exact ⟨0, _, hstate⟩
      | removed size hstate hopen hfiles => exact ⟨0, _, hstate⟩
      | notOpened hstate hclosed hfiles => exact ⟨0, _, hstate⟩
      | fetching fileSize offset hstate hopen hlt hfiles hoff =>
          have hltNat : offset.toNat < fileSize.toNat := UInt64.lt_iff_toNat_lt.mp hlt
          have hfollows := follows_next env
            (Follows.fetching fileSize offset hstate hopen hlt hfiles hoff)
          rcases fetch_progress env job hstate hlt with ⟨path, hpath⟩ | ⟨offset', hstate', hmore⟩
          · exact ⟨1, path, hpath⟩
          · have hleft' := hleft fileSize offset hstate
            obtain ⟨n, path, hpath⟩ := ih (fileSize.toNat - offset'.toNat) (by omega)
              (p.next env job) hfollows (by
                intro size off hs
                rw [hstate'] at hs
                obtain ⟨rfl, rfl⟩ : fileSize = size ∧ offset' = off := by simpa using hs
                rfl)
            exact ⟨n + 1, path, by rw [downloadAfter_succ, hpath]⟩

theorem downloadAfter_returns (env : DownloadEnv) (job : RemoteFileJob) (nextStreamId : UInt32)
    (files : LocalFiles) :
    ∃ n path, (downloadAfter env job (.start nextStreamId files) (n + 1)).state =
      .returned path := by
  set after := downloadAfter env job (.start nextStreamId files) with hafter
  have hfollows := follows_after env job nextStreamId files 0
  by_cases hfetch : ∃ fileSize offset, (after 1).state = .fetch fileSize offset
  · obtain ⟨fileSize, offset, hfetch⟩ := hfetch
    obtain ⟨n, path, hpath⟩ := follows_returns env (fileSize.toNat - offset.toNat) (after 1)
      hfollows (by
        intro size off hs
        rw [hfetch] at hs
        obtain ⟨rfl, rfl⟩ : fileSize = size ∧ offset = off := by simpa using hs
        rfl)
    refine ⟨n, path, ?_⟩
    rw [hafter, downloadAfter_succ]
    exact hpath
  · cases hfollows with
    | fetching fileSize offset hstate => exact absurd ⟨_, _, hstate⟩ hfetch
    | complete size hstate => exact ⟨0, _, hstate⟩
    | removed size hstate => exact ⟨0, _, hstate⟩
    | notOpened hstate => exact ⟨0, _, hstate⟩

theorem Follows.no_fetch_wraps (h : Follows job files first p)
    (hs : p.state = .fetch fileSize offset) :
    Opened first fileSize ∧ offset < fileSize ∧ NoWrap fileSize offset ∧
      offset.toNat = p.accepted.flatten.length := by
  cases h with
  | complete size hstate => exact absurd (hstate.symm.trans hs) (by simp)
  | removed size hstate => exact absurd (hstate.symm.trans hs) (by simp)
  | notOpened hstate => exact absurd (hstate.symm.trans hs) (by simp)
  | fetching size off hstate hopen hlt hfiles hoff =>
      obtain ⟨rfl, rfl⟩ : size = fileSize ∧ off = offset := by
        rw [hstate] at hs
        simpa using hs
      exact ⟨hopen, hlt, noWrap_of_lt hlt, hoff⟩

/-- `download_remote_file` ends in every environment. It returns the local path
exactly when the file was opened and then holds the accepted payloads, one after
the other, with the announced length. A failure after that leaves no file and a
failure before it leaves the files as they were. -/
theorem download_failure_atomic (env : DownloadEnv) (job : RemoteFileJob) (nextStreamId : UInt32)
    (files : LocalFiles) :
    let first := env 0 (requestRemoteSize (nextRemoteStreamId nextStreamId).1 job.listIndex)
    let after := downloadAfter env job (.start nextStreamId files)
    (∃ n path, (∀ m, n ≤ m → after m = after n) ∧ (after n).state = .returned path ∧
      (path = some job.localPath ∨ path = none) ∧
      (path = some job.localPath ↔ ∃ size, Opened first size ∧
        (after n).files job.localPath = some (after n).accepted.flatten ∧
        (after n).accepted.flatten.length = size.toNat) ∧
      (∀ size, Opened first size → path = none → (after n).files job.localPath = none) ∧
      ((∀ size, ¬ Opened first size) → path = none ∧ (after n).files = files) ∧
      ∀ other, other ≠ job.localPath → (after n).files other = files other) ∧
    ∀ m fileSize offset, (after m).state = .fetch fileSize offset →
      Opened first fileSize ∧ offset < fileSize ∧ NoWrap fileSize offset ∧
        offset.toNat = (after m).accepted.flatten.length := by
  intro first after
  have hfollows : ∀ n, Follows job files first (after (n + 1)) :=
    follows_after env job nextStreamId files
  refine ⟨?_, fun m fileSize offset hs => ?_⟩
  · obtain ⟨n, path, hreturned⟩ := downloadAfter_returns env job nextStreamId files
    refine ⟨n + 1, path, fun m hm => downloadAfter_returned hreturned hm, hreturned, ?_⟩
    cases hfollows n with
    | fetching fileSize offset hstate => exact absurd (hstate.symm.trans hreturned) (by simp)
    | complete size hstate hopen hfiles hlen =>
        obtain rfl : some job.localPath = path := by
          rw [hstate] at hreturned
          simpa using hreturned
        have hfile : (after (n + 1)).files job.localPath =
            some (after (n + 1)).accepted.flatten := by
          rw [hfiles]
          exact Function.update_self ..
        refine ⟨Or.inl rfl, iff_of_true rfl ⟨size, hopen, hfile, hlen⟩,
          fun _ _ hnone => absurd hnone (by simp), fun hclosed => absurd hopen (hclosed size), ?_⟩
        intro other hother
        rw [hfiles]
        exact Function.update_of_ne hother ..
    | removed size hstate hopen hfiles =>
        obtain rfl : none = path := by
          rw [hstate] at hreturned
          simpa using hreturned
        have hfile : (after (n + 1)).files job.localPath = none := by
          rw [hfiles]
          exact Function.update_self ..
        refine ⟨Or.inr rfl, iff_of_false (by simp) ?_, fun _ _ _ => hfile,
          fun hclosed => absurd hopen (hclosed size), ?_⟩
        · rintro ⟨size', -, hfile', -⟩
          rw [hfile] at hfile'
          cases hfile'
        · intro other hother
          rw [hfiles]
          exact Function.update_of_ne hother ..
    | notOpened hstate hclosed hfiles =>
        obtain rfl : none = path := by
          rw [hstate] at hreturned
          simpa using hreturned
        refine ⟨Or.inr rfl, iff_of_false (by simp) ?_,
          fun size hopen => absurd hopen (hclosed size), fun _ => ⟨rfl, hfiles⟩, ?_⟩
        · rintro ⟨size, hopen, -⟩
          exact hclosed size hopen
        · intro other _
          rw [hfiles]
  · cases m with
    | zero => cases hs
    | succ m => exact (hfollows m).no_fetch_wraps hs

/-- An empty file that cannot be opened for writing already is what the download
of an empty remote file would leave; the function reports its failure all the
same. -/
theorem download_of_empty_file_not_opened :
    ¬ ∀ (env : DownloadEnv) (job : RemoteFileJob) (nextStreamId : UInt32) (files : LocalFiles)
      (n : ℕ) (path : Option QString) (size : UInt64),
      let first := env 0 (requestRemoteSize (nextRemoteStreamId nextStreamId).1 job.listIndex)
      let after := downloadAfter env job (.start nextStreamId files)
      (after n).state = .returned path → announcedSize first.1.result = some size →
      (path = some job.localPath ↔
        (after n).files job.localPath = some (after n).accepted.flatten ∧
          (after n).accepted.flatten.length = size.toNat) := by
  intro h
  have hiff := h (fun _ request => (.answered ⟨cbResponseOk, request.streamId, 8,
      some (leUInt64 0)⟩, ⟨false, false⟩)) ⟨0, [], [], 0⟩ 1 (fun _ => some []) 1 none 0 rfl rfl
  exact absurd (hiff.mpr ⟨rfl, rfl⟩) (by simp)

end QfClient
