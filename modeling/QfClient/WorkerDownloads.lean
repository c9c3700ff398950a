import QfClient.EntryRequests

/-!
# Downloads of the worker

`download_remote_file` runs in the worker while lists and responses arrive and the stop
may come at any time. Whatever the others do, it is a download against the environment
that hands it the results of its own requests one after the other, so it leaves the whole
file or none.
-/

namespace QfClient

open Machine

def fateOf (streamId : UInt32) : Option Bytes → RequestFate
  | none => .stopped
  | some data => .answered ⟨cbResponseOk, streamId, UInt32.ofNat data.length, some data⟩

def requestFate : EntryEvent → Option (RequestFate × LocalIo)
  | (.reset, .failed) => some (.unsent, .succeeds)
  | (.wait io, .waited streamId result) => some (fateOf streamId result, io)
  | _ => none

def fates (t : List EntryEvent) : List (RequestFate × LocalIo) := t.filterMap requestFate

def replay (fs : List (RequestFate × LocalIo)) : DownloadEnv :=
  fun n _ => fs.getD n (.unsent, .succeeds)

def downloadOf (job : RemoteFileJob) (start : DownloadProgress) (t : List EntryEvent) :
    DownloadProgress := downloadAfter (replay (fates t)) job start (fates t).length

variable {env : EntryEnv} {localFiles : LocalFiles} {rdpViewItem : Bool} {t u : List EntryEvent}
  {e e' e₀ e₁ : ClipboardEntry} {i : EntryInput} {o : EntryOutput} {job : RemoteFileJob}
  {p start : DownloadProgress} {fate : RequestFate × LocalIo}

theorem result_fateOf (streamId : UInt32) (result : Option Bytes)
    (h : ∀ data, result = some data → data.length < 2 ^ 32) :
    (fateOf streamId result).result = result := by
  cases result with
  | none => rfl
  | some data =>
      have hlength : (UInt32.ofNat data.length).toNat = data.length :=
        UInt32.toNat_ofNat_of_lt' (h data rfl)
      simp only [fateOf, RequestFate.result, if_true, FileContentsResponse.payload,
        Option.getD_some, hlength, List.take_length]

theorem pendingData_slot {slot slot' : RemoteSlot} {slotInput : SlotInput}
    {slotOutput : SlotOutput} (hslot : slotStep slot slotInput = some (slot', slotOutput))
    (h : slot.pending.data.length < 2 ^ 32) : slot'.pending.data.length < 2 ^ 32 := by
  cases slotStep_cases hslot with
  | arm | reset | wait => exact Nat.two_pow_pos 32
  | sendFailed | sent | ignored | stop => exact h
  | accepted response =>
      change (if decide (response.msgFlags = cbResponseOk) then response.payload else []).length < _
      split_ifs
      · exact response.length_payload
      · exact Nat.two_pow_pos 32

theorem pendingData (h : Execution (entryStep env) (.initial localFiles rdpViewItem) t e) :
    e.slot.pending.data.length < 2 ^ 32 := by
  induction h with
  | nil => exact Nat.two_pow_pos 32
  | snoc _ hs ih =>
      cases entryStep_cases hs with
      | refused | exited | popped | dropped | started | completed => exact ih
      | noRoot | enqueued =>
          change (startRemoteFileWorker _).slot.pending.data.length < _
          unfold startRemoteFileWorker
          split_ifs <;> exact ih
      | armed _ _ _ _ _ _ _ hslot => exact pendingData_slot hslot ih
      | sent _ _ _ _ _ _ _ _ _ _ hslot => exact pendingData_slot hslot ih
      | reset _ _ _ _ _ hslot => exact pendingData_slot hslot ih
      | waited _ _ _ _ _ _ _ hslot => exact pendingData_slot hslot ih
      | responded _ _ _ hslot => exact pendingData_slot hslot ih
      | stopped _ _ hslot => exact pendingData_slot hslot ih

/-- The worker stands where the download stands, with at most one request under way. -/
structure StandsAt (job : RemoteFileJob) (p : DownloadProgress) (t : List EntryEvent)
    (e : ClipboardEntry) : Prop where
  worker : e.worker = .downloading job p.state
  files : e.files = p.files
  idle : e.slot.pc.streamId? = none →
    e.slot.nextStreamId = p.nextStreamId ∧ armedRequests t = p.requests
  underway : ∀ streamId, e.slot.pc.streamId? = some streamId →
    nextRemoteStreamId p.nextStreamId = (streamId, e.slot.nextStreamId) ∧
      ∃ request, p.state.request job streamId = some request ∧
        armedRequests t = p.requests ++ [request]

theorem StandsAt.keep (h : StandsAt job p t e) (ho : armedRequests [(i, o)] = [])
    (hworker : e'.worker = e.worker) (hfiles : e'.files = e.files)
    (hid : e'.slot.pc.streamId? = e.slot.pc.streamId?)
    (hnext : e'.slot.nextStreamId = e.slot.nextStreamId) : StandsAt job p (t ++ [(i, o)]) e' where
  worker := hworker.trans h.worker
  files := hfiles.trans h.files
  idle hidle := by
    rw [hnext, armedRequests_append, ho, List.append_nil]
    exact h.idle (hid ▸ hidle)
  underway streamId hopen := by
    rw [hnext, armedRequests_append, ho, List.append_nil]
    exact h.underway streamId (hid ▸ hopen)

theorem next_of_request {request : FileContentsRequest}
    (h : p.state.request job (nextRemoteStreamId p.nextStreamId).1 = some request)
    (denv : DownloadEnv) (hfate : denv p.requests.length request = fate) :
    p.next denv job =
      ⟨(nextRemoteStreamId p.nextStreamId).2, (p.state.resume fate.2 job p.files fate.1.result).1,
        (p.state.resume fate.2 job p.files fate.1.result).2, p.requests ++ [request],
        p.accepted ++ (acceptedChunk p.state fate.1.result).toList⟩ := by
  simp only [DownloadProgress.next, h, hfate]

/-- The end of a request is a step of the download. -/
theorem StandsAt.ended (h : StandsAt job p t e) {streamId : UInt32}
    (hopen : e.slot.pc.streamId? = some streamId) {denv : DownloadEnv}
    (hfate : ∀ request, denv p.requests.length request = fate) {slot : RemoteSlot}
    (hslot : slot = { e.slot with pending := .empty, pc := .idle })
    (ho : armedRequests [(i, o)] = []) :
    StandsAt job (p.next denv job) (t ++ [(i, o)])
        (resumeDownload e slot fate.2 job p.state fate.1.result) ∧
      (p.next denv job).requests.length = p.requests.length + 1 := by
  obtain ⟨hnext, request, hrequest, harmed⟩ := h.underway streamId hopen
  have hdrawn : p.state.request job (nextRemoteStreamId p.nextStreamId).1 = some request := by
    rw [hnext, hrequest]
  rw [next_of_request hdrawn denv (hfate request), hnext]
  refine ⟨⟨?_, ?_, fun _ => ⟨?_, ?_⟩, fun streamId' hopen' => ?_⟩, List.length_append ..⟩
  · rw [resumeDownload, h.files]
  · rw [resumeDownload, h.files]
  · rw [resumeDownload, hslot]
  · rw [armedRequests_append, ho, List.append_nil, harmed]
  · rw [resumeDownload, hslot] at hopen'
    exact absurd hopen' (Option.some_ne_none _).symm

/-- The steps of the others and those inside a request leave the download where it is; the
step that ends a request is one of the download. -/
theorem standsAt_step (h : StandsAt job p t e) (hdata : e.slot.pending.data.length < 2 ^ 32)
    (hs : entryStep env e i = some (e', o)) (hi : i ≠ .complete) :
    (requestFate (i, o) = none ∧ StandsAt job p (t ++ [(i, o)]) e') ∨
      ∃ fate, requestFate (i, o) = some fate ∧ ∀ denv : DownloadEnv,
        (∀ request, denv p.requests.length request = fate) →
        StandsAt job (p.next denv job) (t ++ [(i, o)]) e' ∧
          (p.next denv job).requests.length = p.requests.length + 1 := by
  cases entryStep_cases hs with
  | refused => exact .inl ⟨rfl, h.keep rfl rfl rfl rfl rfl⟩
  | noRoot | enqueued =>
      have hsame := startRemoteFileWorker_downloading h.worker
      refine .inl ⟨rfl, h.keep rfl ?_ ?_ ?_ ?_⟩
      · exact (congrArg ClipboardEntry.worker hsame :)
      · exact (congrArg ClipboardEntry.files hsame :)
      · exact congrArg (fun e => e.slot.pc.streamId?) hsame
      · exact congrArg (fun e => e.slot.nextStreamId) hsame
  | exited hidle => exact absurd (h.worker.symm.trans hidle) (by simp)
  | popped _ _ hidle => exact absurd (h.worker.symm.trans hidle) (by simp)
  | dropped _ hpicked => exact absurd (h.worker.symm.trans hpicked) (by simp)
  | started _ hpicked => exact absurd (h.worker.symm.trans hpicked) (by simp)
  | completed => exact absurd rfl hi
  | armed job' state request slot o' hworker hrequest hslot =>
      obtain ⟨rfl, rfl⟩ := WorkerPc.downloading.inj (h.worker.symm.trans hworker)
      cases slotStep_cases hslot with
      | arm _ hpc =>
          obtain ⟨hnext, harmed⟩ := h.idle (by rw [hpc]; rfl)
          refine .inl ⟨rfl, h.worker, h.files, fun hidle => absurd hidle (Option.some_ne_none _),
            fun streamId hopen => ?_⟩
          obtain rfl := Option.some.inj hopen
          refine ⟨by rw [hnext], request, hrequest, ?_⟩
          rw [armedRequests_append, harmed]
          rfl
  | sent rc streamId job' state request slot o' hworker hpc hrequest hslot =>
      refine .inl ⟨rfl, h.keep rfl rfl rfl ?_ ?_⟩ <;>
        cases slotStep_cases hslot with
        | sendFailed _ _ hpc' => simp only [hpc', RequestPc.streamId?]
        | sent _ hpc' => simp only [hpc', RequestPc.streamId?]
  | reset job' state slot o' hworker hslot =>
      obtain ⟨rfl, rfl⟩ := WorkerPc.downloading.inj (h.worker.symm.trans hworker)
      refine .inr ⟨(.unsent, .succeeds), rfl, fun denv hfate => ?_⟩
      cases slotStep_cases hslot with
      | reset streamId hpc => exact h.ended (by rw [hpc]; rfl) hfate rfl rfl
  | waited io job' state slot streamId result hworker hslot =>
      obtain ⟨rfl, rfl⟩ := WorkerPc.downloading.inj (h.worker.symm.trans hworker)
      refine .inr ⟨(fateOf streamId result, io), rfl, fun denv hfate => ?_⟩
      obtain ⟨hpc, -, rfl, rfl⟩ := slotStep_wait hslot
      have hresult := result_fateOf streamId e.slot.result fun data hsome => by
        unfold RemoteSlot.result at hsome
        split_ifs at hsome
        exact Option.some.inj hsome ▸ hdata
      have hended := h.ended (i := .wait io) (o := .waited streamId e.slot.result)
        (by rw [hpc]; rfl) hfate rfl rfl
      rwa [hresult] at hended
  | responded response slot accepted hslot =>
      refine .inl ⟨rfl, ?_⟩
      obtain ⟨pending, rfl⟩ := slotStep_response hslot
      exact h.keep rfl rfl rfl rfl rfl
  | stopped slot o' hslot =>
      refine .inl ⟨rfl, ?_⟩
      cases slotStep_cases hslot with
      | stop => exact h.keep rfl rfl rfl rfl rfl

variable {fs : List (RequestFate × LocalIo)}

theorem replay_append {m : ℕ} (h : m < fs.length) (fate : RequestFate × LocalIo) :
    replay (fs ++ [fate]) m = replay fs m := by
  funext request
  rw [replay, replay, List.getD_eq_getElem?_getD, List.getD_eq_getElem?_getD,
    List.getElem?_append_left h]

theorem replay_last (fs : List (RequestFate × LocalIo)) (fate : RequestFate × LocalIo)
    (request : FileContentsRequest) : replay (fs ++ [fate]) fs.length request = fate := by
  rw [replay, List.getD_eq_getElem?_getD, List.getElem?_concat_length, Option.getD_some]

theorem length_requests_downloadAfter (denv : DownloadEnv) (job : RemoteFileJob)
    (start : DownloadProgress) (n : ℕ) :
    (downloadAfter denv job start n).requests.length ≤ start.requests.length + n := by
  induction n with
  | zero => exact Nat.le_refl _
  | succ n ih =>
      rw [downloadAfter, DownloadProgress.next]
      split
      · omega
      · rw [List.length_append, List.length_singleton]
        omega

/-- The fates of later requests make no difference. -/
theorem downloadAfter_congr {denv denv' : DownloadEnv} (hstart : start.requests = []) (n : ℕ)
    (h : ∀ m < n, denv m = denv' m) :
    downloadAfter denv job start n = downloadAfter denv' job start n := by
  induction n with
  | zero => rfl
  | succ n ih =>
      have hsame := ih fun m hm => h m (Nat.lt_succ_of_lt hm)
      have hlength := length_requests_downloadAfter denv' job start n
      rw [hstart, List.length_nil, Nat.zero_add] at hlength
      rw [downloadAfter, downloadAfter, hsame]
      simp only [DownloadProgress.next, h _ (Nat.lt_succ_of_le hlength)]

theorem fates_snoc (t : List EntryEvent) (ev : EntryEvent) :
    fates (t ++ [ev]) = fates t ++ (requestFate ev).toList := filterMap_snoc requestFate t ev

theorem downloadOf_snoc (hstart : start.requests = []) (h : requestFate (i, o) = some fate) :
    downloadOf job start (t ++ [(i, o)]) =
      (downloadOf job start t).next (replay (fates t ++ [fate])) job := by
  have hsame : downloadAfter (replay (fates t ++ [fate])) job start (fates t).length =
      downloadOf job start t :=
    downloadAfter_congr hstart _ fun m hm => replay_append hm fate
  rw [downloadOf, fates_snoc, h, Option.toList_some, List.length_append, List.length_singleton,
    downloadAfter, hsame]

/-- A download of the worker, from its start on, is the download against the fates of its
own requests. -/
theorem worker_download (h₀ : Execution (entryStep env) (.initial localFiles rdpViewItem) u e₀)
    (hworker : e₀.worker = .downloading job .querySize) (hidle : e₀.slot.pc.streamId? = none)
    (ht : Execution (entryStep env) e₀ t e) (hjob : ∀ ev ∈ t, ev.1 ≠ .complete) :
    StandsAt job (downloadOf job (.start e₀.slot.nextStreamId e₀.files) t) t e ∧
      (downloadOf job (.start e₀.slot.nextStreamId e₀.files) t).requests.length =
        (fates t).length := by
  induction ht with
  | nil =>
      refine ⟨⟨hworker, rfl, fun _ => ⟨rfl, rfl⟩, fun streamId hopen => ?_⟩, rfl⟩
      exact absurd (hidle.symm.trans hopen) (Option.some_ne_none _).symm
  | @snoc t e e' i o ht hs ih =>
      obtain ⟨hstands, hlength⟩ := ih fun ev hev => hjob ev (List.mem_append_left _ hev)
      have hi : i ≠ .complete := hjob (i, o) (List.mem_append_right _ (List.mem_singleton_self _))
      rcases standsAt_step hstands (pendingData (h₀.append ht)) hs hi with
        ⟨hnone, hkept⟩ | ⟨fate, hfate, hended⟩
      · have hfates : fates (t ++ [(i, o)]) = fates t := by
          rw [fates_snoc, hnone, Option.toList_none, List.append_nil]
        rw [downloadOf, hfates]
        exact ⟨hkept, hlength⟩
      · obtain ⟨hnext, hcount⟩ := hended (replay (fates t ++ [fate])) fun request => by
          rw [hlength, replay_last]
        rw [downloadOf_snoc rfl hfate]
        refine ⟨hnext, ?_⟩
        rw [hcount, hlength, fates_snoc, hfate, Option.toList_some, List.length_append,
          List.length_singleton]

/-- Between the requests of a download of the worker the slot is idle when it starts. -/
theorem idle_of_started (h : Execution (entryStep env) (.initial localFiles rdpViewItem) u e₁)
    (hs : entryStep env e₁ .start = some (e₀, .started job)) :
    e₀.worker = .downloading job .querySize ∧ e₀.slot.pc.streamId? = none := by
  cases entryStep_cases hs with
  | started _ hpicked =>
      refine ⟨rfl, (armedLast h).idle_of_not_downloading fun job' state streamId request hw => ?_⟩
      exact absurd (hpicked.symm.trans hw) (by simp)

/-- When a download of the worker has returned, in any interleaving, its file is there with
the announced length, or is not there, or nothing has changed; no other file has. -/
theorem worker_download_returned
    (h : Execution (entryStep env) (.initial localFiles rdpViewItem) u e₁)
    (hs : entryStep env e₁ .start = some (e₀, .started job))
    (ht : Execution (entryStep env) e₀ t e) (hjob : ∀ ev ∈ t, ev.1 ≠ .complete)
    {path : Option QString} (hreturned : e.worker = .downloading job (.returned path)) :
    (path = some job.localPath ∧ ∃ (fileSize : UInt64) (chunks : List Bytes),
        e.files = e₀.files.written job chunks ∧ chunks.flatten.length = fileSize.toNat) ∨
      (path = none ∧ (e.files = e₀.files ∨ e.files = e₀.files.remove job.localPath)) := by
  obtain ⟨hworker, hidle⟩ := idle_of_started h hs
  obtain ⟨hstands, -⟩ := worker_download (h.append (.single hs)) hworker hidle ht hjob
  rw [downloadOf] at hstands
  have hstate := (WorkerPc.downloading.inj (hstands.worker.symm.trans hreturned)).2
  cases hn : (fates t).length with
  | zero =>
      rw [hn] at hstate
      exact absurd hstate (by simp [downloadAfter, DownloadProgress.start])
  | succ n =>
      rw [hn] at hstands hstate
      cases follows_after (replay (fates t)) job e₀.slot.nextStreamId e₀.files n with
      | fetching _ _ hfetch => exact absurd (hfetch.symm.trans hstate) (by simp)
      | complete fileSize hcomplete hopen hfiles hlength =>
          refine .inl ⟨?_, fileSize, _, hstands.files.trans hfiles, hlength⟩
          exact (DownloadState.returned.inj (hcomplete.symm.trans hstate)).symm
      | removed fileSize hremoved hopen hfiles =>
          refine .inr ⟨?_, .inr (hstands.files.trans hfiles)⟩
          exact (DownloadState.returned.inj (hremoved.symm.trans hstate)).symm
      | notOpened hnot hclosed hfiles =>
          refine .inr ⟨?_, .inl (hstands.files.trans hfiles)⟩
          exact (DownloadState.returned.inj (hnot.symm.trans hstate)).symm

end QfClient
