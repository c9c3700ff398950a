import QfClient.DownloadLoop
import QfClient.EntryBatches
import QfClient.SlotHistory

/-!
# What the worker asks for

A request of the worker names an entry of the list its own job came from. What
it stores locally was carried by a response to such a request. The list need not
be the one received last: a job stays in the queue when a new list arrives.
-/

namespace QfClient

open Machine

variable {env : EntryEnv} {localFiles : LocalFiles} {rdpViewItem : Bool} {t : List EntryEvent}
  {e e' : ClipboardEntry} {i : EntryInput} {o : EntryOutput}

theorem slotStep_stopped {slot slot' : RemoteSlot} {slotInput : SlotInput} {slotOutput : SlotOutput}
    (hslot : slotStep slot slotInput = some (slot', slotOutput)) (h : slot.stopped = true) :
    slot'.stopped = true := by
  cases slotStep_cases hslot with
  | arm | sendFailed | sent | reset | wait | accepted | ignored => exact h
  | stop => rfl

theorem stopped_step (hs : entryStep env e i = some (e', o)) (h : e.slot.stopped = true)
    (hi : ∀ context files io, i ≠ .enqueue context files io) : e'.slot.stopped = true := by
  cases entryStep_cases hs with
  | refused context files io => exact absurd rfl (hi context files io)
  | noRoot files io => exact absurd rfl (hi true files io)
  | enqueued files io => exact absurd rfl (hi true files io)
  | exited | popped | dropped | started | completed => exact h
  | armed job state request slot o' hworker hrequest hslot => exact slotStep_stopped hslot h
  | sent rc streamId job state request slot o' hworker hpc hrequest hslot =>
      exact slotStep_stopped hslot h
  | reset job state slot o' hworker hslot => exact slotStep_stopped hslot h
  | waited io job state slot streamId result hworker hslot => exact slotStep_stopped hslot h
  | responded response slot accepted hslot => exact slotStep_stopped hslot h
  | stopped slot o' hslot => exact slotStep_stopped hslot h

theorem stopped_of_execution (h : Execution (entryStep env) e t e')
    (hstopped : e.slot.stopped = true)
    (hi : ∀ ev ∈ t, ∀ context files io, ev.1 ≠ .enqueue context files io) :
    e'.slot.stopped = true := by
  induction h with
  | nil => exact hstopped
  | snoc _ hs ih =>
      have hprefix := ih fun ev hev => hi ev (List.mem_append_left _ hev)
      exact stopped_step hs hprefix (hi _ (List.mem_append_right _ List.mem_cons_self))

def armedRequests (t : List EntryEvent) : List FileContentsRequest :=
  t.filterMap (fun
    | (_, .armed _ request) => some request
    | _ => none)

/-- The open request is the one armed last, and the worker's job asks for it. -/
def ArmedLast (t : List EntryEvent) (e : ClipboardEntry) : Prop :=
  ∀ streamId, e.slot.pc.streamId? = some streamId → ∃ job state request,
    e.worker = .downloading job state ∧ state.request job streamId = some request ∧
      (armedRequests t).getLast? = some request

theorem armedRequests_append (t u : List EntryEvent) :
    armedRequests (t ++ u) = armedRequests t ++ armedRequests u := List.filterMap_append

theorem ArmedLast.keep (h : ArmedLast t e) (ho : armedRequests [(i, o)] = [])
    (hpc : e'.slot.pc.streamId? = e.slot.pc.streamId?)
    (hworker : ∀ job state, e.worker = .downloading job state → e'.worker = e.worker) :
    ArmedLast (t ++ [(i, o)]) e' := by
  intro streamId hid
  obtain ⟨job, state, request, hdownload, hrequest, hlast⟩ := h streamId (hpc ▸ hid)
  refine ⟨job, state, request, ?_, hrequest, ?_⟩
  · rw [hworker job state hdownload, hdownload]
  · rw [armedRequests_append, ho, List.append_nil, hlast]

/-- No request is open. -/
theorem armedLast_of_idle (h : e.slot.pc.streamId? = none) : ArmedLast t e := by
  intro streamId hid
  rw [h] at hid
  exact absurd hid (by simp)

theorem ArmedLast.idle_of_not_downloading (h : ArmedLast t e)
    (hworker : ∀ job state streamId request, e.worker = .downloading job state →
      state.request job streamId ≠ some request) : e.slot.pc.streamId? = none := by
  cases hid : e.slot.pc.streamId? with
  | none => rfl
  | some streamId =>
      obtain ⟨job, state, request, hdownload, hrequest, -⟩ := h streamId hid
      exact absurd hrequest (hworker job state streamId request hdownload)

theorem startRemoteFileWorker_downloading {job : RemoteFileJob} {state : DownloadState}
    (h : e.worker = .downloading job state) : startRemoteFileWorker e = e := by
  rw [startRemoteFileWorker, if_neg (by simp [h])]

theorem armedLast_step (h : ArmedLast t e) (hs : entryStep env e i = some (e', o)) :
    ArmedLast (t ++ [(i, o)]) e' := by
  cases entryStep_cases hs with
  | refused => exact h.keep rfl rfl (fun _ _ _ => rfl)
  | noRoot | enqueued =>
      refine h.keep rfl ?_ fun job state hw => ?_
      · change (startRemoteFileWorker e).slot.pc.streamId? = _
        unfold startRemoteFileWorker
        split_ifs <;> rfl
      · change (startRemoteFileWorker e).worker = _
        rw [startRemoteFileWorker_downloading hw]
  | exited hidle =>
      exact armedLast_of_idle (h.idle_of_not_downloading fun _ _ _ _ hw => by simp [hidle] at hw)
  | popped job jobs hidle =>
      exact armedLast_of_idle (h.idle_of_not_downloading fun _ _ _ _ hw => by simp [hidle] at hw)
  | dropped job hpicked =>
      exact armedLast_of_idle (h.idle_of_not_downloading fun _ _ _ _ hw => by simp [hpicked] at hw)
  | started job hpicked =>
      exact armedLast_of_idle (h.idle_of_not_downloading fun _ _ _ _ hw => by simp [hpicked] at hw)
  | armed job state request slot o' hworker hrequest hslot =>
      cases slotStep_cases hslot with
      | arm =>
          intro streamId hid
          obtain rfl := Option.some.inj hid
          refine ⟨job, state, request, hworker, hrequest, ?_⟩
          rw [armedRequests_append]
          exact List.getLast?_concat
  | sent rc streamId job state request slot o' hworker hpc hrequest hslot =>
      refine h.keep rfl ?_ (fun _ _ _ => rfl)
      cases slotStep_cases hslot with
      | sendFailed _ _ hpc' => simp only [hpc']; rfl
      | sent _ hpc' => simp only [hpc']; rfl
  | reset job state slot o' hworker hslot =>
      cases slotStep_cases hslot with
      | reset => exact armedLast_of_idle rfl
  | waited io job state slot streamId result hworker hslot =>
      obtain ⟨-, -, -, rfl⟩ := slotStep_wait hslot
      exact armedLast_of_idle rfl
  | completed job path hworker =>
      exact armedLast_of_idle (h.idle_of_not_downloading fun job' state streamId request hw => by
        obtain ⟨rfl, rfl⟩ := WorkerPc.downloading.inj (hworker.symm.trans hw)
        simp [DownloadState.request])
  | responded response slot accepted hslot =>
      obtain ⟨pending, rfl⟩ := slotStep_response hslot
      exact h.keep rfl rfl (fun _ _ _ => rfl)
  | stopped slot o' hslot =>
      refine h.keep rfl ?_ (fun _ _ _ => rfl)
      cases slotStep_cases hslot with
      | stop => rfl

theorem armedLast (h : Execution (entryStep env) (.initial localFiles rdpViewItem) t e) :
    ArmedLast t e := by
  induction h with
  | nil => exact armedLast_of_idle rfl
  | snoc _ hs ih => exact armedLast_step ih hs

/-- The job was made from an entry of the list that became its batch between the events `u`
and `v` of the trace, and is stored below the root of this batch. -/
structure MadeFrom (t u v : List EntryEvent) (e : ClipboardEntry) (list : RemoteFileList)
    (job : RemoteFileJob) (file : ClipboardInfoFile) : Prop where
  enqueued : ∃ io jobs publication,
    t = u ++ (.enqueue true list io, .enqueued job.batch jobs publication) :: v ∧ job ∈ jobs
  entry : list.1[job.listIndex.toNat]? = some file
  regular : file.isDirectory = false
  displayName : job.displayName = file.displayName
  path : ∃ batch, e.batches[job.batch]? = some batch ∧
    job.localPath = localPathOf batch.rootPath (safeRemoteRelativePath job.displayName)

theorem jobOf_eq_some {io : EnqueueIo} {number : ℕ} {rootPath : QString}
    {entry : ClipboardInfoFile × ℕ} {job : RemoteFileJob}
    (h : jobOf io number rootPath entry = some job) :
    job.listIndex = UInt32.ofNat entry.2 ∧ entry.1.isDirectory = false ∧
      job.displayName = entry.1.displayName ∧
      job.localPath = localPathOf rootPath (safeRemoteRelativePath entry.1.displayName) := by
  simp only [jobOf] at h
  split_ifs at h with hnone
  obtain rfl := Option.some.inj h
  obtain ⟨-, hrest⟩ := not_or.mp hnone
  exact ⟨rfl, by simpa using (not_or.mp hrest).1, rfl, rfl⟩

/-- Every job is stored below the root of its own batch. -/
theorem enqueued_path (h : Execution (entryStep env) (.initial localFiles rdpViewItem) t e) :
    ∀ job ∈ enqueuedJobs t, ∃ batch, e.batches[job.batch]? = some batch ∧
      job.localPath = localPathOf batch.rootPath (safeRemoteRelativePath job.displayName) := by
  induction h with
  | nil => exact List.forall_mem_nil _
  | @snoc t e e' i o ht hs ih =>
      have hpicked := (batchAccounting ht).picked
      have hold : ∀ job ∈ enqueuedJobs t, ∃ batch, e'.batches[job.batch]? = some batch ∧
          job.localPath = localPathOf batch.rootPath
            (safeRemoteRelativePath job.displayName) := by
        intro job hjob
        obtain ⟨batch, hbatch, hpath⟩ := ih job hjob
        obtain ⟨remaining, hbatch'⟩ := batch_step hpicked hs hbatch
        exact ⟨_, hbatch', hpath⟩
      rw [enqueuedJobs_append]
      refine List.forall_mem_append.mpr ⟨hold, ?_⟩
      cases batchEffect hpicked hs with
      | inert ho =>
          rw [(inert_event (i := i) ho).1]
          exact List.forall_mem_nil _
      | enqueued io files rootPath jobs batch hnew ho hbatches =>
          subst ho
          obtain ⟨hjobs, -, hroot, hnumber⟩ := enqueueEntries_new hnew
          intro job hjob
          have hmem : job ∈ jobs := by simpa [enqueuedJobs] using hjob
          refine ⟨batch, ?_, ?_⟩
          · rw [hnumber job hmem, hbatches]
            exact List.getElem?_concat_length
          · rw [hjobs] at hmem
            obtain ⟨entry, -, hentry⟩ := List.mem_filterMap.mp hmem
            obtain ⟨-, -, hname, hpath⟩ := jobOf_eq_some hentry
            rw [hroot, hname, hpath]
      | completed job hcurrent ho =>
          subst ho
          exact List.forall_mem_nil _

/-- The batch of a job keeps its root. -/
theorem MadeFrom.later {t₁ u v w : List EntryEvent} {e₁ : ClipboardEntry} {list : RemoteFileList}
    {job : RemoteFileJob} {file : ClipboardInfoFile} (hmade : MadeFrom t₁ u v e₁ list job file)
    (h : Execution (entryStep env) (.initial localFiles rdpViewItem) (t₁ ++ w) e) :
    MadeFrom t₁ u v e list job file := by
  obtain ⟨io, jobs, publication, ht₁, hjob⟩ := hmade.enqueued
  refine { hmade with path := enqueued_path h job ?_ }
  have hin : job ∈
      enqueuedJobs ((.enqueue true list io, .enqueued job.batch jobs publication) :: v) :=
    List.mem_append_left _ hjob
  rw [enqueuedJobs_append, ht₁, enqueuedJobs_append]
  exact List.mem_append_left _ (List.mem_append_right _ hin)

def olderList : RemoteFileList :=
  ⟨[⟨Qt.ofAscii "d", [], 0, true⟩, ⟨Qt.ofAscii "a", [], 1, false⟩], by decide⟩

def newerList : RemoteFileList := ⟨[⟨Qt.ofAscii "b", [], 1, false⟩], by decide⟩

end QfClient
