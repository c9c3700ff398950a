import QfClient.EntryRequests
import QfClient.PublicationOrder

/-!
# Stopping the file worker

`stop_remote_file_worker` sets a flag that the worker tests at the top of its loop
and in `wait_remote_response`, and nowhere else. Once it is set every wait is
over, so the worker leaves its loop after at most six steps of its own and removes
the file it was writing. On the way there it still sends the request it was about
to send, and still publishes a batch whose last job it was processing.
-/

namespace QfClient

open Machine

variable {env : EntryEnv} {localFiles : LocalFiles} {rdpViewItem : Bool} {t : List EntryEvent}
  {e e' : ClipboardEntry} {i : EntryInput} {o : EntryOutput}

def sentRequests (t : List EntryEvent) : List FileContentsRequest :=
  t.filterMap (fun
    | (_, .sent request) => some request
    | _ => none)

def isWorkerStep : EntryInput → Bool
  | .enqueue _ _ _ => false
  | .response _ => false
  | .stop => false
  | _ => true

def workerSteps (t : List EntryEvent) : ℕ := t.countP (fun ev => isWorkerStep ev.1)

/-- The owner is being destroyed, so no list is enqueued. -/
def NoLists (t : List EntryEvent) : Prop :=
  ∀ ev ∈ t, ∀ context files io, ev.1 ≠ .enqueue context files io

/-- How many steps a stopped worker is away from the end of its loop, in the
middle of a download. -/
def RequestPc.stepsLeft : RequestPc → ℕ
  | .idle => 5
  | .armed _ => 4
  | .failed _ => 3
  | .waiting _ => 3

namespace ClipboardEntry

variable (e : ClipboardEntry)

def stepsLeft : ℕ :=
  match e.worker with
  | .absent => 0
  | .exited => 0
  | .idle => 1
  | .picked false _ => 2
  | .picked true _ => 6
  | .downloading _ (.returned _) => 2
  | .downloading _ _ => e.slot.pc.stepsLeft

/-- The worker stands in front of a request, before or after the arming of the slot. -/
def AboutToSend : Prop :=
  (∃ job, e.worker = .picked true job) ∨
    ∃ job state, e.worker = .downloading job state ∧ (∀ path, state ≠ .returned path) ∧
      (e.slot.pc = .idle ∨ ∃ streamId, e.slot.pc = .armed streamId)

def Finishing : Prop :=
  ∃ job batch, e.current = some job ∧ e.batches[job.batch]? = some batch ∧ batch.remaining = 1

def settledFiles : LocalFiles :=
  match e.worker with
  | .downloading job (.fetch _ _) => e.files.remove job.localPath
  | _ => e.files

end ClipboardEntry

inductive StoppedStep (e : ClipboardEntry) : EntryInput → EntryOutput → ClipboardEntry → Prop
  | aside (i : EntryInput) (o : EntryOutput) (slot : RemoteSlot) : isWorkerStep i = false →
      isInert o = true → (∀ request, o ≠ .sent request) → slot.pc = e.slot.pc →
      StoppedStep e i o { e with slot := slot }
  | exited : e.worker = .idle → StoppedStep e .pop .exited { e with worker := .exited }
  | started (job : RemoteFileJob) : e.worker = .picked true job →
      StoppedStep e .start (.started job) { e with worker := .downloading job .querySize }
  | armed (kind : RemoteRequestKind) (request : FileContentsRequest) (job : RemoteFileJob)
      (state : DownloadState) (slot : RemoteSlot) (streamId : UInt32) :
      e.worker = .downloading job state → (∀ path, state ≠ .returned path) →
      e.slot.pc = .idle → slot.pc = .armed streamId →
      StoppedStep e .request (.armed kind request) { e with slot := slot }
  | sent (rc : UInt32) (request : FileContentsRequest) (job : RemoteFileJob)
      (state : DownloadState) (slot : RemoteSlot) (streamId : UInt32) :
      e.worker = .downloading job state → (∀ path, state ≠ .returned path) →
      e.slot.pc = .armed streamId →
      (slot.pc = .failed streamId ∨ slot.pc = .waiting streamId) →
      StoppedStep e (.send rc) (.sent request) { e with slot := slot }
  | returned (i : EntryInput) (o : EntryOutput) (io : LocalIo) (job : RemoteFileJob)
      (state : DownloadState) (slot : RemoteSlot) (streamId : UInt32) : isWorkerStep i = true →
      isInert o = true → (∀ request, o ≠ .sent request) → e.worker = .downloading job state →
      (∀ path, state ≠ .returned path) →
      (e.slot.pc = .failed streamId ∨ e.slot.pc = .waiting streamId) →
      StoppedStep e i o (resumeDownload e slot io job state none)
  | completed (job : RemoteFileJob) (path : Option QString) :
      e.worker = .downloading job (.returned path) →
      StoppedStep e .complete (completeJob e job).2 (completeJob e job).1

theorem request_ne_returned {state : DownloadState} {job : RemoteFileJob} {streamId : UInt32}
    {request : FileContentsRequest} (h : state.request job streamId = some request)
    (path : Option QString) : state ≠ .returned path := by
  rintro rfl
  cases h

/-- An open request belongs to a download that is not over. -/
theorem ArmedLast.not_returned (h : ArmedLast t e) {job : RemoteFileJob} {state : DownloadState}
    {streamId : UInt32} (hworker : e.worker = .downloading job state)
    (hpc : e.slot.pc.streamId? = some streamId) (path : Option QString) :
    state ≠ .returned path := by
  obtain ⟨job', state', request, hworker', hrequest, -⟩ := h streamId hpc
  obtain ⟨rfl, rfl⟩ := WorkerPc.downloading.inj (hworker.symm.trans hworker')
  exact request_ne_returned hrequest path

theorem stoppedStep (harmed : ArmedLast t e) (haccounting : BatchAccounting t e)
    (hstopped : e.slot.stopped = true) (hs : entryStep env e i = some (e', o))
    (hi : ∀ context files io, i ≠ .enqueue context files io) : StoppedStep e i o e' := by
  cases entryStep_cases hs with
  | refused context files io => exact absurd rfl (hi context files io)
  | noRoot files io => exact absurd rfl (hi true files io)
  | enqueued files io => exact absurd rfl (hi true files io)
  | exited hidle => exact .exited hidle
  | popped job jobs hidle hrunning => exact absurd (hrunning.symm.trans hstopped) (by simp)
  | dropped job hpicked => exact absurd hpicked (haccounting.picked job)
  | started job hpicked => exact .started job hpicked
  | armed job state request slot o hworker hrequest hslot =>
      cases slotStep_cases hslot with
      | arm kind hpc =>
          exact .armed state.kind request job state _ _ hworker (request_ne_returned hrequest) hpc
            rfl
  | sent rc streamId job state request slot o hworker hpc hrequest hslot =>
      cases slotStep_cases hslot with
      | sendFailed _ streamId' hpc' =>
          obtain rfl := RequestPc.armed.inj (hpc.symm.trans hpc')
          exact .sent rc request job state _ streamId hworker (request_ne_returned hrequest) hpc
            (Or.inl rfl)
      | sent streamId' hpc' =>
          obtain rfl := RequestPc.armed.inj (hpc.symm.trans hpc')
          exact .sent _ request job state _ streamId hworker (request_ne_returned hrequest) hpc
            (Or.inr rfl)
  | reset job state slot o hworker hslot =>
      cases slotStep_cases hslot with
      | reset streamId hpc =>
          exact .returned .reset .failed .succeeds job state _ streamId rfl rfl (by simp) hworker
            (harmed.not_returned hworker (by rw [hpc]; rfl)) (Or.inl hpc)
  | waited io job state slot streamId result hworker hslot =>
      obtain ⟨hpc, -, hresult, rfl⟩ := slotStep_wait hslot
      -- The flag makes the wait return false, whatever was received.
      have hnone : result = none := by
        rw [hresult, RemoteSlot.result, hstopped]
        rfl
      subst hnone
      exact .returned (.wait io) _ io job state _ streamId rfl rfl (by simp) hworker
        (harmed.not_returned hworker (by rw [hpc]; rfl)) (Or.inr hpc)
  | completed job path hworker => exact .completed job path hworker
  | responded response slot accepted hslot =>
      obtain ⟨pending, rfl⟩ := slotStep_response hslot
      exact .aside _ _ _ rfl rfl (by simp) rfl
  | stopped slot o hslot =>
      cases slotStep_cases hslot with
      | stop => exact .aside _ _ _ rfl rfl (by simp) rfl

/-- A request that came to nothing ends the download and removes its file. -/
theorem resume_none (io : LocalIo) (job : RemoteFileJob) (files : LocalFiles)
    {state : DownloadState} (h : ∀ path, state ≠ .returned path) :
    (state.resume io job files none).1 = .returned none ∧
      (state.resume io job files none).2 = match state with
        | .fetch _ _ => files.remove job.localPath
        | _ => files := by
  cases state with
  | querySize => exact ⟨rfl, rfl⟩
  | fetch fileSize offset => exact ⟨rfl, rfl⟩
  | returned path => exact absurd rfl (h path)

theorem stepsLeft_downloading {job : RemoteFileJob} {state : DownloadState}
    (hworker : e.worker = .downloading job state) (h : ∀ path, state ≠ .returned path) :
    e.stepsLeft = e.slot.pc.stepsLeft := by
  rw [ClipboardEntry.stepsLeft, hworker]
  cases state with
  | querySize => rfl
  | fetch fileSize offset => rfl
  | returned path => exact absurd rfl (h path)

theorem RequestPc.stepsLeft_le (pc : RequestPc) : pc.stepsLeft ≤ 5 := by
  cases pc with
  | idle => exact Nat.le_refl 5
  | armed streamId => exact Nat.le_succ 4
  | failed streamId => exact Nat.le_add_right 3 2
  | waiting streamId => exact Nat.le_add_right 3 2

/-- Each step of the worker brings it closer to the end of its loop. -/
theorem stepsLeft_step (h : StoppedStep e i o e') :
    e'.stepsLeft + (if isWorkerStep i = true then 1 else 0) ≤ e.stepsLeft := by
  cases h with
  | aside i o slot hi ho hsent hpc =>
      have hsame : ({ e with slot := slot } : ClipboardEntry).stepsLeft = e.stepsLeft := by
        simp only [ClipboardEntry.stepsLeft, hpc]
      rw [hi, hsame]
      exact Nat.le_refl _
  | exited hidle =>
      rw [ClipboardEntry.stepsLeft.eq_def e, hidle]
      exact Nat.le_refl 1
  | started job hpicked =>
      rw [ClipboardEntry.stepsLeft.eq_def e, hpicked]
      exact Nat.succ_le_succ e.slot.pc.stepsLeft_le
  | armed kind request job state slot streamId hworker hstate hpc hslot =>
      have hafter : ({ e with slot := slot } : ClipboardEntry).worker = .downloading job state :=
        hworker
      rw [stepsLeft_downloading hworker hstate, stepsLeft_downloading hafter hstate, hpc]
      simp only [hslot]
      exact Nat.le_refl 5
  | sent rc request job state slot streamId hworker hstate hpc hslot =>
      have hafter : ({ e with slot := slot } : ClipboardEntry).worker = .downloading job state :=
        hworker
      rw [stepsLeft_downloading hworker hstate, stepsLeft_downloading hafter hstate, hpc]
      rcases hslot with hslot | hslot
      · simp only [hslot]
        exact Nat.le_refl 4
      · simp only [hslot]
        exact Nat.le_refl 4
  | returned i o io job state slot streamId hi ho hsent hworker hstate hpc =>
      have hafter : (resumeDownload e slot io job state none).worker =
          .downloading job (.returned none) :=
        congrArg (WorkerPc.downloading job) (resume_none io job e.files hstate).1
      have htwo : (resumeDownload e slot io job state none).stepsLeft = 2 := by
        rw [ClipboardEntry.stepsLeft, hafter]
      rw [htwo, stepsLeft_downloading hworker hstate, hi]
      rcases hpc with hpc | hpc
      · rw [hpc]
        exact Nat.le_refl 3
      · rw [hpc]
        exact Nat.le_refl 3
  | completed job path hworker =>
      rw [ClipboardEntry.stepsLeft.eq_def e, hworker]
      exact Nat.le_refl 2

/-- The file being written is removed, and no other file changes. -/
theorem settledFiles_step (h : StoppedStep e i o e') : e'.settledFiles = e.settledFiles := by
  cases h with
  | aside => rfl
  | exited hidle => simp only [ClipboardEntry.settledFiles, hidle]
  | started job hpicked => simp only [ClipboardEntry.settledFiles, hpicked]
  | armed => rfl
  | sent => rfl
  | returned i o io job state slot streamId hi ho hsent hworker hstate hpc =>
      obtain ⟨hstate', hfiles⟩ := resume_none io job e.files hstate
      have hafter : (resumeDownload e slot io job state none).settledFiles =
          (state.resume io job e.files none).2 := by
        simp only [ClipboardEntry.settledFiles, resumeDownload, hstate']
      rw [hafter, hfiles, ClipboardEntry.settledFiles, hworker]
      cases state <;> rfl
  | completed job path hworker =>
      have hafter : (completeJob e job).1.settledFiles = e.files := rfl
      rw [hafter, ClipboardEntry.settledFiles, hworker]

theorem queue_step (h : StoppedStep e i o e') :
    e'.jobs = e.jobs ∧ e'.batches.length = e.batches.length := by
  cases h with
  | aside | exited | started | armed | sent | returned => exact ⟨rfl, rfl⟩
  | completed => exact ⟨rfl, List.length_modify _ _ _⟩

theorem isInert_publishes (h : isInert o = true) : publishes (i, o) = none :=
  (inert_event (i := i) h).2.2.2

/-- Only a worker in front of a request sends one, and no step leads there. -/
theorem not_aboutToSend_step (h : StoppedStep e i o e') (hsend : ¬ e.AboutToSend) :
    ¬ e'.AboutToSend ∧ ∀ request, o ≠ .sent request := by
  cases h with
  | aside i o slot hi ho hsent hpc =>
      refine ⟨?_, hsent⟩
      rintro (⟨job, hpicked⟩ | ⟨job, state, hworker, hstate, hslot⟩)
      · exact hsend (Or.inl ⟨job, hpicked⟩)
      · exact hsend (Or.inr ⟨job, state, hworker, hstate, by rwa [← hpc]⟩)
  | exited => exact ⟨by simp [ClipboardEntry.AboutToSend], by simp⟩
  | started job hpicked => exact absurd (Or.inl ⟨job, hpicked⟩) hsend
  | armed kind request job state slot streamId hworker hstate hpc =>
      exact absurd (Or.inr ⟨job, state, hworker, hstate, Or.inl hpc⟩) hsend
  | sent rc request job state slot streamId hworker hstate hpc =>
      exact absurd (Or.inr ⟨job, state, hworker, hstate, Or.inr ⟨streamId, hpc⟩⟩) hsend
  | returned i o io job state slot streamId hi ho hsent hworker hstate hpc =>
      refine ⟨?_, hsent⟩
      have hafter : (resumeDownload e slot io job state none).worker =
          .downloading job (.returned none) :=
        congrArg (WorkerPc.downloading job) (resume_none io job e.files hstate).1
      rintro (⟨job', hpicked⟩ | ⟨job', state', hworker', hstate', -⟩)
      · rw [hafter] at hpicked
        cases hpicked
      · obtain ⟨-, rfl⟩ := WorkerPc.downloading.inj (hafter.symm.trans hworker')
        exact hstate' none rfl
  | completed job path hworker =>
      refine ⟨by simp [ClipboardEntry.AboutToSend, completeJob], ?_⟩
      intro request
      simp [completeJob]

/-- Only a worker with the last job of a batch publishes, and no other job is taken. -/
theorem not_finishing_step (h : StoppedStep e i o e') (haccounting : BatchAccounting t e)
    (hfinish : ¬ e.Finishing) : ¬ e'.Finishing ∧ publishes (i, o) = none := by
  cases h with
  | aside i o slot hi ho hsent hpc => exact ⟨hfinish, isInert_publishes ho⟩
  | exited hidle =>
      refine ⟨?_, rfl⟩
      rintro ⟨job, batch, hcurrent, -⟩
      cases hcurrent
  | started job hpicked =>
      refine ⟨?_, rfl⟩
      rintro ⟨job', batch, hcurrent, hbatch, hone⟩
      refine hfinish ⟨job', batch, ?_, hbatch, hone⟩
      rw [ClipboardEntry.current, hpicked]
      exact hcurrent
  | armed => exact ⟨hfinish, rfl⟩
  | sent => exact ⟨hfinish, rfl⟩
  | returned i o io job state slot streamId hi ho hsent hworker hstate hpc =>
      refine ⟨?_, isInert_publishes ho⟩
      rintro ⟨job', batch, hcurrent, hbatch, hone⟩
      refine hfinish ⟨job', batch, ?_, hbatch, hone⟩
      rw [ClipboardEntry.current, hworker]
      exact hcurrent
  | completed job path hworker =>
      have hcurrent : e.current = some job := by rw [ClipboardEntry.current, hworker]
      obtain ⟨batch, hbatch⟩ : ∃ batch, e.batches[job.batch]? = some batch :=
        ⟨_, List.getElem?_eq_getElem (haccounting.numbered job (by rw [hcurrent]; simp))⟩
      have hcount := haccounting.counts job.batch batch hbatch
      have hrunning : e.running job.batch = 1 := by
        rw [ClipboardEntry.running, hcurrent]
        simp
      have hne : batch.remaining ≠ 1 := fun hone => hfinish ⟨job, batch, hcurrent, hbatch, hone⟩
      refine ⟨?_, ?_⟩
      · rintro ⟨job', batch', hcurrent', -⟩
        cases hcurrent'
      · rw [publishes_completeJob hbatch, if_neg (by omega)]

structure StoppedRun (e : ClipboardEntry) (t : List EntryEvent) (e' : ClipboardEntry) : Prop where
  jobs : e'.jobs = e.jobs
  batches : e'.batches.length = e.batches.length
  steps : workerSteps t + e'.stepsLeft ≤ e.stepsLeft
  files : e'.settledFiles = e.settledFiles
  sent : ¬ e.AboutToSend → ¬ e'.AboutToSend ∧ sentRequests t = []
  published : ¬ e.Finishing → ¬ e'.Finishing ∧ publishedOrder t = []

theorem sentRequests_snoc (t : List EntryEvent) (h : ∀ request, o ≠ .sent request) :
    sentRequests (t ++ [(i, o)]) = sentRequests t := by
  rw [sentRequests, filterMap_snoc]
  cases o with
  | sent request => exact absurd rfl (h request)
  | ignored | enqueued | popped | exited | dropped | started | armed | failed | waited
  | completed | responded | stopped => exact List.append_nil _

theorem workerSteps_snoc (t : List EntryEvent) (i : EntryInput) (o : EntryOutput) :
    workerSteps (t ++ [(i, o)]) = workerSteps t + if isWorkerStep i = true then 1 else 0 := by
  rw [workerSteps, List.countP_append, List.countP_singleton]
  rfl

theorem stoppedRun {t₀ : List EntryEvent}
    (h₀ : Execution (entryStep env) (.initial localFiles rdpViewItem) t₀ e)
    (hstopped : e.slot.stopped = true) (h : Execution (entryStep env) e t e') (hi : NoLists t) :
    StoppedRun e t e' := by
  induction h with
  | nil =>
      exact ⟨rfl, rfl, Nat.le_of_eq (Nat.zero_add _), rfl, fun h => ⟨h, rfl⟩, fun h => ⟨h, rfl⟩⟩
  | @snoc t e₁ e₂ i o ht hs ih =>
      have hi' : NoLists t := fun ev hev => hi ev (List.mem_append_left _ hev)
      have hrun := ih hi'
      have hreach := h₀.append ht
      have haccounting := batchAccounting hreach
      have hstep := stoppedStep (armedLast hreach) haccounting
        (stopped_of_execution ht hstopped hi') hs
        (hi (i, o) (List.mem_append_right _ (List.mem_singleton_self _)))
      obtain ⟨hjobs, hbatches⟩ := queue_step hstep
      refine ⟨hjobs.trans hrun.jobs, hbatches.trans hrun.batches, ?_, ?_, fun hsend => ?_,
        fun hfinish => ?_⟩
      · have hle := stepsLeft_step hstep
        have hle' := hrun.steps
        rw [workerSteps_snoc]
        omega
      · rw [settledFiles_step hstep, hrun.files]
      · obtain ⟨hsend₁, hnone⟩ := hrun.sent hsend
        obtain ⟨hsend₂, hsent⟩ := not_aboutToSend_step hstep hsend₁
        exact ⟨hsend₂, by rw [sentRequests_snoc t hsent, hnone]⟩
      · obtain ⟨hfinish₁, hnone⟩ := hrun.published hfinish
        obtain ⟨hfinish₂, hpublishes⟩ := not_finishing_step hstep haccounting hfinish₁
        refine ⟨hfinish₂, ?_⟩
        rw [publishedOrder_snoc, hpublishes, hnone]
        rfl

def ClipboardEntry.LoopOver (e : ClipboardEntry) : Prop := e.worker = .absent ∨ e.worker = .exited

theorem send_of_armed {job : RemoteFileJob} {state : DownloadState} {streamId : UInt32}
    (hworker : e.worker = .downloading job state) (hstate : ∀ path, state ≠ .returned path)
    (hpc : e.slot.pc = .armed streamId) (env : EntryEnv) :
    ∃ e' request, entryStep env e (.send channelRcOk) = some (e', .sent request) := by
  cases state with
  | querySize =>
      simp only [entryStep, hworker, hpc, DownloadState.request, slotStep]
      exact ⟨_, _, rfl⟩
  | fetch fileSize offset =>
      simp only [entryStep, hworker, hpc, DownloadState.request, slotStep]
      exact ⟨_, _, rfl⟩
  | returned path => exact absurd rfl (hstate path)

theorem request_of_idle {job : RemoteFileJob} {state : DownloadState}
    (hworker : e.worker = .downloading job state) (hstate : ∀ path, state ≠ .returned path)
    (hpc : e.slot.pc = .idle) (env : EntryEnv) :
    ∃ e' kind request streamId, entryStep env e .request = some (e', .armed kind request) ∧
      e'.worker = .downloading job state ∧ e'.slot.pc = .armed streamId := by
  cases state with
  | querySize =>
      simp only [entryStep, hworker, hpc, DownloadState.request, slotStep]
      exact ⟨_, _, _, _, rfl, rfl, rfl⟩
  | fetch fileSize offset =>
      simp only [entryStep, hworker, hpc, DownloadState.request, slotStep]
      exact ⟨_, _, _, _, rfl, rfl, rfl⟩
  | returned path => exact absurd rfl (hstate path)

/-- A stopped worker that has not left its loop can go on, without any response. -/
theorem worker_goes_on (hstopped : e.slot.stopped = true) (hover : ¬ e.LoopOver) (env : EntryEnv) :
    ∃ i o e', isWorkerStep i = true ∧ entryStep env e i = some (e', o) := by
  cases hworker : e.worker with
  | absent => exact absurd (Or.inl hworker) hover
  | exited => exact absurd (Or.inr hworker) hover
  | idle =>
      refine ⟨.pop, .exited, { e with worker := .exited }, rfl, ?_⟩
      simp only [entryStep, hworker, hstopped, if_true]
  | picked context job =>
      cases context with
      | true =>
          refine ⟨.start, .started job, { e with worker := .downloading job .querySize }, rfl, ?_⟩
          simp only [entryStep, hworker, if_true]
      | false =>
          refine ⟨.start, .dropped job, { e with worker := .idle }, rfl, ?_⟩
          simp only [entryStep, hworker, Bool.false_eq_true, if_false]
  | downloading job state =>
      by_cases hreturned : ∃ path, state = .returned path
      · obtain ⟨path, rfl⟩ := hreturned
        refine ⟨.complete, (completeJob e job).2, (completeJob e job).1, rfl, ?_⟩
        simp only [entryStep, hworker]
      · have hstate : ∀ path, state ≠ .returned path := fun path hs => hreturned ⟨path, hs⟩
        cases hpc : e.slot.pc with
        | idle =>
            obtain ⟨e', kind, request, streamId, hs, -⟩ := request_of_idle hworker hstate hpc env
            exact ⟨.request, _, e', rfl, hs⟩
        | armed streamId =>
            obtain ⟨e', request, hs⟩ := send_of_armed hworker hstate hpc env
            exact ⟨.send channelRcOk, _, e', rfl, hs⟩
        | failed streamId =>
            refine ⟨.reset, .failed, resumeDownload e { e.slot with pending := .empty, pc := .idle }
              .succeeds job state none, rfl, ?_⟩
            simp only [entryStep, hworker, slotStep, hpc]
        | waiting streamId =>
            have hwaitOver : e.slot.waitOver streamId = true := by
              rw [RemoteSlot.waitOver, hstopped]
              rfl
            refine ⟨.wait .succeeds, .waited streamId e.slot.result,
              resumeDownload e { e.slot with pending := .empty, pc := .idle } .succeeds job state
                e.slot.result, rfl, ?_⟩
            simp only [entryStep, hworker, slotStep, hpc, hwaitOver, if_true]

theorem noLists_of_workerSteps (h : ∀ ev ∈ t, isWorkerStep ev.1 = true) : NoLists t := by
  intro ev hev context files io hi
  have hstep := h ev hev
  rw [hi] at hstep
  cases hstep

/-- On its own steps alone the worker reaches the end of its loop. -/
theorem worker_leaves_loop {t₀ : List EntryEvent} (n : ℕ)
    (h₀ : Execution (entryStep env) (.initial localFiles rdpViewItem) t₀ e)
    (hstopped : e.slot.stopped = true) (hn : e.stepsLeft = n) :
    ∃ t e', Execution (entryStep env) e t e' ∧ (∀ ev ∈ t, isWorkerStep ev.1 = true) ∧
      e'.LoopOver := by
  induction n using Nat.strong_induction_on generalizing t₀ e with
  | _ n ih =>
      by_cases hover : e.LoopOver
      · exact ⟨[], e, .nil, by simp, hover⟩
      · obtain ⟨i, o, e₁, hi, hs⟩ := worker_goes_on hstopped hover env
        have hno : ∀ context files io, i ≠ .enqueue context files io := by
          rintro context files io rfl
          cases hi
        have hle := stepsLeft_step
          (stoppedStep (armedLast h₀) (batchAccounting h₀) hstopped hs hno)
        rw [if_pos hi] at hle
        obtain ⟨t, e', hexec, ht, hover'⟩ := ih e₁.stepsLeft (by omega) (h₀.snoc hs)
          (stopped_step hs hstopped hno) rfl
        refine ⟨(i, o) :: t, e', .cons hs hexec, ?_, hover'⟩
        intro ev hev
        rcases List.mem_cons.mp hev with rfl | hev
        · exact hi
        · exact ht ev hev

/-- A worker in front of a request can send it. -/
theorem aboutToSend_sends {t₀ : List EntryEvent} (harmed : ArmedLast t₀ e)
    (hsend : e.AboutToSend) (env : EntryEnv) :
    ∃ t e', Execution (entryStep env) e t e' ∧ (∀ ev ∈ t, isWorkerStep ev.1 = true) ∧
      sentRequests t ≠ [] := by
  have hfrom : ∀ (e₁ : ClipboardEntry) (job : RemoteFileJob) (state : DownloadState),
      e₁.worker = .downloading job state → (∀ path, state ≠ .returned path) →
      (e₁.slot.pc = .idle ∨ ∃ streamId, e₁.slot.pc = .armed streamId) →
      ∃ t e', Execution (entryStep env) e₁ t e' ∧ (∀ ev ∈ t, isWorkerStep ev.1 = true) ∧
        sentRequests t ≠ [] := by
    intro e₁ job state hworker hstate hpc
    rcases hpc with hidle | ⟨streamId, harmed⟩
    · obtain ⟨e₂, kind, request, streamId, hs, hworker₂, hpc₂⟩ :=
        request_of_idle hworker hstate hidle env
      obtain ⟨e₃, request', hs'⟩ := send_of_armed hworker₂ hstate hpc₂ env
      exact ⟨_, e₃, (Execution.single hs).snoc hs', by simp [isWorkerStep], by simp [sentRequests]⟩
    · obtain ⟨e₂, request, hs⟩ := send_of_armed hworker hstate harmed env
      exact ⟨_, e₂, .single hs, by simp [isWorkerStep], by simp [sentRequests]⟩
  rcases hsend with ⟨job, hpicked⟩ | ⟨job, state, hworker, hstate, hpc⟩
  · have hnone := harmed.idle_of_not_downloading (fun _ _ _ _ hw => by simp [hpicked] at hw)
    have hidle : e.slot.pc = .idle := by
      cases hpc : e.slot.pc with
      | idle => rfl
      | armed | failed | waiting => rw [hpc] at hnone; cases hnone
    have hs : entryStep env e .start =
        some ({ e with worker := .downloading job .querySize }, .started job) := by
      simp only [entryStep, hpicked, if_true]
    obtain ⟨t, e', hexec, ht, hsent⟩ := hfrom { e with worker := .downloading job .querySize } job
      .querySize rfl (by simp) (Or.inl hidle)
    refine ⟨_, e', .cons hs hexec, ?_, ?_⟩
    · intro ev hev
      rcases List.mem_cons.mp hev with rfl | hev
      · rfl
      · exact ht ev hev
    · simpa [sentRequests] using hsent
  · exact hfrom e job state hworker hstate hpc

/-- A worker with the last job of a batch publishes it on its way out. -/
theorem finishing_publishes {t₀ : List EntryEvent}
    (h₀ : Execution (entryStep env) (.initial localFiles rdpViewItem) t₀ e)
    (hstopped : e.slot.stopped = true) (hfinish : e.Finishing) :
    ∃ t e', Execution (entryStep env) e t e' ∧ (∀ ev ∈ t, isWorkerStep ev.1 = true) ∧
      publishedOrder t ≠ [] := by
  obtain ⟨t, e', hexec, ht, hover⟩ := worker_leaves_loop e.stepsLeft h₀ hstopped rfl
  refine ⟨t, e', hexec, ht, fun hnone => ?_⟩
  obtain ⟨job, batch, hcurrent, hbatch, hone⟩ := hfinish
  have hrun := stoppedRun h₀ hstopped hexec (noLists_of_workerSteps ht)
  have hrunning : e.running job.batch = 1 := by
    rw [ClipboardEntry.running, hcurrent]
    simp
  have hbefore := (batchAccounting h₀).counts job.batch batch hbatch
  -- At the end the batch has neither a queued nor a running job, so it has been published.
  have hqueued : e'.queued job.batch = 0 := by
    rw [ClipboardEntry.queued, hrun.jobs]
    change e.queued job.batch = 0
    omega
  have hzero : e'.running job.batch = 0 := by
    rcases hover with hworker | hworker
    · rw [ClipboardEntry.running, ClipboardEntry.current, hworker]
      rfl
    · rw [ClipboardEntry.running, ClipboardEntry.current, hworker]
      rfl
  have hmem : job.batch ∈ publishedOrder (t₀ ++ t) := by
    rw [(batchAccounting (h₀.append hexec)).mem_publishedOrder, hrun.batches]
    exact ⟨(List.getElem?_eq_some_iff.mp hbatch).1, by omega⟩
  rw [publishedOrder, List.filterMap_append] at hmem
  change job.batch ∈ publishedOrder t₀ ++ publishedOrder t at hmem
  rw [hnone, List.append_nil, (batchAccounting h₀).mem_publishedOrder] at hmem
  omega

/-- From every state reached with the flag set, the worker leaves its loop after
at most six steps of its own, needing no response, and leaves no file that it had
begun to write. That it also sends no request and publishes no batch holds exactly
if it was not in front of a request and not processing the last job of a batch. -/
theorem stop_is_final_iff {env : EntryEnv} {localFiles : LocalFiles} {rdpViewItem : Bool}
    {t₀ : List EntryEvent} {e : ClipboardEntry}
    (h₀ : Execution (entryStep env) (.initial localFiles rdpViewItem) t₀ e)
    (hstopped : e.slot.stopped = true) :
    (∀ t e', Execution (entryStep env) e t e' → NoLists t →
      workerSteps t ≤ 6 ∧
      (e'.LoopOver ∨ ∃ i o e'', isWorkerStep i = true ∧ entryStep env e' i = some (e'', o)) ∧
      (e'.LoopOver → e'.files = e.settledFiles)) ∧
    ((∀ t e', Execution (entryStep env) e t e' → NoLists t →
      sentRequests t = [] ∧ publishedOrder t = []) ↔ ¬ e.AboutToSend ∧ ¬ e.Finishing) := by
  have hsix : e.stepsLeft ≤ 6 := by
    unfold ClipboardEntry.stepsLeft
    split
    · exact Nat.zero_le _
    · exact Nat.zero_le _
    · exact Nat.le_add_right 1 5
    · exact Nat.le_add_right 2 4
    · exact Nat.le_refl 6
    · exact Nat.le_add_right 2 4
    · exact Nat.le_succ_of_le e.slot.pc.stepsLeft_le
  refine ⟨fun t e' hexec hno => ?_, ⟨fun hclean => ⟨fun hsend => ?_, fun hfinish => ?_⟩, ?_⟩⟩
  · have hrun := stoppedRun h₀ hstopped hexec hno
    have hsteps := hrun.steps
    refine ⟨by omega, ?_, ?_⟩
    · by_cases hover : e'.LoopOver
      · exact Or.inl hover
      · exact Or.inr (worker_goes_on (stopped_of_execution hexec hstopped hno) hover env)
    · intro hover
      rw [← hrun.files]
      rcases hover with hworker | hworker
      · rw [ClipboardEntry.settledFiles, hworker]
      · rw [ClipboardEntry.settledFiles, hworker]
  · obtain ⟨t, e', hexec, ht, hsent⟩ := aboutToSend_sends (armedLast h₀) hsend env
    exact hsent (hclean t e' hexec (noLists_of_workerSteps ht)).1
  · obtain ⟨t, e', hexec, ht, hpublished⟩ := finishing_publishes h₀ hstopped hfinish
    exact hpublished (hclean t e' hexec (noLists_of_workerSteps ht)).2
  · rintro ⟨hsend, hfinish⟩ t e' hexec hno
    have hrun := stoppedRun h₀ hstopped hexec hno
    exact ⟨(hrun.sent hsend).2, (hrun.published hfinish).2⟩

/-- A worker that is stopped while it waits for its next job. -/
theorem stop_is_final_of_idle :
    ∃ e, (∃ t₀, Execution (entryStep ⟨[Qt.slash], 1⟩) (.initial (fun _ => none) true) t₀ e) ∧
      ∀ t e', Execution (entryStep ⟨[Qt.slash], 1⟩) e t e' → NoLists t →
        sentRequests t = [] ∧ publishedOrder t = [] := by
  obtain ⟨e, t₀, hrun, hstopped, hworker⟩ : ∃ e t₀, run (entryStep ⟨[Qt.slash], 1⟩)
      (.initial (fun _ => none) true) [.enqueue true olderList ⟨true, []⟩, .stop] =
        some (e, t₀) ∧ e.slot.stopped = true ∧ e.worker = .idle := ⟨_, _, rfl, rfl, rfl⟩
  have h₀ := Execution.of_run hrun
  refine ⟨e, ⟨t₀, h₀⟩, (stop_is_final_iff h₀ hstopped).2.mpr ⟨?_, ?_⟩⟩
  · rintro (⟨job, hpicked⟩ | ⟨job, state, hdownload, -⟩)
    · rw [hworker] at hpicked
      cases hpicked
    · rw [hworker] at hdownload
      cases hdownload
  · rintro ⟨job, batch, hcurrent, -⟩
    rw [ClipboardEntry.current, hworker] at hcurrent
    cases hcurrent

/-- Stopped right after it took a job, the worker still asks for the size of the
file, and publishes the batch although nothing was downloaded. -/
theorem stopped_worker_sends_and_publishes :
    ∃ e e' t₀ t, run (entryStep ⟨[Qt.slash], 1⟩) (.initial (fun _ => none) true)
        [.enqueue true newerList ⟨true, []⟩, .pop, .stop] = some (e, t₀) ∧
      e.slot.stopped = true ∧
      run (entryStep ⟨[Qt.slash], 1⟩) e
        [.start, .request, .send channelRcOk, .wait .succeeds, .complete, .pop] = some (e', t) ∧
      sentRequests t = [requestRemoteSize 1 0] ∧ publishedOrder t = [0] ∧ e'.worker = .exited :=
  ⟨_, _, _, _, rfl, rfl, rfl, rfl, rfl, rfl⟩

end QfClient
