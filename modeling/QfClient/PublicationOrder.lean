import Mathlib.Data.List.Pairwise
import QfClient.EntryBatches

/-!
# The order of publication

A batch without file jobs is published when its list is received, any other one
with its last job. The jobs keep the order of their lists, so a batch can be
overtaken only by a later one that has no job: as long as no such list arrives
while an older job is unfinished, batches are published in the order of receipt.
The posted calls then reach the view one after the other, and the clipboard holds
the paths of the last of them that names an existing path.
-/

namespace QfClient

open Machine

variable {env : EntryEnv} {localFiles : LocalFiles} {t : List EntryEvent}
  {e e' : ClipboardEntry} {i : EntryInput} {o : EntryOutput}

theorem rdpViewItem_step (hs : entryStep env e i = some (e', o)) :
    e'.rdpViewItem = e.rdpViewItem := by
  cases entryStep_cases hs with
  | noRoot => exact startRemoteFileWorker_rdpViewItem e
  | refused | enqueued | exited | popped | dropped | started | armed | sent | reset | waited
  | completed | responded | stopped => rfl

def publishedOrder (t : List EntryEvent) : List ℕ := t.filterMap publishes

/-- No list without file jobs is received while an older job is unfinished. -/
def ReceivedInOrder (t : List EntryEvent) : Prop :=
  EachEvent (fun u ev => ∀ number publication, ev.2 = .enqueued number [] publication →
    enqueuedJobs u = completedJobs u) t

theorem publishedOrder_snoc (t : List EntryEvent) (ev : EntryEvent) :
    publishedOrder (t ++ [ev]) = publishedOrder t ++ (publishes ev).toList :=
  filterMap_snoc publishes t ev

theorem mem_publishedOrder {b : ℕ} : b ∈ publishedOrder t ↔ 0 < publishCount b t := by
  rw [publishedOrder, publishCount, List.countP_pos_iff, List.mem_filterMap]
  simp only [decide_eq_true_eq]

/-- The batches published so far are those all of whose jobs are done. -/
theorem BatchAccounting.mem_publishedOrder (h : BatchAccounting t e) {b : ℕ} :
    b ∈ publishedOrder t ↔ b < e.batches.length ∧ e.queued b + e.running b = 0 := by
  rw [QfClient.mem_publishedOrder, h.published b]
  split_ifs with hb
  · exact iff_of_true Nat.one_pos hb
  · exact iff_of_false (Nat.lt_irrefl 0) hb

/-- Jobs are ordered by batch, the batches before one without jobs are finished,
and what is published is in order. -/
structure PublicationOrder (t : List EntryEvent) (e : ClipboardEntry) : Prop where
  sorted : (enqueuedJobs t).Pairwise (fun job job' => job.batch ≤ job'.batch)
  numbered : ∀ job ∈ enqueuedJobs t, job.batch < e.batches.length
  jobless : ∀ b < e.batches.length, (∀ job ∈ enqueuedJobs t, job.batch ≠ b) →
    ∀ b' < b, e.queued b' + e.running b' = 0
  increasing : (publishedOrder t).Pairwise (· < ·)

theorem pairwise_snoc {b : ℕ} {bs : List ℕ} (h : bs.Pairwise (· < ·)) (hb : ∀ b' ∈ bs, b' < b) :
    (bs ++ [b]).Pairwise (· < ·) := by
  refine List.pairwise_append.mpr ⟨h, List.pairwise_singleton _ _, ?_⟩
  intro b' hb' c hc
  rw [List.mem_singleton.mp hc]
  exact hb b' hb'

theorem PublicationOrder.inert (h : PublicationOrder t e) (ho : isInert o = true)
    (hbatches : e'.batches = e.batches)
    (hjobs : e'.current.toList ++ e'.jobs = e.current.toList ++ e.jobs) :
    PublicationOrder (t ++ [(i, o)]) e' := by
  obtain ⟨henqueued, -, -, hpublishes⟩ := inert_event (i := i) ho
  have hsame : enqueuedJobs (t ++ [(i, o)]) = enqueuedJobs t := by
    rw [enqueuedJobs_append, henqueued, List.append_nil]
  have hcount := counts_eq_of_jobs hjobs
  refine ⟨?_, ?_, ?_, ?_⟩
  · rw [hsame]
    exact h.sorted
  · rw [hsame, hbatches]
    exact h.numbered
  · rw [hsame, hbatches]
    intro b hb hnone b' hb'
    rw [hcount]
    exact h.jobless b hb hnone b' hb'
  · rw [publishedOrder_snoc, hpublishes, Option.toList_none, List.append_nil]
    exact h.increasing

theorem counts_enqueued {jobs : List RemoteFileJob} {number : ℕ}
    (hjobs : e'.jobs = e.jobs ++ jobs) (hcurrent : e'.current = e.current)
    (hnumber : ∀ job ∈ jobs, job.batch = number) {b : ℕ} (hb : b ≠ number) :
    e'.queued b + e'.running b = e.queued b + e.running b := by
  have hrunning : e'.running b = e.running b := by
    rw [ClipboardEntry.running, hcurrent, ClipboardEntry.running]
  have hqueued : e'.queued b = e.queued b := by
    rw [ClipboardEntry.queued, hjobs, List.countP_append, countP_batch_of_forall hnumber,
      if_neg hb, Nat.add_zero, ClipboardEntry.queued]
  rw [hqueued, hrunning]

theorem PublicationOrder.enqueued {io : EnqueueIo} {files : List ClipboardInfoFile}
    {rootPath : QString} {jobs : List RemoteFileJob} {batch : RemoteFileBatch}
    (h : PublicationOrder t e) (haccounting : BatchAccounting t e)
    (hnew : enqueueEntries io e.batches.length 0 files [] ⟨0, rootPath, []⟩ = (jobs, batch))
    (hbatches : e'.batches = e.batches ++ [batch]) (hjobs : e'.jobs = e.jobs ++ jobs)
    (hcurrent : e'.current = e.current) (horder : jobs = [] → enqueuedJobs t = completedJobs t) :
    PublicationOrder (t ++ [(i, .enqueued e.batches.length jobs (if batch.remaining = 0 then
      some (publishRemoteBatch e.rdpViewItem e.batches.length batch) else none))]) e' := by
  obtain ⟨-, -, -, hnumber⟩ := enqueueEntries_new hnew
  have hlength : e'.batches.length = e.batches.length + 1 := by
    rw [hbatches, List.length_append, List.length_singleton]
  have henqueued : ∀ publication, enqueuedJobs (t ++ [(i, .enqueued e.batches.length jobs
      publication)]) = enqueuedJobs t ++ jobs := by
    intro publication
    rw [enqueuedJobs_append]
    simp [enqueuedJobs]
  refine ⟨?_, ?_, ?_, ?_⟩
  · rw [henqueued]
    refine List.pairwise_append.mpr ⟨h.sorted, ?_, ?_⟩
    · refine List.pairwise_of_forall_mem_list fun job hjob job' hjob' => ?_
      rw [hnumber job hjob, hnumber job' hjob']
    · intro job hjob job' hjob'
      rw [hnumber job' hjob']
      exact Nat.le_of_lt (h.numbered job hjob)
  · rw [henqueued, hlength]
    intro job hjob
    rcases List.mem_append.mp hjob with hold | hnewJob
    · exact Nat.lt_succ_of_lt (h.numbered job hold)
    · rw [hnumber job hnewJob]
      exact Nat.lt_succ_self _
  · rw [henqueued, hlength]
    intro b hb hnone b' hb'
    have hb'lt : b' < e.batches.length := by omega
    rw [counts_enqueued hjobs hcurrent hnumber (Nat.ne_of_lt hb'lt)]
    rcases Nat.lt_or_eq_of_le (Nat.le_of_lt_succ hb) with hlt | rfl
    · exact h.jobless b hlt (fun job hjob => hnone job (List.mem_append_left _ hjob)) b' hb'
    · have hnil : jobs = [] := by
        rw [List.eq_nil_iff_forall_not_mem]
        exact fun job hjob => hnone job (List.mem_append_right _ hjob) (hnumber job hjob)
      have hfifo := haccounting.fifo
      rw [horder hnil, List.self_eq_append_right, List.append_eq_nil_iff] at hfifo
      rw [ClipboardEntry.queued, hfifo.2, ClipboardEntry.running, hfifo.1]
      rfl
  · rw [publishedOrder_snoc, publishes_enqueued]
    split_ifs
    · exact pairwise_snoc h.increasing fun b hb => (haccounting.mem_publishedOrder.mp hb).1
    · rw [Option.toList_none, List.append_nil]
      exact h.increasing

theorem PublicationOrder.completed {job : RemoteFileJob} (h : PublicationOrder t e)
    (haccounting : BatchAccounting t e) (hcurrent : e.current = some job) :
    PublicationOrder (t ++ [(i, (completeJob e job).2)]) (completeJob e job).1 := by
  have henqueued : enqueuedJobs (t ++ [(i, (completeJob e job).2)]) = enqueuedJobs t := by
    rw [enqueuedJobs_append]
    exact List.append_nil _
  have hlength : (completeJob e job).1.batches.length = e.batches.length :=
    List.length_modify _ _ _
  have hrunning : e.running job.batch = 1 := by
    rw [ClipboardEntry.running, hcurrent]
    simp
  refine ⟨?_, ?_, ?_, ?_⟩
  · rw [henqueued]
    exact h.sorted
  · rw [henqueued, hlength]
    exact h.numbered
  · rw [henqueued, hlength]
    intro b hb hnone b' hb'
    have hzero := h.jobless b hb hnone b' hb'
    have hqueued : (completeJob e job).1.queued b' = e.queued b' := rfl
    have hrunning' : (completeJob e job).1.running b' = 0 := rfl
    omega
  · obtain ⟨batch, hbatch⟩ : ∃ batch, e.batches[job.batch]? = some batch :=
      ⟨_, List.getElem?_eq_getElem (haccounting.numbered job (by rw [hcurrent]; simp))⟩
    rw [publishedOrder_snoc, publishes_completeJob hbatch]
    split_ifs with hlast
    · refine pairwise_snoc h.increasing fun b hb => ?_
      obtain ⟨hlt, hdone⟩ := haccounting.mem_publishedOrder.mp hb
      by_contra hle
      -- A finished batch behind the job has no job at all, so the job's batch is finished too.
      have hne : b ≠ job.batch := by
        rintro rfl
        omega
      have hnone : ∀ job' ∈ enqueuedJobs t, job'.batch ≠ b := by
        intro job' hmem hb'
        have hsorted := h.sorted
        rw [haccounting.fifo, hcurrent] at hmem hsorted
        rcases List.mem_append.mp hmem with hcompleted | hrest
        · have hle' := (List.pairwise_append.mp hsorted).2.2 job' hcompleted job (by simp)
          omega
        · rcases List.mem_append.mp hrest with hself | hqueued
          · rw [List.mem_singleton.mp hself] at hb'
            exact hne hb'.symm
          · have hpos : 0 < e.queued b := by
              rw [ClipboardEntry.queued, List.countP_pos_iff]
              exact ⟨job', hqueued, by simpa using hb'⟩
            omega
      have hzero := h.jobless b hlt hnone job.batch (by omega)
      omega
    · rw [Option.toList_none, List.append_nil]
      exact h.increasing

theorem publicationOrder_step (h : PublicationOrder t e) (haccounting : BatchAccounting t e)
    (hs : entryStep env e i = some (e', o)) (horder : ReceivedInOrder (t ++ [(i, o)])) :
    PublicationOrder (t ++ [(i, o)]) e' := by
  obtain ⟨-, hlast⟩ := eachEvent_snoc.mp horder
  cases batchEffect haccounting.picked hs with
  | inert ho hbatches hjobs => exact h.inert ho hbatches hjobs
  | enqueued io files rootPath jobs batch hnew ho hbatches hjobs hcurrent =>
      subst ho
      exact h.enqueued haccounting hnew hbatches hjobs hcurrent fun hnil => by
        subst hnil
        exact hlast _ _ rfl
  | completed job hcurrent ho he =>
      subst ho he
      exact h.completed haccounting hcurrent

theorem publicationOrder {rdpViewItem : Bool}
    (h : Execution (entryStep env) (.initial localFiles rdpViewItem) t e)
    (horder : ReceivedInOrder t) : PublicationOrder t e := by
  induction h with
  | nil => exact ⟨.nil, by simp [enqueuedJobs], fun b hb => absurd hb (Nat.not_lt_zero b), .nil⟩
  | snoc ht hs ih =>
      exact publicationOrder_step (ih (eachEvent_snoc.mp horder).1) (batchAccounting ht) hs horder

/-- The numbers of the batches in the order in which their lists were received. -/
def receivedOrder (t : List EntryEvent) : List ℕ :=
  t.filterMap (fun
    | (_, .enqueued number _ _) => some number
    | _ => none)

def Accepted (files : List ClipboardInfoFile) : Prop :=
  ∃ file ∈ files, safeRemoteRelativePath file.displayName ≠ []

theorem receivedOrder_eq {rdpViewItem : Bool}
    (h : Execution (entryStep env) (.initial localFiles rdpViewItem) t e) :
    receivedOrder t = List.range e.batches.length := by
  induction h with
  | nil => rfl
  | @snoc t e e' i o ht hs ih =>
      rw [receivedOrder, filterMap_snoc]
      change receivedOrder t ++ _ = _
      rw [ih]
      cases batchEffect (batchAccounting ht).picked hs with
      | inert ho hbatches hjobs =>
          rw [hbatches]
          cases o <;> first | exact List.append_nil _ | exact absurd ho (by simp [isInert])
      | enqueued io files rootPath jobs batch hnew ho hbatches hjobs hcurrent =>
          subst ho
          rw [hbatches, List.length_append, List.length_singleton, List.range_succ]
          rfl
      | completed job hcurrent ho he =>
          subst ho he
          have hlength : (completeJob e job).1.batches.length = e.batches.length :=
            List.length_modify _ _ _
          rw [hlength]
          exact List.append_nil _

/-- With every job done, the batches have been published in the order of receipt. -/
theorem publishedOrder_eq_receivedOrder {rdpViewItem : Bool}
    (h : Execution (entryStep env) (.initial localFiles rdpViewItem) t e)
    (horder : ReceivedInOrder t) (hdrained : enqueuedJobs t = completedJobs t) :
    publishedOrder t = receivedOrder t := by
  have haccounting := batchAccounting h
  have hincreasing := (publicationOrder h horder).increasing
  have hfifo := haccounting.fifo
  rw [hdrained, List.self_eq_append_right, List.append_eq_nil_iff] at hfifo
  have hmem : ∀ b, b ∈ publishedOrder t ↔ b ∈ List.range e.batches.length := by
    intro b
    have hzero : e.queued b + e.running b = 0 := by
      rw [ClipboardEntry.queued, hfifo.2, ClipboardEntry.running, hfifo.1]
      rfl
    rw [haccounting.mem_publishedOrder, List.mem_range, hzero]
    simp
  rw [receivedOrder_eq h]
  refine List.Perm.eq_of_pairwise (fun a b _ _ hab hba => absurd hab (Nat.lt_asymm hba))
    hincreasing List.pairwise_lt_range ?_
  exact (List.perm_ext_iff_of_nodup (hincreasing.imp Nat.ne_of_lt) List.nodup_range).mpr hmem

end QfClient
