import Mathlib.Data.List.Nodup
import QfClient.StreamIds

/-!
# What the slot remembers

Along an execution without a stop, the slot of an open request is determined by
the last response accepted since it was armed. So a wait returns that response,
and no response to another request.
-/

namespace QfClient

open Machine

abbrev SlotEvent := SlotInput × SlotOutput

def acceptedResponses (streamId : UInt32) (t : List SlotEvent) : List FileContentsResponse :=
  t.filterMap (fun
    | (.response response, .responded true) =>
        if response.streamId = streamId then some response else none
    | _ => none)

def armedIds (t : List SlotEvent) : List UInt32 :=
  t.filterMap (fun
    | (.arm _, .armed streamId) => some streamId
    | _ => none)

def isQuiet : SlotEvent → Bool
  | (.send _, _) => true
  | (.response _, _) => true
  | _ => false

def Quiet (t : List SlotEvent) : Prop := ∀ e ∈ t, isQuiet e = true

theorem acceptedResponses_append (streamId : UInt32) (t u : List SlotEvent) :
    acceptedResponses streamId (t ++ u) =
      acceptedResponses streamId t ++ acceptedResponses streamId u := List.filterMap_append

theorem acceptedResponses_cons_arm (streamId streamId' : UInt32) (kind : RemoteRequestKind)
    (t : List SlotEvent) :
    acceptedResponses streamId ((.arm kind, .armed streamId') :: t) =
      acceptedResponses streamId t := rfl

theorem armedIds_append (t u : List SlotEvent) : armedIds (t ++ u) = armedIds t ++ armedIds u :=
  List.filterMap_append

theorem quiet_append_singleton {t : List SlotEvent} {e : SlotEvent} (ht : Quiet t)
    (he : isQuiet e = true) : Quiet (t ++ [e]) := by
  intro e' he'
  rcases List.mem_append.mp he' with h | h
  · exact ht e' h
  · rw [List.mem_singleton.mp h, he]

/-- The last arming of a trace is where quiet events begin. -/
theorem last_arming_unique {u v u' v' : List SlotEvent} {kind kind' : RemoteRequestKind}
    {o o' : SlotOutput} (hv : Quiet v) (hv' : Quiet v')
    (h : u ++ (.arm kind, o) :: v = u' ++ (.arm kind', o') :: v') :
    u = u' ∧ ((.arm kind, o) : SlotEvent) = (.arm kind', o') ∧ v = v' := by
  rcases List.append_eq_append_iff.mp h with ⟨w, rfl, hw⟩ | ⟨w, rfl, hw⟩
  · cases w with
    | nil =>
        obtain ⟨he, hvv⟩ := List.cons.inj hw
        exact ⟨(List.append_nil u).symm, he, hvv⟩
    | cons e w =>
        obtain ⟨-, rfl⟩ := List.cons.inj hw
        exact absurd (hv (.arm kind', o') (by simp)) (by simp [isQuiet])
  · cases w with
    | nil =>
        obtain ⟨he, hvv⟩ := List.cons.inj hw
        exact ⟨List.append_nil u', he.symm, hvv.symm⟩
    | cons e w =>
        obtain ⟨-, rfl⟩ := List.cons.inj hw
        exact absurd (hv' (.arm kind, o) (by simp)) (by simp [isQuiet])

def OpenRequest (t : List SlotEvent) (s : RemoteSlot) (streamId : UInt32) : Prop :=
  ∃ u kind v, t = u ++ (.arm kind, .armed streamId) :: v ∧ Quiet v ∧
    s.pending = pendingOf streamId kind (acceptedResponses streamId v).getLast? ∧
    ∀ response o, (.response response, o) ∈ v → o = .responded (response.streamId == streamId)

structure SlotHistory (t : List SlotEvent) (s : RemoteSlot) : Prop where
  running : s.stopped = false
  idle : s.pc = .idle → s.pending = .empty
  request : ∀ streamId, s.pc.streamId? = some streamId → OpenRequest t s streamId

variable {t : List SlotEvent} {s s' : RemoteSlot} {streamId : UInt32}

theorem OpenRequest.send {rc : UInt32} {o : SlotOutput} {pc : RequestPc}
    (h : OpenRequest t s streamId) :
    OpenRequest (t ++ [(.send rc, o)]) { s with pc := pc } streamId := by
  obtain ⟨u, kind, v, rfl, hv, hp, hr⟩ := h
  refine ⟨u, kind, v ++ [(.send rc, o)], by simp, quiet_append_singleton hv rfl, ?_, ?_⟩
  · rw [acceptedResponses_append]
    simpa [acceptedResponses] using hp
  · intro response o' hmem
    rcases List.mem_append.mp hmem with hmem | hmem
    · exact hr response o' hmem
    · exact absurd (List.mem_singleton.mp hmem) (by simp)

/-- A response to the open request replaces the stored one, and any other leaves
the slot alone. -/
theorem OpenRequest.response (h : OpenRequest t s streamId) (response : FileContentsResponse) :
    OpenRequest (t ++ [(.response response, .responded (s.pending.expects response))])
      { s with pending := (serverFileContentsResponse true (some response) s.pending).2 }
      streamId := by
  obtain ⟨u, kind, v, rfl, hv, hp, hr⟩ := h
  have hexpects : s.pending.expects response = (response.streamId == streamId) := by
    rw [hp, expects_pendingOf]
  refine ⟨u, kind, v ++ [(.response response, .responded (s.pending.expects response))], by simp,
    quiet_append_singleton hv rfl, ?_, ?_⟩
  · rw [acceptedResponses_append]
    by_cases hid : response.streamId = streamId
    · have he : s.pending.expects response = true := by simp [hexpects, hid]
      have hlast : acceptedResponses streamId [(.response response, .responded true)] =
          [response] := by simp [acceptedResponses, hid]
      simp only [serverFileContentsResponse, he, if_true, hlast, List.getLast?_concat]
      rw [hp, store_pendingOf]
    · have he : s.pending.expects response = false := by simp [hexpects, hid]
      have hnone : acceptedResponses streamId [(.response response, .responded false)] = [] := rfl
      simpa only [serverFileContentsResponse, he, Bool.false_eq_true, if_false, hnone,
        List.append_nil] using hp
  · intro response' o hmem
    rcases List.mem_append.mp hmem with hmem | hmem
    · exact hr response' o hmem
    · obtain ⟨he, rfl⟩ := Prod.mk.inj (List.mem_singleton.mp hmem)
      rw [hexpects, SlotInput.response.inj he]

theorem slotHistory_step {i : SlotInput} {o : SlotOutput} (h : SlotHistory t s)
    (hs : slotStep s i = some (s', o)) (hstop : i ≠ .stop) :
    SlotHistory (t ++ [(i, o)]) s' := by
  cases i with
  | response response =>
      obtain ⟨rfl, rfl⟩ := Prod.mk.inj (Option.some.inj hs)
      refine ⟨h.running, fun hpc => ?_,
        fun streamId hid => (h.request streamId hid).response response⟩
      simp [serverFileContentsResponse, h.idle hpc]
  | stop => exact absurd rfl hstop
  | arm kind =>
      cases slotStep_cases hs with
      | arm _ hpc =>
          refine ⟨h.running, fun hidle => absurd hidle (by simp), fun streamId hid => ?_⟩
          obtain rfl := Option.some.inj hid
          exact ⟨t, kind, [], rfl, fun e he => absurd he (by simp), rfl,
            fun _ _ hmem => absurd hmem (by simp)⟩
  | send rc =>
      cases slotStep_cases hs with
      | sendFailed _ streamId hpc _ =>
          refine ⟨h.running, fun hidle => absurd hidle (by simp), fun streamId' hid => ?_⟩
          obtain rfl := Option.some.inj hid
          exact (h.request streamId (by rw [hpc]; rfl)).send
      | sent streamId hpc =>
          refine ⟨h.running, fun hidle => absurd hidle (by simp), fun streamId' hid => ?_⟩
          obtain rfl := Option.some.inj hid
          exact (h.request streamId (by rw [hpc]; rfl)).send
  | reset =>
      cases slotStep_cases hs with
      | reset streamId _ =>
          exact ⟨h.running, fun _ => rfl, fun _ hid => absurd hid (by simp [RequestPc.streamId?])⟩
  | wait =>
      cases slotStep_cases hs with
      | wait streamId _ _ =>
          exact ⟨h.running, fun _ => rfl, fun _ hid => absurd hid (by simp [RequestPc.streamId?])⟩

theorem slotHistory (h : Execution slotStep .initial t s) (hstop : ∀ e ∈ t, e.1 ≠ .stop) :
    SlotHistory t s := by
  induction h with
  | nil =>
      exact ⟨rfl, fun _ => rfl, fun _ hid => absurd hid (by simp [RemoteSlot.initial,
        RequestPc.streamId?])⟩
  | @snoc t s₁ s₂ i o _ hs ih =>
      exact slotHistory_step (ih fun e he => hstop e (List.mem_append_left _ he)) hs
        (hstop (i, o) (by simp))

/-- The ids of the requests are those of the calls, one after the other. -/
theorem armedIds_eq_streamIds (h : Execution slotStep .initial t s) :
    armedIds t = (List.range (armedIds t).length).map streamIdAt ∧
      s.nextStreamId = streamCounter (armedIds t).length := by
  induction h with
  | nil => exact ⟨rfl, rfl⟩
  | @snoc t s₁ s₂ i o _ hs ih =>
      obtain ⟨hids, hnext⟩ := ih
      rw [armedIds_append]
      cases slotStep_cases hs with
      | arm kind hpc =>
          have hone : armedIds [(.arm kind, .armed (nextRemoteStreamId s₁.nextStreamId).1)] =
              [streamIdAt (armedIds t).length] := by
            rw [hnext]
            rfl
          rw [hone, List.length_append, List.length_singleton, List.range_succ, List.map_append,
            List.map_singleton, ← hids]
          refine ⟨rfl, ?_⟩
          simp only [hnext]
          rfl
      | sendFailed | sent | reset | wait | accepted | ignored | stop =>
          simp only [armedIds, List.filterMap_cons, List.filterMap_nil, List.append_nil]
          exact ⟨hids, hnext⟩

/-- The ids drawn count up from one, as long as the counter has not wrapped. -/
theorem armedIds_eq (h : Execution slotStep .initial t s)
    (hdraws : (armedIds t).length < 2 ^ 32 - 1) :
    (armedIds t).map UInt32.toNat = List.range' 1 (armedIds t).length ∧
      s.nextStreamId.toNat = 1 + (armedIds t).length := by
  obtain ⟨hids, hnext⟩ := armedIds_eq_streamIds h
  constructor
  · rw [hids, List.map_map, List.length_map, List.length_range, List.range'_eq_map_range]
    apply List.map_congr_left
    intro n hn
    exact toNat_streamIdAt_of_lt (lt_trans (List.mem_range.mp hn) hdraws)
  · rw [hnext, toNat_streamCounter_of_lt hdraws]

theorem armedIds_nodup (h : Execution slotStep .initial t s)
    (hdraws : (armedIds t).length < 2 ^ 32 - 1) : (armedIds t).Nodup := by
  have hrange := (armedIds_eq h hdraws).1
  exact List.Nodup.of_map UInt32.toNat (by rw [hrange]; exact List.nodup_range')

/-- No call of `next_remote_stream_id` returns zero, and among as many consecutive calls as
there are other values no two return the same one; and the requests of any run have the
ids of the calls, in their order. -/
theorem stream_ids_distinct :
    (∀ n, streamIdAt n ≠ 0) ∧
      (∀ first m n, first ≤ m → m < n → n < first + (2 ^ 32 - 1) → streamIdAt m ≠ streamIdAt n) ∧
      ∀ t s, Execution slotStep .initial t s →
        armedIds t = (List.range (armedIds t).length).map streamIdAt :=
  ⟨streamIdAt_ne_zero, fun _ _ _ => streamIdAt_ne, fun _ _ h => (armedIds_eq_streamIds h).1⟩

/-- A response that arrives for the open request is in its slot, and ends the wait. -/
theorem OpenRequest.wait_enabled {u v : List SlotEvent} {kind : RemoteRequestKind}
    {response : FileContentsResponse} {o : SlotOutput}
    (h : OpenRequest (u ++ (.arm kind, .armed streamId) :: v) s streamId) (hv : Quiet v)
    (hmem : (.response response, o) ∈ v) (hid : response.streamId = streamId) :
    s.waitOver streamId = true := by
  obtain ⟨u', kind', v', ht, hv', hp, hr⟩ := h
  obtain ⟨-, -, rfl⟩ := last_arming_unique hv hv' ht
  obtain rfl := hr response o hmem
  have haccepted : response ∈ acceptedResponses streamId v :=
    List.mem_filterMap.mpr ⟨_, hmem, by simp [hid]⟩
  have hready : s.pending.ready = true := by
    rw [hp, pendingOf_ready, List.getLast?_isSome]
    exact List.ne_nil_of_mem haccepted
  have hstream : s.pending.streamId = streamId := by rw [hp, pendingOf_streamId]
  simp [RemoteSlot.waitOver, hready, hstream]

/-- A wait returns what the last accepted response of its request carries. -/
theorem wait_result (h : SlotHistory t s) (hpc : s.pc = .waiting streamId)
    (hover : s.waitOver streamId = true) :
    ∃ u kind v response, t = u ++ (.arm kind, .armed streamId) :: v ∧ Quiet v ∧
      response ∈ acceptedResponses streamId v ∧
      (acceptedResponses streamId t).getLast? = some response ∧
      s.result = if response.msgFlags = cbResponseOk then some response.payload else none := by
  obtain ⟨u, kind, v, rfl, hv, hp, -⟩ := h.request streamId (by rw [hpc]; rfl)
  have hfilled : s.pending.ready = true ∧ s.pending.streamId = streamId := by
    simpa [RemoteSlot.waitOver, h.running] using hover
  have hready : (acceptedResponses streamId v).getLast?.isSome = true := by
    rw [← hfilled.1, hp, pendingOf_ready]
  obtain ⟨response, hlast⟩ := Option.isSome_iff_exists.mp hready
  refine ⟨u, kind, v, response, rfl, hv, List.mem_of_getLast? hlast, ?_, ?_⟩
  · rw [acceptedResponses_append, acceptedResponses_cons_arm, List.getLast?_append, hlast]
    rfl
  · exact result_pendingOf h.running (by rw [hp, hlast])

/-- The slot over any interleaving of the worker with the responses of the
server. A wait returns the payload of the last response accepted for its id, and
that response was accepted after the arming; it fails only if that response is
not an OK. A response that nobody waits for leaves the slot alone. The ids of
the requests are distinct. A response that came before the wait is not lost. -/
theorem slot_delivers_own_response (h : Execution slotStep .initial t s)
    (hstop : ∀ e ∈ t, e.1 ≠ .stop) (hdraws : (armedIds t).length < 2 ^ 32 - 1) :
    (∀ t₁ t₂ streamId result, t = t₁ ++ (.wait, .waited streamId result) :: t₂ →
      ∃ u kind v response, t₁ = u ++ (.arm kind, .armed streamId) :: v ∧ Quiet v ∧
        response ∈ acceptedResponses streamId v ∧
        (acceptedResponses streamId t₁).getLast? = some response ∧
        ((∃ data, result = some data) ↔ response.msgFlags = cbResponseOk) ∧
        ∀ data, result = some data → data = response.payload) ∧
    (∀ response s' o, slotStep s (.response response) = some (s', o) →
      s.pending.active = false ∨ response.streamId ≠ s.pending.streamId →
      s'.pending = s.pending ∧ o = .responded false) ∧
    (armedIds t).Nodup ∧
    (∀ u kind streamId v response o, t = u ++ (.arm kind, .armed streamId) :: v → Quiet v →
      (.response response, o) ∈ v → response.streamId = streamId → s.pc = .waiting streamId →
      ∃ s' result, slotStep s .wait = some (s', .waited streamId result)) := by
  refine ⟨?_, ?_, armedIds_nodup h hdraws, ?_⟩
  · rintro t₁ t₂ streamId result rfl
    obtain ⟨s₁, s₂, h₁, hs, -⟩ := h.at_event
    have hhistory := slotHistory h₁ fun e he => hstop e (List.mem_append_left _ he)
    obtain ⟨hpc, hover, rfl, -⟩ := slotStep_wait hs
    obtain ⟨u, kind, v, response, ht, hv, hmem, hlast, hresult⟩ := wait_result hhistory hpc hover
    refine ⟨u, kind, v, response, ht, hv, hmem, hlast, ?_, ?_⟩
    · rw [hresult]
      by_cases hok : response.msgFlags = cbResponseOk <;> simp [hok]
    · intro data hdata
      rw [hresult] at hdata
      split_ifs at hdata
      exact (Option.some.inj hdata).symm
  · intro response s' o hs hnot
    have hexpects : s.pending.expects response = false := by
      rcases hnot with hactive | hid
      · simp [RemotePendingResponse.expects, hactive]
      · simp [RemotePendingResponse.expects, hid]
    cases slotStep_cases hs with
    | accepted _ he => exact absurd he (by simp [hexpects])
    | ignored => exact ⟨rfl, rfl⟩
  · rintro u kind streamId v response o rfl hv hmem hid hpc
    have hover := ((slotHistory h hstop).request streamId (by rw [hpc]; rfl)).wait_enabled
      hv hmem hid
    refine ⟨{ s with pending := .empty, pc := .idle }, s.result, ?_⟩
    simp only [slotStep, hpc, hover, if_true]

/-- A stale response, a failed one and then the answer reach the first request. -/
def answeredRequest : List SlotInput :=
  [.arm .size, .response ⟨cbResponseOk, 9, 1, some [9]⟩, .response ⟨cbResponseFail, 1, 0, none⟩,
    .send channelRcOk, .response ⟨cbResponseOk, 1, 2, some [7, 7]⟩, .wait]

theorem slot_delivers_answer :
    ∃ t s, run slotStep .initial answeredRequest = some (s, t) ∧
      (.wait, .waited 1 (some [7, 7])) ∈ t ∧ (armedIds t).Nodup := by
  have hrun : ∃ t s, run slotStep .initial answeredRequest = some (s, t) := ⟨_, _, rfl⟩
  obtain ⟨t, s, hrun⟩ := hrun
  refine ⟨t, s, hrun, ?_, ?_⟩
  · obtain ⟨-, rfl⟩ := Prod.mk.inj (Option.some.inj hrun)
    decide
  · obtain ⟨-, rfl⟩ := Prod.mk.inj (Option.some.inj hrun)
    exact (slot_delivers_own_response (Execution.of_run hrun) (by decide) (by decide)).2.2.1

end QfClient
