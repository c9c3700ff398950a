import QfClient.MessageEffects

/-!
# File contents on the wire

What the worker gets for a request is what the server sent for it: in every run of the
client, data that ends a wait came in a response packet with the stream id of a request
that went out before it was waited for, and no two requests on the wire share an id.
-/

namespace QfClient

open LittleEndian Machine WinPR

section Slot

variable {t u v u' v' : List SlotEvent} {s s' : RemoteSlot} {streamId : UInt32}
  {kind : RemoteRequestKind} {i : SlotInput} {o : SlotOutput}

theorem not_stopped_of_running (h : Execution slotStep .initial t s)
    (hrunning : s.stopped = false) :
    ∀ e ∈ t, e.1 ≠ .stop := by
  induction h with
  | nil => exact fun e he => absurd he List.not_mem_nil
  | @snoc t s₁ s₂ i o _ hs ih =>
      have hkept : s₁.stopped = false ∧ i ≠ .stop := by
        cases slotStep_cases hs with
        | stop => exact absurd hrunning (by simp)
        | arm | sendFailed | sent | reset | wait | accepted | ignored =>
            exact ⟨hrunning, by simp⟩
      intro e he
      rcases List.mem_append.mp he with he | he
      · exact ih hkept.1 e he
      · rw [List.mem_singleton.mp he]
        exact hkept.2

/-- The call that the worker waits for returned without an error. -/
theorem sent_of_waiting (h : Execution slotStep .initial t s) (hstop : ∀ e ∈ t, e.1 ≠ .stop)
    (hpc : s.pc = .waiting streamId) :
    ∃ u kind v, t = u ++ (.arm kind, .armed streamId) :: v ∧ Quiet v ∧
      (.send channelRcOk, .sent true) ∈ v := by
  induction h with
  | nil => cases hpc
  | @snoc t s₁ s₂ i o ht hs ih =>
      have hstop' : ∀ e ∈ t, e.1 ≠ .stop := fun e he => hstop e (List.mem_append_left _ he)
      have hquiet (hpc' : s₁.pc = .waiting streamId) (he : isQuiet (i, o) = true) :
          ∃ u kind v, t ++ [(i, o)] = u ++ (.arm kind, .armed streamId) :: v ∧ Quiet v ∧
            (.send channelRcOk, .sent true) ∈ v := by
        obtain ⟨u, kind, v, rfl, hv, hsent⟩ := ih hstop' hpc'
        exact ⟨u, kind, v ++ [(i, o)], by simp, quiet_append_singleton hv he,
          List.mem_append_left _ hsent⟩
      cases slotStep_cases hs with
      | arm _ _ => cases hpc
      | sendFailed _ _ _ _ => cases hpc
      | sent streamId' harmed =>
          obtain rfl := RequestPc.waiting.inj hpc
          obtain ⟨u, kind, v, rfl, hv, -⟩ :=
            (slotHistory ht hstop').request streamId' (by rw [harmed]; rfl)
          exact ⟨u, kind, v ++ [(.send channelRcOk, .sent true)], by simp,
            quiet_append_singleton hv rfl, List.mem_append_right _ List.mem_cons_self⟩
      | reset _ _ => cases hpc
      | wait _ _ _ => cases hpc
      | accepted _ _ => exact hquiet hpc rfl
      | ignored _ _ => exact hquiet hpc rfl
      | stop => exact absurd rfl (hstop (.stop, .done) (by simp))

/-- The request that is waited for is the last one armed, and what the wait returns is in
the last response to it. -/
theorem last_response (h : SlotHistory t s) (hpc : s.pc = .waiting streamId)
    (hover : s.waitOver streamId = true) :
    ∃ u kind x response y, t = u ++ (.arm kind, .armed streamId) ::
        (x ++ (.response response, .responded true) :: y) ∧
      Quiet (x ++ (.response response, .responded true) :: y) ∧ response.streamId = streamId ∧
      (∀ other o, (.response other, o) ∈ y → other.streamId ≠ streamId) ∧
      s.result = if response.msgFlags = cbResponseOk then some response.payload else none := by
  obtain ⟨u, kind, v, rfl, hv, hp, hr⟩ := h.request streamId (by rw [hpc]; rfl)
  have hready : (acceptedResponses streamId v).getLast?.isSome = true := by
    have hfilled : s.pending.ready = true ∧ s.pending.streamId = streamId := by
      simpa [RemoteSlot.waitOver, h.running] using hover
    rw [← hfilled.1, hp, pendingOf_ready]
  obtain ⟨response, hlast⟩ := Option.isSome_iff_exists.mp hready
  obtain ⟨accepted, haccepted⟩ := List.getLast?_eq_some_iff.mp hlast
  obtain ⟨x, rest, rfl, -, hrest⟩ := List.filterMap_eq_append_iff.mp haccepted
  obtain ⟨x', e, y, rfl, -, he, hnone⟩ := List.filterMap_eq_cons_iff.mp hrest
  obtain ⟨rfl, hid⟩ : e = (.response response, .responded true) ∧ response.streamId = streamId := by
    split at he
    · split_ifs at he with hid
      obtain rfl := Option.some.inj he
      exact ⟨rfl, hid⟩
    · cases he
  refine ⟨u, kind, x ++ x', response, y, by simp, by simpa using hv, hid, ?_, ?_⟩
  · intro other o hmem hother
    obtain rfl := hr other o (by simp [hmem])
    have hin := List.filterMap_eq_nil_iff.mp hnone _ hmem
    simp [hother] at hin
  · exact result_pendingOf h.running (by rw [hp, hlast])

end Slot

section Turns

variable {setup : ClipboardSetup} {s s' : Client} {i : ClientInput} {o : ClientOutput}
  {t u v : ClientTrace} {e : ClientInput × ClientOutput} {streamId : UInt32}

theorem filterMap_eq_append_cons {α β : Type*} {f : α → Option β} {l : List α} {u v : List β}
    {b : β} (h : l.filterMap f = u ++ b :: v) :
    ∃ x a y, l = x ++ a :: y ∧ x.filterMap f = u ∧ f a = some b ∧ y.filterMap f = v := by
  obtain ⟨x, rest, rfl, hx, hrest⟩ := List.filterMap_eq_append_iff.mp h
  obtain ⟨x', a, y, rfl, hnone, ha, hy⟩ := List.filterMap_eq_cons_iff.mp hrest
  refine ⟨x ++ x', a, y, (List.append_assoc _ _ _).symm, ?_, ha, hy⟩
  rw [List.filterMap_append, hx, List.filterMap_eq_nil_iff.mpr hnone, List.append_nil]

theorem slotEvent_arm {kind : RemoteRequestKind} {out : SlotOutput}
    (h : slotEvent e = some (.arm kind, out)) :
    ∃ o, e = (.worker (.arm kind), o) ∧ o.slot = some out := by
  obtain ⟨i, o⟩ := e
  cases i with
  | message bytes content =>
      simp only [slotEvent] at h
      split at h <;> simp at h
  | dataChanged fromRemote disk mimeData => cases h
  | send request =>
      obtain ⟨out', -, hout⟩ := Option.map_eq_some_iff.mp h
      cases hout
  | worker turn =>
      obtain ⟨out', hslot, hout⟩ := Option.map_eq_some_iff.mp h
      cases turn with
      | arm kind' =>
          obtain ⟨hkind, rfl⟩ := Prod.mk.inj hout
          obtain rfl := SlotInput.arm.inj hkind
          exact ⟨o, rfl, hslot⟩
      | reset => cases hout
      | wait => cases hout
      | stop => cases hout

theorem slotEvent_send {rc : UInt32} {out : SlotOutput} (h : slotEvent e = some (.send rc, out)) :
    ∃ request o, e = (.send request, o) ∧ o.rc = rc := by
  obtain ⟨i, o⟩ := e
  cases i with
  | message bytes content =>
      simp only [slotEvent] at h
      split at h <;> simp at h
  | dataChanged fromRemote disk mimeData => cases h
  | send request =>
      obtain ⟨out', -, hout⟩ := Option.map_eq_some_iff.mp h
      exact ⟨request, o, rfl, SlotInput.send.inj (Prod.mk.inj hout).1⟩
  | worker turn =>
      obtain ⟨out', -, hout⟩ := Option.map_eq_some_iff.mp h
      cases turn <;> cases hout

theorem slotEvent_response {response : FileContentsResponse} {out : SlotOutput}
    (h : slotEvent e = some (.response response, out)) :
    ∃ bytes content o, e = (.message bytes content, o) ∧
      receiveFileContentsResponse bytes = some response := by
  obtain ⟨i, o⟩ := e
  cases i with
  | message bytes content =>
      simp only [slotEvent] at h
      split at h
      · rename_i response' out' hresponse hslot
        obtain ⟨heq, -⟩ := Prod.mk.inj (Option.some.inj h)
        obtain rfl := SlotInput.response.inj heq
        exact ⟨bytes, content, o, rfl, hresponse⟩
      · cases h
  | dataChanged fromRemote disk mimeData => cases h
  | send request =>
      obtain ⟨out', -, hout⟩ := Option.map_eq_some_iff.mp h
      cases hout
  | worker turn =>
      obtain ⟨out', -, hout⟩ := Option.map_eq_some_iff.mp h
      cases turn <;> cases hout

/-- Every response packet that is handled is an event of the slot. -/
theorem slotEvent_message (h : Execution (clientStep setup) s t s') {bytes : Bytes}
    {content : LocalContent} {response : FileContentsResponse}
    (hmem : (.message bytes content, o) ∈ t)
    (hresponse : receiveFileContentsResponse bytes = some response) :
    ∃ out, slotEvent (.message bytes content, o) = some (.response response, out) := by
  obtain ⟨t₁, t₂, rfl⟩ := List.append_of_mem hmem
  obtain ⟨s₁, s₂, -, hs, -⟩ := h.at_event
  cases clientStep_cases hs with
  | message _ _ =>
      refine ⟨.responded (s₁.state.slot.pending.expects response), ?_⟩
      simp only [slotEvent, slotAnswer, hresponse, Option.map_some]

/-- A request that is sent is for the last id that was armed. -/
theorem streamId_of_armed {kind : RemoteRequestKind} {request : FileContentsRequest}
    {oₐ : ClientOutput}
    (h : Execution (clientStep setup) .initial (u ++ (.worker (.arm kind), oₐ) :: v) s)
    (hslot : oₐ.slot = some (.armed streamId)) (hv : Quiet (v.filterMap slotEvent))
    (hstop : ∀ e ∈ (u ++ (.worker (.arm kind), oₐ) :: v).filterMap slotEvent, e.1 ≠ .stop)
    (hmem : (.send request, o) ∈ v) : request.streamId = streamId := by
  obtain ⟨v₁, v₂, rfl⟩ := List.append_of_mem hmem
  rw [← List.cons_append, ← List.append_assoc] at h hstop
  rw [List.filterMap_append] at hv hstop
  obtain ⟨s₁, s₂, h₁, hs, -⟩ := h.at_event
  have harmed : s₁.state.slot.pc = .armed request.streamId := by
    cases clientStep_cases hs with
    | send hpc _ _ => exact hpc
  obtain ⟨u', kind', v', ht, hv', -⟩ := (slotHistory (client_run_slot h₁)
    fun e he => hstop e (List.mem_append_left _ he)).request request.streamId (by rw [harmed]; rfl)
  have hevent : slotEvent (.worker (.arm kind), oₐ) = some (.arm kind, .armed streamId) := by
    simp only [slotEvent, hslot, Option.map_some]
    rfl
  rw [List.filterMap_append, List.filterMap_cons_some hevent] at ht
  have hquiet : Quiet (v₁.filterMap slotEvent) := fun e he => hv e (List.mem_append_left _ he)
  obtain ⟨-, heq, -⟩ := last_arming_unique hquiet hv' ht
  exact (SlotOutput.armed.inj (Prod.mk.inj heq).2).symm

/-- The last response of the server to the request with this id, as far as `v` goes. -/
def LastResponse (v : ClientTrace) (streamId : UInt32) (response : FileContentsResponse) : Prop :=
  ∃ x bytes content o y, v = x ++ (.message bytes content, o) :: y ∧
    receiveFileContentsResponse bytes = some response ∧ response.streamId = streamId ∧
    ∀ bytes' content' o' other, (.message bytes' content', o') ∈ y →
      receiveFileContentsResponse bytes' = some other → other.streamId ≠ streamId

end Turns

theorem packets_of_send {setup : ClipboardSetup}
    (hmask : setup.context.featureMask &&& cliprdrFlagRemoteToLocalFiles ≠ 0) {s s' : Client}
    {t : ClientTrace} {request : FileContentsRequest} {o : ClientOutput}
    (h : Execution (clientStep setup) s t s') (hmem : (.send request, o) ∈ t)
    (hrc : o.rc = channelRcOk) :
    o.packets = [packet cbFileContentsRequest 0 (fileContentsRequestBody request)] := by
  obtain ⟨t₁, t₂, rfl⟩ := List.append_of_mem hmem
  obtain ⟨s₁, s₂, -, hs, -⟩ := h.at_event
  cases clientStep_cases hs with
  | send _ hrequest _ =>
      rcases cliprdrClientFileContentsRequest_cases hrequest hmask with ⟨hfailed, -⟩ | ⟨-, hsent⟩
      · exact absurd hrc hfailed
      · exact hsent

/-- Data that ends a wait came in the last response on the wire to the id that was armed
last, that response is not an error, and the request with this id went out before. -/
theorem wait_delivers_wire_response (setup : ClipboardSetup)
    (hmask : setup.context.featureMask &&& cliprdrFlagRemoteToLocalFiles ≠ 0) (s : Client)
    (t u : ClientTrace) (o : ClientOutput) (streamId : UInt32) (data : Bytes)
    (h : Execution (clientStep setup) .initial (t ++ (.worker .wait, o) :: u) s)
    (hdata : o.slot = some (.waited streamId (some data))) :
    ∃ w kind oₐ v response, t = w ++ (.worker (.arm kind), oₐ) :: v ∧
      oₐ.slot = some (.armed streamId) ∧
      (∃ request oₛ, (.send request, oₛ) ∈ v ∧ request.streamId = streamId ∧
        oₛ.packets = [packet cbFileContentsRequest 0 (fileContentsRequestBody request)]) ∧
      LastResponse v streamId response ∧ response.msgFlags = cbResponseOk ∧
      data = response.payload := by
  obtain ⟨s₁, s₂, h₁, hs, -⟩ := h.at_event
  obtain ⟨hpc, hover, hresult⟩ : s₁.state.slot.pc = .waiting streamId ∧
      s₁.state.slot.waitOver streamId = true ∧ some data = s₁.state.slot.result := by
    cases clientStep_cases hs with
    | worker hslot =>
        obtain rfl := Option.some.inj hdata
        obtain ⟨hpc, hover, hresult, -⟩ := slotStep_wait hslot
        exact ⟨hpc, hover, hresult⟩
  have hslot := client_run_slot h₁
  have hstop := not_stopped_of_running hslot (RemoteSlot.running_of_result hresult.symm)
  obtain ⟨u', kind, x', response, y', ht, hquiet, hid, hlast, hpayload⟩ :=
    last_response (slotHistory hslot hstop) hpc hover
  obtain ⟨w, eₐ, v, rfl, hw, heₐ, hv⟩ := filterMap_eq_append_cons ht
  obtain ⟨x, e, y, rfl, hx, he, hy⟩ := filterMap_eq_append_cons hv
  obtain ⟨oₐ, rfl, hoₐ⟩ := slotEvent_arm heₐ
  obtain ⟨bytes, content, oᵣ, rfl, hresponse⟩ := slotEvent_response he
  refine ⟨w, kind, oₐ, _, response, rfl, hoₐ, ?_, ?_, ?_⟩
  · obtain ⟨u'', kind'', v'', ht', hquiet', hsent⟩ := sent_of_waiting hslot hstop hpc
    obtain ⟨-, -, hvv⟩ := last_arming_unique hquiet hquiet' (ht.symm.trans ht')
    rw [← hvv, ← hv] at hsent
    obtain ⟨eₛ, hmem, heₛ⟩ := List.mem_filterMap.mp hsent
    obtain ⟨request, oₛ, rfl, hrc⟩ := slotEvent_send heₛ
    refine ⟨request, oₛ, hmem, ?_, packets_of_send hmask h₁
      (List.mem_append_right _ (List.mem_cons_of_mem _ hmem)) hrc⟩
    rw [← hv] at hquiet
    exact streamId_of_armed h₁ hoₐ hquiet hstop hmem
  · refine ⟨x, bytes, content, oᵣ, y, rfl, hresponse, hid, ?_⟩
    intro bytes' content' o' other hmem hother
    obtain ⟨out, hevent⟩ := slotEvent_message h₁ (List.mem_append_right _
      (List.mem_cons_of_mem _ (List.mem_append_right _ (List.mem_cons_of_mem _ hmem)))) hother
    refine hlast other out ?_
    rw [← hy]
    exact List.mem_filterMap.mpr ⟨_, hmem, hevent⟩
  · rw [hpayload] at hresult
    split_ifs at hresult with hok
    exact ⟨hok, Option.some.inj hresult⟩

theorem wait_delivers_wire_response_size :
    ∃ s t, Execution (clientStep (.session 0xFFFFFFFF)) .initial t s ∧
      ∃ v response, LastResponse v 1 response ∧ response.msgFlags = cbResponseOk ∧
        response.payload = [3, 0, 0, 0, 0, 0, 0, 0] := by
  have hrun : ∃ s t s' o, run (clientStep (.session 0xFFFFFFFF)) .initial
        (textSession [0x61]).dropLast = some (s, t) ∧
      clientStep (.session 0xFFFFFFFF) s (.worker .wait) = some (s', o) ∧
      o.slot = some (.waited 1 (some [3, 0, 0, 0, 0, 0, 0, 0])) := ⟨_, _, _, _, rfl, rfl, rfl⟩
  obtain ⟨s, t, s', o, hrun, hwait, hdata⟩ := hrun
  have h := Execution.of_run hrun
  obtain ⟨w, kind, oₐ, v, response, rfl, -, -, hlast, hok, hpayload⟩ :=
    wait_delivers_wire_response (.session 0xFFFFFFFF) (by decide) s' t [] o 1
      [3, 0, 0, 0, 0, 0, 0, 0] (.snoc h hwait) hdata
  exact ⟨s, _, h, v, response, hlast, hok, hpayload.symm⟩

section RequestIds

variable {setup : ClipboardSetup} {s s' : Client} {i : ClientInput} {o : ClientOutput}
  {t : ClientTrace} {packets : List Bytes} {types : List UInt16}

def requestId (bytes : Bytes) : Option UInt32 :=
  if uint16At bytes 0 = cbFileContentsRequest then some (uint32At bytes 8) else none

def requestIds (t : ClientTrace) : List UInt32 := (sentPackets t).filterMap requestId

def drawnIds (t : ClientTrace) : List UInt32 := armedIds (t.filterMap slotEvent)

theorem requestId_request (request : FileContentsRequest) :
    requestId (packet cbFileContentsRequest 0 (fileContentsRequestBody request)) =
      some request.streamId := by
  have htype : uint16At (packet cbFileContentsRequest 0 (fileContentsRequestBody request)) 0 =
      cbFileContentsRequest := by
    simp only [packet, List.append_assoc]
    exact uint16At_zero _ _
  rw [requestId, if_pos htype, packet, uint32At_append _ (by simp)]
  simp only [fileContentsRequestBody, List.append_assoc]
  rw [uint32At_zero]

theorem SendsAmong.requestIds (h : SendsAmong types packets) (hne : cbFileContentsRequest ∉ types) :
    packets.filterMap requestId = [] := by
  apply List.filterMap_eq_nil_iff.mpr
  intro bytes hbytes
  refine if_neg fun htype => hne ?_
  rw [← htype]
  exact h.type_mem hbytes

theorem requestIds_concat (t : ClientTrace) (e : ClientInput × ClientOutput) :
    requestIds (t ++ [e]) = requestIds t ++ e.2.packets.filterMap requestId := by
  rw [requestIds, sentPackets, List.flatMap_append, List.flatMap_singleton, List.filterMap_append]
  rfl

theorem drawnIds_concat (t : ClientTrace) (e : ClientInput × ClientOutput) :
    drawnIds (t ++ [e]) = drawnIds t ++ armedIds (slotEvent e).toList := by
  rw [drawnIds, List.filterMap_append, armedIds_append, drawnIds]
  cases he : slotEvent e with
  | none => rw [List.filterMap_cons_none he]; rfl
  | some event => rw [List.filterMap_cons_some he]; rfl

/-- Every id on the wire was drawn before, and one that is armed is not on the wire yet. -/
structure DrawnBeforeSent (t : ClientTrace) (s : Client) : Prop where
  sublist : (requestIds t).Sublist (drawnIds t)
  fresh : ∀ streamId, s.state.slot.pc = .armed streamId →
    ∃ drawn, drawnIds t = drawn ++ [streamId] ∧ (requestIds t).Sublist drawn

theorem DrawnBeforeSent.quiet (h : DrawnBeforeSent t s) {e : ClientInput × ClientOutput}
    (hpackets : e.2.packets.filterMap requestId = []) (harm : armedIds (slotEvent e).toList = [])
    (hpc : ∀ streamId, s'.state.slot.pc = .armed streamId → s.state.slot.pc = .armed streamId) :
    DrawnBeforeSent (t ++ [e]) s' := by
  constructor
  · rw [requestIds_concat, drawnIds_concat, hpackets, harm, List.append_nil, List.append_nil]
    exact h.sublist
  · intro streamId harmed
    rw [requestIds_concat, drawnIds_concat, hpackets, harm, List.append_nil, List.append_nil]
    exact h.fresh streamId (hpc streamId harmed)

/-- At most the request itself goes out. -/
theorem requestIds_of_send {context : CliprdrPlugin} {request : FileContentsRequest}
    {rc : UInt32} (h : cliprdrClientFileContentsRequest context request = some (rc, packets)) :
    (packets.filterMap requestId).Sublist [request.streamId] := by
  by_cases hmask : context.featureMask &&& cliprdrFlagRemoteToLocalFiles = 0
  · rw [cliprdrClientFileContentsRequest, if_pos hmask] at h
    obtain ⟨-, rfl⟩ := Prod.mk.inj (Option.some.inj h)
    exact List.nil_sublist _
  · rcases cliprdrClientFileContentsRequest_cases h hmask with ⟨-, rfl⟩ | ⟨-, rfl⟩
    · exact List.nil_sublist _
    · rw [List.filterMap_cons_some (requestId_request request)]
      exact List.Sublist.refl _

theorem drawnBeforeSent_step (h : DrawnBeforeSent t s)
    (hs : clientStep setup s i = some (s', o)) : DrawnBeforeSent (t ++ [(i, o)]) s' := by
  have hpackets := clientStep_packets hs
  cases clientStep_cases hs with
  | @message bytes content r _ hreceive =>
      refine h.quiet (hpackets.requestIds ?_) ?_ ?_
      · simp only [ClientInput.allowed]
        generalize messageType bytes = type
        cases type with
        | none => exact List.not_mem_nil
        | some type => cases type <;> decide
      · simp only [slotEvent]
        split <;> rfl
      · intro streamId harmed
        have hslot := receiveMessage_slot hreceive
        split at hslot
        · rwa [hslot] at harmed
        · rwa [hslot] at harmed
  | dataChanged hchanged =>
      refine h.quiet (hpackets.requestIds
        (show cbFileContentsRequest ∉ [cbFormatList] by decide)) rfl ?_
      intro streamId harmed
      rwa [dataChanged_slot hchanged] at harmed
  | @send request rc packets slot out hpc hrequest hslot =>
      obtain ⟨drawn, hdrawn, hfresh⟩ := h.fresh request.streamId hpc
      constructor
      · rw [requestIds_concat, drawnIds_concat, hdrawn]
        exact (hfresh.append (requestIds_of_send hrequest)).trans
          (List.sublist_append_left _ _)
      · intro streamId harmed
        cases slotStep_cases hslot with
        | sendFailed => cases harmed
        | sent => cases harmed
  | @worker turn slot out hslot =>
      generalize hinput : turn.input = input at hslot
      cases slotStep_cases hslot with
      | arm kind _ =>
          have hevent : slotEvent (.worker turn, ⟨channelRcOk, [],
              some (.armed (nextRemoteStreamId s.state.slot.nextStreamId).1)⟩) =
              some (.arm kind, .armed (nextRemoteStreamId s.state.slot.nextStreamId).1) := by
            rw [slotEvent, hinput]
            rfl
          constructor
          · rw [requestIds_concat, drawnIds_concat, List.filterMap_nil, List.append_nil]
            exact h.sublist.trans (List.sublist_append_left _ _)
          · intro streamId harmed
            obtain rfl := RequestPc.armed.inj harmed
            refine ⟨drawnIds t, ?_, ?_⟩
            · rw [drawnIds_concat, hevent]
              rfl
            · rw [requestIds_concat, List.filterMap_nil, List.append_nil]
              exact h.sublist
      | sendFailed | sent | accepted | ignored => cases turn <;> cases hinput
      | reset | wait =>
          refine h.quiet rfl ?_ (fun streamId harmed => by cases harmed)
          rw [slotEvent, hinput]
          rfl
      | stop =>
          refine h.quiet rfl ?_ (fun streamId harmed => harmed)
          rw [slotEvent, hinput]
          rfl

theorem drawnBeforeSent (h : Execution (clientStep setup) .initial t s) :
    DrawnBeforeSent t s := by
  induction h with
  | nil => exact ⟨List.Sublist.refl _, fun streamId hpc => by cases hpc⟩
  | snoc _ hs ih => exact drawnBeforeSent_step ih hs

/-- The requests on the wire have ids that the worker drew, in the order it drew them; so
until the counter wraps no two of them share an id, and none has the id zero. -/
theorem request_ids_on_the_wire (setup : ClipboardSetup) (s : Client) (t : ClientTrace)
    (h : Execution (clientStep setup) .initial t s) :
    (requestIds t).Sublist (drawnIds t) ∧ 0 ∉ requestIds t ∧
      ((drawnIds t).length < 2 ^ 32 - 1 → (requestIds t).Nodup) := by
  have hdrawn := drawnBeforeSent h
  have hslot := client_run_slot h
  refine ⟨hdrawn.sublist, fun hzero => ?_, fun hlength => ?_⟩
  · have hmem : 0 ∈ armedIds (t.filterMap slotEvent) := hdrawn.sublist.subset hzero
    rw [(armedIds_eq_streamIds hslot).1] at hmem
    obtain ⟨n, -, hn⟩ := List.mem_map.mp hmem
    exact streamIdAt_ne_zero n hn
  · exact (armedIds_nodup hslot hlength).sublist hdrawn.sublist

end RequestIds

/-- The size is asked for, then a range beyond four gigabytes, which is refused, and then one
at the beginning. -/
def twoRequests : List ClientInput :=
  textSession [0x61] ++ [.worker (.arm .range), .send ⟨2, 0, fileContentsRange, 0, 1, 3, none⟩,
    .worker .reset, .worker (.arm .range), .send ⟨3, 0, fileContentsRange, 0, 0, 3, none⟩]

theorem request_ids_on_the_wire_two :
    ∃ s t, Execution (clientStep (.session 0xFFFFFFFF)) .initial t s ∧ requestIds t = [1, 3] ∧
      drawnIds t = [1, 2, 3] ∧ (requestIds t).Nodup := by
  have hrun : ∃ s t, run (clientStep (.session 0xFFFFFFFF)) .initial twoRequests = some (s, t) ∧
      requestIds t = [1, 3] ∧ drawnIds t = [1, 2, 3] := ⟨_, _, rfl, rfl, rfl⟩
  obtain ⟨s, t, hrun, hids, hdrawn⟩ := hrun
  have h := Execution.of_run hrun
  refine ⟨s, t, h, hids, hdrawn, (request_ids_on_the_wire _ _ _ h).2.2 ?_⟩
  rw [hdrawn]
  decide

end QfClient
