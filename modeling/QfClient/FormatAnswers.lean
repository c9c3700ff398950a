import Mathlib.Data.List.Nodup
import QfClient.TextRoundTrip

/-!
# How Format Data Responses are decoded

The pair of id and name in `client_t` always belongs to the format selected last,
so a response is decoded by it whatever request it answers. What the trace says
about selections, requests and answers is compared with that pair along every run.
-/

namespace QfClient

open Machine Qt

def FormatRequest.decoder (request : FormatRequest) : Option RemoteDecoder :=
  if request.formatName = clipboardFormatFileName then some .fileList
  else if request.formatName = "PNG" then some .png
  else if request.formatId = cfDib ∨ request.formatId = cfDibV5 then some .dib
  else if request.formatId = cfUnicodeText then some .unicodeText
  else none

namespace FormatOutput

def selected : FormatOutput → Option FormatRequest
  | .listed selection => selection.request
  | .handled _ => none

def received : FormatOutput → Option FormatRequest
  | .listed selection => if selection.packets = [] then none else selection.request
  | .handled _ => none

def decoded : FormatOutput → Option DecodedPayload
  | .listed _ => none
  | .handled payload => payload

end FormatOutput

def FormatInput.answered : FormatInput → Option FormatDataResponse
  | .answer response => some response
  | _ => none

def selections (t : List FormatEvent) : List FormatRequest := t.filterMap (·.2.selected)

def receivedRequests (t : List FormatEvent) : List FormatRequest := t.filterMap (·.2.received)

def answers (t : List FormatEvent) : List FormatDataResponse := t.filterMap (·.1.answered)

/-- The payloads that have been decoded, and those that the queued calls will
decode. -/
def actedUpon (t : List FormatEvent) (session : FormatSession) : List DecodedPayload :=
  t.filterMap (·.2.decoded) ++ session.queued.filterMap viewPayload

def newestDecoder (t : List FormatEvent) : Option RemoteDecoder :=
  (selections t).getLast?.bind FormatRequest.decoder

/-- The payload comes from the answer to a request, and is decoded as this request
says. -/
def DecodedAsRequested (t : List FormatEvent) (payload : DecodedPayload) : Prop :=
  ∃ k request response, payload.source = some k ∧ (receivedRequests t)[k]? = some request ∧
    (answers t)[k]? = some response ∧ request.decoder = some payload.decoder ∧
    payload.data = response.requestedFormatData

/-- Every payload acted upon is decoded as requested, and no request leads to two. -/
structure FormatsKept (t : List FormatEvent) (payloads : List DecodedPayload) : Prop where
  own : ∀ payload ∈ payloads, DecodedAsRequested t payload
  once : (payloads.map DecodedPayload.source).Nodup

/-- A response with data comes when the format selected last is decoded like the
one it answers, and unasked only before anything was selected. -/
def Expected (t : List FormatEvent) (e : FormatEvent) : Prop :=
  match e.1 with
  | .answer response => response.msgFlags = cbResponseOk → ∀ request,
      (receivedRequests t)[(answers t).length]? = some request → newestDecoder t = request.decoder
  | .unsolicited response => response.msgFlags = cbResponseOk → selections t = []
  | _ => True

variable {context : CliprdrPlugin} {parse : Bytes → Except UInt32 (List FileDescriptor)}
  {t : List FormatEvent} {s s' : FormatSession} {i : FormatInput} {o : FormatOutput}
  {client client' : RemoteFormats} {selection : Selection}

theorem selectNamed_decoder {formats : List CliprdrFormat} {request : FormatRequest}
    (h : selectNamed formats = some request) : request.decoder.isSome := by
  induction formats with
  | nil => exact absurd h (by simp [selectNamed])
  | cons format formats ih =>
      rw [selectNamed] at h
      split_ifs at h
      · obtain rfl := Option.some.inj h
        simp [FormatRequest.decoder, clipboardFormatFileName]
      · obtain rfl := Option.some.inj h
        simp [FormatRequest.decoder]
      · exact ih h

/-- Only formats with a decoder are selected. -/
theorem selectFormat_decoder {stored : UInt32 → Option String} {formats : List CliprdrFormat}
    {request : FormatRequest} (h : selectFormat stored formats = some request) :
    request.decoder.isSome := by
  rw [selectFormat] at h
  by_cases htext : (stored cfUnicodeText).isSome
  · rw [if_pos htext] at h
    obtain rfl := Option.some.inj h
    decide
  · rw [if_neg htext] at h
    cases hnamed : selectNamed formats with
    | some named =>
        rw [hnamed] at h
        obtain rfl := Option.some.inj h
        exact selectNamed_decoder hnamed
    | none =>
        simp only [hnamed] at h
        split_ifs at h
        · obtain rfl := Option.some.inj h
          decide
        · obtain rfl := Option.some.inj h
          decide

theorem filter_eq_nil {mask : UInt32} (list : List CliprdrFormat) (h : mask &&& remoteToLocal = 0) :
    cliprdrFilterFormatList list mask remoteToLocal = [] := by
  have hfiles : mask &&& (remoteToLocal &&&
      (cliprdrFlagLocalToRemoteFiles ||| cliprdrFlagRemoteToLocalFiles)) = 0 := by
    rw [← UInt32.and_assoc, h, UInt32.zero_and]
  have hdata : mask &&& (remoteToLocal &&&
      (cliprdrFlagLocalToRemote ||| cliprdrFlagRemoteToLocal)) = 0 := by
    rw [← UInt32.and_assoc, h, UInt32.zero_and]
  have hflags : (0 : UInt32) ≠ remoteToLocal := by decide
  simp only [cliprdrFilterFormatList, h, if_neg hflags, hfiles, hdata, ne_eq, not_true, if_false]

/-- A Format List either selects nothing and leaves the pair alone, or the pair is
the format selected. -/
theorem processFormatList_cases {formats : List CliprdrFormat}
    (h : cliprdrProcessFormatList context client formats = some (client', selection)) :
    (selection.request = none ∧ selection.packets = [] ∧ client'.requested = client.requested) ∨
      ∃ request, selection.request = some request ∧ request.decoder.isSome ∧
        client'.requested = request ∧ context.featureMask &&& remoteToLocal ≠ 0 := by
  rw [cliprdrProcessFormatList] at h
  split_ifs at h with hfiltered
  · obtain ⟨rfl, rfl⟩ := Prod.mk.inj (Option.some.inj h)
    exact .inl ⟨rfl, rfl, rfl⟩
  · have hmask : context.featureMask &&& remoteToLocal ≠ 0 :=
      fun hzero => hfiltered (filter_eq_nil _ hzero)
    simp only [qfCliprdrServerFormatListCallBack] at h
    split at h
    · obtain ⟨rfl, rfl⟩ := Prod.mk.inj (Option.some.inj h)
      exact .inl ⟨rfl, rfl, rfl⟩
    · rename_i request hselect
      simp only [requestRemoteFormat, Option.map_map, Option.map_eq_some_iff] at h
      obtain ⟨r, -, hr⟩ := h
      obtain ⟨rfl, rfl⟩ := Prod.mk.inj hr
      exact .inr ⟨request, rfl, selectFormat_decoder hselect, rfl, hmask⟩

def pairedPayload (context : CliprdrPlugin) (client : RemoteFormats) (source : Option ℕ)
    (response : FormatDataResponse) : Option DecodedPayload :=
  if context.featureMask &&& remoteToLocal = 0 then none
  else if response.msgFlags = cbResponseOk then
    client.requested.decoder.map (⟨source, ·, response.requestedFormatData⟩)
  else none

theorem handle_actedUpon (session : FormatSession) (source : Option ℕ)
    (response : FormatDataResponse) :
    let r := session.handle source response
      (cliprdrProcessFormatDataResponse context parse session.client response)
    (r.2.decoded.toList ++ r.1.queued.filterMap viewPayload).Perm
      (session.queued.filterMap viewPayload ++
        (pairedPayload context session.client source response).toList) := by
  simp only [cliprdrProcessFormatDataResponse, qfCliprdrServerFormatDataResponseCallBack,
    pairedPayload]
  by_cases hmask : context.featureMask &&& remoteToLocal = 0
  · simp [hmask, FormatSession.handle, FormatOutput.decoded]
  · by_cases hok : response.msgFlags = cbResponseOk
    · by_cases hname : session.client.requestedRemoteFormatName = clipboardFormatFileName
      · have hdecoder : session.client.requested.decoder = some .fileList := if_pos hname
        simp only [if_neg hmask, if_pos hok, if_neg (not_not_intro hok), if_pos hname, hdecoder,
          FormatSession.handle, FormatOutput.decoded, Option.map_some, Option.toList_some]
        exact List.perm_append_comm
      · have hdecoder : session.client.requested.decoder = updateClipboardDataFromRemote
            ⟨response.requestedFormatData, session.client.requestedRemoteFormatId,
              session.client.requestedRemoteFormatName⟩ := if_neg hname
        simp only [if_neg hmask, if_pos hok, if_neg (not_not_intro hok), if_neg hname, hdecoder,
          FormatSession.handle, FormatOutput.decoded, Option.toList_none, List.nil_append,
          List.filterMap_append, filterMap_singleton, viewPayload]
        exact List.Perm.refl _
    · simp [hmask, hok, FormatSession.handle, FormatOutput.decoded]

theorem handle_quiet (session : FormatSession) (source : Option ℕ) (response : FormatDataResponse)
    (effect : ResponseEffect) :
    (session.handle source response effect).1.client = session.client ∧
      (session.handle source response effect).1.received = session.received ∧
      (session.handle source response effect).1.answered = session.answered ∧
      (session.handle source response effect).2.selected = none ∧
      (session.handle source response effect).2.received = none := by
  cases effect <;> exact ⟨rfl, rfl, rfl, rfl, rfl⟩

/-- An answer is counted, and changes neither the pair nor the requests. -/
theorem answer_step {response : FormatDataResponse}
    (hs : formatStep context parse s (.answer response) = some (s', o)) :
    s.answered < s.received.length ∧ s'.client = s.client ∧ s'.received = s.received ∧
      s'.answered = s.answered + 1 ∧ o.selected = none ∧ o.received = none := by
  simp only [formatStep] at hs
  split_ifs at hs with hlt
  have hquiet := handle_quiet { s with answered := s.answered + 1 } (some s.answered) response
    (cliprdrProcessFormatDataResponse context parse s.client response)
  rw [Option.some.inj hs] at hquiet
  exact ⟨hlt, hquiet⟩

/-- The view takes the oldest call from its queue. -/
theorem view_step (hs : formatStep context parse s .view = some (s', o)) :
    ∃ call queued, s.queued = call :: queued ∧ s' = { s with queued := queued } ∧
      o = .handled (viewPayload call) := by
  cases hqueue : s.queued with
  | nil => simp [formatStep, hqueue] at hs
  | cons call queued =>
      simp only [formatStep, hqueue, Option.some.injEq, Prod.mk.injEq] at hs
      exact ⟨call, queued, rfl, hs.1.symm, hs.2.symm⟩

structure FormatHistory (context : CliprdrPlugin) (t : List FormatEvent) (s : FormatSession) :
    Prop where
  received : s.received = receivedRequests t
  answered : s.answered = (answers t).length
  answered_le : (answers t).length ≤ (receivedRequests t).length
  newest : s.client.requested.decoder = newestDecoder t
  decoders : ∀ request ∈ selections t, request.decoder.isSome
  enabled : selections t ≠ [] → context.featureMask &&& remoteToLocal ≠ 0
  sources : ∀ payload ∈ actedUpon t s, ∀ k, payload.source = some k → k < (answers t).length

def arrived (t : List FormatEvent) : FormatInput → Option DecodedPayload
  | .answer response =>
      if response.msgFlags = cbResponseOk then
        (newestDecoder t).map (⟨some (answers t).length, ·, response.requestedFormatData⟩)
      else none
  | .unsolicited response =>
      if response.msgFlags = cbResponseOk then
        (newestDecoder t).map (⟨none, ·, response.requestedFormatData⟩)
      else none
  | _ => none

theorem selections_snoc (t : List FormatEvent) (e : FormatEvent) :
    selections (t ++ [e]) = selections t ++ e.2.selected.toList := by
  rw [selections, filterMap_snoc]
  rfl

theorem receivedRequests_snoc (t : List FormatEvent) (e : FormatEvent) :
    receivedRequests (t ++ [e]) = receivedRequests t ++ e.2.received.toList := by
  rw [receivedRequests, filterMap_snoc]
  rfl

theorem answers_snoc (t : List FormatEvent) (e : FormatEvent) :
    answers (t ++ [e]) = answers t ++ e.1.answered.toList := by
  rw [answers, filterMap_snoc]
  rfl

theorem actedUpon_snoc (t : List FormatEvent) (e : FormatEvent) (s : FormatSession) :
    actedUpon (t ++ [e]) s =
      t.filterMap (·.2.decoded) ++ (e.2.decoded.toList ++ s.queued.filterMap viewPayload) := by
  rw [actedUpon, filterMap_snoc, List.append_assoc]

theorem selections_ne_nil_of_received (h : receivedRequests t ≠ []) : selections t ≠ [] := by
  obtain ⟨request, hrequest⟩ := List.exists_mem_of_ne_nil _ h
  obtain ⟨e, he, hreceived⟩ := List.mem_filterMap.mp hrequest
  have hselected : e.2.selected = some request := by
    cases ho : e.2 with
    | handled payload => simp [ho, FormatOutput.received] at hreceived
    | listed selection =>
        simp only [ho, FormatOutput.received] at hreceived
        split_ifs at hreceived
        exact hreceived
  exact List.ne_nil_of_mem (List.mem_filterMap.mpr ⟨e, he, hselected⟩)

theorem newestDecoder_of_nil (h : selections t = []) : newestDecoder t = none := by
  rw [newestDecoder, h, List.getLast?_nil, Option.bind_none]

theorem FormatHistory.newestDecoder_isSome (h : FormatHistory context t s)
    (hne : selections t ≠ []) : ∃ decoder, newestDecoder t = some decoder := by
  have hlast := List.getLast?_eq_some_getLast hne
  rw [newestDecoder, hlast, Option.bind_some]
  exact Option.isSome_iff_exists.mp (h.decoders _ (List.getLast_mem hne))

theorem FormatHistory.pairedPayload_eq (h : FormatHistory context t s) (source : Option ℕ)
    (response : FormatDataResponse) :
    pairedPayload context s.client source response =
      if response.msgFlags = cbResponseOk then
        (newestDecoder t).map (⟨source, ·, response.requestedFormatData⟩)
      else none := by
  rw [pairedPayload, h.newest]
  by_cases hmask : context.featureMask &&& remoteToLocal = 0
  · have hnil : selections t = [] := by
      by_contra hne
      exact h.enabled hne hmask
    simp [hmask, newestDecoder_of_nil hnil]
  · rw [if_neg hmask]

/-- What has been acted upon grows by the payload that arrives. -/
theorem actedUpon_step (h : FormatHistory context t s)
    (hs : formatStep context parse s i = some (s', o)) :
    (actedUpon (t ++ [(i, o)]) s').Perm (actedUpon t s ++ (arrived t i).toList) := by
  rw [actedUpon_snoc, actedUpon, List.append_assoc]
  apply List.Perm.append_left
  cases i with
  | formatList formats rc =>
      obtain ⟨r, -, hr⟩ := Option.map_eq_some_iff.mp hs
      obtain ⟨rfl, rfl⟩ := Prod.mk.inj hr
      simp only [FormatOutput.decoded, FormatSession.list, arrived, Option.toList_none,
        List.nil_append, List.append_nil]
      exact List.Perm.refl _
  | answer response =>
      simp only [formatStep] at hs
      split_ifs at hs
      obtain ⟨rfl, rfl⟩ := Prod.mk.inj (Option.some.inj hs)
      have hhandle := @handle_actedUpon context parse { s with answered := s.answered + 1 }
        (some s.answered) response
      rw [h.pairedPayload_eq] at hhandle
      simp only [arrived, ← h.answered]
      exact hhandle
  | unsolicited response =>
      obtain ⟨rfl, rfl⟩ := Prod.mk.inj (Option.some.inj hs)
      have hhandle := @handle_actedUpon context parse s none response
      rwa [h.pairedPayload_eq] at hhandle
  | view =>
      obtain ⟨call, queued, hqueue, rfl, rfl⟩ := view_step hs
      simp only [hqueue, FormatOutput.decoded, arrived, Option.toList_none, List.append_nil]
      rw [← filterMap_singleton, ← List.filterMap_append, List.singleton_append]

theorem arrived_source {payload : DecodedPayload} {k : ℕ} (h : arrived t i = some payload)
    (hk : payload.source = some k) : i.answered.isSome ∧ k = (answers t).length := by
  cases i with
  | answer response =>
      simp only [arrived] at h
      split_ifs at h
      obtain ⟨decoder, -, rfl⟩ := Option.map_eq_some_iff.mp h
      exact ⟨rfl, (Option.some.inj hk).symm⟩
  | unsolicited response =>
      simp only [arrived] at h
      split_ifs at h
      obtain ⟨decoder, -, rfl⟩ := Option.map_eq_some_iff.mp h
      exact absurd hk (by simp)
  | formatList formats rc => exact absurd h (by simp [arrived])
  | view => exact absurd h (by simp [arrived])

theorem sources_step (h : FormatHistory context t s)
    (hs : formatStep context parse s i = some (s', o)) :
    ∀ payload ∈ actedUpon (t ++ [(i, o)]) s', ∀ k, payload.source = some k →
      k < (answers (t ++ [(i, o)])).length := by
  intro payload hmem k hk
  rw [answers_snoc, List.length_append]
  rcases List.mem_append.mp ((actedUpon_step h hs).mem_iff.mp hmem) with hold | hnew
  · have hlt := h.sources payload hold k hk
    omega
  · obtain ⟨hanswered, rfl⟩ := arrived_source (Option.mem_toList.mp hnew) hk
    obtain ⟨response, hresponse⟩ := Option.isSome_iff_exists.mp hanswered
    rw [hresponse]
    exact Nat.lt_succ_self _

theorem FormatHistory.quiet (h : FormatHistory context t s)
    (hs : formatStep context parse s i = some (s', o))
    (hrequested : s'.client.requested = s.client.requested)
    (hreceived : s'.received = s.received)
    (hanswered : s'.answered = s.answered + i.answered.toList.length)
    (hle : s'.answered ≤ s'.received.length)
    (ho : o.selected = none ∧ o.received = none) : FormatHistory context (t ++ [(i, o)]) s' := by
  have hselections : selections (t ++ [(i, o)]) = selections t := by
    rw [selections_snoc, ho.1, Option.toList_none, List.append_nil]
  have hrequests : receivedRequests (t ++ [(i, o)]) = receivedRequests t := by
    rw [receivedRequests_snoc, ho.2, Option.toList_none, List.append_nil]
  have hanswers : s'.answered = (answers (t ++ [(i, o)])).length := by
    rw [hanswered, answers_snoc, List.length_append, h.answered]
  refine ⟨?_, hanswers, ?_, ?_, ?_, ?_, sources_step h hs⟩
  · rw [hreceived, hrequests, h.received]
  · rwa [← hanswers, hrequests, ← h.received, ← hreceived]
  · rw [hrequested, h.newest, newestDecoder, newestDecoder, hselections]
  · rw [hselections]
    exact h.decoders
  · rw [hselections]
    exact h.enabled

/-- A format that is selected becomes the pair, and its request may reach the server. -/
theorem FormatHistory.listed (h : FormatHistory context t s) {formats : List CliprdrFormat}
    {rc : UInt32} {request : FormatRequest}
    (hs : formatStep context parse s (.formatList formats rc) = some (s', .listed selection))
    (hs' : s' = s.list client selection) (hrequest : selection.request = some request)
    (hdecoder : request.decoder.isSome) (hclient : client.requested = request)
    (hmask : context.featureMask &&& remoteToLocal ≠ 0) :
    FormatHistory context (t ++ [(.formatList formats rc, .listed selection)]) s' := by
  have hsources := sources_step h hs
  subst hs'
  have hselections := selections_snoc t (.formatList formats rc, .listed selection)
  have hrequests := receivedRequests_snoc t (.formatList formats rc, .listed selection)
  have hanswers := answers_snoc t (.formatList formats rc, .listed selection)
  simp only [FormatOutput.selected, hrequest, Option.toList_some] at hselections
  simp only [FormatInput.answered, Option.toList_none, List.append_nil] at hanswers
  have hgrows : (receivedRequests t).length ≤
      (receivedRequests (t ++ [(.formatList formats rc, .listed selection)])).length := by
    rw [hrequests, List.length_append]
    exact Nat.le_add_right _ _
  refine ⟨?_, ?_, ?_, ?_, ?_, fun _ => hmask, hsources⟩
  · rw [hrequests, ← h.received]
    simp only [FormatSession.list, FormatOutput.received, hrequest]
    split_ifs <;> rfl
  · rw [hanswers, ← h.answered]
    rfl
  · rw [hanswers]
    exact h.answered_le.trans hgrows
  · rw [newestDecoder, hselections, List.getLast?_concat, Option.bind_some, ← hclient]
    rfl
  · rw [hselections]
    intro other hother
    rcases List.mem_append.mp hother with hold | hnew
    · exact h.decoders other hold
    · rwa [List.mem_singleton.mp hnew]

theorem formatHistory_step (h : FormatHistory context t s)
    (hs : formatStep context parse s i = some (s', o)) :
    FormatHistory context (t ++ [(i, o)]) s' := by
  have hle : s.answered ≤ s.received.length := by
    rw [h.answered, h.received]
    exact h.answered_le
  cases i with
  | formatList formats rc =>
      obtain ⟨⟨client, selection⟩, hprocess, hr⟩ := Option.map_eq_some_iff.mp hs
      obtain ⟨rfl, rfl⟩ := Prod.mk.inj hr
      rcases processFormatList_cases hprocess with
        ⟨hnone, hpackets, hclient⟩ | ⟨request, hrequest, hdecoder, hclient, hmask⟩
      · refine h.quiet hs hclient ?_ rfl ?_ ⟨hnone, ?_⟩
        · simp only [FormatSession.list, if_pos hpackets, List.append_nil]
        · simpa only [FormatSession.list, if_pos hpackets, List.append_nil] using hle
        · simp only [FormatOutput.received, if_pos hpackets]
      · exact h.listed hs rfl hrequest hdecoder hclient hmask
  | answer response =>
      obtain ⟨hlt, hclient, hreceived, hanswered, ho⟩ := answer_step hs
      apply h.quiet hs (by rw [hclient]) hreceived hanswered
      · rw [hanswered, hreceived]
        exact hlt
      · exact ho
  | unsolicited response =>
      obtain ⟨hclient, hreceived, hanswered, ho⟩ := handle_quiet s none response
        (cliprdrProcessFormatDataResponse context parse s.client response)
      rw [Option.some.inj hs] at hclient hreceived hanswered ho
      apply h.quiet hs (by rw [hclient]) hreceived hanswered
      · rwa [hanswered, hreceived]
      · exact ho
  | view =>
      obtain ⟨call, queued, -, rfl, rfl⟩ := view_step hs
      exact h.quiet hs rfl rfl rfl hle ⟨rfl, rfl⟩

/-- Later events do not change what an old payload answers. -/
theorem decodedAsRequested_append {payload : DecodedPayload} (u : List FormatEvent)
    (hle : (answers t).length ≤ (receivedRequests t).length)
    (hk : ∀ k, payload.source = some k → k < (answers t).length) :
    DecodedAsRequested (t ++ u) payload ↔ DecodedAsRequested t payload := by
  have hrequests : receivedRequests (t ++ u) = receivedRequests t ++ receivedRequests u :=
    List.filterMap_append
  have hanswers : answers (t ++ u) = answers t ++ answers u := List.filterMap_append
  have hold : ∀ k, payload.source = some k →
      (receivedRequests (t ++ u))[k]? = (receivedRequests t)[k]? ∧
        (answers (t ++ u))[k]? = (answers t)[k]? := by
    intro k hsource
    have hlt := hk k hsource
    rw [hrequests, hanswers]
    exact ⟨List.getElem?_append_left (by omega), List.getElem?_append_left hlt⟩
  constructor
  · rintro ⟨k, request, response, hsource, hrequest, hresponse, hrest⟩
    obtain ⟨h₁, h₂⟩ := hold k hsource
    exact ⟨k, request, response, hsource, h₁ ▸ hrequest, h₂ ▸ hresponse, hrest⟩
  · rintro ⟨k, request, response, hsource, hrequest, hresponse, hrest⟩
    obtain ⟨h₁, h₂⟩ := hold k hsource
    exact ⟨k, request, response, hsource, h₁ ▸ hrequest, h₂ ▸ hresponse, hrest⟩

theorem FormatsKept.perm {payloads payloads' : List DecodedPayload} (h : FormatsKept t payloads)
    (hperm : payloads.Perm payloads') : FormatsKept t payloads' where
  own payload hmem := h.own payload (hperm.mem_iff.mpr hmem)
  once := (hperm.map _).nodup_iff.mp h.once

/-- The payload that arrives is decoded as requested exactly when its response was
expected. -/
theorem arrived_iff_expected (h : FormatHistory context t s)
    (hs : formatStep context parse s i = some (s', o)) :
    (∀ payload, arrived t i = some payload → DecodedAsRequested (t ++ [(i, o)]) payload) ↔
      Expected t (i, o) := by
  cases i with
  | formatList formats rc => simp [arrived, Expected]
  | view => simp [arrived, Expected]
  | unsolicited response =>
      simp only [arrived, Expected]
      constructor
      · intro hall hok
        by_contra hne
        obtain ⟨decoder, hdecoder⟩ := h.newestDecoder_isSome hne
        obtain ⟨k, -, -, hsource, -⟩ := hall _ (by rw [if_pos hok, hdecoder, Option.map_some])
        exact absurd hsource (by simp)
      · intro hexpected payload hpayload
        split_ifs at hpayload with hok
        rw [newestDecoder_of_nil (hexpected hok), Option.map_none] at hpayload
        exact absurd hpayload (by simp)
  | answer response =>
      simp only [arrived, Expected]
      have hanswers := answers_snoc t (.answer response, o)
      simp only [FormatInput.answered, Option.toList_some] at hanswers
      have hlast : (answers (t ++ [(.answer response, o)]))[(answers t).length]? =
          some response := by
        rw [hanswers, List.getElem?_concat_length]
      obtain ⟨hlt, -, -, -, -, hnone⟩ := answer_step hs
      rw [h.answered, h.received] at hlt
      have hrequests : receivedRequests (t ++ [(.answer response, o)]) = receivedRequests t := by
        rw [receivedRequests_snoc, hnone, Option.toList_none, List.append_nil]
      have hne : selections t ≠ [] :=
        selections_ne_nil_of_received (List.ne_nil_of_length_pos (by omega))
      obtain ⟨decoder, hdecoder⟩ := h.newestDecoder_isSome hne
      constructor
      · intro hall hok request hrequest
        obtain ⟨k, request', response', hsource, hrequest', -, hsame, -⟩ :=
          hall _ (by rw [if_pos hok, hdecoder, Option.map_some])
        obtain rfl := Option.some.inj hsource
        rw [hrequests, hrequest] at hrequest'
        obtain rfl := Option.some.inj hrequest'
        rw [hdecoder, hsame]
      · intro hexpected payload hpayload
        split_ifs at hpayload with hok
        obtain ⟨decoder', hdecoder', rfl⟩ := Option.map_eq_some_iff.mp hpayload
        have hrequest := List.getElem?_eq_getElem hlt
        refine ⟨_, _, response, rfl, by rw [hrequests, hrequest], hlast, ?_, rfl⟩
        rw [← hexpected hok _ hrequest, hdecoder']

theorem formatsKept_step (h : FormatHistory context t s)
    (hs : formatStep context parse s i = some (s', o)) :
    FormatsKept (t ++ [(i, o)]) (actedUpon (t ++ [(i, o)]) s') ↔
      FormatsKept t (actedUpon t s) ∧ Expected t (i, o) := by
  have hperm := actedUpon_step h hs
  have hold : ∀ payload ∈ actedUpon t s,
      (DecodedAsRequested (t ++ [(i, o)]) payload ↔ DecodedAsRequested t payload) :=
    fun payload hmem => decodedAsRequested_append _ h.answered_le (h.sources payload hmem)
  rw [← arrived_iff_expected h hs]
  constructor
  · intro hkept
    obtain ⟨hown, honce⟩ := hkept.perm hperm
    refine ⟨⟨fun payload hmem => ?_, ?_⟩, fun payload hnew => ?_⟩
    · exact (hold payload hmem).mp (hown payload (List.mem_append_left _ hmem))
    · rw [List.map_append] at honce
      exact honce.of_append_left
    · exact hown payload (List.mem_append_right _ (Option.mem_toList.mpr hnew))
  · rintro ⟨⟨hown, honce⟩, hnew⟩
    refine FormatsKept.perm ⟨fun payload hmem => ?_, ?_⟩ hperm.symm
    · rcases List.mem_append.mp hmem with hmem | hmem
      · exact (hold payload hmem).mpr (hown payload hmem)
      · exact hnew payload (Option.mem_toList.mp hmem)
    · rw [List.map_append]
      cases harrived : arrived t i with
      | none => simpa using honce
      | some payload =>
          obtain ⟨k, -, -, hsource, -⟩ := hnew payload harrived
          -- The new payload answers a request that no payload has answered before.
          obtain ⟨-, hk⟩ := arrived_source harrived hsource
          rw [Option.toList_some, List.map_singleton, List.nodup_append_comm,
            List.singleton_append, List.nodup_cons]
          refine ⟨fun hmem => ?_, honce⟩
          obtain ⟨other, hother, hsame⟩ := List.mem_map.mp hmem
          have hlt := h.sources other hother k (hsame.trans hsource)
          omega

theorem formatHistory_initial : FormatHistory context [] .initial where
  received := rfl
  answered := rfl
  answered_le := Nat.le_refl _
  newest := by decide
  decoders _ h := absurd h (by simp [selections])
  enabled h := absurd rfl h
  sources _ h := absurd h (by simp [actedUpon, FormatSession.initial])

/-- In a run every payload is decoded as the request asks that it answers, and each
request leads to one at most, exactly when every response was expected. -/
theorem responses_decoded_as_requested_iff
    (h : Execution (formatStep context parse) .initial t s) :
    FormatsKept t (actedUpon t s) ↔ EachEvent Expected t := by
  have hrun : FormatHistory context t s ∧
      (FormatsKept t (actedUpon t s) ↔ EachEvent Expected t) := by
    induction h with
    | nil =>
        refine ⟨formatHistory_initial, fun _ u e v hnil => ?_, fun _ => ⟨?_, List.nodup_nil⟩⟩
        · exact absurd hnil (by simp)
        · exact fun payload hmem => absurd hmem (by simp [actedUpon, FormatSession.initial])
    | snoc _ hs ih =>
        obtain ⟨hhistory, hiff⟩ := ih
        refine ⟨formatHistory_step hhistory hs, ?_⟩
        rw [formatsKept_step hhistory hs, hiff, eachEvent_snoc]
  exact hrun.2

def textList : FormatInput := .formatList [⟨cfUnicodeText, none⟩] channelRcOk

def imageList : FormatInput := .formatList [⟨0xC001, some "PNG"⟩] channelRcOk

def textAnswer : FormatInput := .answer ⟨cbResponseOk, [0x41, 0]⟩

theorem responses_decoded_as_requested_text :
    ∃ t s, run (formatStep .permissive (fun _ => .error errorInvalidData)) .initial
        [textList, textAnswer, imageList, .view] = some (s, t) ∧
      actedUpon t s = [⟨some 0, .unicodeText, [0x41, 0]⟩] ∧ EachEvent Expected t := by
  obtain ⟨t, s, hrun, hacted, hrequest, hanswer⟩ : ∃ t s,
      run (formatStep .permissive (fun _ => .error errorInvalidData)) .initial
        [textList, textAnswer, imageList, .view] = some (s, t) ∧
      actedUpon t s = [⟨some 0, .unicodeText, [0x41, 0]⟩] ∧
      (receivedRequests t)[0]? = some ⟨cfUnicodeText, ""⟩ ∧
      (answers t)[0]? = some ⟨cbResponseOk, [0x41, 0]⟩ := ⟨_, _, rfl, rfl, rfl, rfl⟩
  refine ⟨t, s, hrun, hacted,
    (responses_decoded_as_requested_iff (Execution.of_run hrun)).mp ⟨?_, ?_⟩⟩
  · rw [hacted]
    intro payload hmem
    obtain rfl := List.mem_singleton.mp hmem
    exact ⟨0, _, _, rfl, hrequest, hanswer, rfl, rfl⟩
  · rw [hacted]
    exact List.nodup_singleton _

/-- The eight bytes at the beginning of every PNG file. -/
def pngSignature : Bytes := [0x89, 0x50, 0x4E, 0x47, 0x0D, 0x0A, 0x1A, 0x0A]

/-- An image is requested, then a text, and the answer with the image becomes the text of the
clipboard. -/
theorem image_decoded_as_text :
    ∃ t s, run (formatStep .permissive (fun _ => .error errorInvalidData)) .initial
        [imageList, textList, .answer ⟨cbResponseOk, pngSignature⟩, .view] = some (s, t) ∧
      receivedRequests t = [⟨0xC001, "PNG"⟩, ⟨cfUnicodeText, ""⟩] ∧
      actedUpon t s = [⟨some 0, .unicodeText, pngSignature⟩] ∧
      RemoteUpdate.text fromUtf16Sized ⟨pngSignature, cfUnicodeText, ""⟩ =
        some [0x5089, 0x474E, 0x0A0D, 0x0A1A] ∧
      ¬ FormatsKept t (actedUpon t s) := by
  refine ⟨_, _, rfl, rfl, rfl, rfl, fun hkept => ?_⟩
  obtain ⟨k, request, response, hsource, hrequest, -, hdecoder, -⟩ :=
    hkept.own ⟨some 0, .unicodeText, pngSignature⟩ List.mem_cons_self
  obtain rfl := Option.some.inj hsource
  obtain rfl : ⟨0xC001, "PNG"⟩ = request := Option.some.inj hrequest
  exact absurd hdecoder (by decide)

end QfClient
