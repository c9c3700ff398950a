import QfClient.Advertisement
import QfClient.RdpSession

/-!
# Lifetimes of the contexts

A context is used in its lifetime when the use comes after the hand-over and before the
context is freed. The state of a session tells both of each context, so that whether an
event uses a context in its lifetime is a matter of what has happened before it.
-/

namespace QfClient

open Machine

variable {isNull : Bool} {s s' : RdpSession} {i : RdpInput} {o : Option ContextUse}
  {t : RdpTrace}

def Occurred (i : RdpInput) (t : RdpTrace) : Prop := i ∈ t.map Prod.fst

theorem not_occurred_nil (i : RdpInput) : ¬ Occurred i [] := List.not_mem_nil

theorem occurred_snoc {i' : RdpInput} :
    Occurred i' (t ++ [(i, o)]) ↔ Occurred i' t ∨ i' = i := by
  rw [Occurred, List.map_append, List.mem_append, List.map_cons, List.map_nil,
    List.mem_singleton]
  exact Iff.rfl

/-- What a state remembers of the RDP context: whether the view has it, and whether it
is freed. -/
structure RdpContextHistory (isNull : Bool) (t : RdpTrace) (s : RdpSession) : Prop where
  indeterminate : ¬ Occurred (.postConnect true) t → s.mRdpContext = .indeterminate isNull
  handedOver : Occurred (.postConnect true) t →
    s.mRdpContext = .handedOver ∧ s.rdpContext ≠ .absent
  freed : s.rdpContext = .freed → Occurred .freerdpContextFree t
  finished : Occurred .freerdpContextFree t → s.stage = .finished ∧ s.rdpContext ≠ .alive

structure ClipboardContextHistory (t : RdpTrace) (s : RdpSession) : Prop where
  unset : ¬ Occurred .monitorReady t → s.cliprdrClientContext = false
  handedOver : Occurred .monitorReady t →
    s.qfClientContext = true ∧ s.cliprdrClientContext = true ∧ s.clipboardContext ≠ .absent
  freed : s.clipboardContext = .freed → Occurred .channelTerminated t
  ended : Occurred .channelTerminated t → s.Over ∧ s.clipboardContext ≠ .alive

theorem rdpContextHistory_initial (isNull : Bool) :
    RdpContextHistory isNull [] (.initial isNull) where
  indeterminate _ := rfl
  handedOver h := absurd h (not_occurred_nil _)
  freed h := by simp [RdpSession.initial] at h
  finished h := absurd h (not_occurred_nil _)

theorem clipboardContextHistory_initial (isNull : Bool) :
    ClipboardContextHistory [] (.initial isNull) where
  unset _ := rfl
  handedOver h := absurd h (not_occurred_nil _)
  freed h := by simp [RdpSession.initial] at h
  ended h := absurd h (not_occurred_nil _)

namespace RdpSession

theorem rdpContext_made (s : RdpSession) (h : s.rdpContext ≠ .absent) :
    (s.effect i).rdpContext ≠ .absent := by
  by_cases hnew : i = .freerdpContextNew true
  · rw [hnew]
    exact Lifetime.noConfusion
  · by_cases hfree : i = .freerdpContextFree
    · rw [hfree]
      change (if s.rdpContext = .alive then Lifetime.freed else s.rdpContext) ≠ .absent
      split_ifs
      · exact Lifetime.noConfusion
      · exact h
    · rwa [effect_rdpContext s hnew hfree]

theorem clipboardContext_made (s : RdpSession) (h : s.clipboardContext ≠ .absent) :
    (s.effect i).clipboardContext ≠ .absent := by
  by_cases hload : i = .loadChannels true
  · rw [hload]
    exact Lifetime.noConfusion
  · by_cases hterminated : i = .channelTerminated
    · rw [hterminated]
      exact Lifetime.noConfusion
    · rwa [effect_clipboardContext s hload hterminated]

theorem qfClientContext_set (s : RdpSession) (h : s.qfClientContext = true) :
    (s.effect i).qfClientContext = true := by
  cases i with
  | startThread => rfl
  | _ => exact h

end RdpSession

theorem rdpContextHistory_effect (hsound : s.Sound) (h : RdpContextHistory isNull t s)
    (henabled : s.Enabled i) : RdpContextHistory isNull (t ++ [(i, o)]) (s.effect i) where
  indeterminate hnot := by
    rw [occurred_snoc, not_or] at hnot
    rw [RdpSession.effect_mRdpContext s (Ne.symm hnot.2)]
    exact h.indeterminate hnot.1
  handedOver hoccurred := by
    by_cases hi : i = .postConnect true
    · subst hi
      have halive : s.rdpContext = .alive := hsound.rdp (.inr henabled)
      exact ⟨rfl, s.rdpContext_made (by rw [halive]; decide)⟩
    · have hbefore := (occurred_snoc.mp hoccurred).resolve_right (Ne.symm hi)
      rw [RdpSession.effect_mRdpContext s hi]
      exact ⟨(h.handedOver hbefore).1, s.rdpContext_made (h.handedOver hbefore).2⟩
  freed hfreed := by
    rw [occurred_snoc]
    by_cases hfree : i = .freerdpContextFree
    · exact .inr hfree.symm
    · by_cases hnew : i = .freerdpContextNew true
      · rw [hnew] at hfreed
        exact Lifetime.noConfusion hfreed
      · rw [RdpSession.effect_rdpContext s hnew hfree] at hfreed
        exact .inl (h.freed hfreed)
  finished hoccurred := by
    by_cases hfree : i = .freerdpContextFree
    · subst hfree
      refine ⟨rfl, ?_⟩
      change (if s.rdpContext = .alive then Lifetime.freed else s.rdpContext) ≠ .alive
      split_ifs with halive
      · exact Lifetime.noConfusion
      · exact halive
    · obtain ⟨hfinished, hdead⟩ :=
        h.finished ((occurred_snoc.mp hoccurred).resolve_right (Ne.symm hfree))
      have hnew : i ≠ .freerdpContextNew true := by
        rintro rfl
        exact absurd (hfinished.symm.trans henabled) (by decide)
      rw [RdpSession.effect_rdpContext s hnew hfree]
      exact ⟨RdpSession.finished_effect hfinished henabled, hdead⟩

theorem clipboardContextHistory_effect (hsound : s.Sound) (h : ClipboardContextHistory t s)
    (henabled : s.Enabled i) : ClipboardContextHistory (t ++ [(i, o)]) (s.effect i) where
  unset hnot := by
    rw [occurred_snoc, not_or] at hnot
    rw [RdpSession.effect_cliprdrClientContext s (Ne.symm hnot.2)]
    exact h.unset hnot.1
  handedOver hoccurred := by
    by_cases hi : i = .monitorReady
    · subst hi
      have halive : s.clipboardContext = .alive := hsound.clipboard (.inr henabled)
      have hstage : s.stage ≠ .idle := by
        rcases henabled with hstage | hstage <;> rw [hstage] <;> decide
      exact ⟨s.qfClientContext_set (hsound.client hstage), rfl,
        s.clipboardContext_made (by rw [halive]; decide)⟩
    · obtain ⟨hclient, hset, hmade⟩ :=
        h.handedOver ((occurred_snoc.mp hoccurred).resolve_right (Ne.symm hi))
      rw [RdpSession.effect_cliprdrClientContext s hi]
      exact ⟨s.qfClientContext_set hclient, hset, s.clipboardContext_made hmade⟩
  freed hfreed := by
    rw [occurred_snoc]
    by_cases hterminated : i = .channelTerminated
    · exact .inr hterminated.symm
    · by_cases hload : i = .loadChannels true
      · rw [hload] at hfreed
        exact Lifetime.noConfusion hfreed
      · rw [RdpSession.effect_clipboardContext s hload hterminated] at hfreed
        exact .inl (h.freed hfreed)
  ended hoccurred := by
    by_cases hterminated : i = .channelTerminated
    · subst hterminated
      exact ⟨henabled.1.imp_right .inl, Lifetime.noConfusion⟩
    · obtain ⟨hover, hdead⟩ :=
        h.ended ((occurred_snoc.mp hoccurred).resolve_right (Ne.symm hterminated))
      have hload : i ≠ .loadChannels true := by
        rintro rfl
        rcases hover with hstage | hstage | hstage <;>
          exact absurd (hstage.symm.trans henabled) (by decide)
      rw [RdpSession.effect_clipboardContext s hload hterminated]
      exact ⟨hover.effect henabled, hdead⟩

structure RdpHistory (isNull : Bool) (t : RdpTrace) (s : RdpSession) : Prop where
  sound : s.Sound
  view : RdpContextHistory isNull t s
  client : ClipboardContextHistory t s

theorem rdpHistory_of_execution (h : Execution rdpStep (.initial isNull) t s) :
    RdpHistory isNull t s := by
  induction h with
  | nil =>
      exact ⟨sound_initial isNull, rdpContextHistory_initial isNull,
        clipboardContextHistory_initial isNull⟩
  | snoc _ hs ih =>
      obtain ⟨henabled, rfl, -⟩ := rdpStep_eq hs
      exact ⟨sound_effect ih.sound henabled, rdpContextHistory_effect ih.sound ih.view henabled,
        clipboardContextHistory_effect ih.sound ih.client henabled⟩

/-- The input of a user that is sent through the RDP context: the mouse, and a key with a
scancode or a text. -/
def RdpInput.SendsInput : RdpInput → Prop
  | .mouseEvent => True
  | .keyEvent event _ => toFreerdpKeyCode event = .unknown → event.text ≠ []
  | _ => False

def RdpInput.Advertises : RdpInput → Prop
  | .dataChanged disk fromRemote mimeData =>
      fromRemote = false ∧
        if mimeData.hasUrls then acceptedFiles disk mimeData.urls ≠ []
        else mimeData.hasText = true ∨ mimeData.hasImage = true
  | _ => False

def Lent (t : RdpTrace) : ContextUse → Prop
  | .rdp _ => Occurred (.postConnect true) t ∧ ¬ Occurred .freerdpContextFree t
  | .clipboard _ => Occurred .monitorReady t ∧ ¬ Occurred .channelTerminated t

def UsedInLifetime (t : RdpTrace) (e : RdpInput × Option ContextUse) : Prop :=
  ∀ use, e.2 = some use → use.lifetime = .alive ∧ Lent t use

/-- Input is sent after the hand-over, or before it if the pointer happens to be null, and
never after the RDP context is freed; nothing is advertised after the channel of a session
that got ready is terminated. -/
def InTime (isNull : Bool) (t : RdpTrace) (e : RdpInput × Option ContextUse) : Prop :=
  (e.1.SendsInput → (Occurred (.postConnect true) t → ¬ Occurred .freerdpContextFree t) ∧
    (¬ Occurred (.postConnect true) t → isNull = true)) ∧
  (e.1.Advertises → Occurred .monitorReady t → ¬ Occurred .channelTerminated t)

/-- A change of the clipboard reaches the channel when the client has it and there is
something to offer. -/
theorem dataChangedCallback_quiet {disk : FileNode} {ready fromRemote : Bool}
    {files : List ClipboardInfoFile} {mimeData : MimeData} :
    (dataChangedCallback (captureUrls disk) ready fromRemote files mimeData).2 = none ↔
      ¬ (ready = true ∧ (RdpInput.dataChanged disk fromRemote mimeData).Advertises) := by
  cases ready <;> cases fromRemote <;>
    simp [dataChangedCallback, RdpInput.Advertises]
  split_ifs <;> simp_all [captureUrls_eq_nil_iff]

theorem keyboardUnicodeEventSend_quiet {event : QKeyEvent} {down : Bool} :
    keyboardUnicodeEventSend true event down = none ↔
      ¬ (RdpInput.keyEvent event down).SendsInput := by
  rw [keyboardUnicodeEventSend, if_neg (by decide)]
  by_cases hcode : toFreerdpKeyCode event = .unknown
  · rw [if_pos hcode, Option.map_eq_none_iff, List.head?_eq_none_iff]
    exact ⟨fun hnil hsends => hsends hcode hnil, fun hnot => by_contra fun hne => hnot fun _ => hne⟩
  · rw [if_neg hcode]
    exact iff_of_false (Option.some_ne_none _) (not_not_intro fun hunknown => absurd hunknown hcode)

/-- Input is used as the context of the view is when it is tested. -/
theorem usedInLifetime_useRdpContext (h : RdpHistory isNull t s) :
    UsedInLifetime t (i, s.useRdpContext) ↔
      (Occurred (.postConnect true) t → ¬ Occurred .freerdpContextFree t) ∧
        (¬ Occurred (.postConnect true) t → isNull = true) := by
  by_cases hhanded : Occurred (.postConnect true) t
  · obtain ⟨hview, hmade⟩ := h.view.handedOver hhanded
    simp only [UsedInLifetime, RdpSession.useRdpContext, hview, Option.some.injEq, forall_eq',
      ContextUse.lifetime, Lent, hhanded, true_and, true_implies, not_true, false_implies,
      and_true]
    refine ⟨fun halive => halive.2, fun hnot => ⟨?_, hnot⟩⟩
    cases hcontext : s.rdpContext with
    | absent => exact absurd hcontext hmade
    | alive => rfl
    | freed => exact absurd (h.view.freed hcontext) hnot
  · simp only [UsedInLifetime, RdpSession.useRdpContext, h.view.indeterminate hhanded, hhanded,
      false_implies, not_false_eq_true, true_implies, true_and]
    cases isNull <;> simp [ContextUse.lifetime]

theorem usedInLifetime_clipboard (h : RdpHistory isNull t s) (hready : Occurred .monitorReady t) :
    UsedInLifetime t (i, some (.clipboard s.clipboardContext)) ↔
      ¬ Occurred .channelTerminated t := by
  obtain ⟨-, -, hmade⟩ := h.client.handedOver hready
  simp only [UsedInLifetime, Option.some.injEq, forall_eq', ContextUse.lifetime, Lent, hready,
    true_and]
  refine ⟨fun halive => halive.2, fun hnot => ⟨?_, hnot⟩⟩
  cases hcontext : s.clipboardContext with
  | absent => exact absurd hcontext hmade
  | alive => rfl
  | freed => exact absurd (h.client.freed hcontext) hnot

theorem usedInLifetime_none : UsedInLifetime t (i, none) := fun _ huse => by simp at huse

theorem RdpHistory.ready_iff (h : RdpHistory isNull t s) :
    (s.qfClientContext && s.cliprdrClientContext) = true ↔ Occurred .monitorReady t := by
  rw [Bool.and_eq_true]
  constructor
  · rintro ⟨-, hset⟩
    by_contra hnot
    exact absurd (hset.symm.trans (h.client.unset hnot)) (by decide)
  · intro hready
    obtain ⟨hclient, hset, -⟩ := h.client.handedOver hready
    exact ⟨hclient, hset⟩

theorem usedInLifetime_iff_inTime (h : RdpHistory isNull t s) :
    UsedInLifetime t (i, s.use i) ↔ InTime isNull t (i, s.use i) := by
  cases i with
  | mouseEvent =>
      rw [InTime]
      simp only [RdpInput.SendsInput, RdpInput.Advertises, true_implies, false_implies, and_true]
      exact usedInLifetime_useRdpContext h
  | keyEvent event down =>
      by_cases hsent : (RdpInput.keyEvent event down).SendsInput
      · have huse : s.use (.keyEvent event down) = s.useRdpContext :=
          if_neg fun hquiet => keyboardUnicodeEventSend_quiet.mp hquiet hsent
        rw [huse, usedInLifetime_useRdpContext h]
        exact ⟨fun hin => ⟨fun _ => hin, False.elim⟩, fun hin => hin.1 hsent⟩
      · have huse : s.use (.keyEvent event down) = none :=
          if_pos (keyboardUnicodeEventSend_quiet.mpr hsent)
        rw [huse]
        exact iff_of_true usedInLifetime_none ⟨fun hsends => absurd hsends hsent, False.elim⟩
  | dataChanged disk fromRemote mimeData =>
      by_cases huse : Occurred .monitorReady t ∧
          (RdpInput.dataChanged disk fromRemote mimeData).Advertises
      · have hclipboard : s.use (.dataChanged disk fromRemote mimeData) =
            some (.clipboard s.clipboardContext) :=
          if_neg fun hquiet => dataChangedCallback_quiet.mp hquiet ⟨h.ready_iff.mpr huse.1, huse.2⟩
        rw [hclipboard, usedInLifetime_clipboard h huse.1]
        exact ⟨fun hin => ⟨False.elim, fun _ _ => hin⟩, fun hin => hin.2 huse.2 huse.1⟩
      · have hnone : s.use (.dataChanged disk fromRemote mimeData) = none :=
          if_pos (dataChangedCallback_quiet.mpr fun hready =>
            huse ⟨h.ready_iff.mp hready.1, hready.2⟩)
        rw [hnone]
        exact iff_of_true usedInLifetime_none
          ⟨False.elim, fun hadvertises hready => absurd ⟨hready, hadvertises⟩ huse⟩
  | _ => exact iff_of_true usedInLifetime_none ⟨False.elim, False.elim⟩

/-- Every use is within the lifetime of its context exactly in the runs in which input and
changes of the clipboard come in time. Neither pointer is reset when its context is freed,
and `m_rdpContext` need not be null before it is set. -/
theorem contexts_used_in_lifetime_iff (h : Execution rdpStep (.initial isNull) t s) :
    EachEvent UsedInLifetime t ↔ EachEvent (InTime isNull) t := by
  induction h with
  | nil => exact iff_of_true (fun _ _ _ hnil => by simp at hnil) (fun _ _ _ hnil => by simp at hnil)
  | snoc hrun hs ih =>
      obtain ⟨-, -, rfl⟩ := rdpStep_eq hs
      rw [eachEvent_snoc, eachEvent_snoc, ih,
        usedInLifetime_iff_inTime (rdpHistory_of_execution hrun)]

theorem lifetime_of_used (h : EachEvent UsedInLifetime t) (use : ContextUse)
    (huse : some use ∈ t.map Prod.snd) : use.lifetime = .alive := by
  obtain ⟨e, hmem, he⟩ := List.mem_map.mp huse
  obtain ⟨u, v, ht⟩ := List.append_of_mem hmem
  exact (h u e v ht use he).1

def connection : List RdpInput :=
  [.startThread, .freerdpNew true, .freerdpContextNew true, .loadChannels true,
    .postConnect true, .channelsPostConnect true, .monitorReady]

/-- In a session that is ready, a mouse event is in time and uses the context, which is
alive. -/
theorem contexts_used_in_lifetime_mouse :
    ∃ t s, run rdpStep (.initial false) (connection ++ [.mouseEvent]) = some (s, t) ∧
      EachEvent UsedInLifetime t ∧ EachEvent (InTime false) t := by
  obtain ⟨t, s, -, hrun, hinputs, hquiet⟩ : ∃ t s,
      (run rdpStep (.initial false) connection = some (s, t)) ∧
      run rdpStep (.initial false) (connection ++ [.mouseEvent]) =
        some (s, t ++ [(.mouseEvent, some (.rdp .alive))]) ∧
      t.map Prod.fst = connection ∧ t.map Prod.snd = List.replicate 7 none :=
    ⟨_, _, rfl, rfl, rfl, rfl⟩
  have hconnecting : EachEvent UsedInLifetime t := by
    intro u e v ht use huse
    have hmem : e.2 ∈ t.map Prod.snd := List.mem_map_of_mem (by rw [ht]; simp)
    rw [hquiet] at hmem
    exact absurd (huse.symm.trans (List.eq_of_mem_replicate hmem)) (Option.some_ne_none use)
  have hmouse : UsedInLifetime t (.mouseEvent, some (.rdp .alive)) := by
    intro use huse
    obtain rfl := Option.some.inj huse
    refine ⟨rfl, ?_⟩
    rw [Lent, Occurred, Occurred, hinputs]
    simp [connection]
  have hused := eachEvent_snoc.mpr ⟨hconnecting, hmouse⟩
  exact ⟨_, s, hrun, hused, (contexts_used_in_lifetime_iff (Execution.of_run hrun)).mp hused⟩

/-- The server ends the session, and its contexts are freed. A mouse event and a new text
in the local clipboard then go through them; so does a mouse event before anything was
connected, through a pointer that was never set. -/
theorem freed_contexts_used :
    (∃ t s, run rdpStep (.initial true) (connection ++
        [.disconnect, .channelTerminated, .freerdpContextFree, .mouseEvent,
          .dataChanged sharedDisk false greeting]) = some (s, t) ∧
      t.map Prod.snd = List.replicate 10 none ++
        [some (.rdp .freed), some (.clipboard .freed)] ∧ ¬ EachEvent UsedInLifetime t) ∧
    ∃ t s, run rdpStep (.initial false) [.mouseEvent] = some (s, t) ∧
      t.map Prod.snd = [some (.rdp .absent)] ∧ ¬ EachEvent UsedInLifetime t := by
  constructor
  · obtain ⟨t, s, hrun, houtputs⟩ : ∃ t s, run rdpStep (.initial true) (connection ++
        [.disconnect, .channelTerminated, .freerdpContextFree, .mouseEvent,
          .dataChanged sharedDisk false greeting]) = some (s, t) ∧
        t.map Prod.snd = List.replicate 10 none ++
          [some (.rdp .freed), some (.clipboard .freed)] := ⟨_, _, rfl, rfl⟩
    refine ⟨t, s, hrun, houtputs, fun hused => ?_⟩
    exact absurd (lifetime_of_used hused (.rdp .freed) (by rw [houtputs]; decide)) (by decide)
  · obtain ⟨t, s, hrun, houtputs⟩ : ∃ t s,
        run rdpStep (.initial false) [.mouseEvent] = some (s, t) ∧
        t.map Prod.snd = [some (.rdp .absent)] := ⟨_, _, rfl, rfl⟩
    refine ⟨t, s, hrun, houtputs, fun hused => ?_⟩
    exact absurd (lifetime_of_used hused (.rdp .absent) (by rw [houtputs]; decide)) (by decide)

end QfClient
