import QfClient.FileCapture
import QfClient.Keyboard
import QfClient.Machine

/-!
# The session and its contexts

FreeRDP makes the RDP context and the clipboard context for `rdp_loop_thread` and frees
them at its end. `my_post_connect` hands the one to the view, and `qf_CliprdrMonitorReadyCallback`
the other to the client; nobody takes them back. Meanwhile Qt calls the handlers of the
view, which use whatever they were handed.
-/

namespace QfClient

open Machine

inductive Lifetime where
  | absent
  | alive
  | freed
  deriving DecidableEq, Repr

/-- `m_rdpContext`. The member has no initialiser, so before it is set it may be null or
anything else. -/
inductive ViewContext where
  | indeterminate (isNull : Bool)
  | handedOver
  deriving DecidableEq, Repr

/-- How far `rdp_loop_thread` is; `channelsLoaded` to `postConnected` are inside
`freerdp_connect`, and `failed` is the label `fail` without a connection. -/
inductive RdpStage where
  | idle | started | instanceNew | contextNew | channelsLoaded | postConnected | running
  | disconnected | failed | finished
  deriving DecidableEq, Repr

/-- `qfClientContext` says that `m_qfClientContext` is set, `cliprdrClientContext` that
`cliprdr_client_context_` is not null, and `eventLoop` that `app.exec()` has not returned. -/
structure RdpSession where
  stage : RdpStage
  rdpContext : Lifetime
  clipboardContext : Lifetime
  mRdpContext : ViewContext
  qfClientContext : Bool
  cliprdrClientContext : Bool
  eventLoop : Bool
  deriving DecidableEq, Repr

def RdpSession.initial (isNull : Bool) : RdpSession :=
  ⟨.idle, .absent, .absent, .indeterminate isNull, false, false, true⟩

/-- The calls of the session with their success, and the events of Qt. Presses, moves and
the wheel are all mouse events. -/
inductive RdpInput where
  | startThread
  | freerdpNew (ok : Bool)
  | freerdpContextNew (ok : Bool)
  | loadChannels (ok : Bool)
  | connectFailed
  | postConnect (gdiInit : Bool)
  | channelsPostConnect (ok : Bool)
  | monitorReady
  | disconnect
  | channelTerminated
  | freerdpContextFree
  | quit
  | mouseEvent
  | keyEvent (event : QKeyEvent) (down : Bool)
  | dataChanged (disk : FileNode) (fromRemote : Bool) (mimeData : MimeData)

inductive ContextUse where
  | rdp (lifetime : Lifetime)
  | clipboard (lifetime : Lifetime)
  deriving DecidableEq, Repr

def ContextUse.lifetime : ContextUse → Lifetime
  | .rdp lifetime | .clipboard lifetime => lifetime

abbrev RdpTrace := Trace RdpInput (Option ContextUse)

namespace RdpSession

variable (s : RdpSession)

def nextStage : RdpInput → RdpStage
  | .startThread => .started
  | .freerdpNew ok => if ok then .instanceNew else .finished
  | .freerdpContextNew ok => if ok then .contextNew else .failed
  | .loadChannels ok => if ok then .channelsLoaded else .failed
  | .connectFailed => .failed
  | .postConnect gdiInit => if gdiInit then .postConnected else .failed
  | .channelsPostConnect ok => if ok then .running else .failed
  | .disconnect => .disconnected
  | .freerdpContextFree => .finished
  | _ => s.stage

/-- The steps of the thread come in the order of the function; the clipboard context is
freed when the channel is terminated, before the RDP context. Qt delivers events as long
as its loop runs. -/
def Enabled : RdpInput → Prop
  | .startThread => s.stage = .idle
  | .freerdpNew _ => s.stage = .started
  | .freerdpContextNew _ => s.stage = .instanceNew
  | .loadChannels _ => s.stage = .contextNew
  | .connectFailed => s.stage = .channelsLoaded
  | .postConnect _ => s.stage = .channelsLoaded
  | .channelsPostConnect _ => s.stage = .postConnected
  | .monitorReady => s.stage = .postConnected ∨ s.stage = .running
  | .disconnect => s.stage = .running
  | .channelTerminated =>
      (s.stage = .failed ∨ s.stage = .disconnected) ∧ s.clipboardContext = .alive
  | .freerdpContextFree =>
      (s.stage = .failed ∨ s.stage = .disconnected) ∧ s.clipboardContext ≠ .alive
  | .quit | .mouseEvent | .keyEvent _ _ | .dataChanged _ _ _ => s.eventLoop = true

instance : DecidablePred s.Enabled := fun i => by
  cases i <;> unfold Enabled <;> infer_instance

def effect (i : RdpInput) : RdpSession where
  stage := s.nextStage i
  rdpContext :=
    match i with
    | .freerdpContextNew true => .alive
    | .freerdpContextFree => if s.rdpContext = .alive then .freed else s.rdpContext
    | _ => s.rdpContext
  clipboardContext :=
    match i with
    | .loadChannels true => .alive
    | .channelTerminated => .freed
    | _ => s.clipboardContext
  mRdpContext :=
    match i with
    | .postConnect true => .handedOver
    | _ => s.mRdpContext
  qfClientContext :=
    match i with
    | .startThread => true
    | _ => s.qfClientContext
  cliprdrClientContext :=
    match i with
    | .monitorReady => true
    | _ => s.cliprdrClientContext
  eventLoop :=
    match i with
    | .quit => false
    | _ => s.eventLoop

def useRdpContext : Option ContextUse :=
  match s.mRdpContext with
  | .indeterminate true => none
  | .indeterminate false => some (.rdp .absent)
  | .handedOver => some (.rdp s.rdpContext)

/-- A mouse event always goes through the context, a key event when something is sent,
and a change of the clipboard when a format list is. -/
def use : RdpInput → Option ContextUse
  | .mouseEvent => s.useRdpContext
  | .keyEvent event down =>
      if keyboardUnicodeEventSend true event down = none then none else s.useRdpContext
  | .dataChanged disk fromRemote mimeData =>
      if (dataChangedCallback (captureUrls disk) (s.qfClientContext && s.cliprdrClientContext)
          fromRemote [] mimeData).2 = none then none
      else some (.clipboard s.clipboardContext)
  | _ => none

end RdpSession

def rdpStep : Step RdpSession RdpInput (Option ContextUse) := fun s i =>
  if s.Enabled i then some (s.effect i, s.use i) else none

variable {isNull : Bool} {s s' : RdpSession} {i : RdpInput} {o : Option ContextUse}
  {t : RdpTrace}

theorem rdpStep_eq (h : rdpStep s i = some (s', o)) :
    s.Enabled i ∧ s' = s.effect i ∧ o = s.use i := by
  unfold rdpStep at h
  split_ifs at h with henabled
  obtain ⟨rfl, rfl⟩ := Prod.mk.inj (Option.some.inj h)
  exact ⟨henabled, rfl, rfl⟩

namespace RdpSession

theorem effect_mRdpContext (s : RdpSession) (h : i ≠ .postConnect true) :
    (s.effect i).mRdpContext = s.mRdpContext := by
  cases i with
  | postConnect gdiInit =>
      cases gdiInit with
      | false => rfl
      | true => exact absurd rfl h
  | _ => rfl

theorem effect_cliprdrClientContext (s : RdpSession) (h : i ≠ .monitorReady) :
    (s.effect i).cliprdrClientContext = s.cliprdrClientContext := by
  cases i with
  | monitorReady => exact absurd rfl h
  | _ => rfl

theorem effect_rdpContext (s : RdpSession) (hnew : i ≠ .freerdpContextNew true)
    (hfree : i ≠ .freerdpContextFree) : (s.effect i).rdpContext = s.rdpContext := by
  cases i with
  | freerdpContextNew ok =>
      cases ok with
      | false => rfl
      | true => exact absurd rfl hnew
  | freerdpContextFree => exact absurd rfl hfree
  | _ => rfl

theorem effect_clipboardContext (s : RdpSession) (hload : i ≠ .loadChannels true)
    (hterminated : i ≠ .channelTerminated) :
    (s.effect i).clipboardContext = s.clipboardContext := by
  cases i with
  | loadChannels ok =>
      cases ok with
      | false => rfl
      | true => exact absurd rfl hload
  | channelTerminated => exact absurd rfl hterminated
  | _ => rfl

def Over (s : RdpSession) : Prop :=
  s.stage = .failed ∨ s.stage = .disconnected ∨ s.stage = .finished

theorem Over.effect (h : s.Over) (henabled : s.Enabled i) : (s.effect i).Over := by
  rcases h with hstage | hstage | hstage <;> cases i <;>
    simp [Over, Enabled, RdpSession.effect, nextStage, hstage] at henabled ⊢

theorem finished_effect (h : s.stage = .finished) (henabled : s.Enabled i) :
    (s.effect i).stage = .finished := by
  cases i <;> simp [Enabled, effect, nextStage, h] at henabled ⊢

end RdpSession

structure RdpSession.Sound (s : RdpSession) : Prop where
  rdp : s.stage = .contextNew ∨ s.stage = .channelsLoaded → s.rdpContext = .alive
  clipboard : s.stage = .channelsLoaded ∨ s.stage = .postConnected ∨ s.stage = .running →
    s.clipboardContext = .alive
  client : s.stage ≠ .idle → s.qfClientContext = true

theorem sound_initial (isNull : Bool) : (RdpSession.initial isNull).Sound := by
  constructor <;> simp [RdpSession.initial]

section

open RdpSession (effect nextStage Enabled)

theorem RdpSession.Sound.rdp_effect (h : s.Sound) (henabled : s.Enabled i)
    (hstage : (s.effect i).stage = .contextNew ∨ (s.effect i).stage = .channelsLoaded) :
    (s.effect i).rdpContext = .alive := by
  cases i with
  | freerdpContextNew ok =>
      cases ok with
      | false => simp [effect, nextStage] at hstage
      | true => rfl
  | loadChannels ok => exact h.rdp (.inl henabled)
  | freerdpNew ok | postConnect ok | channelsPostConnect ok =>
      cases ok <;> simp [effect, nextStage] at hstage
  | startThread | connectFailed | disconnect | freerdpContextFree =>
      simp [effect, nextStage] at hstage
  | _ => exact h.rdp hstage

theorem RdpSession.Sound.clipboard_effect (h : s.Sound) (henabled : s.Enabled i)
    (hstage : (s.effect i).stage = .channelsLoaded ∨ (s.effect i).stage = .postConnected ∨
      (s.effect i).stage = .running) : (s.effect i).clipboardContext = .alive := by
  cases i with
  | loadChannels ok =>
      cases ok with
      | false => simp [effect, nextStage] at hstage
      | true => rfl
  | postConnect ok => exact h.clipboard (.inl henabled)
  | channelsPostConnect ok => exact h.clipboard (.inr (.inl henabled))
  | channelTerminated =>
      rcases henabled.1 with hover | hover <;> simp [effect, nextStage, hover] at hstage
  | freerdpNew ok | freerdpContextNew ok => cases ok <;> simp [effect, nextStage] at hstage
  | startThread | connectFailed | disconnect | freerdpContextFree =>
      simp [effect, nextStage] at hstage
  | _ => exact h.clipboard hstage

/-- The client is handed to the view before the thread is started. -/
theorem RdpSession.Sound.client_effect (h : s.Sound) (henabled : s.Enabled i)
    (hstage : (s.effect i).stage ≠ .idle) : (s.effect i).qfClientContext = true := by
  cases i with
  | startThread => rfl
  | freerdpNew ok | freerdpContextNew ok | loadChannels ok | connectFailed | postConnect ok
  | channelsPostConnect ok | disconnect =>
      exact h.client (by rw [henabled]; decide)
  | freerdpContextFree =>
      exact h.client (by rcases henabled.1 with hover | hover <;> rw [hover] <;> decide)
  | _ => exact h.client hstage

theorem sound_effect (h : s.Sound) (henabled : s.Enabled i) : (s.effect i).Sound :=
  ⟨h.rdp_effect henabled, h.clipboard_effect henabled, h.client_effect henabled⟩

end

end QfClient
