import Mathlib.Logic.Function.Basic
import QfClient.Keyboard
import QfClient.Machine

/-!
# Keys that stay down

Qt computes the key and the text of an event from the modifiers of its moment, so that a
physical key may go up under another Qt key than the one it went down under, and the
server is then told of a key that never went down.
-/

namespace QfClient

open Machine Qt

/-- The physical keys that are held, each with the event that it went down with, and the
keys that are down on the remote side. `rdpContext` says that `m_rdpContext` is set. -/
structure Keyboard (κ : Type*) where
  rdpContext : Bool
  held : κ → Option QKeyEvent
  remote : RemoteKey → Bool

def Keyboard.initial {κ : Type*} : Keyboard κ := ⟨false, fun _ => none, fun _ => false⟩

inductive KeyInput (κ : Type*) where
  | setFreeRDPContext
  | press (physical : κ) (event : QKeyEvent)
  | autoRepeat (physical : κ) (event : QKeyEvent)
  | release (physical : κ) (event : QKeyEvent)

def KeyInput.keyEvent {κ : Type*} : KeyInput κ → Option (κ × QKeyEvent)
  | .setFreeRDPContext => none
  | .press physical event | .autoRepeat physical event | .release physical event =>
      some (physical, event)

abbrev KeyTrace (κ : Type*) := Trace (KeyInput κ) (Option KeyboardMessage)

variable {κ : Type*}

def Keyboard.receive (s : Keyboard κ) : Option KeyboardMessage → Keyboard κ
  | none => s
  | some message => { s with remote := Function.update s.remote message.key message.isDown }

/-- `my_post_connect` sets the context. A key goes down when it is up, and repeats and goes up
when it is held; the Qt event is any, as modifiers and layout make it. -/
def keyStep [DecidableEq κ] : Step (Keyboard κ) (KeyInput κ) (Option KeyboardMessage)
  | s, .setFreeRDPContext => some ({ s with rdpContext := true }, none)
  | s, .press physical event =>
      let message := keyboardUnicodeEventSend s.rdpContext event true
      if s.held physical = none then
        some ({ s.receive message with held := Function.update s.held physical (some event) },
          message)
      else none
  | s, .autoRepeat physical event =>
      let message := keyboardUnicodeEventSend s.rdpContext event true
      if s.held physical = none then none else some (s.receive message, message)
  | s, .release physical event =>
      let message := keyboardUnicodeEventSend s.rdpContext event false
      if s.held physical = none then none
      else
        some ({ s.receive message with held := Function.update s.held physical none }, message)

/-- An event of a physical key that is held has the translation of its press. -/
def KeepsKey (s : Keyboard κ) : KeyInput κ → Prop
  | .setFreeRDPContext | .press _ _ => True
  | .autoRepeat physical event => ∀ pressed, s.held physical = some pressed → SameKey pressed event
  | .release physical event => ∀ pressed, s.held physical = some pressed → SameKey pressed event

variable {down : Bool} {event pressed : QKeyEvent} {message : KeyboardMessage}
  {s s' : Keyboard κ} {t : KeyTrace κ} {physical : κ} {key : RemoteKey}

/-- What a step does; the message is the one for the event. -/
theorem keyStep_cases [DecidableEq κ] {i : KeyInput κ} {o : Option KeyboardMessage}
    (hs : keyStep s i = some (s', o)) :
    (i = .setFreeRDPContext ∧ o = none ∧ s' = { s with rdpContext := true }) ∨
    (∃ physical event, i = .press physical event ∧ s.held physical = none ∧
      o = keyboardUnicodeEventSend s.rdpContext event true ∧
      s' = { s.receive o with held := Function.update s.held physical (some event) }) ∨
    (∃ physical event pressed, i = .autoRepeat physical event ∧ s.held physical = some pressed ∧
      o = keyboardUnicodeEventSend s.rdpContext event true ∧ s' = s.receive o) ∨
    ∃ physical event pressed, i = .release physical event ∧ s.held physical = some pressed ∧
      o = keyboardUnicodeEventSend s.rdpContext event false ∧
      s' = { s.receive o with held := Function.update s.held physical none } := by
  cases i with
  | setFreeRDPContext =>
      obtain ⟨rfl, rfl⟩ := Prod.mk.inj (Option.some.inj hs)
      exact .inl ⟨rfl, rfl, rfl⟩
  | press physical event =>
      simp only [keyStep] at hs
      split_ifs at hs with hup
      obtain ⟨rfl, rfl⟩ := Prod.mk.inj (Option.some.inj hs)
      exact .inr (.inl ⟨physical, event, rfl, hup, rfl, rfl⟩)
  | autoRepeat physical event =>
      simp only [keyStep] at hs
      split_ifs at hs with hup
      obtain ⟨rfl, rfl⟩ := Prod.mk.inj (Option.some.inj hs)
      obtain ⟨pressed, hheld⟩ := Option.ne_none_iff_exists'.mp hup
      exact .inr (.inr (.inl ⟨physical, event, pressed, rfl, hheld, rfl, rfl⟩))
  | release physical event =>
      simp only [keyStep] at hs
      split_ifs at hs with hup
      obtain ⟨rfl, rfl⟩ := Prod.mk.inj (Option.some.inj hs)
      obtain ⟨pressed, hheld⟩ := Option.ne_none_iff_exists'.mp hup
      exact .inr (.inr (.inr ⟨physical, event, pressed, rfl, hheld, rfl, rfl⟩))

/-- What a message does to a remote key. -/
theorem receive_remote (s : Keyboard κ) (rdpContext : Bool) (event : QKeyEvent) (down : Bool)
    (key : RemoteKey) :
    (s.receive (keyboardUnicodeEventSend rdpContext event down)).remote key =
      if remoteKey rdpContext event = some key then down else s.remote key := by
  cases hsend : keyboardUnicodeEventSend rdpContext event down with
  | none =>
      have hkey := send_key rdpContext event down
      rw [hsend, Option.map_none] at hkey
      rw [← hkey, if_neg (by simp)]
      rfl
  | some message =>
      rw [remoteKey_of_send hsend, Keyboard.receive, send_isDown hsend]
      simp only [Function.update_apply, Option.some.injEq, eq_comm]

theorem receive_held (s : Keyboard κ) (message : Option KeyboardMessage) :
    (s.receive message).held = s.held := by
  cases message <;> rfl

theorem receive_rdpContext (s : Keyboard κ) (message : Option KeyboardMessage) :
    (s.receive message).rdpContext = s.rdpContext := by
  cases message <;> rfl

theorem remoteKey_eq_some {rdpContext : Bool} :
    remoteKey rdpContext event = some key ↔
      rdpContext = true ∧ remoteKey true event = some key := by
  cases rdpContext with
  | false => simp [remoteKey]
  | true => simp

def HeldDown (s : Keyboard κ) : Prop :=
  ∀ key, s.remote key = true → s.rdpContext = true ∧
    ∃ physical pressed, s.held physical = some pressed ∧ remoteKey true pressed = some key

theorem heldDown_autoRepeat (h : HeldDown s) (hheld : s.held physical = some pressed)
    (hsame : SameKey pressed event) :
    HeldDown (s.receive (keyboardUnicodeEventSend s.rdpContext event true)) := by
  intro key hkey
  rw [receive_held, receive_rdpContext]
  rw [receive_remote] at hkey
  by_cases hevent : remoteKey s.rdpContext event = some key
  · obtain ⟨hcontext, hevent⟩ := remoteKey_eq_some.mp hevent
    exact ⟨hcontext, physical, pressed, hheld, (remoteKey_eq_of_sameKey hsame).trans hevent⟩
  · rw [if_neg hevent] at hkey
    exact h key hkey

theorem nothing_down (h : HeldDown s) (hup : ∀ physical : κ, s.held physical = none)
    (key : RemoteKey) : s.remote key = false := by
  by_contra hdown
  obtain ⟨-, physical, pressed, hheld, -⟩ := h key (by simpa using hdown)
  rw [hup physical] at hheld
  exact absurd hheld (by simp)

/-- The last press of a physical key in a trace, behind `u`, with what was sent for it. -/
def LastPress (t u : KeyTrace κ) (physical : κ) (pressed : QKeyEvent)
    (o : Option KeyboardMessage) : Prop :=
  ∃ v, t = u ++ (.press physical pressed, o) :: v ∧
    ∀ event o', (KeyInput.press physical event, o') ∉ v

theorem lastPress_snoc {u : KeyTrace κ} {i : KeyInput κ} {o o' : Option KeyboardMessage}
    (h : LastPress t u physical pressed o) (hi : ∀ event, i ≠ .press physical event) :
    LastPress (t ++ [(i, o')]) u physical pressed o := by
  obtain ⟨v, rfl, hv⟩ := h
  refine ⟨v ++ [(i, o')], by simp, fun event o'' hmem => ?_⟩
  rcases List.mem_append.mp hmem with hmem | hmem
  · exact hv event o'' hmem
  · exact hi event (Prod.mk.inj (List.mem_singleton.mp hmem)).1.symm

variable [DecidableEq κ]

theorem heldDown_press (h : HeldDown s) (hup : s.held physical = none) :
    HeldDown { s.receive (keyboardUnicodeEventSend s.rdpContext event true) with
      held := Function.update s.held physical (some event) } := by
  intro key hkey
  simp only [receive_remote] at hkey
  simp only [receive_rdpContext]
  by_cases hevent : remoteKey s.rdpContext event = some key
  · obtain ⟨hcontext, hevent⟩ := remoteKey_eq_some.mp hevent
    exact ⟨hcontext, physical, event, Function.update_self .., hevent⟩
  · rw [if_neg hevent] at hkey
    obtain ⟨hcontext, other, pressed, hheld, hpressed⟩ := h key hkey
    have hne : other ≠ physical := by
      rintro rfl
      rw [hup] at hheld
      exact absurd hheld (by simp)
    refine ⟨hcontext, other, pressed, ?_, hpressed⟩
    simp only [Function.update_of_ne hne, hheld]

theorem heldDown_release (h : HeldDown s) (hheld : s.held physical = some pressed)
    (hsame : SameKey pressed event) :
    HeldDown { s.receive (keyboardUnicodeEventSend s.rdpContext event false) with
      held := Function.update s.held physical none } := by
  intro key hkey
  simp only [receive_remote] at hkey
  simp only [receive_rdpContext]
  by_cases hevent : remoteKey s.rdpContext event = some key
  · rw [if_pos hevent] at hkey
    exact absurd hkey (by decide)
  · rw [if_neg hevent] at hkey
    obtain ⟨hcontext, other, pressed', hheld', hpressed⟩ := h key hkey
    -- Another key, as the released one was about the key that has gone up.
    have hne : other ≠ physical := by
      rintro rfl
      obtain rfl : pressed = pressed' := Option.some.inj (hheld.symm.trans hheld')
      have hkeyEvent := (remoteKey_eq_of_sameKey hsame).symm.trans hpressed
      exact hevent (remoteKey_eq_some.mpr ⟨hcontext, hkeyEvent⟩)
    refine ⟨hcontext, other, pressed', ?_, hpressed⟩
    simp only [Function.update_of_ne hne, hheld']

theorem heldDown_step (h : HeldDown s) {i : KeyInput κ} {o : Option KeyboardMessage}
    (hs : keyStep s i = some (s', o)) (hkeeps : KeepsKey s i) : HeldDown s' := by
  obtain ⟨rfl, rfl, rfl⟩ | ⟨physical, event, rfl, hup, rfl, rfl⟩ |
    ⟨physical, event, pressed, rfl, hheld, rfl, rfl⟩ |
    ⟨physical, event, pressed, rfl, hheld, rfl, rfl⟩ := keyStep_cases hs
  · exact fun key hkey => ⟨rfl, (h key hkey).2⟩
  · exact heldDown_press h hup
  · exact heldDown_autoRepeat h hheld (hkeeps pressed hheld)
  · exact heldDown_release h hheld (hkeeps pressed hheld)

def KeepsKeys (t : KeyTrace κ) : Prop :=
  ∀ u i o v s, t = u ++ (i, o) :: v → Execution keyStep .initial u s → KeepsKey s i

/-- Every release that is sent names the key that its physical key went down with, and that
was sent then unless the context was not set yet. -/
def ReleasesPaired (t : KeyTrace κ) : Prop :=
  ∀ u physical event message v, t = u ++ (.release physical event, some message) :: v →
    ∃ w pressed o, LastPress u w physical pressed o ∧ remoteKey true pressed = some message.key ∧
      (o.map KeyboardMessage.key = some message.key ∨
        o = none ∧ ∀ o', (KeyInput.setFreeRDPContext, o') ∉ w)

theorem keepsKeys_of_append {u v : KeyTrace κ} (h : KeepsKeys (u ++ v)) : KeepsKeys u := by
  intro u' i o v' s hu
  refine h u' i o (v' ++ v) s ?_
  rw [hu, List.append_assoc, List.cons_append]

theorem heldDown_of_execution (h : Execution keyStep .initial t s) (hkeeps : KeepsKeys t) :
    HeldDown s := by
  induction h with
  | nil => exact fun key hkey => absurd hkey (by simp [Keyboard.initial])
  | @snoc t s₁ s₂ i o ht hs ih =>
      exact heldDown_step (ih (keepsKeys_of_append hkeeps)) hs (hkeeps t i o [] s₁ rfl ht)

/-- The context is set once it has been set. -/
theorem rdpContext_of_mem (h : Execution keyStep .initial t s) {o : Option KeyboardMessage}
    (hmem : (KeyInput.setFreeRDPContext, o) ∈ t) : s.rdpContext = true := by
  induction h with
  | nil => exact absurd hmem List.not_mem_nil
  | @snoc t s₁ s₂ i o' ht hs ih =>
      obtain ⟨rfl, rfl, rfl⟩ | ⟨_, _, rfl, -, rfl, rfl⟩ | ⟨_, _, -, rfl, -, rfl, rfl⟩ |
        ⟨_, _, -, rfl, -, rfl, rfl⟩ := keyStep_cases hs
      · rfl
      all_goals
        have hold : (KeyInput.setFreeRDPContext, o) ∈ t := by simpa using hmem
        exact (receive_rdpContext _ _).trans (ih hold)

/-- A physical key is held with the event of its last press. -/
theorem held_lastPress (h : Execution keyStep .initial t s)
    (hheld : s.held physical = some pressed) : ∃ w o, LastPress t w physical pressed o := by
  induction h generalizing pressed with
  | nil => exact absurd hheld (by simp [Keyboard.initial])
  | @snoc t s₁ s₂ i o ht hs ih =>
      have hlater : s₁.held physical = some pressed → (∀ event, i ≠ .press physical event) →
          ∃ w o', LastPress (t ++ [(i, o)]) w physical pressed o' := by
        intro hold hi
        obtain ⟨w, o', hlast⟩ := ih hold
        exact ⟨w, o', lastPress_snoc hlast hi⟩
      obtain ⟨rfl, rfl, rfl⟩ | ⟨other, event, rfl, -, rfl, rfl⟩ |
        ⟨other, event, -, rfl, -, rfl, rfl⟩ | ⟨other, event, -, rfl, -, rfl, rfl⟩ :=
        keyStep_cases hs
      · exact hlater hheld fun _ heq => absurd heq (by simp)
      · by_cases hother : physical = other
        · subst hother
          simp only [Function.update_self, Option.some.injEq] at hheld
          subst hheld
          exact ⟨t, _, [], rfl, fun _ _ hmem => absurd hmem List.not_mem_nil⟩
        · simp only [Function.update_of_ne hother] at hheld
          refine hlater hheld fun event' heq => hother ?_
          exact (KeyInput.press.inj heq).1.symm
      · rw [receive_held] at hheld
        exact hlater hheld fun _ heq => absurd heq (by simp)
      · by_cases hother : physical = other
        · subst hother
          simp at hheld
        · simp only [Function.update_of_ne hother] at hheld
          exact hlater hheld fun _ heq => absurd heq (by simp)

/-- What was sent for the last press of a key. -/
theorem sent_for_press (h : Execution keyStep .initial t s) {w : KeyTrace κ}
    {o : Option KeyboardMessage} (hlast : LastPress t w physical pressed o)
    (hpressed : remoteKey true pressed = some key) :
    o.map KeyboardMessage.key = some key ∨
      o = none ∧ ∀ o', (KeyInput.setFreeRDPContext, o') ∉ w := by
  obtain ⟨v, rfl, -⟩ := hlast
  obtain ⟨s₁, s₂, hw, hs, -⟩ := h.at_event
  obtain ⟨hi, -⟩ | ⟨_, _, hi, -, rfl, -⟩ | ⟨_, _, -, hi, -⟩ | ⟨_, _, -, hi, -⟩ := keyStep_cases hs
  · exact absurd hi (by simp)
  · obtain ⟨rfl, rfl⟩ := KeyInput.press.inj hi
    cases hcontext : s₁.rdpContext with
    | true => exact .inl ((send_key true pressed true).trans hpressed)
    | false =>
        refine .inr ⟨rfl, fun o' hmem => ?_⟩
        rw [rdpContext_of_mem hw hmem] at hcontext
        cases hcontext
  · exact absurd hi (by simp)
  · exact absurd hi (by simp)

/-- A release that keeps the key of its press names that key. -/
theorem release_key (hs : keyStep s (.release physical event) = some (s', some message))
    (hkeeps : KeepsKey s (.release physical event)) :
    ∃ pressed, s.held physical = some pressed ∧ remoteKey true pressed = some message.key := by
  obtain ⟨hi, -⟩ | ⟨_, _, hi, -⟩ | ⟨_, _, _, hi, -⟩ | ⟨_, _, pressed, hi, hheld, hmessage, -⟩ :=
    keyStep_cases hs
  · exact absurd hi (by simp)
  · exact absurd hi (by simp)
  · exact absurd hi (by simp)
  obtain ⟨rfl, rfl⟩ := KeyInput.release.inj hi
  obtain ⟨-, hkey⟩ := remoteKey_eq_some.mp (remoteKey_of_send hmessage.symm)
  exact ⟨pressed, hheld, (remoteKey_eq_of_sameKey (hkeeps pressed hheld)).trans hkey⟩

theorem releasesPaired_of_keepsKeys (h : Execution keyStep .initial t s) (hkeeps : KeepsKeys t) :
    ReleasesPaired t := by
  intro u physical event message v ht
  rw [ht] at h
  obtain ⟨s₁, s₂, hu, hs, -⟩ := h.at_event
  obtain ⟨pressed, hheld, hkey⟩ :=
    release_key hs (hkeeps u (.release physical event) (some message) v s₁ ht hu)
  obtain ⟨w, o, hlast⟩ := held_lastPress hu hheld
  exact ⟨w, pressed, o, hlast, hkey, sent_for_press hu hlast hkey⟩

/-- Where the events of every physical key keep the key of its press, the remote keyboard
stays in step: releases name what was pressed, and nothing is down when all keys are up. -/
theorem no_stuck_keys (h : Execution keyStep .initial t s) (hkeeps : KeepsKeys t) :
    ReleasesPaired t ∧
      ((∀ physical : κ, s.held physical = none) → ∀ key, s.remote key = false) :=
  ⟨releasesPaired_of_keepsKeys h hkeeps, nothing_down (heldDown_of_execution h hkeeps)⟩

theorem SameKey.refl (event : QKeyEvent) : SameKey event event := ⟨rfl, fun _ => rfl⟩

/-- The condition is met where no modifier changes the key that a physical key is. -/
theorem keepsKeys_of_layout (layout : κ → QKeyEvent)
    (h : ∀ ev ∈ t, ∀ physical event, ev.1.keyEvent = some (physical, event) →
      SameKey (layout physical) event) : KeepsKeys t := by
  intro u i o v s ht hu
  have hkey : ∀ physical event pressed, i.keyEvent = some (physical, event) →
      s.held physical = some pressed → SameKey pressed event := by
    intro physical event pressed hi hheld
    obtain ⟨w, o', u', rfl, -⟩ := held_lastPress hu hheld
    have hpress : SameKey (layout physical) pressed := by
      refine h (.press physical pressed, o') ?_ physical pressed rfl
      rw [ht]
      simp
    have hevent : SameKey (layout physical) event := by
      refine h (i, o) ?_ physical event hi
      rw [ht]
      simp
    rw [sameKey_iff] at hpress hevent ⊢
    exact hpress.symm.trans hevent
  cases i with
  | setFreeRDPContext => trivial
  | press physical event => trivial
  | autoRepeat physical event => exact fun pressed hheld => hkey physical event pressed rfl hheld
  | release physical event => exact fun pressed hheld => hkey physical event pressed rfl hheld

theorem keyStep_press (hup : s.held physical = none) (event : QKeyEvent) :
    keyStep s (.press physical event) =
      some ({ s.receive (keyboardUnicodeEventSend s.rdpContext event true) with
          held := Function.update s.held physical (some event) },
        keyboardUnicodeEventSend s.rdpContext event true) := by
  simp only [keyStep]
  exact if_pos hup

theorem keyStep_release (hheld : s.held physical = some pressed) (event : QKeyEvent) :
    keyStep s (.release physical event) =
      some ({ s.receive (keyboardUnicodeEventSend s.rdpContext event false) with
          held := Function.update s.held physical none },
        keyboardUnicodeEventSend s.rdpContext event false) := by
  simp only [keyStep]
  exact if_neg (by simp [hheld])

def Keyboard.connected : Keyboard κ := { Keyboard.initial with rdpContext := true }

def pressRelease (physical : κ) (pressed event : QKeyEvent) : KeyTrace κ :=
  [(.setFreeRDPContext, none),
    (.press physical pressed, keyboardUnicodeEventSend true pressed true),
    (.release physical event, keyboardUnicodeEventSend true event false)]

omit [DecidableEq κ] in
theorem remoteKey_of_releasesPaired
    (hsend : keyboardUnicodeEventSend true event false = some message)
    (h : ReleasesPaired (pressRelease physical pressed event)) :
    remoteKey true pressed = remoteKey true event := by
  rw [pressRelease, hsend] at h
  obtain ⟨w, pressed', o, ⟨v, hu, -⟩, hkey, -⟩ :=
    h [(.setFreeRDPContext, none), (.press physical pressed, _)] physical event message [] rfl
  have hmem : (KeyInput.press physical pressed', o) ∈
      [(.setFreeRDPContext, none),
        (.press physical pressed, keyboardUnicodeEventSend true pressed true)] := by
    rw [hu]
    simp
  obtain rfl : pressed' = pressed := by
    simp only [List.mem_cons, Prod.mk.injEq, reduceCtorEq, false_and, List.not_mem_nil, or_false,
      false_or, KeyInput.press.injEq, true_and] at hmem
    exact hmem.1
  rw [hkey, remoteKey_of_send hsend]

/-- A single key that goes down and up leaves the remote keyboard in step if and only if
its two events are about one key. -/
theorem press_release_in_step_iff (physical : κ) (pressed event : QKeyEvent) :
    ∃ s, Execution keyStep .initial (pressRelease physical pressed event) s ∧
      ((ReleasesPaired (pressRelease physical pressed event) ∧ ∀ key, s.remote key = false) ↔
        SameKey pressed event) := by
  have hup : (Keyboard.connected : Keyboard κ).held physical = none := rfl
  have hpress := keyStep_press hup pressed
  set s₁ : Keyboard κ :=
    { (Keyboard.connected : Keyboard κ).receive (keyboardUnicodeEventSend true pressed true) with
      held := Function.update (Keyboard.connected : Keyboard κ).held physical (some pressed) }
    with hs₁
  have hcontext : s₁.rdpContext = true := receive_rdpContext _ _
  have hheld : s₁.held physical = some pressed := Function.update_self ..
  have hrelease := keyStep_release hheld event
  rw [hcontext] at hrelease
  set s₂ : Keyboard κ :=
    { s₁.receive (keyboardUnicodeEventSend true event false) with
      held := Function.update s₁.held physical none } with hs₂
  have hrun : Execution keyStep .initial (pressRelease physical pressed event) s₂ :=
    .cons rfl (.cons hpress (.single hrelease))
  have hremote : ∀ key, s₂.remote key =
      if remoteKey true event = some key then false
      else if remoteKey true pressed = some key then true else false := by
    intro key
    simp only [hs₂, hs₁, receive_remote, Keyboard.connected, Keyboard.initial]
  refine ⟨s₂, hrun, ?_, ?_⟩
  · rintro ⟨hpaired, hdown⟩
    rw [sameKey_iff]
    cases hsend : keyboardUnicodeEventSend true event false with
    | some message => exact remoteKey_of_releasesPaired hsend hpaired
    | none =>
        have hevent : remoteKey true event = none := by
          rw [← send_key true event false, hsend, Option.map_none]
        cases hkey : remoteKey true pressed with
        | none => exact hevent.symm
        | some key =>
            -- Nothing is sent for the release, and the key would still be down.
            have hstuck := hdown key
            rw [hremote, hevent, if_neg (by simp), if_pos hkey] at hstuck
            exact absurd hstuck (by decide)
  · intro hsame
    have hkeeps : KeepsKeys (pressRelease physical pressed event) := by
      apply keepsKeys_of_layout fun _ => pressed
      intro ev hev other event' hevent
      simp only [pressRelease, List.mem_cons, List.not_mem_nil, or_false] at hev
      rcases hev with rfl | rfl | rfl
      · cases hevent
      · cases hevent
        exact .refl pressed
      · cases hevent
        exact hsame
    refine ⟨releasesPaired_of_keepsKeys hrun hkeeps, ?_⟩
    apply nothing_down (heldDown_of_execution hrun hkeeps)
    intro other
    simp only [hs₂, hs₁, Keyboard.connected, Keyboard.initial, Function.update_idem]
    by_cases hother : other = physical
    · rw [hother, Function.update_self]
    · rw [Function.update_of_ne hother]

def digitOne : QKeyEvent := ⟨.key1, false, ofAscii "1", false⟩

def exclam : QKeyEvent := ⟨.other 0x21, false, ofAscii "!", false⟩

def shift : QKeyEvent := ⟨.keyShift, false, [], false⟩

/-- Shift goes down and up while the digit is held; the digit goes up as a digit. -/
theorem no_stuck_keys_digit : ∃ s : Keyboard ℕ,
    Execution keyStep .initial
        [(.setFreeRDPContext, none),
          (.press 0 digitOne, some (.scancode true false .key1)),
          (.press 1 shift, some (.scancode true false .lshift)),
          (.release 1 shift, some (.scancode false false .lshift)),
          (.release 0 digitOne, some (.scancode false false .key1))] s ∧
      ((∀ physical : ℕ, s.held physical = none) → ∀ key, s.remote key = false) := by
  have hrun : Execution keyStep (.initial : Keyboard ℕ)
      [(.setFreeRDPContext, none),
        (.press 0 digitOne, some (.scancode true false .key1)),
        (.press 1 shift, some (.scancode true false .lshift)),
        (.release 1 shift, some (.scancode false false .lshift)),
        (.release 0 digitOne, some (.scancode false false .key1))] _ :=
    .cons rfl (.cons (keyStep_press rfl digitOne) (.cons (keyStep_press rfl shift)
      (.cons (keyStep_release rfl shift) (.single (keyStep_release rfl digitOne)))))
  refine ⟨_, hrun, (no_stuck_keys hrun ?_).2⟩
  apply keepsKeys_of_layout fun physical => if physical = 0 then digitOne else shift
  intro ev hev physical event hevent
  simp only [List.mem_cons, List.not_mem_nil, or_false] at hev
  rcases hev with rfl | rfl | rfl | rfl | rfl <;> cases hevent <;> exact .refl _

/-- The digit goes up while Shift is held, and so as an exclamation mark. The server is
told that a character goes up, and keeps the digit down. -/
theorem released_as_exclam_stays_down : ∃ s : Keyboard ℕ,
    Execution keyStep .initial
        [(.setFreeRDPContext, none),
          (.press 0 digitOne, some (.scancode true false .key1)),
          (.press 1 shift, some (.scancode true false .lshift)),
          (.release 0 exclam, some (.unicode kbdFlagsRelease 0x21)),
          (.release 1 shift, some (.scancode false false .lshift))] s ∧
      (∀ physical : ℕ, s.held physical = none) ∧ s.remote (.scancode .key1) = true := by
  refine ⟨_, .cons rfl (.cons (keyStep_press rfl digitOne) (.cons (keyStep_press rfl shift)
    (.cons (keyStep_release rfl exclam) (.single (keyStep_release rfl shift))))), ?_, rfl⟩
  intro physical
  simp only [Keyboard.initial, Function.update_apply]
  split_ifs <;> rfl

end QfClient
