import QfClient.Basic

/-!
# The keyboard

`keyboardUnicodeEventSend` translates each key event by itself, through two tables and
with the text of the event where the tables have nothing.
-/

namespace QfClient

open Qt

/-- The keys of `Qt::Key` that the tables name, and all the others. -/
inductive QtKey where
  | keyEscape | keyTab | keyBacktab | keyBackspace | keyReturn | keyEnter | keySpace | key0
  | key1 | key2 | key3 | key4 | key5 | key6 | key7 | key8 | key9 | keyA | keyB | keyC | keyD
  | keyE | keyF | keyG | keyH | keyI | keyJ | keyK | keyL | keyM | keyN | keyO | keyP | keyQ
  | keyR | keyS | keyT | keyU | keyV | keyW | keyX | keyY | keyZ | keyMinus | keyEqual
  | keyBracketLeft | keyBracketRight | keyBackslash | keySemicolon | keyApostrophe | keyQuoteLeft
  | keyComma | keyPeriod | keySlash | keyPlus | keyAsterisk | keyShift | keyControl | keyAlt
  | keyMeta | keyCapsLock | keyNumLock | keyScrollLock | keyLeft | keyRight | keyUp | keyDown
  | keyInsert | keyDelete | keyHome | keyEnd | keyPageUp | keyPageDown | keyF1 | keyF2 | keyF3
  | keyF4 | keyF5 | keyF6 | keyF7 | keyF8 | keyF9 | keyF10 | keyF11 | keyF12
  | other (key : ℕ)
  deriving DecidableEq, Repr

inductive RdpScancode where
  | unknown | escape | tab | backspace | returnKey | returnKp | space | key0 | key1 | key2 | key3
  | key4 | key5 | key6 | key7 | key8 | key9 | keyA | keyB | keyC | keyD | keyE | keyF | keyG
  | keyH | keyI | keyJ | keyK | keyL | keyM | keyN | keyO | keyP | keyQ | keyR | keyS | keyT
  | keyU | keyV | keyW | keyX | keyY | keyZ | oemMinus | oemPlus | oem4 | oem6 | oem5 | oem1
  | oem7 | oem3 | oemComma | oemPeriod | oem2 | lshift | lcontrol | lmenu | lwin | capslock
  | numlock | scrolllock | left | right | up | down | insert | delete | home | endKey | prior
  | next | f1 | f2 | f3 | f4 | f5 | f6 | f7 | f8 | f9 | f10 | f11 | f12 | numpad0 | numpad1
  | numpad2 | numpad3 | numpad4 | numpad5 | numpad6 | numpad7 | numpad8 | numpad9 | add
  | subtract | multiply | divide | decimal
  deriving DecidableEq, Repr

/-- `keypad` is the keypad modifier. -/
structure QKeyEvent where
  key : QtKey
  keypad : Bool
  text : QString
  isAutoRepeat : Bool
  deriving DecidableEq, Repr

def keypadScancode : QtKey → Option RdpScancode
  | .key0 => some .numpad0
  | .key1 => some .numpad1
  | .key2 => some .numpad2
  | .key3 => some .numpad3
  | .key4 => some .numpad4
  | .key5 => some .numpad5
  | .key6 => some .numpad6
  | .key7 => some .numpad7
  | .key8 => some .numpad8
  | .key9 => some .numpad9
  | .keyPlus => some .add
  | .keyMinus => some .subtract
  | .keyAsterisk => some .multiply
  | .keySlash => some .divide
  | .keyPeriod => some .decimal
  | .keyEnter => some .returnKp
  | _ => none

def keyScancode : QtKey → RdpScancode
  | .keyEscape => .escape
  | .keyTab => .tab
  | .keyBacktab => .tab
  | .keyBackspace => .backspace
  | .keyReturn => .returnKey
  | .keyEnter => .returnKp
  | .keySpace => .space
  | .key0 => .key0
  | .key1 => .key1
  | .key2 => .key2
  | .key3 => .key3
  | .key4 => .key4
  | .key5 => .key5
  | .key6 => .key6
  | .key7 => .key7
  | .key8 => .key8
  | .key9 => .key9
  | .keyA => .keyA
  | .keyB => .keyB
  | .keyC => .keyC
  | .keyD => .keyD
  | .keyE => .keyE
  | .keyF => .keyF
  | .keyG => .keyG
  | .keyH => .keyH
  | .keyI => .keyI
  | .keyJ => .keyJ
  | .keyK => .keyK
  | .keyL => .keyL
  | .keyM => .keyM
  | .keyN => .keyN
  | .keyO => .keyO
  | .keyP => .keyP
  | .keyQ => .keyQ
  | .keyR => .keyR
  | .keyS => .keyS
  | .keyT => .keyT
  | .keyU => .keyU
  | .keyV => .keyV
  | .keyW => .keyW
  | .keyX => .keyX
  | .keyY => .keyY
  | .keyZ => .keyZ
  | .keyMinus => .oemMinus
  | .keyEqual => .oemPlus
  | .keyBracketLeft => .oem4
  | .keyBracketRight => .oem6
  | .keyBackslash => .oem5
  | .keySemicolon => .oem1
  | .keyApostrophe => .oem7
  | .keyQuoteLeft => .oem3
  | .keyComma => .oemComma
  | .keyPeriod => .oemPeriod
  | .keySlash => .oem2
  | .keyShift => .lshift
  | .keyControl => .lcontrol
  | .keyAlt => .lmenu
  | .keyMeta => .lwin
  | .keyCapsLock => .capslock
  | .keyNumLock => .numlock
  | .keyScrollLock => .scrolllock
  | .keyLeft => .left
  | .keyRight => .right
  | .keyUp => .up
  | .keyDown => .down
  | .keyInsert => .insert
  | .keyDelete => .delete
  | .keyHome => .home
  | .keyEnd => .endKey
  | .keyPageUp => .prior
  | .keyPageDown => .next
  | .keyF1 => .f1
  | .keyF2 => .f2
  | .keyF3 => .f3
  | .keyF4 => .f4
  | .keyF5 => .f5
  | .keyF6 => .f6
  | .keyF7 => .f7
  | .keyF8 => .f8
  | .keyF9 => .f9
  | .keyF10 => .f10
  | .keyF11 => .f11
  | .keyF12 => .f12
  | _ => .unknown

def toFreerdpKeyCode (event : QKeyEvent) : RdpScancode :=
  if event.keypad then (keypadScancode event.key).getD (keyScancode event.key)
  else keyScancode event.key

def kbdFlagsRelease : UInt16 := 0x8000

/-- What is sent to the server: `freerdp_input_send_unicode_keyboard_event` and
`freerdp_input_send_keyboard_event_ex`. -/
inductive KeyboardMessage where
  | unicode (flags code : UInt16)
  | scancode (down isRepeat : Bool) (code : RdpScancode)
  deriving DecidableEq, Repr

/-- `rdpContext` says that `m_rdpContext` is set. -/
def keyboardUnicodeEventSend (rdpContext : Bool) (event : QKeyEvent) (down : Bool) :
    Option KeyboardMessage :=
  if rdpContext = false then none
  else if toFreerdpKeyCode event = .unknown then
    event.text.head?.map (.unicode (if down then 0 else kbdFlagsRelease))
  else some (.scancode down (down && event.isAutoRepeat) (toFreerdpKeyCode event))

inductive RemoteKey where
  | scancode (code : RdpScancode)
  | unicode (code : UInt16)
  deriving DecidableEq, Repr

def KeyboardMessage.key : KeyboardMessage → RemoteKey
  | .unicode _ code => .unicode code
  | .scancode _ _ code => .scancode code

def KeyboardMessage.isDown : KeyboardMessage → Bool
  | .unicode flags _ => flags &&& kbdFlagsRelease = 0
  | .scancode down _ _ => down

/-- The translations agree: the same scancode, or no scancode and the same first unit of
the text. -/
def SameKey (pressed event : QKeyEvent) : Prop :=
  toFreerdpKeyCode pressed = toFreerdpKeyCode event ∧
    (toFreerdpKeyCode pressed = .unknown → pressed.text.head? = event.text.head?)

variable {rdpContext down : Bool} {event pressed : QKeyEvent} {message : KeyboardMessage}

def remoteKey (rdpContext : Bool) (event : QKeyEvent) : Option RemoteKey :=
  if rdpContext = false then none
  else if toFreerdpKeyCode event = .unknown then event.text.head?.map .unicode
  else some (.scancode (toFreerdpKeyCode event))

theorem send_key (rdpContext : Bool) (event : QKeyEvent) (down : Bool) :
    (keyboardUnicodeEventSend rdpContext event down).map KeyboardMessage.key =
      remoteKey rdpContext event := by
  unfold keyboardUnicodeEventSend remoteKey
  by_cases hcontext : rdpContext = false
  · rw [if_pos hcontext, if_pos hcontext]
    rfl
  rw [if_neg hcontext, if_neg hcontext]
  by_cases hunknown : toFreerdpKeyCode event = .unknown
  · rw [if_pos hunknown, if_pos hunknown, Option.map_map]
    rfl
  · rw [if_neg hunknown, if_neg hunknown]
    rfl

theorem send_isDown (h : keyboardUnicodeEventSend rdpContext event down = some message) :
    message.isDown = down := by
  unfold keyboardUnicodeEventSend at h
  by_cases hcontext : rdpContext = false
  · rw [if_pos hcontext] at h
    exact absurd h (by simp)
  rw [if_neg hcontext] at h
  by_cases hunknown : toFreerdpKeyCode event = .unknown
  · rw [if_pos hunknown] at h
    obtain ⟨unit, -, rfl⟩ := Option.map_eq_some_iff.mp h
    cases down <;> rfl
  · rw [if_neg hunknown] at h
    obtain rfl := Option.some.inj h
    rfl

theorem remoteKey_of_send (h : keyboardUnicodeEventSend rdpContext event down = some message) :
    remoteKey rdpContext event = some message.key := by
  rw [← send_key rdpContext event down, h, Option.map_some]

theorem remoteKey_eq_of_sameKey (h : SameKey pressed event) :
    remoteKey rdpContext pressed = remoteKey rdpContext event := by
  obtain ⟨hcode, htext⟩ := h
  unfold remoteKey
  rw [← hcode]
  split_ifs with hcontext hunknown
  · rfl
  · rw [htext hunknown]
  · rfl

/-- The condition on two events is that they are about one key. -/
theorem sameKey_iff : SameKey pressed event ↔ remoteKey true pressed = remoteKey true event := by
  constructor
  · exact remoteKey_eq_of_sameKey
  · intro h
    have hcontext : ¬ true = false := by decide
    rw [remoteKey, remoteKey, if_neg hcontext, if_neg hcontext] at h
    by_cases hpressed : toFreerdpKeyCode pressed = .unknown
    · rw [if_pos hpressed] at h
      by_cases hevent : toFreerdpKeyCode event = .unknown
      · rw [if_pos hevent] at h
        refine ⟨hpressed.trans hevent.symm, fun _ => ?_⟩
        exact Option.map_injective (fun _ _ hunits => RemoteKey.unicode.inj hunits) h
      · rw [if_neg hevent] at h
        obtain ⟨unit, -, hunit⟩ := Option.map_eq_some_iff.mp h
        exact absurd hunit (by simp)
    · rw [if_neg hpressed] at h
      by_cases hevent : toFreerdpKeyCode event = .unknown
      · rw [if_pos hevent] at h
        obtain ⟨unit, -, hunit⟩ := Option.map_eq_some_iff.mp h.symm
        exact absurd hunit (by simp)
      · rw [if_neg hevent] at h
        exact ⟨RemoteKey.scancode.inj (Option.some.inj h), fun hunknown => absurd hunknown hpressed⟩

end QfClient
