import QfClient.Scaling
import Mathlib.Data.Rat.Floor

/-!
# Pointer events

The handlers of presses, releases, moves and the wheel take a position of Qt to
coordinates of the desktop and send these with the flags of the event. A `qreal` is an
exact rational.
-/

namespace QfClient

open Scaling

structure QPointF where
  x : ℚ
  y : ℚ

inductive MouseButton where
  | left | right | middle
  | other (button : ℕ)
  deriving DecidableEq, Repr

structure QMouseEvent where
  button : MouseButton
  position : QPointF

/-- `angleDeltaY` is `angleDelta().y()`. -/
structure QWheelEvent where
  angleDeltaY : Int32
  position : QPointF

abbrev ItemSize := {size : ℚ // 0 < size}

abbrev DesktopSize := {size : UInt32 // 0 < size.toNat ∧ size.toNat ≤ 65535}

structure RdpSettings where
  desktopWidth : DesktopSize
  desktopHeight : DesktopSize

/-- `rdpContext` is `m_rdpContext` with the settings behind it, if it is not null. -/
structure RdpViewItem where
  width : ItemSize
  height : ItemSize
  rdpContext : Option RdpSettings

structure MouseMessage where
  flags : UInt16
  x : UInt16
  y : UInt16
  deriving DecidableEq, Repr

/-- What a handler sends: nothing at all where its behaviour is undefined, and no message
without a context. -/
abbrev Sent := Option (Option MouseMessage)

def ptrFlagsWheelNegative : UInt16 := 0x0100
def ptrFlagsWheel : UInt16 := 0x0200
def ptrFlagsMove : UInt16 := 0x0800
def ptrFlagsButton1 : UInt16 := 0x1000
def ptrFlagsButton2 : UInt16 := 0x2000
def ptrFlagsDown : UInt16 := 0x8000
def wheelRotationMask : UInt16 := 0x01FF

/-- The conversion of a `qreal` to `uint32_t` drops the fraction; it is undefined where the
rest is no `uint32_t`. -/
def uint32OfQreal (q : ℚ) : Option UInt32 :=
  if 0 ≤ truncate q ∧ truncate q < 2 ^ 32 then some (UInt32.ofNat (truncate q).toNat) else none

/-- `mouse_x * host_w / width()`, with the product of two `uint32_t`. -/
def mapCoordinate (mouse : UInt32) (host : DesktopSize) (size : ItemSize) : Option UInt32 :=
  uint32OfQreal ((mouse * host.val).toNat / size.val)

def mouseEventScaleSend (view : RdpViewItem) (mouseX mouseY : UInt32)
    (freerdpMouseEvent : UInt16) : Sent :=
  match view.rdpContext with
  | none => some none
  | some settings => do
      let mapX ← mapCoordinate mouseX settings.desktopWidth view.width
      let mapY ← mapCoordinate mouseY settings.desktopHeight view.height
      some (some ⟨freerdpMouseEvent, mapX.toUInt16, mapY.toUInt16⟩)

def sendAt (view : RdpViewItem) (position : QPointF) (flags : UInt16) : Sent := do
  let mouseX ← uint32OfQreal position.x
  let mouseY ← uint32OfQreal position.y
  mouseEventScaleSend view mouseX mouseY flags

def mousePressEvent (view : RdpViewItem) (event : QMouseEvent) : Sent :=
  sendAt view event.position
    (if event.button = .left then ptrFlagsButton1 ||| ptrFlagsDown
      else ptrFlagsButton2 ||| ptrFlagsDown)

def mouseReleaseEvent (view : RdpViewItem) (event : QMouseEvent) : Sent :=
  sendAt view event.position
    (if event.button = .left then ptrFlagsButton1 else ptrFlagsButton2)

def mouseMoveEvent (view : RdpViewItem) (event : QMouseEvent) : Sent :=
  sendAt view event.position ptrFlagsMove

/-- The flags of `wheelEvent`; the sign of the least `int` cannot be changed. -/
def wheelFlags (delta : Int32) : Option UInt16 :=
  if delta < 0 then
    if delta = Int32.minValue then none
    else some (ptrFlagsWheel ||| ptrFlagsWheelNegative |||
      ((-delta).toUInt32.toUInt16 &&& wheelRotationMask))
  else some (ptrFlagsWheel ||| (delta.toUInt32.toUInt16 &&& wheelRotationMask))

theorem wheelFlags_eq_none_iff (delta : Int32) :
    wheelFlags delta = none ↔ delta = Int32.minValue := by
  unfold wheelFlags
  split_ifs with hneg hmin
  · exact iff_of_true rfl hmin
  · exact iff_of_false id hmin
  · refine iff_of_false id ?_
    rintro rfl
    exact hneg (by decide)

def wheelEvent (view : RdpViewItem) (event : QWheelEvent) : Sent := do
  let flags ← wheelFlags event.angleDeltaY
  sendAt view event.position flags

inductive PointerEvent where
  | press (event : QMouseEvent)
  | release (event : QMouseEvent)
  | move (event : QMouseEvent)
  | wheel (event : QWheelEvent)

namespace PointerEvent

def position : PointerEvent → QPointF
  | .press event | .release event | .move event => event.position
  | .wheel event => event.position

def handle (view : RdpViewItem) : PointerEvent → Sent
  | .press event => mousePressEvent view event
  | .release event => mouseReleaseEvent view event
  | .move event => mouseMoveEvent view event
  | .wheel event => wheelEvent view event

def Negatable : PointerEvent → Prop
  | .wheel event => event.angleDeltaY ≠ Int32.minValue
  | _ => True

/-- A handler sends what the position makes of some flags, unless the flags are undefined. -/
theorem handle_eq (view : RdpViewItem) (event : PointerEvent) :
    (event.Negatable ∧ ∃ flags, event.handle view = sendAt view event.position flags) ∨
      (¬ event.Negatable ∧ event.handle view = none) := by
  cases event with
  | press event => exact .inl ⟨trivial, _, rfl⟩
  | release event => exact .inl ⟨trivial, _, rfl⟩
  | move event => exact .inl ⟨trivial, _, rfl⟩
  | wheel event =>
      cases hflags : wheelFlags event.angleDeltaY with
      | none =>
          have hmin := (wheelFlags_eq_none_iff _).mp hflags
          refine .inr ⟨fun hne => hne hmin, ?_⟩
          rw [handle, wheelEvent, hflags]
          rfl
      | some flags =>
          have hne : event.angleDeltaY ≠ Int32.minValue := by
            intro hmin
            rw [(wheelFlags_eq_none_iff _).mpr hmin] at hflags
            cases hflags
          refine .inl ⟨hne, flags, ?_⟩
          rw [handle, wheelEvent, hflags]
          rfl

end PointerEvent

end QfClient
