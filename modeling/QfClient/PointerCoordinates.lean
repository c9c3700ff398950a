import QfClient.Pointer

/-!
# Coordinates on the desktop

A position is taken to the desktop without a wrap and onto the desktop if and only if what
remains of it without its fraction is neither negative nor at the end of the item, and
the product with the length of the desktop fits into 32 bits. Nothing keeps other positions
out: the mouse grab of a pressed button delivers them too.
-/

namespace QfClient

open Scaling

theorem uint32OfQreal_eq_some_iff {q : ℚ} {u : UInt32} :
    uint32OfQreal q = some u ↔ (u.toNat : ℤ) = truncate q := by
  have hlt := u.toNat_lt
  unfold uint32OfQreal
  split_ifs with hrange
  · rw [Option.some_inj, ← UInt32.toNat_inj, UInt32.toNat_ofNat', Nat.mod_eq_of_lt (by omega)]
    omega
  · refine iff_of_false id ?_
    omega

theorem toNat_ofNat_toNat {z : ℤ} (hnonneg : 0 ≤ z) (hlt : z < 2 ^ 32) :
    ((UInt32.ofNat z.toNat).toNat : ℤ) = z := by
  rw [UInt32.toNat_ofNat', Nat.mod_eq_of_lt (by omega)]
  exact Int.toNat_of_nonneg hnonneg

section Axis

variable {size : ItemSize} {host : DesktopSize} {position position' : ℚ} {map map' : UInt32}

def mapPosition (size : ItemSize) (host : DesktopSize) (position : ℚ) : Option UInt32 :=
  (uint32OfQreal position).bind fun mouse => mapCoordinate mouse host size

def scaledPosition (size : ItemSize) (host : DesktopSize) (position : ℚ) : ℤ :=
  ⌊(truncate position : ℚ) * (host.val.toNat : ℤ) / size.val⌋

/-- `map` is computed for the position without a wrap, lies on the desktop, and is the
scaled position inside the item. -/
structure AxisCorrect (size : ItemSize) (host : DesktopSize) (position : ℚ) (map : UInt32) :
    Prop where
  mapped : mapPosition size host position = some map
  conversion : 0 ≤ truncate position ∧ truncate position < 2 ^ 32
  product : truncate position * host.val.toNat < 2 ^ 32
  onDesktop : map.toNat < host.val.toNat
  scaled : 0 ≤ position → position < size → (map.toNat : ℤ) = scaledPosition size host position

structure AxisInside (size : ItemSize) (host : DesktopSize) (position : ℚ) : Prop where
  start : -1 < position
  beforeEnd : (truncate position : ℚ) < size
  product : truncate position * host.val.toNat < 2 ^ 32

theorem mapCoordinate_eq_some_iff {mouse : UInt32} (h : mouse.toNat * host.val.toNat < 2 ^ 32) :
    mapCoordinate mouse host size = some map ↔
      (map.toNat : ℤ) = ⌊((mouse.toNat : ℤ) : ℚ) * (host.val.toNat : ℤ) / size.val⌋ := by
  have hproduct : (mouse * host.val).toNat = mouse.toNat * host.val.toNat := by
    rw [UInt32.toNat_mul, Nat.mod_eq_of_lt h]
  have hnonneg : (0 : ℚ) ≤ (mouse.toNat * host.val.toNat : ℕ) / size.val :=
    div_nonneg (Nat.cast_nonneg _) size.property.le
  rw [mapCoordinate, uint32OfQreal_eq_some_iff, hproduct, truncate_of_nonneg hnonneg]
  push_cast
  rfl

theorem truncate_lt_of_product (hnonneg : 0 ≤ truncate position)
    (hproduct : truncate position * host.val.toNat < 2 ^ 32) : truncate position < 2 ^ 32 := by
  have hhost : (1 : ℤ) ≤ host.val.toNat := by exact_mod_cast host.property.1
  exact (le_mul_of_one_le_right hnonneg hhost).trans_lt hproduct

/-- Where nothing wraps, the code computes the scaled position. -/
theorem mapPosition_eq_some_iff (hnonneg : 0 ≤ truncate position)
    (hproduct : truncate position * host.val.toNat < 2 ^ 32) :
    mapPosition size host position = some map ↔
      (map.toNat : ℤ) = scaledPosition size host position := by
  have hlt := truncate_lt_of_product hnonneg hproduct
  have hmouse := toNat_ofNat_toNat hnonneg hlt
  have hwrap : (UInt32.ofNat (truncate position).toNat).toNat * host.val.toNat < 2 ^ 32 := by
    rw [← hmouse] at hproduct
    exact_mod_cast hproduct
  rw [mapPosition, uint32OfQreal_eq_some_iff.mpr hmouse, Option.bind_some,
    mapCoordinate_eq_some_iff hwrap, hmouse, scaledPosition]

theorem scaledPosition_lt_iff :
    scaledPosition size host position < host.val.toNat ↔ (truncate position : ℚ) < size :=
  floor_scale_lt_iff size.property (by exact_mod_cast host.property.1)

theorem scaledPosition_mono (h : position ≤ position') :
    scaledPosition size host position ≤ scaledPosition size host position' := by
  apply floor_scale_mono size.property (by positivity)
  exact_mod_cast truncate_mono h

theorem scaledPosition_nonneg (h : 0 ≤ truncate position) :
    0 ≤ scaledPosition size host position := by
  have hposition : (0 : ℚ) ≤ truncate position := by exact_mod_cast h
  have hsize := size.property.le
  exact Int.floor_nonneg.mpr (by positivity)

namespace AxisCorrect

theorem toNat_eq (h : AxisCorrect size host position map) :
    (map.toNat : ℤ) = scaledPosition size host position :=
  (mapPosition_eq_some_iff h.conversion.1 h.product).mp h.mapped

theorem inside (h : AxisCorrect size host position map) : AxisInside size host position where
  start := truncate_nonneg_iff.mp h.conversion.1
  beforeEnd := by
    have hlt : scaledPosition size host position < host.val.toNat := by
      rw [← h.toNat_eq]
      exact_mod_cast h.onDesktop
    exact scaledPosition_lt_iff.mp hlt
  product := h.product

theorem mono (h : AxisCorrect size host position map) (h' : AxisCorrect size host position' map')
    (hle : position ≤ position') : map.toNat ≤ map'.toNat := by
  have hscaled : scaledPosition size host position ≤ scaledPosition size host position' :=
    scaledPosition_mono hle
  rw [← h.toNat_eq, ← h'.toNat_eq] at hscaled
  exact_mod_cast hscaled

/-- The coordinate keeps its value when it is passed on with 16 bits. -/
theorem toNat_toUInt16 (h : AxisCorrect size host position map) :
    map.toUInt16.toNat = map.toNat := by
  have hdesktop := h.onDesktop
  have hhost := host.property.2
  rw [UInt32.toNat_toUInt16, Nat.mod_eq_of_lt (by omega)]

end AxisCorrect

theorem AxisInside.exists_correct (h : AxisInside size host position) :
    ∃ map, AxisCorrect size host position map := by
  have hnonneg : 0 ≤ truncate position := truncate_nonneg_iff.mpr h.start
  have hproduct := h.product
  have hbound := host.property.2
  have hlt : scaledPosition size host position < host.val.toNat :=
    scaledPosition_lt_iff.mpr h.beforeEnd
  have hscaled : 0 ≤ scaledPosition size host position := scaledPosition_nonneg hnonneg
  have hmap := toNat_ofNat_toNat hscaled (by omega)
  refine ⟨UInt32.ofNat (scaledPosition size host position).toNat, ?_⟩
  exact {
    mapped := (mapPosition_eq_some_iff hnonneg hproduct).mpr hmap
    conversion := ⟨hnonneg, truncate_lt_of_product hnonneg hproduct⟩
    product := hproduct
    onDesktop := by omega
    scaled := fun _ _ => hmap }

/-- The product fits for every item that is no longer than the largest desktop. -/
theorem AxisInside.of_size_le (hsize : size.val ≤ 65537) (hstart : -1 < position)
    (hend : (truncate position : ℚ) < size) : AxisInside size host position := by
  refine ⟨hstart, hend, ?_⟩
  have hlt : truncate position < 65537 := by exact_mod_cast hend.trans_le hsize
  have hbound : (host.val.toNat : ℤ) ≤ 65535 := by exact_mod_cast host.property.2
  calc truncate position * host.val.toNat
      ≤ 65536 * host.val.toNat := by gcongr; omega
    _ < 2 ^ 32 := by omega

end Axis

section Messages

variable {width height : ItemSize} {settings : RdpSettings}

theorem sendAt_eq_some_iff {position : QPointF} {flags : UInt16} {message : MouseMessage} :
    sendAt ⟨width, height, some settings⟩ position flags = some (some message) ↔
      ∃ mapX mapY, mapPosition width settings.desktopWidth position.x = some mapX ∧
        mapPosition height settings.desktopHeight position.y = some mapY ∧
        message = ⟨flags, mapX.toUInt16, mapY.toUInt16⟩ := by
  cases hx : uint32OfQreal position.x with
  | none => simp [sendAt, mapPosition, hx]
  | some mouseX =>
      cases hy : uint32OfQreal position.y with
      | none => simp [sendAt, mapPosition, hx, hy]
      | some mouseY =>
          simp [sendAt, mapPosition, mouseEventScaleSend, hx, hy, Option.bind_eq_some_iff,
            eq_comm (a := message)]

def MessageCorrect (width height : ItemSize) (settings : RdpSettings) (event : PointerEvent)
    (message : MouseMessage) : Prop :=
  ∃ mapX mapY, message.x = mapX.toUInt16 ∧ message.y = mapY.toUInt16 ∧
    AxisCorrect width settings.desktopWidth event.position.x mapX ∧
    AxisCorrect height settings.desktopHeight event.position.y mapY

/-- Every event of the set sends correct coordinates, and they move with the pointer. -/
structure PointerCorrect (width height : ItemSize) (settings : RdpSettings)
    (events : Set PointerEvent) : Prop where
  sends : ∀ event ∈ events, ∃ message,
    event.handle ⟨width, height, some settings⟩ = some (some message) ∧
      MessageCorrect width height settings event message
  mono : ∀ event ∈ events, ∀ event' ∈ events, ∀ message message',
    event.handle ⟨width, height, some settings⟩ = some (some message) →
    event'.handle ⟨width, height, some settings⟩ = some (some message') →
      (event.position.x ≤ event'.position.x → message.x ≤ message'.x) ∧
        (event.position.y ≤ event'.position.y → message.y ≤ message'.y)

structure PointerInside (width height : ItemSize) (settings : RdpSettings)
    (event : PointerEvent) : Prop where
  negatable : event.Negatable
  insideX : AxisInside width settings.desktopWidth event.position.x
  insideY : AxisInside height settings.desktopHeight event.position.y

variable {event event' : PointerEvent} {message message' : MouseMessage}

theorem MessageCorrect.mono (h : MessageCorrect width height settings event message)
    (h' : MessageCorrect width height settings event' message') :
    (event.position.x ≤ event'.position.x → message.x ≤ message'.x) ∧
      (event.position.y ≤ event'.position.y → message.y ≤ message'.y) := by
  obtain ⟨mapX, mapY, hx, hy, hmapX, hmapY⟩ := h
  obtain ⟨mapX', mapY', hx', hy', hmapX', hmapY'⟩ := h'
  rw [hx, hx', hy, hy', UInt16.le_iff_toNat_le, UInt16.le_iff_toNat_le, hmapX.toNat_toUInt16,
    hmapX'.toNat_toUInt16, hmapY.toNat_toUInt16, hmapY'.toNat_toUInt16]
  exact ⟨hmapX.mono hmapX', hmapY.mono hmapY'⟩

theorem PointerInside.exists_message (h : PointerInside width height settings event) :
    ∃ message, event.handle ⟨width, height, some settings⟩ = some (some message) ∧
      MessageCorrect width height settings event message := by
  obtain ⟨mapX, hmapX⟩ := h.insideX.exists_correct
  obtain ⟨mapY, hmapY⟩ := h.insideY.exists_correct
  rcases event.handle_eq ⟨width, height, some settings⟩ with ⟨-, flags, hhandle⟩ | ⟨hnot, -⟩
  · refine ⟨⟨flags, mapX.toUInt16, mapY.toUInt16⟩, ?_, mapX, mapY, rfl, rfl, hmapX, hmapY⟩
    rw [hhandle, sendAt_eq_some_iff]
    exact ⟨mapX, mapY, hmapX.mapped, hmapY.mapped, rfl⟩
  · exact absurd h.negatable hnot

theorem MessageCorrect.inside (h : MessageCorrect width height settings event message)
    (hsent : event.handle ⟨width, height, some settings⟩ = some (some message)) :
    PointerInside width height settings event := by
  obtain ⟨mapX, mapY, -, -, hmapX, hmapY⟩ := h
  rcases event.handle_eq ⟨width, height, some settings⟩ with ⟨hneg, -⟩ | ⟨-, hnone⟩
  · exact ⟨hneg, hmapX.inside, hmapY.inside⟩
  · rw [hnone] at hsent
    cases hsent

/-- The handlers send correct coordinates for a set of events if and only if every event
meets the condition. -/
theorem pointer_coordinates_iff (width height : ItemSize) (settings : RdpSettings)
    (events : Set PointerEvent) :
    PointerCorrect width height settings events ↔
      ∀ event ∈ events, PointerInside width height settings event := by
  constructor
  · intro hcorrect event hevent
    obtain ⟨message, hsent, hmessage⟩ := hcorrect.sends event hevent
    exact hmessage.inside hsent
  · intro hinside
    have hsends := fun event hevent => (hinside event hevent).exists_message
    refine ⟨hsends, fun event hevent event' hevent' message message' hsent hsent' => ?_⟩
    obtain ⟨sent, hsends₁, hmessage⟩ := hsends event hevent
    obtain ⟨sent', hsends₂, hmessage'⟩ := hsends event' hevent'
    obtain rfl : sent = message := by simpa [hsends₁] using hsent
    obtain rfl : sent' = message' := by simpa [hsends₂] using hsent'
    exact hmessage.mono hmessage'

end Messages

def hundredItem : ItemSize := ⟨100, by norm_num⟩

def hundredDesktop : DesktopSize := ⟨100, by decide⟩

def moveTo (x y : ℚ) : PointerEvent := .move ⟨.other 0, ⟨x, y⟩⟩

/-- A pressed button holds the grab while the pointer leaves the item: to the left the
conversion is undefined, and at the right end a column behind the desktop is sent. -/
theorem pointer_leaves_desktop :
    (moveTo (-5) 7).handle ⟨hundredItem, hundredItem, some ⟨hundredDesktop, hundredDesktop⟩⟩ =
        none ∧
      (moveTo 100 7).handle ⟨hundredItem, hundredItem, some ⟨hundredDesktop, hundredDesktop⟩⟩ =
        some (some ⟨ptrFlagsMove, 100, 7⟩) ∧
      ¬ PointerCorrect hundredItem hundredItem ⟨hundredDesktop, hundredDesktop⟩
        {moveTo (-5) 7} ∧
      ¬ PointerCorrect hundredItem hundredItem ⟨hundredDesktop, hundredDesktop⟩
        {moveTo 100 7} := by
  have hleft : (moveTo (-5) 7).handle
      ⟨hundredItem, hundredItem, some ⟨hundredDesktop, hundredDesktop⟩⟩ = none := by
    decide +kernel
  have hright : (moveTo 100 7).handle
      ⟨hundredItem, hundredItem, some ⟨hundredDesktop, hundredDesktop⟩⟩ =
        some (some ⟨ptrFlagsMove, 100, 7⟩) := by
    decide +kernel
  refine ⟨hleft, hright, fun hcorrect => ?_, fun hcorrect => ?_⟩
  · obtain ⟨message, hsent, -⟩ := hcorrect.sends _ rfl
    rw [hleft] at hsent
    cases hsent
  · obtain ⟨message, -, mapX, mapY, -, -, hmapX, -⟩ := hcorrect.sends _ rfl
    have hend : ((truncate (100 : ℚ) : ℤ) : ℚ) < 100 := hmapX.inside.beforeEnd
    have htruncate : truncate (100 : ℚ) = 100 := by decide +kernel
    rw [htruncate] at hend
    norm_num at hend

end QfClient
