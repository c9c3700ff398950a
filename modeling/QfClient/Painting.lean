import Mathlib.Data.List.Induction
import QfClient.Basic
import QfClient.Machine
import QfClient.Pointer

/-!
# Painting

At the end of a paint `noop_end_paint` copies the buffer of the desktop and posts the copy to
the view, if any region is invalid. It is FreeRDP that takes the regions back, if anything
does: `noop_begin_paint` leaves them alone. The view keeps the frame and schedules its area.
The frame is stretched over the item when that is painted, but the area is counted in pixels
of the frame.
-/

namespace QfClient

open Machine

structure GdiRgn where
  x : Int32
  y : Int32
  w : Int32
  h : Int32

structure Rectangle16 where
  left : UInt16
  top : UInt16
  right : UInt16
  bottom : UInt16

def GdiRgn.rectangle (region : GdiRgn) : Rectangle16 where
  left := region.x.toInt16.toUInt16
  top := region.y.toInt16.toUInt16
  right := (region.x + region.w).toInt16.toUInt16
  bottom := (region.y + region.h).toInt16.toUInt16

def Rectangle16.NonEmpty (rect : Rectangle16) : Prop :=
  rect.left < rect.right ∧ rect.top < rect.bottom

structure RegionApi (ρ : Type) where
  init : ρ
  unionRect : ρ → Rectangle16 → ρ
  isEmpty : ρ → Bool

structure RegionApi.Lawful {ρ : Type} (api : RegionApi ρ) : Prop where
  adds : ∀ region rect, rect.NonEmpty → api.isEmpty (api.unionRect region rect) = false
  keeps : ∀ region rect, api.isEmpty region = false →
    api.isEmpty (api.unionRect region rect) = false

/-- `null` is the field of `invalid`, and `cinvalid` has `ninvalid` regions. -/
structure GdiWnd where
  null : Bool
  cinvalid : List GdiRgn

/-- `hwnd` is that of the primary surface. -/
structure Gdi where
  width : DesktopSize
  height : DesktopSize
  primaryBuffer : Bytes
  hwnd : Option GdiWnd

structure Frame where
  width : DesktopSize
  height : DesktopSize
  bits : Bytes

def Gdi.image (gdi : Gdi) : Frame := ⟨gdi.width, gdi.height, gdi.primaryBuffer⟩

structure QRect where
  x : ℤ
  y : ℤ
  width : ℤ
  height : ℤ

def QRect.Contains (rect : QRect) (p : ℤ × ℤ) : Prop :=
  (rect.x ≤ p.1 ∧ p.1 < rect.x + rect.width) ∧ (rect.y ≤ p.2 ∧ p.2 < rect.y + rect.height)

instance (rect : QRect) (p : ℤ × ℤ) : Decidable (rect.Contains p) :=
  inferInstanceAs (Decidable (_ ∧ _))

def Frame.area (frame : Frame) : QRect := ⟨0, 0, frame.width.val.toNat, frame.height.val.toNat⟩

def noopEndPaint {ρ : Type} (api : RegionApi ρ) (gdi : Gdi) : Option Frame :=
  match gdi.hwnd with
  | none => none
  | some hwnd =>
      if hwnd.null then none
      else if api.isEmpty (hwnd.cinvalid.foldl
        (fun region rgn => api.unionRect region rgn.rectangle) api.init) then none
      else some gdi.image

structure Painter (κ : Type) where
  fillColor : κ
  drawImage : Frame → ℤ × ℤ → κ

def paint {κ : Type} (painter : Painter κ) (frame : Option Frame) (p : ℤ × ℤ) : κ :=
  match frame with
  | none => painter.fillColor
  | some frame => painter.drawImage frame p

/-- The desktop, the calls of `updateFrame` that are posted, `m_frame`, the areas that are
scheduled, and what the item shows at a point. -/
structure Painting (κ : Type) where
  gdi : Gdi
  posted : List Frame
  frame : Option Frame
  dirty : List QRect
  screen : ℤ × ℤ → κ

/-- FreeRDP invalidates what it draws. -/
structure Drawing where
  primaryBuffer : Bytes
  regions : List GdiRgn
  invalidates : ∃ region ∈ regions, region.rectangle.NonEmpty

def Gdi.draw (gdi : Gdi) (drawing : Drawing) : Gdi :=
  { gdi with
    primaryBuffer := drawing.primaryBuffer
    hwnd := gdi.hwnd.map fun hwnd => ⟨false, hwnd.cinvalid ++ drawing.regions⟩ }

def Gdi.takeBack (gdi : Gdi) : Gdi := { gdi with hwnd := gdi.hwnd.map fun _ => ⟨true, []⟩ }

namespace Painting

variable {κ : Type}

def withGdi (s : Painting κ) (gdi : Gdi) : Painting κ := { s with gdi := gdi }

def post (s : Painting κ) (frame : Option Frame) : Painting κ :=
  { s with posted := s.posted ++ frame.toList }

def updateFrame (s : Painting κ) (frame : Frame) (posted : List Frame) (region : QRect) :
    Painting κ :=
  { s with posted := posted, frame := some frame, dirty := s.dirty ++ [region] }

/-- Qt paints the areas that are scheduled, and nothing else. -/
def repaint (s : Painting κ) (painter : Painter κ) : Painting κ :=
  { s with
    dirty := []
    screen := fun p =>
      if ∃ region ∈ s.dirty, region.Contains p then paint painter s.frame p else s.screen p }

end Painting

/-- The thread of the session draws between the beginning and the end of a paint; the other
two are the thread of the view. `takesBack` says whether FreeRDP takes the regions back before
it calls `noop_begin_paint`. -/
inductive PaintInput where
  | beginPaint (takesBack : Bool)
  | draw (drawing : Drawing)
  | endPaint
  | updateFrame
  | repaint

def paintStep {ρ κ : Type} (api : RegionApi ρ) (painter : Painter κ) :
    Step (Painting κ) PaintInput Unit
  | s, .beginPaint takesBack => some (if takesBack then s.withGdi s.gdi.takeBack else s, ())
  | s, .draw drawing => some (s.withGdi (s.gdi.draw drawing), ())
  | s, .endPaint => some (s.post (noopEndPaint api s.gdi), ())
  | s, .updateFrame =>
      match s.posted with
      | [] => none
      | frame :: posted => some (s.updateFrame frame posted frame.area, ())
  | s, .repaint => some (s.repaint painter, ())

abbrev PaintTrace := Trace PaintInput Unit

section Invalidated

variable {ρ : Type} {api : RegionApi ρ} {gdi : Gdi} {regions : List GdiRgn}

def Gdi.Invalidated (gdi : Gdi) : Prop :=
  ∃ hwnd, gdi.hwnd = some hwnd ∧ hwnd.null = false ∧
    ∃ region ∈ hwnd.cinvalid, region.rectangle.NonEmpty

theorem isEmpty_foldl (hapi : api.Lawful) (start : ρ)
    (h : api.isEmpty start = false ∨ ∃ region ∈ regions, region.rectangle.NonEmpty) :
    api.isEmpty (regions.foldl (fun region rgn => api.unionRect region rgn.rectangle) start) =
      false := by
  induction regions generalizing start with
  | nil => exact h.resolve_right (by simp)
  | cons rgn regions ih =>
      rw [List.foldl_cons]
      apply ih
      rcases h with hstart | ⟨region, hmem, hregion⟩
      · exact .inl (hapi.keeps _ _ hstart)
      · rcases List.mem_cons.mp hmem with rfl | hmem
        · exact .inl (hapi.adds _ _ hregion)
        · exact .inr ⟨region, hmem, hregion⟩

theorem noopEndPaint_invalidated (hapi : api.Lawful) (h : gdi.Invalidated) :
    noopEndPaint api gdi = some gdi.image := by
  obtain ⟨hwnd, hgdi, hnull, hregion⟩ := h
  have hempty := isEmpty_foldl hapi api.init (.inr hregion)
  simp only [noopEndPaint, hgdi, hnull, hempty, Bool.false_eq_true, if_false]

theorem noopEndPaint_eq {frame : Frame} (h : noopEndPaint api gdi = some frame) :
    frame = gdi.image := by
  unfold noopEndPaint at h
  cases hgdi : gdi.hwnd with
  | none =>
      rw [hgdi] at h
      cases h
  | some hwnd =>
      simp only [hgdi] at h
      split_ifs at h
      exact (Option.some.inj h).symm

theorem invalidated_draw (h : gdi.hwnd ≠ none) (drawing : Drawing) :
    (gdi.draw drawing).Invalidated := by
  obtain ⟨hwnd, hgdi⟩ := Option.ne_none_iff_exists'.mp h
  obtain ⟨region, hmem, hregion⟩ := drawing.invalidates
  refine ⟨⟨false, hwnd.cinvalid ++ drawing.regions⟩, ?_, rfl, region, ?_, hregion⟩
  · simp only [Gdi.draw, hgdi, Option.map_some]
  · exact List.mem_append_right _ hmem

end Invalidated

section Turns

variable {ρ κ : Type} {api : RegionApi ρ} {painter : Painter κ} {s s' s₀ : Painting κ}
  {i : PaintInput} {o : Unit} {t : PaintTrace} {area : QRect}

def PaintInput.Draws : PaintInput → Prop
  | .draw _ => True
  | _ => False

structure Painting.Framed (painter : Painter κ) (area : QRect) (s : Painting κ) : Prop where
  size : s.gdi.image.area = area
  posted : ∀ frame ∈ s.posted, frame.area = area
  dirty : ∀ region ∈ s.dirty, region = area
  frame : s.dirty ≠ [] → s.frame ≠ none
  shown : s.dirty = [] → ∀ frame, s.frame = some frame → ∀ p, area.Contains p →
    s.screen p = painter.drawImage frame p

theorem repaint_beyond (hs : s.Framed painter area) {p : ℤ × ℤ} (hp : ¬ area.Contains p) :
    (s.repaint painter).screen p = s.screen p := by
  refine if_neg ?_
  rintro ⟨region, hmem, hregion⟩
  rw [hs.dirty region hmem] at hregion
  exact hp hregion

/-- A paint shows the frame that the view has, where there is one. -/
theorem repaint_within (hs : s.Framed painter area) {frame : Frame} (hframe : s.frame = some frame)
    {p : ℤ × ℤ} (hp : area.Contains p) :
    (s.repaint painter).screen p = painter.drawImage frame p := by
  cases hdirty : s.dirty with
  | nil =>
      have hscreen : (s.repaint painter).screen p = s.screen p := if_neg (by simp [hdirty])
      rw [hscreen]
      exact hs.shown hdirty frame hframe p hp
  | cons region dirty =>
      have hregion := hs.dirty region (by simp [hdirty])
      have hscreen : (s.repaint painter).screen p = paint painter s.frame p :=
        if_pos ⟨region, by simp [hdirty], by rwa [hregion]⟩
      rw [hscreen, hframe]
      rfl

theorem repaint_unframed (hs : s.Framed painter area) (hframe : s.frame = none) (p : ℤ × ℤ) :
    (s.repaint painter).screen p = s.screen p := by
  have hdirty : s.dirty = [] := by
    by_contra hdirty
    exact hs.frame hdirty hframe
  exact if_neg (by simp [hdirty])

theorem paintStep_framed (h : paintStep api painter s i = some (s', o))
    (hs : s.Framed painter area) : s'.Framed painter area := by
  cases i with
  | beginPaint takesBack =>
      cases takesBack <;> cases h
      · exact hs
      · exact ⟨hs.size, hs.posted, hs.dirty, hs.frame, hs.shown⟩
  | draw drawing =>
      cases h
      exact ⟨hs.size, hs.posted, hs.dirty, hs.frame, hs.shown⟩
  | endPaint =>
      cases h
      refine ⟨hs.size, ?_, hs.dirty, hs.frame, hs.shown⟩
      intro frame hmem
      rcases List.mem_append.mp hmem with hposted | hnew
      · exact hs.posted frame hposted
      · rw [noopEndPaint_eq (Option.mem_toList.mp hnew)]
        exact hs.size
  | updateFrame =>
      simp only [paintStep] at h
      cases hposted : s.posted with
      | nil =>
          rw [hposted] at h
          cases h
      | cons frame posted =>
          simp only [hposted] at h
          cases h
          refine ⟨hs.size, ?_, ?_, fun _ => by simp [Painting.updateFrame], ?_⟩
          · exact fun frame' hmem => hs.posted frame' (by simp_all [Painting.updateFrame])
          · intro region hmem
            rcases List.mem_append.mp hmem with hdirty | hnew
            · exact hs.dirty region hdirty
            · rw [List.mem_singleton.mp hnew]
              exact hs.posted frame (by simp [hposted])
          · intro hdirty
            simp [Painting.updateFrame] at hdirty
  | repaint =>
      cases h
      exact ⟨hs.size, hs.posted, by simp [Painting.repaint], fun hdirty => absurd rfl hdirty,
        fun _ frame hframe p hp => repaint_within hs hframe hp⟩

def Painting.newest (s : Painting κ) : Option Frame := s.posted.getLast?.or s.frame

theorem newest_post (s : Painting κ) (frame : Frame) :
    (s.post (some frame)).newest = some frame := by
  simp [Painting.newest, Painting.post]

theorem newest_updateFrame {frame : Frame} {posted : List Frame} (h : s.posted = frame :: posted)
    (region : QRect) : (s.updateFrame frame posted region).newest = s.newest := by
  simp only [Painting.newest, Painting.updateFrame, h, List.getLast?_cons]
  cases posted.getLast? with
  | none => rfl
  | some last => rfl

/-- The end of a paint brings the newest frame up to date. -/
theorem newest_endPaint (hapi : api.Lawful)
    (h : s.gdi.Invalidated ∨ s.newest = some s.gdi.image) :
    (s.post (noopEndPaint api s.gdi)).newest = some s.gdi.image := by
  rcases h with hinvalidated | hnewest
  · rw [noopEndPaint_invalidated hapi hinvalidated]
    exact newest_post s _
  · cases hend : noopEndPaint api s.gdi with
    | none => simpa [Painting.newest, Painting.post] using hnewest
    | some frame =>
        rw [noopEndPaint_eq hend]
        exact newest_post s _

def Drawn (t : PaintTrace) : Prop := ∃ e ∈ t, e.1.Draws

/-- Something was drawn, and the paint has ended since. -/
def PaintEnded (t : PaintTrace) : Prop :=
  ∃ u v, t = u ++ (.endPaint, ()) :: v ∧ Drawn u ∧ ∀ e ∈ v, ¬ e.1.Draws

/-- FreeRDP draws within a paint: where it takes regions back, the paint in which it drew has
ended. -/
def TakesBackReported (t : PaintTrace) : Prop :=
  EachEvent (fun u e => e.1 = .beginPaint true → Drawn u → PaintEnded u) t

theorem drawn_snoc : Drawn (t ++ [(i, o)]) ↔ Drawn t ∨ i.Draws := by
  simp [Drawn, or_and_right, exists_or]

theorem PaintEnded.drawn (h : PaintEnded t) : Drawn t := by
  obtain ⟨u, v, rfl, ⟨e, hmem, he⟩, -⟩ := h
  exact ⟨e, List.mem_append_left _ hmem, he⟩

/-- The last turn ends the paint, or it had ended before and nothing was drawn since. -/
theorem paintEnded_snoc (h : PaintEnded (t ++ [(i, o)])) :
    i = .endPaint ∧ Drawn t ∨ ¬ i.Draws ∧ PaintEnded t := by
  obtain ⟨u, v, ht, hdrawn, hv⟩ := h
  rcases List.eq_nil_or_concat v with rfl | ⟨v, e, rfl⟩
  · obtain ⟨rfl, he⟩ := List.append_inj' ht rfl
    exact .inl ⟨(Prod.mk.inj (List.singleton_inj.mp he)).1, hdrawn⟩
  · rw [List.concat_eq_append, ← List.cons_append, ← List.append_assoc] at ht
    obtain ⟨rfl, he⟩ := List.append_inj' ht rfl
    obtain rfl := List.singleton_inj.mp he
    exact .inr ⟨hv (i, o) (by simp), u, v, rfl, hdrawn, fun e hmem => hv e (by simp [hmem])⟩

/-- What was drawn is in the newest frame, or a region says that it is still to be reported;
at the end of the paint it is in the frame. -/
structure Reports (t : PaintTrace) (s : Painting κ) : Prop where
  hwnd : s.gdi.hwnd ≠ none
  drawn : Drawn t → s.gdi.Invalidated ∨ s.newest = some s.gdi.image
  ended : PaintEnded t → s.newest = some s.gdi.image

theorem Reports.quiet (h : Reports t s) (hi : ¬ i.Draws) (hend : i ≠ .endPaint)
    (hgdi : s'.gdi = s.gdi) (hnewest : s'.newest = s.newest) : Reports (t ++ [(i, o)]) s' := by
  refine ⟨hgdi ▸ h.hwnd, fun hdrawn => ?_, fun hended => ?_⟩
  · rw [hgdi, hnewest]
    exact h.drawn ((drawn_snoc.mp hdrawn).resolve_right hi)
  · rw [hgdi, hnewest]
    rcases paintEnded_snoc hended with ⟨hi', -⟩ | ⟨-, hended⟩
    · exact absurd hi' hend
    · exact h.ended hended

theorem reports_step (hapi : api.Lawful)
    (htakes : i = .beginPaint true → Drawn t → PaintEnded t)
    (hstep : paintStep api painter s i = some (s', o)) (h : Reports t s) :
    Reports (t ++ [(i, o)]) s' := by
  cases i with
  | beginPaint takesBack =>
      cases takesBack with
      | false =>
          cases hstep
          exact h.quiet id (by simp) rfl rfl
      | true =>
          cases hstep
          have hended : PaintEnded t → s.newest = some s.gdi.image := h.ended
          refine ⟨fun hnone => h.hwnd (Option.map_eq_none_iff.mp hnone), fun hdrawn => ?_, ?_⟩
          · exact .inr (hended (htakes rfl ((drawn_snoc.mp hdrawn).resolve_right id)))
          · intro hafter
            rcases paintEnded_snoc hafter with ⟨hi, -⟩ | ⟨-, hbefore⟩
            · cases hi
            · exact hended hbefore
  | draw drawing =>
      cases hstep
      refine ⟨fun hnone => h.hwnd (Option.map_eq_none_iff.mp hnone), fun _ => ?_, fun hended => ?_⟩
      · exact .inl (invalidated_draw h.hwnd drawing)
      · rcases paintEnded_snoc hended with ⟨hi, -⟩ | ⟨hi, -⟩
        · cases hi
        · exact absurd trivial hi
  | endPaint =>
      cases hstep
      have hnewest : Drawn t → (s.post (noopEndPaint api s.gdi)).newest = some s.gdi.image :=
        fun hdrawn => newest_endPaint hapi (h.drawn hdrawn)
      refine ⟨h.hwnd, fun hdrawn => ?_, fun hended => ?_⟩
      · exact .inr (hnewest ((drawn_snoc.mp hdrawn).resolve_right id))
      · exact hnewest ((drawn_snoc.mp hended.drawn).resolve_right id)
  | updateFrame =>
      simp only [paintStep] at hstep
      cases hposted : s.posted with
      | nil =>
          rw [hposted] at hstep
          cases hstep
      | cons frame posted =>
          simp only [hposted] at hstep
          cases hstep
          exact h.quiet id (by simp) rfl (newest_updateFrame hposted _)
  | repaint =>
      cases hstep
      exact h.quiet id (by simp) rfl rfl

theorem reports (hapi : api.Lawful) (hhwnd : s₀.gdi.hwnd ≠ none)
    (h : Execution (paintStep api painter) s₀ t s) (ht : TakesBackReported t) : Reports t s := by
  induction h with
  | nil => exact ⟨hhwnd, by simp [Drawn], by simp [PaintEnded]⟩
  | snoc _ hstep ih =>
      obtain ⟨hbefore, hlast⟩ := eachEvent_snoc.mp ht
      exact reports_step hapi hlast hstep (ih hbefore)

def IsReport (api : RegionApi ρ) (painter : Painter κ) (s₀ : Painting κ) (t : PaintTrace)
    (frame : Frame) : Prop :=
  ∃ u v s, t = u ++ (.endPaint, ()) :: v ∧ Execution (paintStep api painter) s₀ u s ∧
    frame = s.gdi.image

theorem IsReport.snoc {frame : Frame} (h : IsReport api painter s₀ t frame)
    (e : PaintInput × Unit) : IsReport api painter s₀ (t ++ [e]) frame := by
  obtain ⟨u, v, s, rfl, hu, hframe⟩ := h
  exact ⟨u, v ++ [e], s, by simp, hu, hframe⟩

/-- A frame was painted. -/
def Painted (t : PaintTrace) : Prop :=
  ∃ u v, t = u ++ (.repaint, ()) :: v ∧ ∃ e ∈ u, e.1 = .updateFrame

theorem painted_snoc (h : Painted (t ++ [(i, o)])) :
    Painted t ∨ i = .repaint ∧ ∃ e ∈ t, e.1 = .updateFrame := by
  obtain ⟨u, v, ht, hframed⟩ := h
  rcases List.eq_nil_or_concat v with rfl | ⟨v, e, rfl⟩
  · obtain ⟨rfl, he⟩ := List.append_inj' ht rfl
    exact .inr ⟨(Prod.mk.inj (List.singleton_inj.mp he)).1, hframed⟩
  · rw [List.concat_eq_append, ← List.cons_append, ← List.append_assoc] at ht
    obtain ⟨rfl, -⟩ := List.append_inj' ht rfl
    exact .inl ⟨u, v, rfl, hframed⟩

/-- The area shows what it showed before, as long as no frame was painted, and then one
frame. -/
def ShowsOne (api : RegionApi ρ) (painter : Painter κ) (s₀ : Painting κ) (t : PaintTrace)
    (s : Painting κ) : Prop :=
  (¬ Painted t ∧ ∀ p, s₀.gdi.image.area.Contains p → s.screen p = s₀.screen p) ∨
    ∃ frame, IsReport api painter s₀ t frame ∧
      ∀ p, s₀.gdi.image.area.Contains p → s.screen p = painter.drawImage frame p

theorem ShowsOne.snoc (h : ShowsOne api painter s₀ t s) (hscreen : s'.screen = s.screen)
    (hi : i = .repaint → ∀ e ∈ t, e.1 ≠ .updateFrame) :
    ShowsOne api painter s₀ (t ++ [(i, o)]) s' := by
  simp only [ShowsOne, hscreen]
  rcases h with ⟨hunpainted, hall⟩ | ⟨frame, hframe, hall⟩
  · refine .inl ⟨fun hpainted => ?_, hall⟩
    rcases painted_snoc hpainted with hbefore | ⟨hrepaint, e, hmem, he⟩
    · exact hunpainted hbefore
    · exact hi hrepaint e hmem he
  · exact .inr ⟨frame, hframe.snoc _, hall⟩

structure PaintHistory (api : RegionApi ρ) (painter : Painter κ) (s₀ : Painting κ)
    (t : PaintTrace) (s : Painting κ) : Prop where
  framed : s.Framed painter s₀.gdi.image.area
  posted : ∀ frame ∈ s.posted, IsReport api painter s₀ t frame
  frame : ∀ frame, s.frame = some frame → IsReport api painter s₀ t frame
  unframed : s.frame = none → ∀ e ∈ t, e.1 ≠ .updateFrame
  beyond : ∀ p, ¬ s₀.gdi.image.area.Contains p → s.screen p = s₀.screen p
  within : ShowsOne api painter s₀ t s

structure Painting.Fresh (s : Painting κ) : Prop where
  posted : s.posted = []
  frame : s.frame = none
  dirty : s.dirty = []
  hwnd : s.gdi.hwnd ≠ none

theorem paintHistory_start (h : s.Fresh) : PaintHistory api painter s [] s where
  framed := ⟨rfl, by simp [h.posted], by simp [h.dirty], fun hdirty => absurd h.dirty hdirty,
    by simp [h.frame]⟩
  posted := by simp [h.posted]
  frame := by simp [h.frame]
  unframed := by simp
  beyond _ _ := rfl
  within := .inl ⟨by simp [Painted], fun _ _ => rfl⟩

theorem paintHistory_snoc (hrun : Execution (paintStep api painter) s₀ t s)
    (hstep : paintStep api painter s i = some (s', o)) (hs : PaintHistory api painter s₀ t s) :
    PaintHistory api painter s₀ (t ++ [(i, o)]) s' := by
  have hframed := paintStep_framed hstep hs.framed
  have hposted := fun frame hmem => (hs.posted frame hmem).snoc (i, o)
  have hframe := fun frame h => (hs.frame frame h).snoc (i, o)
  have hunframed : i ≠ .updateFrame → s.frame = none → ∀ e ∈ t ++ [(i, o)], e.1 ≠ .updateFrame := by
    intro hi hnone e hmem
    rcases List.mem_append.mp hmem with hbefore | hlast
    · exact hs.unframed hnone e hbefore
    · rwa [List.mem_singleton.mp hlast]
  cases i with
  | beginPaint takesBack =>
      cases takesBack <;> cases hstep
      all_goals
        exact ⟨hframed, hposted, hframe, hunframed (by simp), hs.beyond,
          hs.within.snoc rfl (by simp)⟩
  | draw drawing =>
      cases hstep
      exact ⟨hframed, hposted, hframe, hunframed (by simp), hs.beyond,
        hs.within.snoc rfl (by simp)⟩
  | endPaint =>
      cases hstep
      refine ⟨hframed, ?_, hframe, hunframed (by simp), hs.beyond, hs.within.snoc rfl (by simp)⟩
      intro frame hmem
      rcases List.mem_append.mp hmem with hbefore | hnew
      · exact hposted frame hbefore
      · exact ⟨t, [], s, rfl, hrun, noopEndPaint_eq (Option.mem_toList.mp hnew)⟩
  | updateFrame =>
      simp only [paintStep] at hstep
      cases hcalls : s.posted with
      | nil =>
          rw [hcalls] at hstep
          cases hstep
      | cons frame posted =>
          simp only [hcalls] at hstep
          cases hstep
          refine ⟨hframed, ?_, ?_, ?_, hs.beyond, hs.within.snoc rfl (by simp)⟩
          · exact fun frame' hmem => hposted frame' (by simp_all [Painting.updateFrame])
          · rintro frame' ⟨⟩
            exact hposted frame (by simp [hcalls])
          · rintro ⟨⟩
  | repaint =>
      cases hstep
      refine ⟨hframed, hposted, hframe, hunframed (by simp), ?_, ?_⟩
      · exact fun p hp => (repaint_beyond hs.framed hp).trans (hs.beyond p hp)
      · cases hsome : s.frame with
        | none =>
            exact hs.within.snoc (funext (repaint_unframed hs.framed hsome))
              fun _ => hs.unframed hsome
        | some frame =>
            exact .inr ⟨frame, hframe frame hsome, fun p hp => repaint_within hs.framed hsome hp⟩

theorem paintHistory (hfresh : s₀.Fresh) (h : Execution (paintStep api painter) s₀ t s) :
    PaintHistory api painter s₀ t s := by
  induction h with
  | nil => exact paintHistory_start hfresh
  | snoc hrun hstep ih => exact paintHistory_snoc hrun hstep ih

/-- The posted calls are performed and the item is painted. -/
theorem view_settles (api : RegionApi ρ) (painter : Painter κ) (s : Painting κ) :
    ∃ v s', Execution (paintStep api painter) s v s' ∧
      (∀ e ∈ v, e.1 = .updateFrame ∨ e.1 = .repaint) ∧
      s'.posted = [] ∧ s'.dirty = [] ∧ s'.gdi = s.gdi := by
  obtain ⟨posted, hposted⟩ : ∃ posted, s.posted = posted := ⟨_, rfl⟩
  induction posted generalizing s with
  | nil =>
      exact ⟨[(.repaint, ())], s.repaint painter, .single rfl, by simp, hposted, rfl, rfl⟩
  | cons frame posted ih =>
      have hstep : paintStep api painter s .updateFrame =
          some (s.updateFrame frame posted frame.area, ()) := by
        simp only [paintStep, hposted]
      obtain ⟨v, s', hv, hturns, hsettled⟩ := ih (s.updateFrame frame posted frame.area) rfl
      refine ⟨(.updateFrame, ()) :: v, s', hv.cons hstep, ?_, hsettled⟩
      intro e hmem
      rcases List.mem_cons.mp hmem with rfl | hmem
      · exact .inl rfl
      · exact hturns e hmem

/-- Once the calls are performed and the item is painted, the area of the frame shows the
desktop as it is. -/
theorem screen_settled (hapi : api.Lawful) (hfresh : s₀.Fresh)
    (h : Execution (paintStep api painter) s₀ t s) (htakes : TakesBackReported t)
    (ht : PaintEnded t) (hposted : s.posted = []) (hdirty : s.dirty = []) {p : ℤ × ℤ}
    (hp : s₀.gdi.image.area.Contains p) :
    s.screen p = painter.drawImage s.gdi.image p := by
  have hnewest := (reports hapi hfresh.hwnd h htakes).ended ht
  have hframe : s.frame = some s.gdi.image := by
    simpa [Painting.newest, hposted] using hnewest
  exact (paintHistory hfresh h).framed.shown hdirty _ hframe p hp

end Turns

/-- What the item shows: in the area of the frame the desktop as it was at the end of one
paint, of the last one when the view has nothing left to do, and beyond it what was there
before. -/
structure DesktopShown {ρ κ : Type} (api : RegionApi ρ) (painter : Painter κ) (s₀ : Painting κ)
    (t : PaintTrace) (s : Painting κ) : Prop where
  beyond : ∀ p, ¬ s₀.gdi.image.area.Contains p → s.screen p = s₀.screen p
  within : ShowsOne api painter s₀ t s
  settled : TakesBackReported t → PaintEnded t → s.posted = [] → s.dirty = [] →
    ∀ p, s₀.gdi.image.area.Contains p → s.screen p = painter.drawImage s.gdi.image p
  settles : TakesBackReported t → PaintEnded t → ∃ v s',
    Execution (paintStep api painter) s v s' ∧
    (∀ e ∈ v, e.1 = .updateFrame ∨ e.1 = .repaint) ∧
    ∀ p, s₀.gdi.image.area.Contains p → s'.screen p = painter.drawImage s.gdi.image p

theorem PaintEnded.append {t v : PaintTrace} (ht : PaintEnded t)
    (hv : ∀ e ∈ v, e.1 = .updateFrame ∨ e.1 = .repaint) : PaintEnded (t ++ v) := by
  obtain ⟨u, w, rfl, hdrawn, hw⟩ := ht
  refine ⟨u, w ++ v, by simp, hdrawn, ?_⟩
  intro e hmem
  rcases List.mem_append.mp hmem with hmem | hmem
  · exact hw e hmem
  · rcases hv e hmem with he | he <;> simp [he, PaintInput.Draws]

theorem TakesBackReported.append {t v : PaintTrace} (ht : TakesBackReported t)
    (hv : ∀ e ∈ v, e.1 = .updateFrame ∨ e.1 = .repaint) : TakesBackReported (t ++ v) := by
  induction v using List.reverseRecOn with
  | nil => rwa [List.append_nil]
  | append_singleton v e ih =>
      rw [← List.append_assoc]
      refine eachEvent_snoc.mpr ⟨ih fun e hmem => hv e (List.mem_append_left _ hmem), ?_⟩
      intro he
      rcases hv e (by simp) with hview | hview <;> simp [hview] at he

/-- As long as the item keeps its size, the area of the frame is always brought up to date, and
what a larger item has beyond it is not painted again. -/
theorem desktop_shown {ρ κ : Type} (api : RegionApi ρ) (hapi : api.Lawful) (painter : Painter κ)
    (s₀ s : Painting κ) (hfresh : s₀.Fresh) (t : PaintTrace)
    (h : Execution (paintStep api painter) s₀ t s) : DesktopShown api painter s₀ t s where
  beyond := (paintHistory hfresh h).beyond
  within := (paintHistory hfresh h).within
  settled htakes ht hposted hdirty _ hp := screen_settled hapi hfresh h htakes ht hposted hdirty hp
  settles htakes ht := by
    obtain ⟨v, s', hv, hturns, hposted, hdirty, hgdi⟩ := view_settles api painter s
    refine ⟨v, s', hv, hturns, fun p hp => ?_⟩
    rw [← hgdi]
    exact screen_settled hapi hfresh (h.append hv) (htakes.append hturns) (ht.append hturns) hposted
      hdirty hp

def rectanglesApi : RegionApi (List Rectangle16) where
  init := []
  unionRect region rect := region ++ [rect]
  isEmpty region := region.isEmpty

/-- A desktop of one pixel, stretched over the item, and the blue of a point. -/
def pixelPainter : Painter (Option UInt8) where
  fillColor := none
  drawImage frame _ := frame.bits.head?

def onePixel : DesktopSize := ⟨1, by decide⟩

def pixelDesktop : Painting (Option UInt8) where
  gdi := ⟨onePixel, onePixel, [0, 0, 0, 0], some ⟨true, []⟩⟩
  posted := []
  frame := none
  dirty := []
  screen _ := none

theorem rectanglesApi_lawful : rectanglesApi.Lawful where
  adds region rect _ := by simp [rectanglesApi]
  keeps region rect _ := by simp [rectanglesApi]

def pixelDrawn : Drawing where
  primaryBuffer := [7, 0, 0, 0]
  regions := [⟨0, 0, 1, 1⟩]
  invalidates := ⟨_, List.mem_singleton_self _, by decide, by decide⟩

def pixelPainted : PaintTrace :=
  [(.beginPaint true, ()), (.draw pixelDrawn, ()), (.endPaint, ()), (.updateFrame, ()),
    (.repaint, ())]

theorem takesBackReported_pixelPainted : TakesBackReported pixelPainted := by
  intro u e v ht he
  cases u with
  | nil => simp [Drawn]
  | cons first u =>
      have hmem : e ∈ pixelPainted.tail := by
        rw [ht]
        simp
      simp only [pixelPainted, List.tail_cons, List.mem_cons, List.not_mem_nil, or_false] at hmem
      rcases hmem with rfl | rfl | rfl | rfl <;> cases he

theorem desktop_shown_pixel :
    ∃ s, Execution (paintStep rectanglesApi pixelPainter) pixelDesktop pixelPainted s ∧
      DesktopShown rectanglesApi pixelPainter pixelDesktop pixelPainted s ∧
      s.screen (0, 0) = pixelPainter.drawImage s.gdi.image (0, 0) ∧
      s.screen (0, 0) = some 7 ∧ s.screen (1, 0) = none := by
  obtain ⟨s, hrun, hposted, hdirty, hscreen, hbeyond⟩ : ∃ s,
      run (paintStep rectanglesApi pixelPainter) pixelDesktop (pixelPainted.map Prod.fst) =
        some (s, pixelPainted) ∧ s.posted = [] ∧ s.dirty = [] ∧
      s.screen (0, 0) = some 7 ∧ s.screen (1, 0) = none :=
    ⟨_, rfl, rfl, rfl, rfl, rfl⟩
  have h := Execution.of_run hrun
  have hshown := desktop_shown rectanglesApi rectanglesApi_lawful pixelPainter pixelDesktop s
    ⟨rfl, rfl, rfl, by simp [pixelDesktop]⟩ pixelPainted h
  have hended : PaintEnded pixelPainted :=
    ⟨[(.beginPaint true, ()), (.draw pixelDrawn, ())], [(.updateFrame, ()), (.repaint, ())], rfl,
      ⟨_, List.mem_cons_of_mem _ (List.mem_singleton_self _), trivial⟩, by
        simp [PaintInput.Draws]⟩
  exact ⟨s, h, hshown, hshown.settled takesBackReported_pixelPainted hended hposted hdirty _
    (by decide), hscreen, hbeyond⟩

end QfClient
