import Mathlib.Data.List.Basic
import Mathlib.Order.Lattice
import Mathlib.Tactic.Common

/-!
# WinPR streams

A `WStream` is a byte buffer with a position inside it and a sealed length. The
buffer is the whole allocation, so its size is the capacity of the stream, and
the position never leaves it. `Growth` stands for the reallocation policy of
`Stream_EnsureCapacity` and `Stream_EnsureRemainingCapacity`, of which only the
documented part is known: a stream that is too small becomes large enough.
-/

namespace WinPR

structure Growth where
  ensure : ℕ → ℕ → ℕ
  le_ensure : ∀ capacity size, capacity < size → size ≤ ensure capacity size
  remaining : ℕ → ℕ → ℕ → ℕ
  le_remaining : ∀ capacity position size, capacity < position + size →
    position + size ≤ remaining capacity position size

def Growth.exact : Growth where
  ensure _ size := size
  le_ensure _ _ _ := le_rfl
  remaining _ position size := position + size
  le_remaining _ _ _ _ := le_rfl

structure WStream where
  buffer : List UInt8
  position : ℕ
  length : ℕ
  position_le : position ≤ buffer.length
  deriving DecidableEq

namespace WStream

variable (g : Growth) (s : WStream)

def capacity : ℕ := s.buffer.length

/-- The bytes in front of the position. -/
def written : List UInt8 := s.buffer.take s.position

/-- What a reader finds between the position and the sealed length. -/
def unread : List UInt8 := (s.buffer.take s.length).drop s.position

/-- `Stream_New(NULL, size)`, which refuses to allocate an empty stream. -/
def new (size : ℕ) : Option WStream :=
  if size = 0 then none
  else some ⟨List.replicate size 0, 0, size, Nat.zero_le _⟩

def grow (size : ℕ) : WStream where
  buffer := s.buffer ++ List.replicate (size - s.capacity) 0
  position := s.position
  length := max s.capacity size
  position_le := le_trans s.position_le (by simp)

/-- `Stream_EnsureCapacity`; `alloc` says whether a reallocation succeeds. -/
def ensureCapacity (alloc : Bool) (size : ℕ) : Option WStream :=
  if s.capacity < size then
    if alloc then some (s.grow (g.ensure s.capacity size)) else none
  else some s

@[simp] theorem length_written : s.written.length = s.position := by
  rw [written, List.length_take]
  exact Nat.min_eq_left s.position_le

@[simp] theorem position_grow (size : ℕ) : (s.grow size).position = s.position := rfl

@[simp] theorem capacity_grow (size : ℕ) : (s.grow size).capacity = max s.capacity size := by
  simp only [grow, capacity, List.length_append, List.length_replicate]
  omega

@[simp] theorem written_grow (size : ℕ) : (s.grow size).written = s.written :=
  List.take_append_of_le_length s.position_le

/-- `Stream_EnsureRemainingCapacity`: on success the next `size` bytes fit. -/
def ensureRemainingCapacity (alloc : Bool) (size : ℕ) :
    Option { s' : WStream // s'.position + size ≤ s'.capacity } :=
  if h : s.position + size ≤ s.capacity then some ⟨s, h⟩
  else if alloc then
    some ⟨s.grow (g.remaining s.capacity s.position size), by
      rw [capacity_grow, position_grow]
      exact le_trans (g.le_remaining _ _ _ (by omega)) (le_max_right _ _)⟩
  else none

/-- `Stream_Write`, with the room it asserts as a precondition. -/
def write (bytes : List UInt8) (_h : s.position + bytes.length ≤ s.capacity) : WStream where
  buffer := s.buffer.take s.position ++ bytes ++ s.buffer.drop (s.position + bytes.length)
  position := s.position + bytes.length
  length := s.length
  position_le := by
    have hp := s.position_le
    simp only [List.length_append, List.length_take, List.length_drop]
    omega

/-- `Stream_Write` where nothing promises the room: `none` is a failed assertion. -/
def write? (bytes : List UInt8) : Option WStream :=
  if h : s.position + bytes.length ≤ s.capacity then some (s.write bytes h) else none

/-- `Stream_SetPosition`; `none` is its failure beyond the length of the stream. -/
def setPosition (position : ℕ) : Option WStream :=
  if h : position ≤ s.length ∧ position ≤ s.buffer.length then
    some { s with position := position, position_le := h.2 }
  else none

def sealLength : WStream := { s with length := s.position }

def resetPosition : WStream := { s with position := 0, position_le := Nat.zero_le _ }

def ofBytes (bytes : List UInt8) : WStream := ⟨bytes, 0, bytes.length, Nat.zero_le _⟩

variable {s} {bytes : List UInt8}

theorem new_eq_some {size : ℕ} {s : WStream} (h : new size = some s) :
    s.position = 0 ∧ s.capacity = size ∧ s.written = [] ∧ s.length = size := by
  rw [new] at h
  split_ifs at h
  obtain rfl := Option.some.inj h
  simp [capacity, written]

theorem new_isSome {size : ℕ} (h : 0 < size) : ∃ s, new size = some s := by
  rw [new, if_neg (by omega)]
  exact ⟨_, rfl⟩

theorem ensureCapacity_eq_some {alloc : Bool} {size : ℕ} {s' : WStream}
    (h : s.ensureCapacity g alloc size = some s') :
    s'.position = s.position ∧ s'.written = s.written ∧ size ≤ s'.capacity ∧
      s.capacity ≤ s'.capacity := by
  rw [ensureCapacity] at h
  split_ifs at h with hc ha
  · obtain rfl := Option.some.inj h
    have hg := g.le_ensure _ _ hc
    refine ⟨rfl, written_grow _ _, ?_, ?_⟩ <;> rw [capacity_grow] <;> omega
  · obtain rfl := Option.some.inj h
    exact ⟨rfl, rfl, by omega, le_rfl⟩

theorem ensureCapacity_isSome (size : ℕ) : ∃ s', s.ensureCapacity g true size = some s' := by
  by_cases hc : s.capacity < size
  · exact ⟨_, by rw [ensureCapacity, if_pos hc, if_pos rfl]⟩
  · exact ⟨_, by rw [ensureCapacity, if_neg hc]⟩

theorem ensureRemainingCapacity_of_fits {alloc : Bool} {size : ℕ}
    (h : s.position + size ≤ s.capacity) :
    s.ensureRemainingCapacity g alloc size = some ⟨s, h⟩ := dif_pos h

theorem ensureRemainingCapacity_eq_some {alloc : Bool} {size : ℕ}
    {s' : { s' : WStream // s'.position + size ≤ s'.capacity }}
    (h : s.ensureRemainingCapacity g alloc size = some s') :
    s'.1.position = s.position ∧ s'.1.written = s.written ∧ s.capacity ≤ s'.1.capacity := by
  rw [ensureRemainingCapacity] at h
  split_ifs at h with hc ha
  · obtain rfl := Option.some.inj h
    exact ⟨rfl, rfl, le_rfl⟩
  · obtain rfl := Option.some.inj h
    exact ⟨rfl, written_grow _ _, by rw [capacity_grow]; exact le_max_left _ _⟩

/-- A stream that was never sealed is as long as its buffer, and stays so. -/
theorem ensureRemainingCapacity_length {alloc : Bool} {size : ℕ}
    {s' : { s' : WStream // s'.position + size ≤ s'.capacity }}
    (h : s.ensureRemainingCapacity g alloc size = some s') (hs : s.capacity ≤ s.length) :
    s'.1.capacity ≤ s'.1.length := by
  rw [ensureRemainingCapacity] at h
  split_ifs at h with hc ha
  · obtain rfl := Option.some.inj h
    exact hs
  · obtain rfl := Option.some.inj h
    rw [capacity_grow]
    exact le_rfl

theorem ensureRemainingCapacity_isSome (size : ℕ) :
    ∃ s', s.ensureRemainingCapacity g true size = some s' := by
  by_cases hc : s.position + size ≤ s.capacity
  · exact ⟨_, ensureRemainingCapacity_of_fits g hc⟩
  · exact ⟨_, by rw [ensureRemainingCapacity, dif_neg hc, if_pos rfl]⟩

@[simp] theorem position_write (h : s.position + bytes.length ≤ s.capacity) :
    (s.write bytes h).position = s.position + bytes.length := rfl

@[simp] theorem length_write (h : s.position + bytes.length ≤ s.capacity) :
    (s.write bytes h).length = s.length := rfl

@[simp] theorem capacity_write (h : s.position + bytes.length ≤ s.capacity) :
    (s.write bytes h).capacity = s.capacity := by
  have hc : s.capacity = s.buffer.length := rfl
  change (s.buffer.take s.position ++ bytes ++ s.buffer.drop _).length = s.buffer.length
  simp only [List.length_append, List.length_take, List.length_drop]
  omega

@[simp] theorem written_write (h : s.position + bytes.length ≤ s.capacity) :
    (s.write bytes h).written = s.written ++ bytes := by
  have hl : (s.buffer.take s.position ++ bytes).length = s.position + bytes.length := by
    rw [List.length_append, List.length_take, Nat.min_eq_left s.position_le]
  exact List.take_left' hl

theorem write?_eq_some (h : s.position + bytes.length ≤ s.capacity) :
    s.write? bytes = some (s.write bytes h) := dif_pos h

theorem write?_eq_none (h : s.capacity < s.position + bytes.length) : s.write? bytes = none :=
  dif_neg (by omega)

theorem buffer_eq_written_append (s : WStream) :
    s.buffer = s.written ++ s.buffer.drop s.position :=
  (List.take_append_drop s.position s.buffer).symm

/-- Bytes already written are replaced by going back to them and returning. -/
theorem overwrite (bytes : List UInt8) {front old back : List UInt8}
    (hw : s.written = front ++ old ++ back)
    (hb : bytes.length = old.length) (hl : s.position ≤ s.length) :
    ∃ s₁ s₂ s₃, s.setPosition front.length = some s₁ ∧ s₁.write? bytes = some s₂ ∧
      s₂.setPosition s.position = some s₃ ∧ s₃.written = front ++ bytes ++ back := by
  have hlen : s.position = front.length + old.length + back.length := by
    rw [← length_written, hw, List.length_append, List.length_append]
  have hcap := s.position_le
  have hfront : front.length ≤ s.length ∧ front.length ≤ s.buffer.length := by omega
  have hfits : front.length + bytes.length ≤ s.buffer.length := by omega
  have hbuffer := s.buffer_eq_written_append
  rw [hw] at hbuffer
  have hwritten : s.buffer.take front.length ++ bytes ++
      s.buffer.drop (front.length + bytes.length) =
      front ++ bytes ++ back ++ s.buffer.drop s.position := by
    generalize s.buffer.drop s.position = rest at hbuffer ⊢
    rw [hbuffer, hb]
    simp [List.append_assoc, ← List.drop_drop]
  let s₁ : WStream := { s with position := front.length, position_le := hfront.2 }
  have hroom : s.position ≤ (s₁.write bytes hfits).buffer.length :=
    le_of_le_of_eq hcap (capacity_write (s := s₁) hfits).symm
  refine ⟨s₁, s₁.write bytes hfits, _, dif_pos hfront, write?_eq_some hfits,
    dif_pos ⟨hl, hroom⟩, ?_⟩
  change (s.buffer.take front.length ++ bytes ++
    s.buffer.drop (front.length + bytes.length)).take s.position = _
  rw [hwritten]
  refine List.take_left' ?_
  simp only [List.length_append]
  omega

/-- A stream sealed where its buffer ends reads back everything written to it. -/
theorem unread_seal (s : WStream) : s.sealLength.resetPosition.unread = s.written := rfl

end WStream

end WinPR
