import Mathlib.Data.Multiset.AddSub

/-!
# Blocks on a heap and who owns them

A heap hands out a new block for each allocation and takes a block back once. The blocks
that are live are `Owned` by a multiset of owners when each of them has exactly one owner,
so an owner can always free its block, and what nobody frees is still there.
-/

namespace Ownership

structure Heap where
  next : ℕ
  live : Multiset ℕ

namespace Heap

def empty : Heap := ⟨0, 0⟩

def alloc (heap : Heap) : Heap := ⟨heap.next + 1, heap.next ::ₘ heap.live⟩

def free (heap : Heap) (block : ℕ) : Option Heap :=
  if block ∈ heap.live then some ⟨heap.next, heap.live.erase block⟩ else none

def freeAll : Heap → List ℕ → Option Heap
  | heap, [] => some heap
  | heap, block :: blocks =>
      match heap.free block with
      | none => none
      | some heap => heap.freeAll blocks

end Heap

structure Owned (heap : Heap) (owners : Multiset ℕ) : Prop where
  live : heap.live = owners
  nodup : owners.Nodup
  lt_next : ∀ block ∈ owners, block < heap.next

variable {heap : Heap} {owners : Multiset ℕ} {block : ℕ}

theorem owned_empty : Owned .empty 0 where
  live := rfl
  nodup := Multiset.nodup_zero
  lt_next := fun _ h => absurd h (Multiset.notMem_zero _)

theorem Owned.of_eq {owners' : Multiset ℕ} (h : Owned heap owners) (heq : owners = owners') :
    Owned heap owners' := heq ▸ h

theorem Owned.mem (h : Owned heap (block ::ₘ owners)) : block ∈ heap.live := by
  rw [h.live]
  exact Multiset.mem_cons_self _ _

/-- A new block is nobody else's. -/
theorem Owned.alloc (h : Owned heap owners) : Owned heap.alloc (heap.next ::ₘ owners) where
  live := congrArg (heap.next ::ₘ ·) h.live
  nodup := by
    rw [Multiset.nodup_cons]
    exact ⟨fun hmem => absurd (h.lt_next _ hmem) (lt_irrefl _), h.nodup⟩
  lt_next := by
    intro block hblock
    rcases Multiset.mem_cons.mp hblock with rfl | hmem
    · exact Nat.lt_succ_self _
    · exact Nat.lt_succ_of_lt (h.lt_next _ hmem)

/-- An owner can free its block. -/
theorem Owned.free (h : Owned heap (block ::ₘ owners)) :
    ∃ heap', heap.free block = some heap' ∧ Owned heap' owners := by
  refine ⟨_, if_pos h.mem, ?_, (Multiset.nodup_cons.mp h.nodup).2, ?_⟩
  · change heap.live.erase block = owners
    rw [h.live, Multiset.erase_cons_head]
  · exact fun other hother => h.lt_next other (Multiset.mem_cons_of_mem hother)

theorem Owned.freeAll {blocks : List ℕ} (h : Owned heap (blocks + owners)) :
    ∃ heap', heap.freeAll blocks = some heap' ∧ Owned heap' owners := by
  induction blocks generalizing heap with
  | nil => exact ⟨heap, rfl, by simpa using h⟩
  | cons block blocks ih =>
      rw [← Multiset.cons_coe, Multiset.cons_add] at h
      obtain ⟨heap', hfree, howned⟩ := h.free
      obtain ⟨heap'', hall, hrest⟩ := ih howned
      refine ⟨heap'', ?_, hrest⟩
      simp only [Heap.freeAll, hfree, hall]

end Ownership
