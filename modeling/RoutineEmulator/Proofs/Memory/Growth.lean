import RoutineEmulator.Proofs.Machine.Access
import RoutineEmulator.Proofs.Routine.Validity
/-!
What a memory keeps while it is worked on.

Writing changes bytes of writable pages only, and allocating only adds pages. `Grows` says both at
once, with the chunks that were allocated on the way: the pages that are new at the end are exactly
those that such a chunk meets, where it lies in the address space.
-/

namespace RoutineEmulator

/-- A range of memory that is handed out. -/
structure Chunk where
  start : UInt64
  size : Nat
  deriving Repr, DecidableEq

namespace Chunk

/-- A byte of the chunk lies in the page with this number. -/
def Meets (chunk : Chunk) (page : Nat) : Prop :=
  ∃ x, chunk.start.toNat ≤ x ∧ x < chunk.start.toNat + chunk.size ∧ x / pageSize = page

/-- The chunk lies in the address space. -/
def Fits (chunk : Chunk) (m : Memory) : Prop :=
  chunk.start.toNat + chunk.size ≤ m.spaceSize

/-- The pages that a chunk meets are those that its range spans. -/
theorem meets_iff {chunk : Chunk} (hsize : 0 < chunk.size) (page : Nat) :
    chunk.Meets page ↔ chunk.start.toNat / pageSize ≤ page ∧
      page < chunk.start.toNat / pageSize + pageSpan chunk.start.toNat chunk.size := by
  have hpages := Memory.pages_of_range_iff (· ≠ page) chunk.start.toNat chunk.size hsize
  constructor
  · rintro ⟨x, hle, hlt, hx⟩
    refine Classical.byContradiction fun hout => hpages.mp ?_ x hle hlt hx
    rintro p hfirst hlast rfl
    exact hout ⟨hfirst, hlast⟩
  · rintro ⟨hfirst, hlast⟩
    refine Classical.byContradiction fun hout => hpages.mpr ?_ page hfirst hlast rfl
    intro x hle hlt hx
    exact hout ⟨x, hle, hlt, hx⟩

end Chunk

namespace Memory

/-- The memory `n` is `m` after writes and allocations of these chunks. -/
structure Grows (m n : Memory) (chunks : List Chunk) : Prop where
  /-- A mapped page stays mapped, with its flags. -/
  flags : ∀ x access, m.accessAt? x = some access → n.accessAt? x = some access
  /-- A page that may not be written keeps its bytes. -/
  locked : ∀ x access, m.accessAt? x = some access → access.write = false →
    n.byteAt? x = m.byteAt? x
  /-- The chunks that fit are mapped, and nothing else is. -/
  mapped : ∀ page, page ∈ n.pages ↔
    page ∈ m.pages ∨ ∃ chunk ∈ chunks, chunk.Fits m ∧ chunk.Meets page
  /-- A new page is for reading and writing. -/
  fresh : ∀ x access, m.accessAt? x = none → n.accessAt? x = some access → access = .readWrite
  byteOrder : n.byteOrder = m.byteOrder
  spaceBits : n.spaceBits = m.spaceBits

theorem Grows.refl (m : Memory) : m.Grows m [] where
  flags _ _ h := h
  locked _ _ _ _ := rfl
  mapped _ := by simp
  fresh _ _ hnone hsome := by
    rw [hnone] at hsome
    cases hsome
  byteOrder := rfl
  spaceBits := rfl

/-- Growing leaves the address space as large as it is. -/
theorem Grows.fits_iff {m n : Memory} {chunks : List Chunk} (h : m.Grows n chunks)
    (chunk : Chunk) : chunk.Fits n ↔ chunk.Fits m := by
  rw [Chunk.Fits, Chunk.Fits, spaceSize, spaceSize, h.spaceBits]

/-- Growing twice is growing by the chunks of both. -/
theorem Grows.trans {m n o : Memory} {chunks more : List Chunk} (h : m.Grows n chunks)
    (h' : n.Grows o more) : m.Grows o (chunks ++ more) where
  flags x access hx := h'.flags x access (h.flags x access hx)
  locked x access hx hwrite := by
    rw [h'.locked x access (h.flags x access hx) hwrite, h.locked x access hx hwrite]
  mapped page := by
    rw [h'.mapped, h.mapped]
    simp only [h.fits_iff, List.mem_append, or_and_right, exists_or, or_assoc]
  fresh x access hnone hsome := by
    -- the page is new in the middle already, or only at the end
    cases hx : n.accessAt? x with
    | none => exact h'.fresh x access hx hsome
    | some between =>
        obtain rfl : between = access :=
          Option.some.inj ((h'.flags x between hx).symm.trans hsome)
        exact h.fresh x between hnone hx
  byteOrder := h'.byteOrder.trans h.byteOrder
  spaceBits := h'.spaceBits.trans h.spaceBits

/-! ## Writes -/

/-- A write maps nothing, and it would have been refused on a page that may not be written. -/
theorem grows_of_writeBytes {m n : Memory} {address : UInt64} {bytes : List UInt8}
    (h : m.writeBytes address bytes = .ok n) : m.Grows n [] := by
  have hover := overwrites_of_writeBytes h
  have hcovers := ((writeBytes_eq_ok_iff m n address bytes).mp h).1
  refine ⟨fun x access hx => by rw [hover.access, hx], ?_, fun page => by simp [hover.pages], ?_,
    hover.byteOrder, hover.spaceBits⟩
  · intro x access hx hwrite
    refine hover.outside x (Classical.byContradiction fun hinside => ?_)
    -- a write into a locked page would have been refused
    rcases hcovers with hempty | ⟨_, _, hbytes⟩
    · omega
    · obtain ⟨other, hother, hallowed⟩ := hbytes x (by omega) (by omega)
      obtain rfl : access = other := Option.some.inj (hx.symm.trans hother)
      exact absurd (hwrite.symm.trans hallowed) Bool.false_ne_true
  · intro x access hnone hsome
    rw [hover.access, hnone] at hsome
    cases hsome

theorem grows_of_writeWord {m n : Memory} {address value : UInt64} {size : Nat}
    (h : m.writeWord address value size = .ok n) : m.Grows n [] := by
  unfold writeWord checkWidth at h
  split at h
  · exact grows_of_writeBytes h
  · cases h

/-! ## Allocations -/

theorem mem_pages_iff (m : Memory) (page : Nat) :
    page ∈ m.pages ↔ m.accessAt? (page * pageSize) ≠ none := by
  rw [Ne, accessAt?_eq_none_iff, Nat.mul_div_cancel _ (by decide : 0 < pageSize), Classical.not_not]

/-- Filling the gaps of a chunk maps it. -/
theorem FillsGaps.grows {m n : Memory} {chunk : Chunk}
    (h : FillsGaps m n .readWrite chunk.start.toNat chunk.size) (hsize : 0 < chunk.size)
    (hfits : chunk.Fits m) : m.Grows n [chunk] := by
  refine ⟨?_, ?_, ?_, ?_, h.byteOrder, h.spaceBits⟩
  · intro x access hx
    rw [(h.kept x (by simp [hx])).1, hx]
  · intro x access hx _
    exact (h.kept x (by simp [hx])).2
  · intro page
    have hpage : page * pageSize / pageSize = page :=
      Nat.mul_div_cancel _ (by decide : 0 < pageSize)
    rw [mem_pages_iff, mem_pages_iff]
    simp only [List.mem_singleton, exists_eq_left, hfits, true_and, Chunk.meets_iff hsize]
    by_cases hold : m.accessAt? (page * pageSize) = none
    · by_cases hin : chunk.start.toNat / pageSize ≤ page ∧
          page < chunk.start.toNat / pageSize + pageSpan chunk.start.toNat chunk.size
      · have hnew := (h.fresh _ hold (by rw [hpage]; exact hin.1) (by rw [hpage]; exact hin.2)).1
        simp [hnew, hin]
      · have hnone := h.elsewhere _ hold (by rw [hpage]; omega)
        simp [hnone, hold, hin]
    · simp [(h.kept _ hold).1, hold]
  · intro x access hnone hsome
    rcases h.accessAt?_of_unmapped hnone with hx | hx
    · rw [hx] at hsome
      cases hsome
    · exact (Option.some.inj (hx.symm.trans hsome)).symm

/-- Nothing needs to be mapped for a chunk that has no bytes or does not fit. -/
theorem grows_of_not_mapped {m : Memory} {chunk : Chunk} (h : chunk.size = 0 ∨ ¬ chunk.Fits m) :
    m.Grows m [chunk] := by
  refine { Grows.refl m with mapped := fun page => ?_ }
  have hnothing : ¬ (chunk.Fits m ∧ chunk.Meets page) := by
    rintro ⟨hfits, x, hle, hlt, -⟩
    rcases h with hempty | hout
    · omega
    · exact hout hfits
  simp [hnothing]

/-- Allocating a chunk maps it where it fits, and fails where it does not. -/
theorem grows_of_allocate (m : Memory) (chunk : Chunk) :
    (∃ n added, m.allocate chunk.start chunk.size .readWrite = .ok (n, added) ∧
        m.Grows n [chunk]) ∨
      ∃ e, m.allocate chunk.start chunk.size .readWrite = .error e ∧ m.Grows m [chunk] := by
  by_cases hsize : chunk.size = 0
  · exact .inl ⟨m, 0, by rw [allocate, if_pos hsize], grows_of_not_mapped (.inl hsize)⟩
  · by_cases hfits : chunk.Fits m
    · obtain ⟨n, added, hallocate, hfill⟩ := exists_allocate .readWrite (Nat.pos_of_ne_zero hsize)
        hfits
      exact .inl ⟨n, added, hallocate, hfill.grows (Nat.pos_of_ne_zero hsize) hfits⟩
    · exact .inr ⟨_, by rw [allocate, if_neg hsize]; exact if_neg hfits,
        grows_of_not_mapped (.inr hfits)⟩

end Memory

/-! ## Machines -/

namespace Machine

open Memory

/-- Nothing but the memory is different, and that grew by these chunks. -/
def GrowsBy (s s' : Machine) (chunks : List Chunk) : Prop :=
  ∃ m, s' = s.withMemory m ∧ s.memory.Grows m chunks

theorem GrowsBy.refl (s : Machine) : s.GrowsBy s [] :=
  ⟨s.memory, rfl, .refl _⟩

theorem GrowsBy.trans {s s' s'' : Machine} {chunks more : List Chunk} (h : s.GrowsBy s' chunks)
    (h' : s'.GrowsBy s'' more) : s.GrowsBy s'' (chunks ++ more) := by
  obtain ⟨m, rfl, hm⟩ := h
  obtain ⟨n, rfl, hn⟩ := h'
  exact ⟨n, rfl, hm.trans hn⟩

theorem growsBy_of_writeBytes {s s' : Machine} {address : UInt64} {bytes : List UInt8}
    (h : (do return { s with memory := ← s.memory.writeBytes address bytes }) = .ok s') :
    s.GrowsBy s' [] := by
  obtain ⟨m, hwrite, h⟩ := bind_eq_ok_iff.mp h
  cases h
  exact ⟨m, rfl, grows_of_writeBytes hwrite⟩

/-- A machine that writes a word grows by no chunk. -/
theorem growsBy_of_write {s s' : Machine} {address value : UInt64} {size : Nat}
    (h : s.write address value size = .ok s') : s.GrowsBy s' [] := by
  obtain ⟨m, hwrite, h⟩ := bind_eq_ok_iff.mp h
  cases h
  exact ⟨m, rfl, grows_of_writeWord hwrite⟩

theorem growsBy_of_copy {s s' : Machine} {src dst : UInt64} {size : Nat}
    (h : s.copy src dst size = .ok s') : s.GrowsBy s' [] := by
  obtain ⟨_, _, h⟩ := bind_eq_ok_iff.mp h
  obtain ⟨_, _, h⟩ := bind_eq_ok_iff.mp h
  obtain ⟨_, _, h⟩ := bind_eq_ok_iff.mp h
  exact growsBy_of_writeBytes h

theorem growsBy_of_fill {s s' : Machine} {address : UInt64} {byte : UInt8} {size : Nat}
    (h : s.fill address byte size = .ok s') : s.GrowsBy s' [] := by
  obtain ⟨_, _, h⟩ := bind_eq_ok_iff.mp h
  exact growsBy_of_writeBytes h

/-- Allocating a chunk maps it where it fits. Where it does not, the allocation fails, and the
machine that stays has all that fits of the chunk. -/
theorem growsBy_of_allocate (s : Machine) (chunk : Chunk) :
    (∃ s', s.allocate chunk.start chunk.size = .ok s' ∧ s.GrowsBy s' [chunk]) ∨
      ∃ e, s.allocate chunk.start chunk.size = .error e ∧ s.GrowsBy s [chunk] := by
  rcases grows_of_allocate s.memory chunk with ⟨n, added, hallocate, hgrows⟩ |
    ⟨e, hallocate, hgrows⟩
  · exact .inl ⟨s.withMemory n, by rw [allocate, hallocate]; rfl, n, rfl, hgrows⟩
  · exact .inr ⟨e, by rw [allocate, hallocate]; rfl, s.memory, rfl, hgrows⟩

end Machine

end RoutineEmulator
