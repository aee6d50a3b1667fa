import RoutineEmulator.Proofs.Memory.Allocation
/-!
Loading segments.

A load maps the gaps of its range and then writes the bytes, and the write is refused as a whole
where a page that was mapped before may not be written. The pages that were mapped for the load
stay then. So a load fails without a trace only where it does not fit, or where it had nothing to
map.
-/

namespace RoutineEmulator.Memory

/-- No mapped page of the range forbids writing. -/
def Unlocked (m : Memory) (a size : Nat) : Prop :=
  ∀ x, a ≤ x → x < a + size → ∀ access, m.accessAt? x = some access → access.write = true

section

variable {m : Memory} {address : UInt64} {bytes : List UInt8}

/-- In a chunk that was allocated, what was not locked before may be written. -/
theorem covers_allocated {access : Access} {chunk : Chunk} {size : Nat}
    (hwrite : access.write = true) (hfits : chunk.Fits m)
    (hfirst : chunk.start.toNat ≤ address.toNat)
    (hlast : address.toNat + size ≤ chunk.start.toNat + chunk.size)
    (hunlocked : m.Unlocked address.toNat size) :
    (m.allocated access chunk).Covers (·.write) address size := by
  rcases Nat.eq_zero_or_pos size with hsize | hsize
  · exact .inl hsize
  · obtain ⟨hspace, hmax⟩ := not_or.mp ((fits_iff_last hsize).mp (Nat.le_trans hlast hfits))
    refine .inr ⟨Nat.not_le.mp hspace, ?_, fun x hle hlt => ⟨_,
      accessAt?_allocated_of_range access hfits (by omega) (by omega), ?_⟩⟩
    · rw [maxAddress, spaceSize, spaceBits_allocated]
      exact Nat.not_lt.mp hmax
    · cases hold : m.accessAt? x with
      | none => exact hwrite
      | some old => exact hunlocked x hle hlt old hold

/-- Once its gaps are filled, a range with room may be written exactly when no page of it was locked
before. -/
theorem covers_allocated_iff (access : Access) {size : Nat} (hwrite : access.write = true)
    (hroom : size = 0 ∨ (⟨address, size⟩ : Chunk).Fits m) :
    (m.allocated access ⟨address, size⟩).Covers (·.write) address size ↔
      m.Unlocked address.toNat size := by
  rcases Nat.eq_zero_or_pos size with rfl | hsize
  · exact ⟨fun _ x hle hlt => by omega, fun _ => .inl rfl⟩
  · have hfits := hroom.resolve_left (Nat.pos_iff_ne_zero.mp hsize)
    refine ⟨?_, covers_allocated hwrite hfits (Nat.le_refl _) (Nat.le_refl _)⟩
    rintro (hempty | ⟨-, -, hbytes⟩) x hle hlt old hold
    · omega
    · obtain ⟨new, hnew, hallowed⟩ := hbytes x hle hlt
      rw [accessAt?_allocated_of_range access hfits hle hlt, hold] at hnew
      cases hnew
      exact hallowed

/-! ## The two ways of a load -/

/-- There is room for the bytes, and no page of them is locked. -/
def Loadable (m : Memory) (address : UInt64) (size : Nat) : Prop :=
  (size = 0 ∨ (⟨address, size⟩ : Chunk).Fits m) ∧ m.Unlocked address.toNat size

/-- The bytes are written behind the allocation. -/
theorem load_of_loadable (h : m.Loadable address bytes.length) :
    m.load address bytes =
      (.ok (), (m.allocated .all ⟨address, bytes.length⟩).setBytes address.toNat bytes) := by
  obtain ⟨hroom, hunlocked⟩ := h
  obtain ⟨added, hallocate⟩ :=
    exists_allocate_eq m .all ⟨address, bytes.length⟩ hroom
  have hwrite := (writeBytes_eq_ok_iff _ _ address bytes).mpr
    ⟨(covers_allocated_iff .all rfl hroom).mpr hunlocked, rfl⟩
  unfold load
  simp only [hallocate, hwrite]

/-- The allocation stays, as far as it fits. -/
theorem load_of_not_loadable (h : ¬ m.Loadable address bytes.length) :
    m.load address bytes = (.error (.memoryAccessFault address bytes.length),
      m.allocated .all ⟨address, bytes.length⟩) := by
  by_cases hroom : bytes.length = 0 ∨ (⟨address, bytes.length⟩ : Chunk).Fits m
  · obtain ⟨added, hallocate⟩ :=
      exists_allocate_eq m .all ⟨address, bytes.length⟩ hroom
    have hwrite := writeBytes_of_not_covers
      (mt (covers_allocated_iff .all rfl hroom).mp fun hunlocked => h ⟨hroom, hunlocked⟩)
    unfold load
    simp only [hallocate, hwrite]
  · obtain ⟨hsize, hfits⟩ := not_or.mp hroom
    rw [(allocated_eq_self_iff m .all ⟨address, bytes.length⟩).mpr (.inl hfits), load,
      allocate_of_not_fits .all (Nat.pos_of_ne_zero hsize) hfits]

/-- After a success all bytes are in place, and after a fault the memory is as it was. -/
def LoadsAtomically (m : Memory) (address : UInt64) (bytes : List UInt8) : Prop :=
  ((m.load address bytes).1 = .ok () ∧
      (m.load address bytes).2.Holds address.toNat bytes.length bytes) ∨
    ((∃ e, (m.load address bytes).1 = .error e) ∧ (m.load address bytes).2 = m)

/-- What is loaded overwrites the allocated range. -/
theorem overwrites_of_loadable (h : m.Loadable address bytes.length) :
    Overwrites (m.allocated .all ⟨address, bytes.length⟩) (m.load address bytes).2 address.toNat
      bytes := by
  rw [load_of_loadable h]
  exact ((covers_allocated_iff .all rfl h.1).mpr h.2).overwrites_setBytes

theorem loadsAtomically_of_loadable (h : m.Loadable address bytes.length) :
    m.LoadsAtomically address bytes :=
  .inl ⟨by rw [load_of_loadable h], rfl, (overwrites_of_loadable h).inside⟩

/-- A load that is refused leaves a trace exactly where it had something to map. -/
theorem loadsAtomically_iff_of_not_loadable (h : ¬ m.Loadable address bytes.length) :
    m.LoadsAtomically address bytes ↔ ¬ (⟨address, bytes.length⟩ : Chunk).Fits m ∨
      ∀ x, address.toNat ≤ x → x < address.toNat + bytes.length → m.accessAt? x ≠ none := by
  have hself := allocated_eq_self_iff m .all ⟨address, bytes.length⟩
  unfold LoadsAtomically
  rw [load_of_not_loadable h]
  constructor
  · rintro (⟨hok, -⟩ | ⟨-, hsame⟩)
    · cases hok
    · exact hself.mp hsame
  · exact fun htraceless => .inr ⟨⟨_, rfl⟩, hself.mpr htraceless⟩

/-- **A load fails without a trace, or leaves what it mapped.** A load is atomic, except where its
range fits, has a page that may not be written, and has another one that is not mapped. After a
success the memory is the one with the gaps filled, overwritten by the bytes. After a fault it is
the one with the gaps filled, as far as the range fits. -/
theorem load_atomic_iff (m : Memory) (address : UInt64) (bytes : List UInt8) :
    (m.LoadsAtomically address bytes ↔
      ¬ ((⟨address, bytes.length⟩ : Chunk).Fits m ∧ ¬ m.Unlocked address.toNat bytes.length ∧
        ∃ x, address.toNat ≤ x ∧ x < address.toNat + bytes.length ∧ m.accessAt? x = none)) ∧
    ((m.load address bytes).1 = .ok () ↔ m.Loadable address bytes.length) ∧
    ((m.load address bytes).1 = .ok () →
      Overwrites (m.allocated .all ⟨address, bytes.length⟩) (m.load address bytes).2 address.toNat
        bytes) ∧
    ∀ e, (m.load address bytes).1 = .error e →
      e = .memoryAccessFault address bytes.length ∧
        (m.load address bytes).2 = m.allocated .all ⟨address, bytes.length⟩ := by
  by_cases hload : m.Loadable address bytes.length
  · have hok : (m.load address bytes).1 = .ok () := by rw [load_of_loadable hload]
    refine ⟨iff_of_true (loadsAtomically_of_loadable hload) fun h => h.2.1 hload.2,
      iff_of_true hok hload, fun _ => overwrites_of_loadable hload, fun e he => ?_⟩
    rw [hok] at he
    cases he
  · rw [loadsAtomically_iff_of_not_loadable hload, load_of_not_loadable hload]
    refine ⟨?_, iff_of_false nofun hload, nofun, fun e he => ⟨(Except.error.inj he).symm, rfl⟩⟩
    constructor
    · rintro htraceless ⟨hfits, -, x, hle, hlt, hnone⟩
      exact htraceless.elim (· hfits) fun hmapped => hmapped x hle hlt hnone
    · -- a range that fits was refused for a locked page
      intro hgap
      refine Classical.or_iff_not_imp_left.mpr fun hfits x hle hlt hnone => ?_
      have hfits := Classical.not_not.mp hfits
      exact hgap ⟨hfits, fun hunlocked => hload ⟨.inr hfits, hunlocked⟩, x, hle, hlt, hnone⟩

end

/-! ## A load into a locked page -/

/-- A memory with one page, which may only be read. -/
def lockedMemory : Memory :=
  (Memory.new .little 32).mapPages .readOnly [2]

/-- The first byte of this load lies in a page that may not be written, the second one in a page
that is not mapped. The load fails, and the second page is mapped afterwards. -/
theorem load_maps_and_fails :
    ¬ lockedMemory.LoadsAtomically 0x2fff [1, 2] ∧
      (lockedMemory.load 0x2fff [1, 2]).1 = .error (.memoryAccessFault 0x2fff 2) ∧
      lockedMemory.accessAt? 0x3000 = none ∧
      (lockedMemory.load 0x2fff [1, 2]).2.accessAt? 0x3000 = some .all := by
  have hfails : (lockedMemory.load 0x2fff [1, 2]).1 = .error (.memoryAccessFault 0x2fff 2) := rfl
  have hmapped : (lockedMemory.load 0x2fff [1, 2]).2.accessAt? 0x3000 = some .all := rfl
  refine ⟨?_, hfails, rfl, hmapped⟩
  rintro (⟨hok, -⟩ | ⟨-, hsame⟩)
  · rw [hfails] at hok
    cases hok
  · rw [hsame] at hmapped
    cases hmapped

end RoutineEmulator.Memory
