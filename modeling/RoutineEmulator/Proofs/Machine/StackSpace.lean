import RoutineEmulator.Proofs.Memory.Allocation
/-!
The stack around a frame base.

A stack takes 256 pages below the page of the frame base, that page, and 15 above it. Where it
starts is computed by a subtraction that wraps, so a frame base close to zero has its stack at the
end of the 64-bit words. `stackChunk_fits_iff` says that the allocation refuses exactly what wrapped
or what reaches beyond the address space; there is no check besides it.
-/

namespace RoutineEmulator

/-- An address, rounded down to the start of its page. -/
def pageStart (address : Nat) : Nat :=
  address - address % pageSize

theorem pageStart_eq (address : Nat) : pageStart address = address / pageSize * pageSize := by
  unfold pageStart
  have hsplit := Nat.div_add_mod' address pageSize
  omega

theorem pageStart_le (address : Nat) : pageStart address ≤ address :=
  Nat.sub_le address _

theorem lt_pageStart_add (address : Nat) : address < pageStart address + pageSize := by
  have hoffset : address % pageSize < pageSize := Nat.mod_lt address (by decide)
  unfold pageStart
  omega

namespace Machine

open Memory

/-- The range of the stack around a frame base. -/
def stackChunk (base : UInt64) : Chunk :=
  ⟨stackStart base, stackSize⟩

/-- There is room in the address space for the stack around a frame base, below and above. -/
def StackFits (m : Memory) (base : UInt64) : Prop :=
  0x100000 ≤ pageStart base.toNat ∧ pageStart base.toNat + 0xFFFF ≤ m.maxAddress

instance (m : Memory) (base : UInt64) : Decidable (StackFits m base) :=
  inferInstanceAs (Decidable (_ ∧ _))

/-- The machine after its stack was mapped. Without a frame base it stays as it was. -/
def withStackSpace (s : Machine) : Except EmulationError Machine := do
  return (← s.allocateStackSpace).getD s

/-! ## Where the stack lies -/

/-- The page of the frame base is found without a wrap. -/
theorem toNat_page (base : UInt64) : (base / 4096 * 4096).toNat = pageStart base.toNat := by
  rw [UInt64.toNat_mul, UInt64.toNat_div, pageStart_eq]
  apply Nat.mod_eq_of_lt
  exact Nat.lt_of_le_of_lt (Nat.div_mul_le_self base.toNat pageSize) base.toNat_lt

/-- The start of the stack wraps exactly where the page of the frame base lies too low. -/
theorem toNat_stackStart (base : UInt64) :
    (stackStart base).toNat =
      if 0x100000 ≤ pageStart base.toNat then pageStart base.toNat - 0x100000
      else 0x10000000000000000 - 0x100000 + pageStart base.toNat := by
  have hbelow : stackBelow.toNat = 0x100000 := rfl
  have hword := base.toNat_lt
  have hpage := pageStart_le base.toNat
  unfold stackStart
  rw [UInt64.toNat_sub, toNat_page, hbelow]
  split <;> omega

/-- **The stack fits where it does not wrap and does not reach beyond the highest address.** -/
theorem stackChunk_fits_iff (m : Memory) (base : UInt64) :
    (stackChunk base).Fits m ↔ StackFits m base := by
  have hstart := toNat_stackStart base
  have hspace := m.spaceSize_le
  have hpos := m.spaceSize_pos
  unfold Chunk.Fits stackChunk StackFits maxAddress stackSize
  dsimp only
  rw [hstart]
  -- a wrapped start is too close to the end of the words for the size of a stack
  split <;> omega

/-- The pages of a stack that does not wrap are those that start in its range. -/
theorem stackChunk_meets_iff {base : UInt64} (hlow : 0x100000 ≤ pageStart base.toNat) (p : Nat) :
    (stackChunk base).Meets p ↔
      pageStart base.toNat ≤ p * pageSize + 0x100000 ∧
        p * pageSize < pageStart base.toNat + 0x10000 := by
  have hstart := toNat_stackStart base
  have haligned := pageStart_eq base.toNat
  have hspan : pageSpan (stackChunk base).start.toNat (stackChunk base).size = 0x110 := by
    unfold pageSpan stackChunk stackSize pageSize at *
    dsimp only
    rw [hstart, if_pos hlow]
    omega
  have hsize : 0 < (stackChunk base).size := (by decide : 0 < stackSize)
  rw [Chunk.meets_iff hsize, hspan]
  unfold stackChunk pageSize at *
  dsimp only
  rw [hstart, if_pos hlow]
  omega

/-- The page of an address around the frame base starts in the range of the stack. -/
theorem page_in_stack {base : UInt64} {x : Nat} (hle : base.toNat ≤ x + 0x100000)
    (hlt : x ≤ base.toNat + 0xF000) :
    pageStart base.toNat ≤ x / pageSize * pageSize + 0x100000 ∧
      x / pageSize * pageSize < pageStart base.toNat + 0x10000 := by
  have haligned := pageStart_eq base.toNat
  have hstart := pageStart_le base.toNat
  have hend := lt_pageStart_add base.toNat
  unfold pageSize at *
  omega

/-! ## Mapping it -/

section

variable {s s' : Machine} {base : UInt64}

/-- The machine `s'` is `s` with a stack around the frame base: mapped pages are kept, all other
pages of the stack are zero and may be read and written, and nothing else is different. -/
structure StackMapped (s s' : Machine) (base : UInt64) : Prop where
  others : s' = s.withMemory s'.memory
  kept : ∀ (p : Nat) page, s.memory.pages[p]? = some page → s'.memory.pages[p]? = some page
  fresh : ∀ p : Nat, p ∉ s.memory.pages → pageStart base.toNat ≤ p * pageSize + 0x100000 →
    p * pageSize < pageStart base.toNat + 0x10000 →
    s'.memory.pages[p]? = some ⟨.readWrite, zeroBytes⟩
  elsewhere : ∀ p : Nat, p ∉ s.memory.pages → p * pageSize + 0x100000 < pageStart base.toNat ∨
    pageStart base.toNat + 0x10000 ≤ p * pageSize → p ∉ s'.memory.pages
  byteOrder : s'.memory.byteOrder = s.memory.byteOrder
  spaceBits : s'.memory.spaceBits = s.memory.spaceBits

theorem allocateStackSpace_of_none (h : s.register? s.frame.frameRegister = none) :
    s.allocateStackSpace = .ok none := by
  unfold allocateStackSpace
  rw [h]

theorem allocateStackSpace_of_not_fits (h : s.register? s.frame.frameRegister = some base)
    (hfits : ¬ StackFits s.memory base) :
    s.allocateStackSpace = .error (.memoryAccessFault (stackStart base) stackSize) := by
  have hrefused : s.memory.allocate (stackStart base) stackSize .readWrite = _ :=
    allocate_of_not_fits .readWrite (by decide)
      (mt (stackChunk_fits_iff s.memory base).mp hfits)
  unfold allocateStackSpace allocate
  rw [h]
  dsimp only
  rw [hrefused]
  rfl

/-- A stack that fits is mapped. -/
theorem exists_allocateStackSpace (h : s.register? s.frame.frameRegister = some base)
    (hfits : StackFits s.memory base) :
    ∃ s', s.allocateStackSpace = .ok (some s') ∧ StackMapped s s' base := by
  obtain ⟨added, hallocate⟩ := exists_allocate_eq s.memory .readWrite (stackChunk base)
    (.inr ((stackChunk_fits_iff s.memory base).mpr hfits))
  have hadds := addsPages_of_allocate hallocate
  have hmeets := stackChunk_meets_iff hfits.1
  refine ⟨s.withMemory (s.memory.allocated .readWrite (stackChunk base)), ?_, rfl, hadds.kept,
    fun p hfree hle hlt => hadds.fresh p ((hmeets p).mpr ⟨hle, hlt⟩) hfree,
    fun p hfree hout => hadds.elsewhere p (fun hin => ?_) hfree, hadds.byteOrder, hadds.spaceBits⟩
  · unfold stackChunk at hallocate
    unfold allocateStackSpace allocate
    rw [h]
    dsimp only
    rw [hallocate]
    rfl
  · have hrange := (hmeets p).mp hin
    omega

/-- A page of the stack is mapped, whether it was so before or not. -/
theorem StackMapped.mem_pages (h : StackMapped s s' base) {p : Nat}
    (hle : pageStart base.toNat ≤ p * pageSize + 0x100000)
    (hlt : p * pageSize < pageStart base.toNat + 0x10000) : p ∈ s'.memory.pages := by
  rw [Std.ExtTreeMap.mem_iff_isSome_getElem?]
  by_cases hold : p ∈ s.memory.pages
  · rw [h.kept p _ (Std.ExtTreeMap.getElem?_eq_some_getElem hold)]
    rfl
  · rw [h.fresh p hold hle hlt]
    rfl

/-- Around the frame base itself everything is mapped, wherever in its page it lies. -/
theorem StackMapped.isMapped (h : StackMapped s s' base) {x : Nat}
    (hle : base.toNat ≤ x + 0x100000) (hlt : x ≤ base.toNat + 0xF000) :
    s'.memory.isMapped x = true := by
  obtain ⟨hfirst, hlast⟩ := page_in_stack hle hlt
  exact Std.ExtTreeMap.mem_iff_isSome_getElem?.mp (h.mem_pages hfirst hlast)

/-- What is mapped for the stack around the frame base may be read and written. -/
theorem StackMapped.accessAt?_of_free (h : StackMapped s s' base) {x : Nat}
    (hfree : x / pageSize ∉ s.memory.pages) (hle : base.toNat ≤ x + 0x100000)
    (hlt : x ≤ base.toNat + 0xF000) : s'.memory.accessAt? x = some .readWrite := by
  obtain ⟨hfirst, hlast⟩ := page_in_stack hle hlt
  rw [accessAt?_eq, h.fresh _ hfree hfirst hlast]
  rfl

/-- The frame base of a stack is kept. -/
theorem StackMapped.frameBase (h : StackMapped s s' base)
    (hbase : s.register? s.frame.frameRegister = some base) : s'.frameBase = .ok base := by
  rw [h.others]
  show s.frameBase = .ok base
  unfold Machine.frameBase
  rw [hbase]

/-- **The stack is mapped as a whole, or nothing is.** Without a frame base there is no stack, and
nothing changes. With one, the stack is mapped exactly where it lies in the address space, below the
frame base and above it; otherwise there is a fault, and nothing changes either. Mapping keeps every
page that was there and makes every other page of the stack one of zeros for reading and writing, so
all that lies around the frame base is mapped. -/
theorem allocateStackSpace_exact (s : Machine) :
    (s.register? s.frame.frameRegister = none →
      s.allocateStackSpace = .ok none ∧ ∀ (σ : Type) (bench : Bench σ), bench.machine = s →
        (Work.change withStackSpace).runOn bench = (.ok (), bench)) ∧
    ∀ base, s.register? s.frame.frameRegister = some base →
      ((∃ s', s.allocateStackSpace = .ok (some s')) ↔
        0x100000 ≤ pageStart base.toNat ∧
          pageStart base.toNat + 0xFFFF ≤ s.memory.maxAddress) ∧
      (¬ (0x100000 ≤ pageStart base.toNat ∧
          pageStart base.toNat + 0xFFFF ≤ s.memory.maxAddress) →
        s.allocateStackSpace = .error (.memoryAccessFault (stackStart base) stackSize) ∧
          ∀ (σ : Type) (bench : Bench σ), bench.machine = s →
            (Work.change withStackSpace).runOn bench =
              (.error (.memoryAccessFault (stackStart base) stackSize), bench)) ∧
      ∀ s', s.allocateStackSpace = .ok (some s') →
        StackMapped s s' base ∧
          ∀ x, base.toNat ≤ x + 0x100000 → x ≤ base.toNat + 0xF000 →
            s'.memory.isMapped x = true := by
  refine ⟨fun hnone => ?_, fun base hbase => ?_⟩
  · have hgrown := allocateStackSpace_of_none hnone
    refine ⟨hgrown, ?_⟩
    rintro σ ⟨own, s, log⟩ rfl
    exact Work.runOn_change_of_ok (by rw [withStackSpace, hgrown]; rfl)
  · by_cases hfits : StackFits s.memory base
    · obtain ⟨s', hgrown, hmapped⟩ := exists_allocateStackSpace hbase hfits
      refine ⟨iff_of_true ⟨s', hgrown⟩ hfits, fun h => absurd hfits h, fun other hother => ?_⟩
      rw [hgrown] at hother
      cases hother
      exact ⟨hmapped, fun x hle hlt => hmapped.isMapped hle hlt⟩
    · have hfault := allocateStackSpace_of_not_fits hbase hfits
      refine ⟨iff_of_false ?_ hfits, fun _ => ⟨hfault, ?_⟩, fun s' hs' => ?_⟩
      · rintro ⟨s', hs'⟩
        rw [hfault] at hs'
        cases hs'
      · rintro σ ⟨own, s, log⟩ rfl
        exact Work.runOn_change_of_error (by rw [withStackSpace, hfault]; rfl)
      · rw [hfault] at hs'
        cases hs'

end

end Machine

end RoutineEmulator
