import RoutineEmulator.Proofs.Memory.Growth
/-!
Allocation, page by page.

An allocation puts a page of zeros at every number that its range meets and that holds none yet, and
touches no other number. `getElem?_pages_allocated` says so as one equation for each page, so that
two memories are compared page by page: repeating an allocation changes nothing, and the order of
two allocations does not matter.
-/

namespace RoutineEmulator

namespace Chunk

instance (chunk : Chunk) (m : Memory) : Decidable (chunk.Fits m) :=
  inferInstanceAs (Decidable (_ ≤ _))

theorem size_pos_of_meets {chunk : Chunk} {page : Nat} (h : chunk.Meets page) : 0 < chunk.size := by
  obtain ⟨x, hle, hlt, -⟩ := h
  omega

instance (chunk : Chunk) (page : Nat) : Decidable (chunk.Meets page) :=
  decidable_of_iff (0 < chunk.size ∧ chunk.start.toNat / pageSize ≤ page ∧
      page < chunk.start.toNat / pageSize + pageSpan chunk.start.toNat chunk.size)
    ⟨fun h => (meets_iff h.1 page).mpr h.2,
      fun h => ⟨size_pos_of_meets h, (meets_iff (size_pos_of_meets h) page).mp h⟩⟩

/-- The page that an allocation of the chunk has for a number where none is mapped. -/
def fresh? (chunk : Chunk) (m : Memory) (access : Access) (page : Nat) : Option Page :=
  if chunk.Fits m ∧ chunk.Meets page then some ⟨access, zeroBytes⟩ else none

end Chunk

namespace Memory

/-- The memory after an allocation. One that fails leaves it as it was. -/
def allocated (m : Memory) (access : Access) (chunk : Chunk) : Memory :=
  match m.allocate chunk.start chunk.size access with
  | .ok (n, _) => n
  | .error _ => m

/-- Memories with the same pages, byte order and address width are the same. -/
theorem eq_of_pages {m n : Memory} (hpages : ∀ p : Nat, m.pages[p]? = n.pages[p]?)
    (horder : m.byteOrder = n.byteOrder) (hbits : m.spaceBits = n.spaceBits) : m = n := by
  have hsame : m.pages = n.pages := Std.ExtTreeMap.ext_getElem? hpages
  cases m
  cases n
  cases hsame
  cases horder
  cases hbits
  rfl

section

variable {m n : Memory} {access : Access} {address : UInt64} {size added : Nat}

/-! ## The gaps of a range -/

/-- The last address of a range lies in the address space where its end does. -/
theorem fits_iff_last (hsize : 0 < size) : address.toNat + size ≤ m.spaceSize ↔
    ¬ (0x10000000000000000 ≤ address.toNat + (size - 1) ∨
      m.maxAddress < address.toNat + (size - 1)) := by
  have hle := m.spaceSize_le
  have hpos := m.spaceSize_pos
  unfold maxAddress
  omega

theorem nodup_gaps (m : Memory) (count page : Nat) : (m.gaps count page).Nodup :=
  List.Pairwise.filter _ (List.nodup_range' 1)

/-- The gaps of a range are the numbers that it meets and that hold no page. -/
theorem mem_gaps_iff_meets (m : Memory) (address : UInt64) {size : Nat} (hsize : 0 < size)
    (p : Nat) : p ∈ m.gaps (pageSpan address.toNat size) (address.toNat / pageSize) ↔
      (⟨address, size⟩ : Chunk).Meets p ∧ p ∉ m.pages := by
  have hmeets : (⟨address, size⟩ : Chunk).Meets p ↔ _ := Chunk.meets_iff hsize p
  rw [mem_gaps, hmeets]

theorem not_mem_pages_iff (m : Memory) (p : Nat) : p ∉ m.pages ↔ m.pages[p]? = none := by
  rw [Std.ExtTreeMap.mem_iff_isSome_getElem?, Option.not_isSome_iff_eq_none]

/-- Numbers without a page that are mapped are counted one by one. -/
theorem pageCount_mapPages (access : Access) {numbers : List Nat} (hnodup : numbers.Nodup) :
    ∀ {m : Memory}, (∀ p ∈ numbers, p ∉ m.pages) →
      (m.mapPages access numbers).pageCount = m.pageCount + numbers.length := by
  induction numbers with
  | nil => exact fun _ => rfl
  | cons number rest ih =>
      intro m hfree
      obtain ⟨hnumber, hrest⟩ := List.nodup_cons.mp hnodup
      have hinsert : (m.mapPages access [number]).pageCount = m.pageCount + 1 := by
        show (m.pages.insert number ⟨access, zeroBytes⟩).size = m.pages.size + 1
        rw [Std.ExtTreeMap.size_insert, if_neg]
        exact hfree number List.mem_cons_self
      have hfree' : ∀ p ∈ rest, p ∉ (m.mapPages access [number]).pages := by
        intro p hp
        have hne : p ≠ number := fun h => hnumber (h ▸ hp)
        rw [not_mem_pages_iff, getElem?_pages_mapPages, if_neg (by simpa using hne),
          ← not_mem_pages_iff]
        exact hfree p (List.mem_cons_of_mem number hp)
      have hlater := ih hrest hfree'
      rw [hinsert] at hlater
      rw [List.length_cons, Nat.add_comm rest.length, ← Nat.add_assoc]
      exact hlater

/-! ## The three ways of an allocation -/

theorem allocate_of_empty (m : Memory) (address : UInt64) (access : Access) :
    m.allocate address 0 access = .ok (m, 0) := by
  rw [allocate, if_pos rfl]

theorem allocate_of_fits (access : Access) (hsize : 0 < size)
    (hfits : address.toNat + size ≤ m.spaceSize) :
    m.allocate address size access =
      .ok (m.mapPages access (m.gaps (pageSpan address.toNat size) (address.toNat / pageSize)),
        (m.gaps (pageSpan address.toNat size) (address.toNat / pageSize)).length) := by
  rw [allocate, if_neg (Nat.pos_iff_ne_zero.mp hsize), if_pos hfits]

theorem allocate_of_not_fits (access : Access) (hsize : 0 < size)
    (hfits : ¬ address.toNat + size ≤ m.spaceSize) :
    m.allocate address size access = .error (.memoryAccessFault address size) := by
  rw [allocate, if_neg (Nat.pos_iff_ne_zero.mp hsize), if_neg hfits]

/-- Where there is no gap, nothing is mapped. -/
theorem allocate_of_mapped (access : Access) (hfits : address.toNat + size ≤ m.spaceSize)
    (hmapped : ∀ p, (⟨address, size⟩ : Chunk).Meets p → p ∈ m.pages) :
    m.allocate address size access = .ok (m, 0) := by
  rcases Nat.eq_zero_or_pos size with rfl | hsize
  · exact allocate_of_empty m address access
  · have hgaps : m.gaps (pageSpan address.toNat size) (address.toNat / pageSize) = [] := by
      refine List.eq_nil_iff_forall_not_mem.mpr fun p hp => ?_
      obtain ⟨hmeets, hfree⟩ := (mem_gaps_iff_meets m address hsize p).mp hp
      exact hfree (hmapped p hmeets)
    rw [allocate_of_fits access hsize hfits, hgaps]
    rfl

/-- **One equation for each page.** What is mapped stays, and every other number gets the page that
the chunk has for it. -/
theorem getElem?_pages_allocated (m : Memory) (access : Access) (chunk : Chunk) (p : Nat) :
    (m.allocated access chunk).pages[p]? = m.pages[p]?.or (chunk.fresh? m access p) := by
  obtain ⟨address, size⟩ := chunk
  unfold allocated Chunk.fresh?
  rcases Nat.eq_zero_or_pos size with rfl | hsize
  · have hnothing : ¬ (⟨address, 0⟩ : Chunk).Meets p :=
      fun h => Nat.lt_irrefl 0 (Chunk.size_pos_of_meets h)
    rw [allocate_of_empty, if_neg fun h => hnothing h.2, Option.or_none]
  · by_cases hfits : address.toNat + size ≤ m.spaceSize
    · simp only [allocate_of_fits access hsize hfits, getElem?_pages_mapPages,
        mem_gaps_iff_meets m address hsize]
      by_cases hfree : p ∈ m.pages
      · rw [if_neg fun h => h.2 hfree, Std.ExtTreeMap.getElem?_eq_some_getElem hfree,
          Option.some_or]
      · rw [(not_mem_pages_iff m p).mp hfree, Option.none_or]
        simp [Chunk.Fits, hfits, hfree]
    · rw [allocate_of_not_fits access hsize hfits, if_neg fun h => hfits h.1, Option.or_none]

/-- An allocation does nothing but mapping pages. -/
theorem exists_allocated_eq (m : Memory) (access : Access) (chunk : Chunk) :
    ∃ numbers, m.allocated access chunk = m.mapPages access numbers := by
  obtain ⟨address, size⟩ := chunk
  unfold allocated
  rcases Nat.eq_zero_or_pos size with rfl | hsize
  · exact ⟨[], by rw [allocate_of_empty]; rfl⟩
  · by_cases hfits : address.toNat + size ≤ m.spaceSize
    · exact ⟨_, by rw [allocate_of_fits access hsize hfits]⟩
    · exact ⟨[], by rw [allocate_of_not_fits access hsize hfits]; rfl⟩

@[simp] theorem byteOrder_allocated (m : Memory) (access : Access) (chunk : Chunk) :
    (m.allocated access chunk).byteOrder = m.byteOrder := by
  obtain ⟨numbers, hmap⟩ := exists_allocated_eq m access chunk
  rw [hmap]
  rfl

@[simp] theorem spaceBits_allocated (m : Memory) (access : Access) (chunk : Chunk) :
    (m.allocated access chunk).spaceBits = m.spaceBits := by
  obtain ⟨numbers, hmap⟩ := exists_allocated_eq m access chunk
  rw [hmap]
  rfl

/-- Where there is room for it, an allocation succeeds. -/
theorem exists_allocate_eq (m : Memory) (access : Access) (chunk : Chunk)
    (hroom : chunk.size = 0 ∨ chunk.Fits m) :
    ∃ added, m.allocate chunk.start chunk.size access = .ok (m.allocated access chunk, added) := by
  obtain ⟨address, size⟩ := chunk
  unfold allocated
  rcases Nat.eq_zero_or_pos size with rfl | hsize
  · exact ⟨0, by rw [allocate_of_empty]⟩
  · have hfits := hroom.resolve_left (Nat.pos_iff_ne_zero.mp hsize)
    exact ⟨_, by rw [allocate_of_fits access hsize hfits]⟩

/-- What a chunk has for a page depends on the address width alone. -/
theorem fresh?_allocated (m : Memory) (access other : Access) (chunk first : Chunk) (p : Nat) :
    chunk.fresh? (m.allocated other first) access p = chunk.fresh? m access p := by
  have hfits : chunk.Fits (m.allocated other first) ↔ chunk.Fits m := by
    rw [Chunk.Fits, Chunk.Fits, spaceSize, spaceSize, spaceBits_allocated]
  unfold Chunk.fresh?
  simp only [hfits]

theorem fresh?_or_comm (m : Memory) (access : Access) (first second : Chunk) (p : Nat) :
    (first.fresh? m access p).or (second.fresh? m access p) =
      (second.fresh? m access p).or (first.fresh? m access p) := by
  unfold Chunk.fresh?
  split <;> split <;> rfl

/-- **The order of two allocations does not matter** where they map pages for the same uses. -/
theorem allocated_comm (m : Memory) (access : Access) (first second : Chunk) :
    (m.allocated access first).allocated access second =
      (m.allocated access second).allocated access first := by
  refine eq_of_pages (fun p => ?_) (by simp) (by simp)
  rw [getElem?_pages_allocated, getElem?_pages_allocated, getElem?_pages_allocated,
    getElem?_pages_allocated, fresh?_allocated, fresh?_allocated, Option.or_assoc, Option.or_assoc,
    fresh?_or_comm]

/-! ## The flat views of an allocation -/

theorem meets_of_range {chunk : Chunk} {x : Nat} (hle : chunk.start.toNat ≤ x)
    (hlt : x < chunk.start.toNat + chunk.size) : chunk.Meets (x / pageSize) :=
  ⟨x, hle, hlt, rfl⟩

/-- The flags of an address are the old ones, or those of a fresh page. -/
theorem accessAt?_allocated (m : Memory) (access : Access) (chunk : Chunk) (x : Nat) :
    (m.allocated access chunk).accessAt? x =
      (m.accessAt? x).or
        (if chunk.Fits m ∧ chunk.Meets (x / pageSize) then some access else none) := by
  rw [accessAt?_eq, getElem?_pages_allocated, accessAt?_eq, Option.map_or]
  congr 1
  unfold Chunk.fresh?
  split <;> rfl

/-- The byte at an address is the old one, or the zero of a fresh page. -/
theorem byteAt?_allocated (m : Memory) (access : Access) (chunk : Chunk) (x : Nat) :
    (m.allocated access chunk).byteAt? x =
      (m.byteAt? x).or (if chunk.Fits m ∧ chunk.Meets (x / pageSize) then some 0 else none) := by
  rw [byteAt?_eq, getElem?_pages_allocated, byteAt?_eq, Option.map_or]
  congr 1
  unfold Chunk.fresh?
  split
  · exact congrArg some (Vector.getElem_replicate (pageOffset x).isLt)
  · rfl

/-- The mapped pages are the old ones and those that the chunk meets. -/
theorem mem_pages_allocated (m : Memory) (access : Access) (chunk : Chunk) (p : Nat) :
    p ∈ (m.allocated access chunk).pages ↔ p ∈ m.pages ∨ (chunk.Fits m ∧ chunk.Meets p) := by
  rw [Std.ExtTreeMap.mem_iff_isSome_getElem?, getElem?_pages_allocated, Option.isSome_or,
    Bool.or_eq_true, ← Std.ExtTreeMap.mem_iff_isSome_getElem?]
  unfold Chunk.fresh?
  split <;> simp [*]

/-- Every address of a chunk that fits is mapped afterwards. -/
theorem accessAt?_allocated_of_range (access : Access) {chunk : Chunk} {x : Nat}
    (hfits : chunk.Fits m) (hle : chunk.start.toNat ≤ x)
    (hlt : x < chunk.start.toNat + chunk.size) :
    (m.allocated access chunk).accessAt? x = some ((m.accessAt? x).getD access) := by
  rw [accessAt?_allocated, if_pos ⟨hfits, meets_of_range hle hlt⟩]
  cases m.accessAt? x <;> rfl

/-- An allocation maps nothing exactly where it does not fit or finds all of its range mapped. -/
theorem accessAt?_allocated_eq_iff (m : Memory) (access : Access) (chunk : Chunk) :
    (∀ x, (m.allocated access chunk).accessAt? x = m.accessAt? x) ↔ ¬ chunk.Fits m ∨
      ∀ x, chunk.start.toNat ≤ x → x < chunk.start.toNat + chunk.size → m.accessAt? x ≠ none := by
  constructor
  · intro hsame
    refine Classical.or_iff_not_imp_left.mpr fun hfits x hle hlt hnone => ?_
    have hmapped := accessAt?_allocated_of_range access (Classical.not_not.mp hfits) hle hlt
    rw [hsame, hnone] at hmapped
    cases hmapped
  · intro h x
    rw [accessAt?_allocated]
    cases hx : m.accessAt? x with
    | some old => rfl
    | none =>
        rw [Option.none_or, if_neg]
        rintro ⟨hfits, y, hle, hlt, hpage⟩
        rcases h with hout | hmapped
        · exact hout hfits
        · rw [accessAt?_eq_none_iff, ← hpage, ← accessAt?_eq_none_iff] at hx
          exact hmapped y hle hlt hx

/-- Where it maps nothing, an allocation changes nothing. -/
theorem allocated_eq_self_iff (m : Memory) (access : Access) (chunk : Chunk) :
    m.allocated access chunk = m ↔ ¬ chunk.Fits m ∨
      ∀ x, chunk.start.toNat ≤ x → x < chunk.start.toNat + chunk.size → m.accessAt? x ≠ none := by
  rw [← accessAt?_allocated_eq_iff m access chunk]
  constructor
  · intro hsame x
    rw [hsame]
  · intro hsame
    refine eq_of_pages (fun p => ?_) (by simp) (by simp)
    have hpage := hsame (p * pageSize)
    rw [accessAt?_eq, accessAt?_eq, Nat.mul_div_cancel p (by decide : 0 < pageSize)] at hpage
    rw [getElem?_pages_allocated] at hpage ⊢
    cases hold : m.pages[p]? with
    | some page => rfl
    | none =>
        rw [hold, Option.none_or, Option.map_none, Option.map_eq_none_iff] at hpage
        rw [hpage, Option.none_or]

/-! ## What an allocation adds -/

/-- The memory `n` is `m` with `added` pages of zeros, one at each number that the chunk meets and
that held no page. -/
structure AddsPages (m n : Memory) (access : Access) (chunk : Chunk) (added : Nat) : Prop where
  kept : ∀ (p : Nat) page, m.pages[p]? = some page → n.pages[p]? = some page
  fresh : ∀ p : Nat, chunk.Meets p → p ∉ m.pages → n.pages[p]? = some ⟨access, zeroBytes⟩
  elsewhere : ∀ p : Nat, ¬ chunk.Meets p → p ∉ m.pages → p ∉ n.pages
  counted : ∃ numbers : List Nat, numbers.Nodup ∧
    (∀ p : Nat, p ∈ numbers ↔ chunk.Meets p ∧ p ∉ m.pages) ∧ numbers.length = added
  pageCount : n.pageCount = m.pageCount + added
  byteOrder : n.byteOrder = m.byteOrder
  spaceBits : n.spaceBits = m.spaceBits

/-- An allocation that succeeds maps the gaps of its chunk, each of them once. -/
theorem exists_gaps_of_allocate (h : m.allocate address size access = .ok (n, added)) :
    ∃ numbers : List Nat, numbers.Nodup ∧
      (∀ p, p ∈ numbers ↔ (⟨address, size⟩ : Chunk).Meets p ∧ p ∉ m.pages) ∧
      numbers.length = added ∧ n = m.mapPages access numbers := by
  rcases Nat.eq_zero_or_pos size with rfl | hsize
  · rw [allocate_of_empty] at h
    cases h
    refine ⟨[], List.nodup_nil, fun p => ?_, rfl, rfl⟩
    have hnothing : ¬ (⟨address, 0⟩ : Chunk).Meets p :=
      fun h => Nat.lt_irrefl 0 (Chunk.size_pos_of_meets h)
    simp [hnothing]
  · by_cases hfits : address.toNat + size ≤ m.spaceSize
    · rw [allocate_of_fits access hsize hfits] at h
      cases h
      exact ⟨_, nodup_gaps .., mem_gaps_iff_meets m address hsize, rfl, rfl⟩
    · rw [allocate_of_not_fits access hsize hfits] at h
      cases h

theorem addsPages_of_allocate (h : m.allocate address size access = .ok (n, added)) :
    AddsPages m n access ⟨address, size⟩ added := by
  obtain ⟨numbers, hnodup, hmem, hlength, rfl⟩ := exists_gaps_of_allocate h
  have hpages := getElem?_pages_mapPages m access numbers
  simp only [hmem] at hpages
  refine ⟨fun p page hpage => ?_, fun p hmeets hfree => ?_, fun p hmeets hfree => ?_,
    ⟨numbers, hnodup, hmem, hlength⟩, ?_, rfl, rfl⟩
  · rw [hpages, if_neg, hpage]
    rintro ⟨-, hfree⟩
    rw [(not_mem_pages_iff m p).mp hfree] at hpage
    cases hpage
  · rw [hpages, if_pos ⟨hmeets, hfree⟩]
  · rw [not_mem_pages_iff, hpages, if_neg fun h => hmeets h.1, (not_mem_pages_iff m p).mp hfree]
  · rw [pageCount_mapPages access hnodup fun p hp => ((hmem p).mp hp).2, hlength]

/-- After an allocation its chunk has no gap. -/
theorem AddsPages.mem_of_meets {chunk : Chunk} (h : AddsPages m n access chunk added) {p : Nat}
    (hp : chunk.Meets p) : p ∈ n.pages := by
  have hpage : ∃ page, n.pages[p]? = some page := by
    by_cases hmapped : p ∈ m.pages
    · exact ⟨_, h.kept p _ (Std.ExtTreeMap.getElem?_eq_some_getElem hmapped)⟩
    · exact ⟨_, h.fresh p hp hmapped⟩
  rw [Std.ExtTreeMap.mem_iff_isSome_getElem?]
  exact Option.isSome_iff_exists.mpr hpage

/-- An allocation that fails does not fit, and the fault names its range. -/
theorem allocate_eq_error_iff (m : Memory) (address : UInt64) (size : Nat) (access : Access)
    (e : EmulationError) :
    m.allocate address size access = .error e ↔
      (0 < size ∧ ¬ address.toNat + size ≤ m.spaceSize) ∧ e = .memoryAccessFault address size := by
  rcases Nat.eq_zero_or_pos size with rfl | hsize
  · simp [allocate_of_empty]
  · by_cases hfits : address.toNat + size ≤ m.spaceSize
    · simp [allocate_of_fits access hsize hfits, hfits]
    · simp [allocate_of_not_fits access hsize hfits, hfits, hsize, eq_comm]

/-- **Allocation is exact.** Nothing is allocated for no bytes. A range with bytes is refused
exactly when its last address overflows or lies behind the highest one, and then nothing changes.
Otherwise the answer is the number of pages that the range meets and that were not mapped; these
become pages of zeros with the given flags, and all other pages are kept. The same allocation again
does nothing, and two allocations for the same uses may be exchanged, whether or not they succeed. -/
theorem allocate_exact (m : Memory) (address : UInt64) (size : Nat) (access : Access) :
    (size = 0 → m.allocate address size access = .ok (m, 0)) ∧
    ((∃ e, m.allocate address size access = .error e) ↔ 0 < size ∧
      (0x10000000000000000 ≤ address.toNat + (size - 1) ∨
        m.maxAddress < address.toNat + (size - 1))) ∧
    (∀ e, m.allocate address size access = .error e →
      e = .memoryAccessFault address size ∧
        ∀ (σ : Type) (bench : Bench σ), bench.machine.memory = m →
          (Work.change fun s => do
            let (memory, _) ← s.memory.allocate address size access
            return { s with memory }).runOn bench = (.error e, bench)) ∧
    (∀ n added, m.allocate address size access = .ok (n, added) →
      AddsPages m n access ⟨address, size⟩ added ∧
        n.allocate address size access = .ok (n, 0)) ∧
    ∀ other : Chunk, (m.allocated access ⟨address, size⟩).allocated access other =
      (m.allocated access other).allocated access ⟨address, size⟩ := by
  refine ⟨?_, ?_, ?_, ?_, allocated_comm m access _⟩
  · rintro rfl
    exact allocate_of_empty m address access
  · simp only [allocate_eq_error_iff, exists_and_left, exists_eq, and_true]
    refine and_congr_right fun hsize => ?_
    rw [fits_iff_last hsize, Classical.not_not]
  · intro e he
    refine ⟨((allocate_eq_error_iff m address size access e).mp he).2, ?_⟩
    rintro σ ⟨own, s, log⟩ rfl
    apply Work.runOn_change_of_error
    rw [he]
    rfl
  · intro n added h
    have hadds := addsPages_of_allocate h
    refine ⟨hadds, ?_⟩
    rcases Nat.eq_zero_or_pos size with rfl | hsize
    · exact allocate_of_empty n address access
    · have hfits : address.toNat + size ≤ m.spaceSize := by
        refine Classical.byContradiction fun hfits => ?_
        rw [allocate_of_not_fits access hsize hfits] at h
        cases h
      rw [spaceSize, ← hadds.spaceBits] at hfits
      exact allocate_of_mapped access hfits fun p hp => hadds.mem_of_meets hp

end

end Memory

end RoutineEmulator
