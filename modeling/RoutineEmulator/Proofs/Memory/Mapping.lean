import RoutineEmulator.Proofs.Memory.Words
/-!
Mapping fresh pages.

Allocation fills the gaps of a range: pages that are mapped keep their bytes and flags, and the
others of the range become pages of zeros.
-/

namespace RoutineEmulator.Memory

theorem mem_gaps (m : Memory) (count page p : Nat) :
    p ∈ m.gaps count page ↔ (page ≤ p ∧ p < page + count) ∧ p ∉ m.pages := by
  rw [gaps, List.mem_filter, List.mem_range'_1, Bool.not_eq_true', Std.ExtTreeMap.mem_iff_contains,
    Bool.not_eq_true]

/-- Mapped numbers hold zeros, and all other pages are kept. -/
theorem getElem?_pages_mapPages (m : Memory) (access : Access) (numbers : List Nat) (p : Nat) :
    (m.mapPages access numbers).pages[p]? =
      if p ∈ numbers then some ⟨access, zeroBytes⟩ else m.pages[p]? := by
  unfold mapPages
  show (numbers.foldl (fun pages p => pages.insert p ⟨access, zeroBytes⟩) m.pages)[p]? = _
  generalize m.pages = pages
  induction numbers generalizing pages with
  | nil => simp
  | cons number rest ih =>
      rw [List.foldl_cons, ih, Std.ExtTreeMap.getElem?_insert]
      by_cases hrest : p ∈ rest
      · rw [if_pos hrest, if_pos (List.mem_cons_of_mem _ hrest)]
      · by_cases hnumber : number = p
        · simp [hnumber]
        · have hne : p ≠ number := fun h => hnumber h.symm
          simp [hrest, hnumber, hne]

/-- The memory `n` is `m` with the gaps of a range filled: what was mapped is kept, what was not is
zero where the range touches its page and stays unmapped elsewhere. -/
structure FillsGaps (m n : Memory) (access : Access) (a size : Nat) : Prop where
  kept : ∀ x, m.accessAt? x ≠ none → n.accessAt? x = m.accessAt? x ∧ n.byteAt? x = m.byteAt? x
  fresh : ∀ x, m.accessAt? x = none → a / pageSize ≤ x / pageSize →
    x / pageSize < a / pageSize + pageSpan a size →
    n.accessAt? x = some access ∧ n.byteAt? x = some 0
  elsewhere : ∀ x, m.accessAt? x = none →
    x / pageSize < a / pageSize ∨ a / pageSize + pageSpan a size ≤ x / pageSize →
    n.accessAt? x = none
  byteOrder : n.byteOrder = m.byteOrder
  spaceBits : n.spaceBits = m.spaceBits

theorem accessAt?_eq_none_iff (m : Memory) (x : Nat) :
    m.accessAt? x = none ↔ x / pageSize ∉ m.pages := by
  rw [accessAt?_eq, Option.map_eq_none_iff, Std.ExtTreeMap.mem_iff_isSome_getElem?,
    Option.not_isSome_iff_eq_none]

/-- A range in the address space can be allocated. -/
theorem exists_allocate {m : Memory} (access : Access) {address : UInt64} {size : Nat}
    (hsize : 0 < size) (hspace : address.toNat + size ≤ m.spaceSize) :
    ∃ n added, m.allocate address size access = .ok (n, added) ∧
      FillsGaps m n access address.toNat size := by
  refine ⟨_, _, by rw [allocate, if_neg (by omega), if_pos hspace], ?_⟩
  have hpages := getElem?_pages_mapPages m access
    (m.gaps (pageSpan address.toNat size) (address.toNat / pageSize))
  simp only [mem_gaps] at hpages
  constructor
  case kept =>
    intro x hx
    have hmapped : x / pageSize ∈ m.pages :=
      Classical.not_not.mp (mt (accessAt?_eq_none_iff m x).mpr hx)
    have hpage := hpages (x / pageSize)
    rw [if_neg (fun h => h.2 hmapped)] at hpage
    simp only [accessAt?_eq, byteAt?_eq, hpage, and_self]
  case fresh =>
    intro x hx hle hlt
    have hpage := hpages (x / pageSize)
    rw [if_pos ⟨⟨hle, hlt⟩, (accessAt?_eq_none_iff m x).mp hx⟩] at hpage
    simp only [accessAt?_eq, byteAt?_eq, hpage, Option.map_some, true_and]
    exact congrArg some (Vector.getElem_replicate (pageOffset x).isLt)
  case elsewhere =>
    intro x hx hout
    have hpage := hpages (x / pageSize)
    rw [if_neg (fun h => by omega)] at hpage
    rw [accessAt?_eq, hpage, ← accessAt?_eq]
    exact hx
  case byteOrder => rfl
  case spaceBits => rfl

/-- Every byte of an allocated range is mapped afterwards, with its old flags or the new ones. -/
theorem FillsGaps.accessAt?_of_range {m n : Memory} {access : Access} {a size x : Nat}
    (h : FillsGaps m n access a size) (hle : a ≤ x) (hlt : x < a + size) :
    n.accessAt? x = some ((m.accessAt? x).getD access) := by
  cases hx : m.accessAt? x with
  | some old =>
      rw [(h.kept x (by rw [hx]; exact Option.some_ne_none old)).1, hx]
      rfl
  | none =>
      have hfirst : a / pageSize ≤ x / pageSize := Nat.div_le_div_right hle
      have hlast : x / pageSize ≤ (a + size - 1) / pageSize := Nat.div_le_div_right (by omega)
      have hspan : x / pageSize < a / pageSize + pageSpan a size := by
        unfold pageSpan
        omega
      exact (h.fresh x hx hfirst hspan).1

/-- An address that is mapped afterwards and was not before has the new flags. -/
theorem FillsGaps.accessAt?_of_unmapped {m n : Memory} {access : Access} {a size x : Nat}
    (h : FillsGaps m n access a size) (hx : m.accessAt? x = none) :
    n.accessAt? x = none ∨ n.accessAt? x = some access := by
  by_cases hin : a / pageSize ≤ x / pageSize ∧ x / pageSize < a / pageSize + pageSpan a size
  · exact Or.inr (h.fresh x hx hin.1 hin.2).1
  · exact Or.inl (h.elsewhere x hx (by omega))

/-- A word that can be read is kept. -/
theorem FillsGaps.readWord {m n : Memory} {access : Access} {a size : Nat}
    (h : FillsGaps m n access a size) {address value : UInt64} {width : Nat}
    (hwidth : isWordWidth width = true) (hread : m.readWord address width = .ok value) :
    n.readWord address width = .ok value := by
  have hmapped : ∀ x, address.toNat ≤ x → x < address.toNat + width → m.accessAt? x ≠ none := by
    intro x hle hlt
    rcases covers_of_readWord hwidth hread with hzero | ⟨_, _, hbytes⟩
    · omega
    · obtain ⟨access, haccess, _⟩ := hbytes x hle hlt
      rw [haccess]
      exact Option.some_ne_none access
  exact readWord_congr hwidth h.byteOrder h.spaceBits
    (fun x hle hlt => (h.kept x (hmapped x hle hlt)).1)
    (fun x hle hlt => (h.kept x (hmapped x hle hlt)).2) hread

end RoutineEmulator.Memory
