import RoutineEmulator.Memory.Basic
import RoutineEmulator.Proofs.Simulation.Work
/-!
Paged memory as a flat array of bytes.

The operations check and touch pages; their laws are stated through the two flat views
`Memory.byteAt?` and `Memory.accessAt?`. `Covers` says byte by byte when a range may be used.
`accessible_iff` ties it to the check that goes page by page, and the laws of `setBytes` say where a
written byte is found again. The last theorem of the module puts both together for writes and reads
of any length, over any number of page boundaries.
-/

namespace RoutineEmulator.Memory

/-! ## Pages and flat addresses -/

/-- The byte view reads the page of an address at the offset of the address. -/
theorem byteAt?_eq (m : Memory) (x : Nat) :
    m.byteAt? x = (m.pages[x / pageSize]?).map (·.bytes.get (pageOffset x)) := rfl

theorem accessAt?_eq (m : Memory) (x : Nat) :
    m.accessAt? x = (m.pages[x / pageSize]?).map (·.access) := rfl

/-- The flags of an address are those of its page. -/
theorem exists_accessAt?_iff (m : Memory) (x : Nat) (P : Access → Prop) :
    (∃ access, m.accessAt? x = some access ∧ P access) ↔
      ∃ q, m.pages[x / pageSize]? = some q ∧ P q.access := by
  rw [accessAt?_eq]
  cases m.pages[x / pageSize]? <;> simp

/-- An address is its page and its offset. -/
theorem eq_iff_page_offset (x y : Nat) :
    x = y ↔ x / pageSize = y / pageSize ∧ pageOffset x = pageOffset y := by
  constructor
  · rintro rfl
    exact ⟨rfl, rfl⟩
  · rintro ⟨hpage, hoffset⟩
    have hmod : x % pageSize = y % pageSize := congrArg Fin.val hoffset
    rw [← Nat.div_add_mod x pageSize, ← Nat.div_add_mod y pageSize, hpage, hmod]

/-- An address has a byte exactly where it has access flags. -/
theorem isSome_byteAt? (m : Memory) (x : Nat) :
    (m.byteAt? x).isSome = (m.accessAt? x).isSome := by
  simp only [byteAt?, accessAt?, Option.isSome_map]

theorem spaceSize_le (m : Memory) : m.spaceSize ≤ 0x10000000000000000 := by
  rw [spaceSize, Nat.one_shiftLeft]
  exact Nat.pow_le_pow_right (by decide) m.spaceBits_le

theorem spaceSize_pos (m : Memory) : 0 < m.spaceSize := by
  rw [spaceSize, Nat.one_shiftLeft]
  exact Nat.two_pow_pos m.spaceBits

/-! ## Ranges -/

/-- Every byte of the range lies in the address space and in a mapped page with flags that `allowed`
accepts. An empty range is always covered. -/
def Covers (m : Memory) (allowed : Access → Bool) (address : UInt64) (size : Nat) : Prop :=
  size = 0 ∨
    (address.toNat + (size - 1) < 0x10000000000000000 ∧ address.toNat + (size - 1) ≤ m.maxAddress ∧
      ∀ x, address.toNat ≤ x → x < address.toNat + size →
        ∃ access, m.accessAt? x = some access ∧ allowed access = true)

/-- Pages are allowed when each of them is mapped with flags that are. -/
theorem pagesAllow_iff (m : Memory) (allowed : Access → Bool) (count page : Nat) :
    m.pagesAllow allowed count page = true ↔
      ∀ p, page ≤ p → p < page + count → ∃ q, m.pages[p]? = some q ∧ allowed q.access = true := by
  induction count generalizing page with
  | zero =>
      simp only [pagesAllow, true_iff]
      intro p hle hlt
      omega
  | succ count ih =>
      rw [pagesAllow]
      constructor
      · intro h p hle hlt
        split at h
        · rename_i q hq
          rw [Bool.and_eq_true, ih] at h
          rcases Nat.eq_or_lt_of_le hle with rfl | hgt
          · exact ⟨q, hq, h.1⟩
          · exact h.2 p hgt (by omega)
        · exact absurd h Bool.false_ne_true
      · intro h
        obtain ⟨q, hq, hallowed⟩ := h page (Nat.le_refl page) (by omega)
        rw [hq]
        show (allowed q.access && _) = true
        rw [hallowed, Bool.true_and, ih]
        exact fun p hle hlt => h p (by omega) (by omega)

/-- The pages that a range touches are those of its bytes. -/
theorem pages_of_range_iff (P : Nat → Prop) (a size : Nat) (hsize : 0 < size) :
    (∀ p, a / pageSize ≤ p → p < a / pageSize + pageSpan a size → P p) ↔
      ∀ x, a ≤ x → x < a + size → P (x / pageSize) := by
  have hspan : a / pageSize + pageSpan a size = (a + size - 1) / pageSize + 1 := by
    have hle : a / pageSize ≤ (a + size - 1) / pageSize := Nat.div_le_div_right (by omega)
    unfold pageSpan
    omega
  rw [hspan]
  constructor
  · intro h x hle hlt
    refine h _ (Nat.div_le_div_right hle) ?_
    exact Nat.lt_succ_of_le (Nat.div_le_div_right (by omega))
  · intro h p hle hlt
    -- the first byte of the range in page `p`
    have hpos : 0 < pageSize := by decide
    have hmul : p * pageSize ≤ a + size - 1 :=
      (Nat.le_div_iff_mul_le hpos).mp (Nat.le_of_lt_succ hlt)
    have hpage : max a (p * pageSize) / pageSize = p := by
      rcases Nat.le_total a (p * pageSize) with hcase | hcase
      · rw [Nat.max_eq_right hcase, Nat.mul_div_cancel _ hpos]
      · rw [Nat.max_eq_left hcase]
        exact Nat.le_antisymm hle ((Nat.le_div_iff_mul_le hpos).mpr hcase)
    have := h (max a (p * pageSize)) (Nat.le_max_left _ _) (by omega)
    rwa [hpage] at this

/-- The check that goes page by page is exact for bytes. -/
theorem accessible_iff (m : Memory) (allowed : Access → Bool) (address : UInt64) (size : Nat) :
    m.accessible allowed address size = true ↔ m.Covers allowed address size := by
  rcases Nat.eq_zero_or_pos size with rfl | hpos
  · simp [accessible, Covers]
  · have hspace : address.toNat + size ≤ m.spaceSize ↔
        address.toNat + (size - 1) < 0x10000000000000000 ∧
          address.toNat + (size - 1) ≤ m.maxAddress := by
      have hle := m.spaceSize_le
      have hspos := m.spaceSize_pos
      unfold maxAddress
      omega
    rw [accessible, Covers, Bool.or_eq_true, Bool.and_eq_true, decide_eq_true_iff, pagesAllow_iff,
      pages_of_range_iff (fun p => ∃ q, m.pages[p]? = some q ∧ allowed q.access = true) _ _ hpos,
      hspace, and_assoc, beq_iff_eq]
    simp only [exists_accessAt?_iff m _ (allowed · = true)]

theorem check_of_covers {m : Memory} {allowed : Access → Bool} {address : UInt64} {size : Nat}
    (h : m.Covers allowed address size) : m.check allowed address size = .ok () := by
  rw [check, if_pos ((m.accessible_iff allowed address size).mpr h)]

theorem check_of_not_covers {m : Memory} {allowed : Access → Bool} {address : UInt64} {size : Nat}
    (h : ¬ m.Covers allowed address size) :
    m.check allowed address size = .error (.memoryAccessFault address size) := by
  rw [check, if_neg (mt (m.accessible_iff allowed address size).mp h)]

/-- Coverage only depends on the address width and the access flags of the range. -/
theorem Covers.congr {m n : Memory} {allowed : Access → Bool} {address : UInt64} {size : Nat}
    (hbits : n.spaceBits = m.spaceBits)
    (hflags : ∀ x, address.toNat ≤ x → x < address.toNat + size → n.accessAt? x = m.accessAt? x)
    (h : m.Covers allowed address size) : n.Covers allowed address size := by
  rcases h with h | ⟨hlt, hmax, hbytes⟩
  · exact Or.inl h
  · refine Or.inr ⟨hlt, ?_, ?_⟩
    · rwa [maxAddress, spaceSize, hbits]
    · intro x hle hx
      rw [hflags x hle hx]
      exact hbytes x hle hx

/-! ## Writing bytes -/

/-- Writing a byte keeps the access flags of every address. -/
@[simp] theorem accessAt?_setByte (m : Memory) (a x : Nat) (byte : UInt8) :
    (m.setByte a byte).accessAt? x = m.accessAt? x := by
  simp only [accessAt?_eq, setByte, Std.ExtTreeMap.getElem?_modify, Nat.compare_eq_eq]
  split
  · rename_i hpage
    rw [hpage, Option.map_map]
    rfl
  · rfl

/-- A written byte is found at its address, where that is mapped, and nowhere else. -/
theorem byteAt?_setByte (m : Memory) (a x : Nat) (byte : UInt8) :
    (m.setByte a byte).byteAt? x =
      if x = a then (m.byteAt? x).map fun _ => byte else m.byteAt? x := by
  simp only [byteAt?_eq, setByte, Std.ExtTreeMap.getElem?_modify, Nat.compare_eq_eq]
  by_cases hpage : a / pageSize = x / pageSize
  · rw [if_pos hpage, hpage, Option.map_map]
    by_cases hxa : x = a
    · subst hxa
      rw [if_pos rfl, Option.map_map]
      congr 1
      funext p
      exact Vector.getElem_set_self _
    · have hoffset : (pageOffset a).val ≠ (pageOffset x).val := fun h =>
        hxa ((eq_iff_page_offset x a).mpr ⟨hpage.symm, Fin.ext h.symm⟩)
      rw [if_neg hxa]
      congr 1
      funext p
      exact Vector.getElem_set_ne (pageOffset a).isLt (pageOffset x).isLt hoffset
  · rw [if_neg hpage, if_neg (fun h => hpage (by rw [h]))]

@[simp] theorem spaceBits_setBytes (m : Memory) (a : Nat) (bytes : List UInt8) :
    (m.setBytes a bytes).spaceBits = m.spaceBits := by
  induction bytes generalizing m a with
  | nil => rfl
  | cons byte rest ih => exact ih (m.setByte a byte) (a + 1)

@[simp] theorem byteOrder_setBytes (m : Memory) (a : Nat) (bytes : List UInt8) :
    (m.setBytes a bytes).byteOrder = m.byteOrder := by
  induction bytes generalizing m a with
  | nil => rfl
  | cons byte rest ih => exact ih (m.setByte a byte) (a + 1)

@[simp] theorem accessAt?_setBytes (m : Memory) (a x : Nat) (bytes : List UInt8) :
    (m.setBytes a bytes).accessAt? x = m.accessAt? x := by
  induction bytes generalizing m a with
  | nil => rfl
  | cons byte rest ih => rw [setBytes, ih, accessAt?_setByte]

/-- Writing keeps the set of mapped pages. -/
theorem mem_pages_setBytes (m : Memory) (a p : Nat) (bytes : List UInt8) :
    p ∈ (m.setBytes a bytes).pages ↔ p ∈ m.pages := by
  induction bytes generalizing m a with
  | nil => rfl
  | cons byte rest ih =>
      rw [setBytes, ih]
      exact Std.ExtTreeMap.mem_modify

/-- Bytes outside of the range are kept. -/
theorem byteAt?_setBytes_of_outside (m : Memory) (a x : Nat) (bytes : List UInt8)
    (h : x < a ∨ a + bytes.length ≤ x) : (m.setBytes a bytes).byteAt? x = m.byteAt? x := by
  induction bytes generalizing m a with
  | nil => rfl
  | cons byte rest ih =>
      rw [List.length_cons] at h
      rw [setBytes, ih _ _ (by omega), byteAt?_setByte, if_neg (by omega)]

/-- Bytes of the range are the written ones, where they are mapped. -/
theorem byteAt?_setBytes_of_inside (m : Memory) (a i : Nat) (bytes : List UInt8)
    (hi : i < bytes.length) :
    (m.setBytes a bytes).byteAt? (a + i) = (m.byteAt? (a + i)).map fun _ => bytes[i] := by
  induction bytes generalizing m a i with
  | nil => exact absurd hi (Nat.not_lt_zero i)
  | cons byte rest ih =>
      rw [setBytes]
      cases i with
      | zero =>
          rw [byteAt?_setBytes_of_outside _ _ _ _ (Or.inl (by omega)), byteAt?_setByte,
            if_pos (Nat.add_zero a)]
          rfl
      | succ i =>
          rw [List.length_cons] at hi
          have hplace : a + (i + 1) = a + 1 + i := by omega
          rw [hplace, ih _ _ _ (by omega), byteAt?_setByte, if_neg (by omega)]
          rfl

/-- What the memory is after a write that succeeded. -/
theorem writeBytes_eq_ok_iff (m n : Memory) (address : UInt64) (bytes : List UInt8) :
    m.writeBytes address bytes = .ok n ↔
      m.Covers (·.write) address bytes.length ∧ n = m.setBytes address.toNat bytes := by
  by_cases h : m.Covers (·.write) address bytes.length
  · simp [writeBytes, check_of_covers h, h, bind, Except.bind, pure, Except.pure, eq_comm]
  · simp [writeBytes, check_of_not_covers h, h, bind, Except.bind]

theorem writeBytes_of_not_covers {m : Memory} {address : UInt64} {bytes : List UInt8}
    (h : ¬ m.Covers (·.write) address bytes.length) :
    m.writeBytes address bytes = .error (.memoryAccessFault address bytes.length) := by
  simp [writeBytes, check_of_not_covers h, bind, Except.bind]

/-! ## Reading bytes -/

@[simp] theorem length_bytesFrom (m : Memory) (a size : Nat) :
    (m.bytesFrom a size).length = size := by
  simp [bytesFrom]

theorem getElem_bytesFrom (m : Memory) (a size i : Nat) (hi : i < (m.bytesFrom a size).length) :
    (m.bytesFrom a size)[i] = (m.byteAt? (a + i)).getD 0 := by
  simp [bytesFrom]

theorem readBytes_eq_ok_iff (m : Memory) (address : UInt64) (size : Nat) (bytes : List UInt8) :
    m.readBytes address size = .ok bytes ↔
      m.Covers (·.read) address size ∧ bytes = m.bytesFrom address.toNat size := by
  by_cases h : m.Covers (·.read) address size
  · simp [readBytes, check_of_covers h, h, bind, Except.bind, pure, Except.pure, eq_comm]
  · simp [readBytes, check_of_not_covers h, h, bind, Except.bind]

theorem readBytes_of_not_covers {m : Memory} {address : UInt64} {size : Nat}
    (h : ¬ m.Covers (·.read) address size) :
    m.readBytes address size = .error (.memoryAccessFault address size) := by
  simp [readBytes, check_of_not_covers h, bind, Except.bind]

/-- Every byte of a covered range is mapped. -/
theorem Covers.exists_byteAt? {m : Memory} {allowed : Access → Bool} {address : UInt64}
    {size : Nat} (h : m.Covers allowed address size) {i : Nat} (hi : i < size) :
    ∃ byte, m.byteAt? (address.toNat + i) = some byte := by
  rcases h with h | ⟨_, _, hbytes⟩
  · omega
  · obtain ⟨access, haccess, _⟩ := hbytes (address.toNat + i) (by omega) (by omega)
    rw [← Option.isSome_iff_exists, isSome_byteAt?, haccess]
    rfl

/-- A covered range reads as its bytes. -/
theorem Covers.byteAt?_eq_getElem {m : Memory} {allowed : Access → Bool} {address : UInt64}
    {size : Nat} (h : m.Covers allowed address size) {i : Nat}
    (hi : i < (m.bytesFrom address.toNat size).length) :
    m.byteAt? (address.toNat + i) = some (m.bytesFrom address.toNat size)[i] := by
  obtain ⟨byte, hbyte⟩ := h.exists_byteAt? (by simpa using hi)
  rw [getElem_bytesFrom, hbyte]
  rfl

/-! ## Writes and reads together -/

/-- The memory `n` is `m` with the bytes from an address on replaced: nothing else is different, no
other byte, no access flag, no mapped page. -/
structure Overwrites (m n : Memory) (a : Nat) (bytes : List UInt8) : Prop where
  inside : ∀ i (hi : i < bytes.length), n.byteAt? (a + i) = some bytes[i]
  outside : ∀ x, x < a ∨ a + bytes.length ≤ x → n.byteAt? x = m.byteAt? x
  access : ∀ x, n.accessAt? x = m.accessAt? x
  pages : ∀ p, p ∈ n.pages ↔ p ∈ m.pages
  byteOrder : n.byteOrder = m.byteOrder
  spaceBits : n.spaceBits = m.spaceBits

/-- The bytes are those of the range, all of them mapped. -/
def Holds (m : Memory) (a size : Nat) (bytes : List UInt8) : Prop :=
  bytes.length = size ∧ ∀ i (hi : i < bytes.length), m.byteAt? (a + i) = some bytes[i]

/-- The bytes of a covered range are replaced as a whole. -/
theorem Covers.overwrites_setBytes {m : Memory} {allowed : Access → Bool} {address : UInt64}
    {bytes : List UInt8} (h : m.Covers allowed address bytes.length) :
    Overwrites m (m.setBytes address.toNat bytes) address.toNat bytes where
  inside i hi := by
    obtain ⟨byte, hbyte⟩ := h.exists_byteAt? hi
    rw [byteAt?_setBytes_of_inside m _ i bytes hi, hbyte]
    rfl
  outside x hx := byteAt?_setBytes_of_outside m _ x bytes hx
  access x := accessAt?_setBytes m _ x bytes
  pages p := mem_pages_setBytes m _ p bytes
  byteOrder := byteOrder_setBytes m _ bytes
  spaceBits := spaceBits_setBytes m _ bytes

theorem overwrites_of_writeBytes {m n : Memory} {address : UInt64} {bytes : List UInt8}
    (h : m.writeBytes address bytes = .ok n) : Overwrites m n address.toNat bytes := by
  obtain ⟨hcovers, rfl⟩ := (writeBytes_eq_ok_iff m n address bytes).mp h
  exact hcovers.overwrites_setBytes

theorem holds_of_readBytes {m : Memory} {address : UInt64} {size : Nat} {bytes : List UInt8}
    (h : m.readBytes address size = .ok bytes) : m.Holds address.toNat size bytes := by
  obtain ⟨hcovers, rfl⟩ := (readBytes_eq_ok_iff m address size bytes).mp h
  exact ⟨length_bytesFrom m _ size, fun i hi => hcovers.byteAt?_eq_getElem hi⟩

/-- A write keeps what may be read. -/
theorem Overwrites.covers_iff {m n : Memory} {a : Nat} {bytes : List UInt8}
    (h : Overwrites m n a bytes) (allowed : Access → Bool) (address : UInt64) (size : Nat) :
    n.Covers allowed address size ↔ m.Covers allowed address size :=
  ⟨Covers.congr h.spaceBits.symm fun x _ _ => (h.access x).symm,
    Covers.congr h.spaceBits fun x _ _ => h.access x⟩

/-- After a write, a byte of a range is the written one where the ranges overlap, and the one from
before elsewhere. -/
theorem Overwrites.getElem?_of_holds {m n : Memory} {a b size : Nat}
    {bytes before after : List UInt8} (h : Overwrites m n a bytes) (hm : m.Holds b size before)
    (hn : n.Holds b size after) {i : Nat} (hi : i < size) :
    after[i]? =
      if a ≤ b + i ∧ b + i < a + bytes.length then bytes[b + i - a]? else before[i]? := by
  obtain ⟨hlenm, hbefore⟩ := hm
  obtain ⟨hlenn, hafter⟩ := hn
  have hget := hafter i (by omega)
  split
  · rename_i hin
    have hwritten := h.inside (b + i - a) (by omega)
    rw [show a + (b + i - a) = b + i by omega] at hwritten
    rw [List.getElem?_eq_getElem (by omega), List.getElem?_eq_getElem (by omega), ← hget, hwritten]
  · rename_i hout
    rw [List.getElem?_eq_getElem (by omega), List.getElem?_eq_getElem (by omega), ← hget,
      h.outside (b + i) (by omega), hbefore i (by omega)]

/-- **Paged memory is a flat byte array.** A write succeeds exactly when its range is covered for
writing and then replaces these bytes and nothing else; a write that faults names its range and
leaves the bench of whoever wrote as it was. A read succeeds exactly when its range is covered for
reading and returns the bytes there. So a read that follows a write sees the written bytes where the
two ranges overlap and the old bytes elsewhere, and succeeds where it did before. -/
theorem writeBytes_readBytes_flat (m : Memory) (address : UInt64) (bytes : List UInt8) :
    ((∃ n, m.writeBytes address bytes = .ok n) ↔ m.Covers (·.write) address bytes.length) ∧
    (∀ n, m.writeBytes address bytes = .ok n → Overwrites m n address.toNat bytes) ∧
    (∀ e, m.writeBytes address bytes = .error e →
      e = .memoryAccessFault address bytes.length ∧
        ∀ (σ : Type) (bench : Bench σ), bench.machine.memory = m →
          (Work.change fun s => do
            return { s with memory := ← s.memory.writeBytes address bytes }).runOn bench =
            (.error e, bench)) ∧
    (∀ (start : UInt64) (size : Nat),
      ((∃ out, m.readBytes start size = .ok out) ↔ m.Covers (·.read) start size) ∧
      (∀ out, m.readBytes start size = .ok out → m.Holds start.toNat size out) ∧
      (∀ e, m.readBytes start size = .error e → e = .memoryAccessFault start size)) ∧
    (∀ n, m.writeBytes address bytes = .ok n → ∀ (start : UInt64) (size : Nat),
      (∀ e, n.readBytes start size = .error e ↔ m.readBytes start size = .error e) ∧
      ∀ before, m.readBytes start size = .ok before →
        ∃ after, n.readBytes start size = .ok after ∧ after.length = size ∧
          ∀ i, i < size → after[i]? =
            if address.toNat ≤ start.toNat + i ∧ start.toNat + i < address.toNat + bytes.length
            then bytes[start.toNat + i - address.toNat]? else before[i]?) := by
  refine ⟨⟨?_, ?_⟩, fun n => overwrites_of_writeBytes, ?_, ?_, ?_⟩
  -- when a write succeeds
  · rintro ⟨n, hn⟩
    exact ((writeBytes_eq_ok_iff m n address bytes).mp hn).1
  · intro h
    exact ⟨_, (writeBytes_eq_ok_iff m _ address bytes).mpr ⟨h, rfl⟩⟩
  -- a write that faults
  · intro e he
    have hcovers : ¬ m.Covers (·.write) address bytes.length := by
      intro h
      rw [(writeBytes_eq_ok_iff m _ address bytes).mpr ⟨h, rfl⟩] at he
      cases he
    rw [writeBytes_of_not_covers hcovers] at he
    obtain rfl := Except.error.inj he
    refine ⟨rfl, ?_⟩
    rintro σ ⟨own, s, log⟩ rfl
    apply Work.runOn_change_of_error
    rw [writeBytes_of_not_covers hcovers]
    rfl
  -- reads
  · intro start size
    refine ⟨⟨?_, ?_⟩, fun out => holds_of_readBytes, ?_⟩
    · rintro ⟨out, hout⟩
      exact ((readBytes_eq_ok_iff m start size out).mp hout).1
    · intro h
      exact ⟨_, (readBytes_eq_ok_iff m start size _).mpr ⟨h, rfl⟩⟩
    · intro e he
      by_cases h : m.Covers (·.read) start size
      · rw [(readBytes_eq_ok_iff m start size _).mpr ⟨h, rfl⟩] at he
        cases he
      · rw [readBytes_of_not_covers h] at he
        exact (Except.error.inj he).symm
  -- reads after a write
  · intro n hn start size
    have hover := overwrites_of_writeBytes hn
    by_cases h : m.Covers (·.read) start size
    · have hm := (readBytes_eq_ok_iff m start size _).mpr ⟨h, rfl⟩
      have hcovers := (hover.covers_iff _ start size).mpr h
      have hn := (readBytes_eq_ok_iff n start size _).mpr ⟨hcovers, rfl⟩
      refine ⟨fun e => by rw [hm, hn]; simp, ?_⟩
      intro before hbefore
      refine ⟨_, hn, length_bytesFrom n _ size, fun i hi => ?_⟩
      exact hover.getElem?_of_holds (holds_of_readBytes hbefore) (holds_of_readBytes hn) hi
    · have hm := readBytes_of_not_covers h
      have hn := readBytes_of_not_covers (mt (hover.covers_iff _ start size).mp h)
      refine ⟨fun e => by rw [hm, hn], ?_⟩
      intro before hbefore
      rw [hm] at hbefore
      cases hbefore

end RoutineEmulator.Memory
