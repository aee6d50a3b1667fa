import RoutineEmulator.Proofs.Machine.Access
import RoutineEmulator.Proofs.StackMachine.Links
/-!
Where a stack machine keeps its list.

Chunks are given out one after the other from the base of the layout. `Ground` says that the memory
is fit for it: the stack cell may be read and written, the room for all chunks lies in the address
space apart from the cell, and the chunks taken so far are mapped. No write can spoil the ground,
since writes keep access flags. `Nodes` says that a list of chunks with values is linked up on it.
-/

namespace RoutineEmulator.StackMachine

open Memory

/-! ## Chunks -/

/-- The first address of the chunk that a push takes after so many others. -/
def slotStart (layout : StackLayout) (slot : Nat) : Nat :=
  layout.chunkBase.toNat + slot * layout.chunkSize.toNat

/-- The same address as a word. -/
def chunkAt (layout : StackLayout) (slot : Nat) : UInt64 :=
  layout.chunkBase + UInt64.ofNat (slot * layout.chunkSize.toNat)

theorem chunkAt_zero (layout : StackLayout) : chunkAt layout 0 = layout.chunkBase := by
  simp [chunkAt]

theorem chunkAt_succ (layout : StackLayout) (slot : Nat) :
    chunkAt layout (slot + 1) = chunkAt layout slot + layout.chunkSize := by
  rw [chunkAt, chunkAt, Nat.succ_mul, UInt64.ofNat_add, UInt64.ofNat_toNat, UInt64.add_assoc]

/-- The value of a chunk lies behind its link, where the addresses go that far. -/
theorem toNat_add_valueOffset {chunk : UInt64} (h : chunk.toNat + 8 < 0x10000000000000000) :
    (chunk + valueOffset).toNat = chunk.toNat + 8 := by
  have hoffset : valueOffset.toNat = 8 := by decide
  rw [UInt64.toNat_add, hoffset, Nat.mod_eq_of_lt h]

/-- Later chunks lie behind earlier ones. -/
theorem slotStart_add_le (layout : StackLayout) {i j : Nat} (h : i < j) :
    slotStart layout i + layout.chunkSize.toNat ≤ slotStart layout j := by
  have hmul : (i + 1) * layout.chunkSize.toNat ≤ j * layout.chunkSize.toNat :=
    Nat.mul_le_mul_right _ h
  rw [Nat.succ_mul] at hmul
  unfold slotStart
  omega

/-- A memory in which `used` chunks of a room for `total` are taken. -/
structure Ground (layout : StackLayout) (cell : UInt64) (total used : Nat) (m : Memory) :
    Prop where
  cell_ne : cell ≠ 0
  base_ne : layout.chunkBase ≠ 0
  size_ge : 12 ≤ layout.chunkSize.toNat
  space : slotStart layout total ≤ m.spaceSize
  /-- No chunk overlaps the stack cell. -/
  apart : ∀ slot < total, cell.toNat + 8 ≤ slotStart layout slot ∨
    slotStart layout slot + layout.chunkSize.toNat ≤ cell.toNat
  used_le : used ≤ total
  readable : m.Covers (·.read) cell 8
  writable : m.Covers (·.write) cell 8
  /-- The room holds no page of other flags. -/
  room : ∀ x, slotStart layout 0 ≤ x → x < slotStart layout total →
    m.accessAt? x = none ∨ m.accessAt? x = some .readWrite
  taken : ∀ slot < used, ∀ x, slotStart layout slot ≤ x →
    x < slotStart layout slot + layout.chunkSize.toNat → m.accessAt? x = some .readWrite

section Ground

variable {layout : StackLayout} {cell : UInt64} {total used slot : Nat} {m n : Memory}

theorem Ground.slotStart_le (h : Ground layout cell total used m) (hslot : slot < total) :
    slotStart layout slot + layout.chunkSize.toNat ≤ m.spaceSize :=
  Nat.le_trans (slotStart_add_le layout hslot) h.space

theorem Ground.toNat_chunkAt (h : Ground layout cell total used m) (hslot : slot < total) :
    (chunkAt layout slot).toNat = slotStart layout slot := by
  have hle := h.slotStart_le hslot
  have hspace := m.spaceSize_le
  have hsize := h.size_ge
  unfold slotStart at hle
  rw [chunkAt, UInt64.toNat_add, UInt64.toNat_ofNat', Nat.mod_eq_of_lt (a := slot * _) (by omega),
    Nat.mod_eq_of_lt (by omega), slotStart]

theorem Ground.toNat_valueAt (h : Ground layout cell total used m) (hslot : slot < total) :
    (chunkAt layout slot + valueOffset).toNat = slotStart layout slot + 8 := by
  have hle := h.slotStart_le hslot
  have hspace := m.spaceSize_le
  have hsize := h.size_ge
  have hstart := h.toNat_chunkAt hslot
  rw [toNat_add_valueOffset (by omega), hstart]

theorem Ground.chunkAt_ne_zero (h : Ground layout cell total used m) (hslot : slot < total) :
    chunkAt layout slot ≠ 0 := by
  intro hzero
  have hbase : layout.chunkBase.toNat ≠ 0 := fun h0 => h.base_ne (UInt64.toNat_inj.mp h0)
  have hstart := h.toNat_chunkAt hslot
  rw [hzero] at hstart
  unfold slotStart at hstart
  have hzero : (0 : UInt64).toNat = 0 := by decide
  omega

/-- A write keeps the ground as it is. -/
theorem Ground.overwrites (h : Ground layout cell total used m) {a : Nat} {bytes : List UInt8}
    (hover : Overwrites m n a bytes) : Ground layout cell total used n where
  cell_ne := h.cell_ne
  base_ne := h.base_ne
  size_ge := h.size_ge
  space := by
    rw [spaceSize, hover.spaceBits]
    exact h.space
  apart := h.apart
  used_le := h.used_le
  readable := (hover.covers_iff _ cell 8).mpr h.readable
  writable := (hover.covers_iff _ cell 8).mpr h.writable
  room x hle hlt := by
    rw [hover.access x]
    exact h.room x hle hlt
  taken slot hslot x hle hlt := by
    rw [hover.access x]
    exact h.taken slot hslot x hle hlt

/-- Mapping the next chunk takes it. -/
theorem Ground.fillsGaps (h : Ground layout cell total used m) (hused : used < total)
    (hfill : FillsGaps m n .readWrite (slotStart layout used) layout.chunkSize.toNat) :
    Ground layout cell total (used + 1) n := by
  have hkept : ∀ x access, m.accessAt? x = some access → n.accessAt? x = some access := by
    intro x access hx
    rw [(hfill.kept x (by rw [hx]; exact Option.some_ne_none access)).1, hx]
  have hcovers : ∀ allowed, m.Covers allowed cell 8 → n.Covers allowed cell 8 := by
    intro allowed hm
    refine hm.congr hfill.spaceBits ?_
    intro x hle hlt
    rcases hm with hm | ⟨_, _, hbytes⟩
    · cases hm
    · obtain ⟨access, haccess, _⟩ := hbytes x hle hlt
      rw [hkept x access haccess, haccess]
  constructor
  case cell_ne => exact h.cell_ne
  case base_ne => exact h.base_ne
  case size_ge => exact h.size_ge
  case space =>
    rw [spaceSize, hfill.spaceBits]
    exact h.space
  case apart => exact h.apart
  case used_le => exact hused
  case readable => exact hcovers _ h.readable
  case writable => exact hcovers _ h.writable
  case room =>
    intro x hle hlt
    rcases h.room x hle hlt with hx | hx
    · exact hfill.accessAt?_of_unmapped hx
    · exact Or.inr (hkept x _ hx)
  case taken =>
    intro slot hslot x hle hlt
    rcases Nat.lt_succ_iff_lt_or_eq.mp hslot with hold | rfl
    · exact hkept x _ (h.taken slot hold x hle hlt)
    · have hfirst : slotStart layout 0 ≤ slotStart layout slot := by
        unfold slotStart
        omega
      have hlast := slotStart_add_le layout hused
      rw [hfill.accessAt?_of_range hle hlt]
      rcases h.room x (by omega) (by omega) with hx | hx <;> rw [hx] <;> rfl

/-- The parts of a taken chunk may be read and written. -/
theorem Ground.covers_of_taken (h : Ground layout cell total used m) (hslot : slot < used)
    {allowed : Access → Bool} (hallowed : allowed .readWrite = true) {address : UInt64} {size : Nat}
    (hle : slotStart layout slot ≤ address.toNat)
    (hlt : address.toNat + size ≤ slotStart layout slot + layout.chunkSize.toNat) :
    m.Covers allowed address size := by
  have hspace := h.slotStart_le (Nat.lt_of_lt_of_le hslot h.used_le)
  rcases Nat.eq_zero_or_pos size with hsize | hsize
  · exact Or.inl hsize
  · have hle64 := m.spaceSize_le
    refine Or.inr ⟨by omega, ?_, ?_⟩
    · unfold maxAddress
      omega
    · intro x hx hx'
      exact ⟨_, h.taken slot hslot x (by omega) (by omega), hallowed⟩

end Ground

/-! ## Nodes -/

/-- Replacing an element by one that looks the same shows nothing. -/
theorem map_set_of_eq {α β : Type} {f : α → β} {l : List α} {k : Nat} {a b : α}
    (hk : l[k]? = some a) (hf : f b = f a) : (l.set k b).map f = l.map f := by
  apply List.ext_getElem?
  intro i
  rw [List.getElem?_map, List.getElem?_map, List.getElem?_set]
  split
  · rename_i hik
    subst hik
    obtain ⟨hlt, rfl⟩ := List.getElem?_eq_some_iff.mp hk
    rw [if_pos hlt, List.getElem?_eq_getElem hlt, Option.map_some, Option.map_some, hf]
  · rfl

/-- Chunks with their values, newest first, are linked up from `head` on. -/
structure Nodes (layout : StackLayout) (used : Nat) (head : UInt64) (nodes : List (Nat × UInt32))
    (m : Memory) : Prop where
  slots : ∀ node ∈ nodes, node.1 < used
  nodup : (nodes.map Prod.fst).Nodup
  links : Links m head (nodes.map fun node => chunkAt layout node.1)
  values : ∀ (k : Nat) (node : Nat × UInt32), nodes[k]? = some node →
    m.readWord (chunkAt layout node.1 + valueOffset) 4 = .ok node.2.toUInt64

section Nodes

variable {layout : StackLayout} {cell head : UInt64} {total taken used : Nat}
  {nodes : List (Nat × UInt32)} {m n : Memory}

/-- The list survives what keeps the words of its chunks. -/
theorem Nodes.frame (h : Nodes layout used head nodes m)
    (hlinks : ∀ node ∈ nodes, ∀ next, m.readWord (chunkAt layout node.1) 8 = .ok next →
      n.readWord (chunkAt layout node.1) 8 = .ok next)
    (hvalues : ∀ node ∈ nodes, ∀ value,
      m.readWord (chunkAt layout node.1 + valueOffset) 4 = .ok value →
      n.readWord (chunkAt layout node.1 + valueOffset) 4 = .ok value) :
    Nodes layout used head nodes n where
  slots := h.slots
  nodup := h.nodup
  links := by
    refine h.links.frame ?_
    intro chunk hchunk next
    obtain ⟨node, hnode, rfl⟩ := List.mem_map.mp hchunk
    exact hlinks node hnode next
  values k node hnode := hvalues node (List.mem_of_getElem? hnode) _ (h.values k node hnode)

/-- The list survives a write that does not touch its chunks. -/
theorem Nodes.frame_of_disjoint (hground : Ground layout cell total taken m)
    (h : Nodes layout used head nodes m) (hused : used ≤ taken) {a : Nat} {bytes : List UInt8}
    (hover : Overwrites m n a bytes)
    (hapart : ∀ node ∈ nodes, slotStart layout node.1 + 12 ≤ a ∨
      a + bytes.length ≤ slotStart layout node.1) :
    Nodes layout used head nodes n := by
  have hroom : ∀ node ∈ nodes, node.1 < total := fun node hnode =>
    Nat.lt_of_lt_of_le (h.slots node hnode) (Nat.le_trans hused hground.used_le)
  refine h.frame ?_ ?_
  · intro node hnode next hread
    have hstart := hground.toNat_chunkAt (hroom node hnode)
    have := hapart node hnode
    exact hover.readWord_of_disjoint isWordWidth_eight (by omega) hread
  · intro node hnode value hread
    have hstart := hground.toNat_valueAt (hroom node hnode)
    have := hapart node hnode
    exact hover.readWord_of_disjoint isWordWidth_four (by omega) hread

/-- The list survives a write to the stack cell. -/
theorem Nodes.frame_of_cell (hground : Ground layout cell total used m)
    (h : Nodes layout used head nodes m) {bytes : List UInt8} (hlen : bytes.length = 8)
    (hover : Overwrites m n cell.toNat bytes) : Nodes layout used head nodes n := by
  refine h.frame_of_disjoint hground (Nat.le_refl used) hover ?_
  intro node hnode
  have hsize := hground.size_ge
  have := hground.apart node.1 (Nat.lt_of_lt_of_le (h.slots node hnode) hground.used_le)
  omega

/-- The list survives a write behind its chunks. -/
theorem Nodes.frame_of_newer (hground : Ground layout cell total taken m)
    (h : Nodes layout used head nodes m) (hused : used ≤ taken) {a : Nat} {bytes : List UInt8}
    (hover : Overwrites m n a bytes) (ha : slotStart layout used ≤ a) :
    Nodes layout used head nodes n := by
  refine h.frame_of_disjoint hground hused hover ?_
  intro node hnode
  have hsize := hground.size_ge
  have := slotStart_add_le layout (h.slots node hnode)
  omega

/-- The list survives the mapping of pages. -/
theorem Nodes.frame_of_fillsGaps (h : Nodes layout used head nodes m) {access : Access}
    {a size : Nat} (hfill : FillsGaps m n access a size) : Nodes layout used head nodes n :=
  h.frame (fun _ _ _ => hfill.readWord isWordWidth_eight)
    (fun _ _ _ => hfill.readWord isWordWidth_four)

/-- A chunk that links to the list and holds a value makes a longer list. -/
theorem Nodes.cons (hground : Ground layout cell total (used + 1) m)
    (h : Nodes layout used head nodes m) {value : UInt32}
    (hlink : m.readWord (chunkAt layout used) 8 = .ok head)
    (hvalue : m.readWord (chunkAt layout used + valueOffset) 4 = .ok value.toUInt64) :
    Nodes layout (used + 1) (chunkAt layout used) ((used, value) :: nodes) m where
  slots node hnode := by
    rcases List.mem_cons.mp hnode with rfl | hnode
    · exact Nat.lt_succ_self used
    · exact Nat.lt_succ_of_lt (h.slots node hnode)
  nodup := by
    refine List.nodup_cons.mpr ⟨?_, h.nodup⟩
    intro hmem
    obtain ⟨node, hnode, hslot⟩ := List.mem_map.mp hmem
    have := h.slots node hnode
    omega
  links := ⟨rfl, hground.chunkAt_ne_zero hground.used_le, head, hlink, h.links⟩
  values k node hnode := by
    cases k with
    | zero =>
        obtain rfl := Option.some.inj hnode
        exact hvalue
    | succ k => exact h.values k node hnode

/-- Two chunks of the list are one or lie apart. -/
theorem Nodes.eq_or_apart (h : Nodes layout used head nodes m) {j k : Nat}
    {node other : Nat × UInt32} (hj : nodes[j]? = some other) (hk : nodes[k]? = some node) :
    j = k ∨ slotStart layout other.1 + layout.chunkSize.toNat ≤ slotStart layout node.1 ∨
      slotStart layout node.1 + layout.chunkSize.toNat ≤ slotStart layout other.1 := by
  rcases Nat.lt_trichotomy other.1 node.1 with hlt | heq | hgt
  · exact Or.inr (Or.inl (slotStart_add_le layout hlt))
  · refine Or.inl ?_
    obtain ⟨hj', rfl⟩ := List.getElem?_eq_some_iff.mp hj
    obtain ⟨hk', rfl⟩ := List.getElem?_eq_some_iff.mp hk
    have hj'' : j < (nodes.map Prod.fst).length := by simpa using hj'
    have hk'' : k < (nodes.map Prod.fst).length := by simpa using hk'
    have hsame : (nodes.map Prod.fst)[j] = (nodes.map Prod.fst)[k] := by simpa using heq
    exact (List.getElem_inj h.nodup).mp hsame
  · exact Or.inr (Or.inr (slotStart_add_le layout hgt))

/-- Writing the value of a chunk replaces that value in the list. -/
theorem Nodes.set (hground : Ground layout cell total used m) (h : Nodes layout used head nodes m)
    {k : Nat} {node : Nat × UInt32} (hk : nodes[k]? = some node) {value : UInt64}
    (hover : Overwrites m n (chunkAt layout node.1 + valueOffset).toNat
      (m.byteOrder.arrange (bytesOfNat 4 value.toNat))) :
    Nodes layout used head (nodes.set k (node.1, value.toUInt32)) n := by
  have hsize := hground.size_ge
  have hlen : (m.byteOrder.arrange (bytesOfNat 4 value.toNat)).length = 4 := by simp
  have hroom : ∀ other ∈ nodes, other.1 < total := fun other hother =>
    Nat.lt_of_lt_of_le (h.slots other hother) hground.used_le
  have hwritten := hground.toNat_valueAt (hroom node (List.mem_of_getElem? hk))
  constructor
  case slots =>
    intro other hother
    rcases List.mem_or_eq_of_mem_set hother with hother | rfl
    · exact h.slots other hother
    · exact h.slots node (List.mem_of_getElem? hk)
  case nodup =>
    rw [map_set_of_eq hk (by rfl)]
    exact h.nodup
  case links =>
    rw [map_set_of_eq hk (by rfl)]
    refine h.links.frame ?_
    intro chunk hchunk next hread
    obtain ⟨other, hother, rfl⟩ := List.mem_map.mp hchunk
    obtain ⟨j, hj⟩ := List.getElem?_of_mem hother
    have hstart := hground.toNat_chunkAt (hroom other hother)
    refine hover.readWord_of_disjoint isWordWidth_eight ?_ hread
    rcases h.eq_or_apart hj hk with rfl | hapart
    · rw [hj] at hk
      obtain rfl := Option.some.inj hk
      omega
    · omega
  case values =>
    intro j other hother
    rw [List.getElem?_set] at hother
    split at hother
    · rename_i hjk
      subst hjk
      rw [if_pos (List.getElem?_eq_some_iff.mp hk).1] at hother
      obtain rfl := Option.some.inj hother
      have hread := covers_of_readWord isWordWidth_four (h.values k node hk)
      rw [hover.readWord_of_same isWordWidth_four hread, lowBytes_four]
    · rename_i hjk
      have hotherAt := hground.toNat_valueAt (hroom other (List.mem_of_getElem? hother))
      refine hover.readWord_of_disjoint isWordWidth_four ?_ (h.values j other hother)
      rcases h.eq_or_apart hother hk with rfl | hapart
      · exact absurd rfl hjk
      · omega

/-- The list behind its newest chunk is a list. -/
theorem Nodes.tail {node : Nat × UInt32} (h : Nodes layout used head (node :: nodes) m) :
    head = chunkAt layout node.1 ∧
      ∃ next, m.readWord head 8 = .ok next ∧ Nodes layout used next nodes m := by
  obtain ⟨hhead, _, next, hread, hlinks⟩ := h.links
  refine ⟨hhead, next, by rw [hhead]; exact hread, ?_⟩
  exact {
    slots := fun other hother => h.slots other (List.mem_cons_of_mem node hother)
    nodup := (List.nodup_cons.mp h.nodup).2
    links := hlinks
    values := fun k other hother => h.values (k + 1) other hother }

end Nodes

end RoutineEmulator.StackMachine
