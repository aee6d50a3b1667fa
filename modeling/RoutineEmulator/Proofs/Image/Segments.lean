import Mathlib.Algebra.Group.Nat.Defs
import RoutineEmulator.Image
import RoutineEmulator.Proofs.Memory.Loading
import RoutineEmulator.Proofs.Routine.Faults
import RoutineEmulator.Proofs.Text.ByteStrings
/-!
The segments of an image in its memory.

Segments are loaded in order, and each load maps what it lacks for all uses. So no load meets a page
that an earlier segment has locked: whether a segment can be mapped depends on the segment and on
the width of an address alone. Where two segments cover one address, the later one has written last.
`Memory.Shows` is the invariant of the loading, over the segments that were loaded so far.
-/

namespace RoutineEmulator

/-! ## One segment -/

namespace Segment

/-- The text of the segment, less the blanks around it, spells these bytes. -/
def Spells (s : Segment) (bytes : List UInt8) : Prop :=
  Text.Spells (Text.trim s.bytes.toList) bytes

/-- The segment can be mapped where an address has this many bits. -/
def Placeable (s : Segment) (bits : Nat) : Prop :=
  ∃ bytes, s.Spells bytes ∧ (bytes ≠ [] → s.address.toNat + bytes.length ≤ 2 ^ bits)

/-- Why the segment cannot be mapped where an address has this many bits. Each fault has the address
of the segment. -/
inductive Refused (s : Segment) (bits : Nat) : SegmentFault → Prop
  /-- The text spells no bytes. -/
  | badText {cause : Text.HexFault} : (∀ bytes, ¬ s.Spells bytes) → s.content = .error cause →
      s.Refused bits (.badText s.address cause)
  /-- The bytes reach beyond the address space. -/
  | unmapped {bytes : List UInt8} : s.Spells bytes → bytes ≠ [] →
      2 ^ bits < s.address.toNat + bytes.length →
      s.Refused bits (.unmapped s.address (.memoryAccessFault s.address bytes.length))

/-- The byte that the segment has for an address, where it covers it. -/
def byteAt? (s : Segment) (x : Nat) : Option UInt8 :=
  match s.content with
  | .ok bytes => if s.address.toNat ≤ x then bytes[x - s.address.toNat]? else none
  | .error _ => none

/-- The byte that the last of the segments that cover an address has for it. -/
def lastByteAt? (segments : List Segment) (x : Nat) : Option UInt8 :=
  segments.reverse.findSome? (·.byteAt? x)

/-- The range of a segment with these bytes. -/
def chunkOf (s : Segment) (bytes : List UInt8) : Chunk :=
  ⟨s.address, bytes.length⟩

variable {s : Segment} {bits : Nat} {bytes : List UInt8}

theorem content_eq_ok_iff (s : Segment) (bytes : List UInt8) :
    s.content = .ok bytes ↔ s.Spells bytes := by
  unfold content Spells
  rw [Text.bytesOfHex_eq_ok_iff, String.toList_ofList]

/-- A text spells one byte string at most. -/
theorem Spells.unique {bytes' : List UInt8} (h : s.Spells bytes) (h' : s.Spells bytes') :
    bytes = bytes' := by
  have hcontent := (content_eq_ok_iff s bytes).mpr h
  rw [(content_eq_ok_iff s bytes').mpr h'] at hcontent
  exact (Except.ok.inj hcontent).symm

/-- A segment covers an address where one of its bytes lies there. -/
theorem byteAt?_eq_some_iff (s : Segment) (x : Nat) (byte : UInt8) :
    s.byteAt? x = some byte ↔
      ∃ bytes i, s.Spells bytes ∧ bytes[i]? = some byte ∧ x = s.address.toNat + i := by
  unfold byteAt?
  simp only [← content_eq_ok_iff]
  cases hcontent : s.content with
  | error e => simp
  | ok bytes =>
      constructor
      · intro h
        dsimp only at h
        split at h
        · exact ⟨bytes, x - s.address.toNat, rfl, h, by omega⟩
        · cases h
      · rintro ⟨bytes', i, hsame, hbyte, rfl⟩
        cases hsame
        simpa using hbyte

/-- The segments that cover an address are those whose range it lies in. -/
theorem isSome_byteAt?_iff (h : s.Spells bytes) (x : Nat) :
    (s.byteAt? x).isSome = true ↔
      s.address.toNat ≤ x ∧ x < s.address.toNat + bytes.length := by
  rw [Option.isSome_iff_exists]
  simp only [byteAt?_eq_some_iff]
  constructor
  · rintro ⟨byte, bytes', i, hspells, hbyte, rfl⟩
    cases hspells.unique h
    have hi := (List.getElem?_eq_some_iff.mp hbyte).1
    omega
  · rintro ⟨hle, hlt⟩
    have hi : x - s.address.toNat < bytes.length := by omega
    exact ⟨bytes[x - s.address.toNat], bytes, x - s.address.toNat, h,
      List.getElem?_eq_getElem hi, by omega⟩

/-- The pages that a segment touches are those that its range meets. -/
theorem exists_byteAt?_iff (h : s.Spells bytes) (p : Nat) :
    (∃ x, (s.byteAt? x).isSome = true ∧ x / pageSize = p) ↔ (s.chunkOf bytes).Meets p := by
  simp only [isSome_byteAt?_iff h, and_assoc]
  rfl

/-- The last segment is asked first. -/
theorem lastByteAt?_append_singleton (segments : List Segment) (s : Segment) (x : Nat) :
    lastByteAt? (segments ++ [s]) x = (s.byteAt? x).or (lastByteAt? segments x) := by
  unfold lastByteAt?
  rw [List.reverse_append, List.reverse_singleton, List.singleton_append, List.findSome?_cons]
  cases s.byteAt? x <;> rfl

theorem exists_of_lastByteAt? {segments : List Segment} {x : Nat} {byte : UInt8}
    (h : lastByteAt? segments x = some byte) : ∃ s ∈ segments, (s.byteAt? x).isSome = true := by
  obtain ⟨s, hmem, hbyte⟩ := List.exists_of_findSome?_eq_some h
  exact ⟨s, List.mem_reverse.mp hmem, by rw [hbyte]; rfl⟩

theorem Refused.not_placeable {e : SegmentFault} (h : s.Refused bits e) : ¬ s.Placeable bits := by
  rintro ⟨bytes, hspells, hroom⟩
  cases h with
  | badText hunread _ => exact hunread bytes hspells
  | unmapped hspells' hne hout =>
      cases hspells.unique hspells'
      exact Nat.not_le.mpr hout (hroom hne)

theorem placeable_iff (h : s.Spells bytes) :
    s.Placeable bits ↔ (bytes ≠ [] → s.address.toNat + bytes.length ≤ 2 ^ bits) := by
  constructor
  · rintro ⟨bytes', hspells, hroom⟩
    cases hspells.unique h
    exact hroom
  · exact fun hroom => ⟨bytes, h, hroom⟩

end Segment

/-! ## The memory so far -/

namespace Memory

/-- The memory holds the segments and nothing else: a page is mapped where a segment touches it, for
all uses, and an address has the byte of the last segment that covers it, or zero. -/
structure Shows (m : Memory) (segments : List Segment) : Prop where
  mapped : ∀ p, p ∈ m.pages ↔
    ∃ s ∈ segments, ∃ x, (s.byteAt? x).isSome = true ∧ x / pageSize = p
  access : ∀ x access, m.accessAt? x = some access → access = .all
  bytes : ∀ x, m.isMapped x = true →
    m.byteAt? x = some ((Segment.lastByteAt? segments x).getD 0)

variable {m n : Memory} {s : Segment} {done rest : List Segment} {bytes : List UInt8}

theorem shows_new (byteOrder : ByteOrder) (spaceBits : Nat) :
    (new byteOrder spaceBits).Shows [] := by
  have hempty : ∀ p : Nat, p ∉ (new byteOrder spaceBits).pages :=
    fun _ => Std.ExtTreeMap.not_mem_empty
  have hnone : ∀ x, (new byteOrder spaceBits).accessAt? x = none :=
    fun x => (accessAt?_eq_none_iff _ x).mpr (hempty _)
  refine ⟨fun p => by simp [hempty p], fun x access h => ?_, fun x h => ?_⟩
  · rw [hnone x] at h
    cases h
  · exact absurd (Std.ExtTreeMap.mem_iff_isSome_getElem?.mpr h) (hempty _)

theorem isMapped_iff (m : Memory) (x : Nat) : m.isMapped x = true ↔ x / pageSize ∈ m.pages :=
  Std.ExtTreeMap.mem_iff_isSome_getElem?.symm

/-- An address that no segment touches the page of has no byte of a segment either. -/
theorem Shows.lastByteAt?_of_not_mem (h : m.Shows done) {x : Nat} (hfree : x / pageSize ∉ m.pages) :
    Segment.lastByteAt? done x = none := by
  cases hlast : Segment.lastByteAt? done x with
  | none => rfl
  | some byte =>
      obtain ⟨s, hmem, hcovers⟩ := Segment.exists_of_lastByteAt? hlast
      exact absurd ((h.mapped _).mpr ⟨s, hmem, x, hcovers, rfl⟩) hfree

/-- What is shown may be written. -/
theorem Shows.unlocked (h : m.Shows done) (a size : Nat) : m.Unlocked a size := by
  intro x _ _ access hx
  rw [h.access x access hx]
  rfl

/-- There is room for the bytes of a segment that can be mapped, and for no other ones. -/
theorem loadable_iff (h : m.Shows done) (hspells : s.Spells bytes) :
    m.Loadable s.address bytes.length ↔ s.Placeable m.spaceBits := by
  have hfits : (s.chunkOf bytes).Fits m ↔ s.address.toNat + bytes.length ≤ 2 ^ m.spaceBits := by
    rw [← Nat.one_shiftLeft]
    rfl
  rw [Segment.placeable_iff hspells, ← hfits, Ne, ← List.length_eq_zero_iff]
  constructor
  · rintro ⟨hroom, -⟩ hne
    exact hroom.resolve_left hne
  · intro hroom
    exact ⟨Classical.or_iff_not_imp_left.mpr hroom, h.unlocked _ _⟩

/-! ## One load -/

/-- A segment is mapped exactly where it can be. -/
theorem Shows.mapInto_eq_ok_iff (h : m.Shows done) :
    s.mapInto m = .ok n ↔ ∃ bytes, s.Spells bytes ∧ s.Placeable m.spaceBits ∧
      n = (m.load s.address bytes).2 := by
  unfold Segment.mapInto
  simp only [← Segment.content_eq_ok_iff]
  cases hcontent : s.content with
  | error cause => simp
  | ok bytes =>
      have hplaceable := loadable_iff h ((Segment.content_eq_ok_iff s bytes).mp hcontent)
      by_cases hload : m.Loadable s.address bytes.length
      · simp [load_of_loadable hload, hplaceable.mp hload, eq_comm]
      · simp [load_of_not_loadable hload, mt hplaceable.mpr hload]

/-- A segment that cannot be mapped is refused, with a fault that has its address. -/
theorem Shows.mapInto_eq_error_iff (h : m.Shows done) (e : SegmentFault) :
    s.mapInto m = .error e ↔ s.Refused m.spaceBits e := by
  constructor
  · intro hrefused
    have hmapped : ¬ ∃ n, s.mapInto m = .ok n := by
      rintro ⟨n, hn⟩
      rw [hn] at hrefused
      cases hrefused
    unfold Segment.mapInto at hrefused
    cases hcontent : s.content with
    | error cause =>
        rw [hcontent] at hrefused
        cases hrefused
        refine .badText (fun bytes hspells => ?_) hcontent
        rw [(Segment.content_eq_ok_iff s bytes).mpr hspells] at hcontent
        cases hcontent
    | ok bytes =>
        have hspells := (Segment.content_eq_ok_iff s bytes).mp hcontent
        have hload : ¬ m.Loadable s.address bytes.length := fun hload =>
          hmapped ⟨_, h.mapInto_eq_ok_iff.mpr
            ⟨bytes, hspells, (loadable_iff h hspells).mp hload, rfl⟩⟩
        rw [hcontent] at hrefused
        dsimp only at hrefused
        rw [load_of_not_loadable hload] at hrefused
        cases hrefused
        have hout := mt (loadable_iff h hspells).mpr hload
        rw [Segment.placeable_iff hspells, Classical.not_imp, Nat.not_le] at hout
        exact .unmapped hspells hout.1 hout.2
  · intro hrefused
    cases hmap : s.mapInto m with
    | ok n =>
        obtain ⟨_, _, hplaceable, _⟩ := h.mapInto_eq_ok_iff.mp hmap
        exact absurd hplaceable hrefused.not_placeable
    | error e' =>
        cases hrefused with
        | badText _ hcontent =>
            rw [Segment.mapInto, hcontent] at hmap
            exact hmap.symm
        | unmapped hspells hne hout =>
            have hload := mt (loadable_iff h hspells).mp
              (Segment.Refused.unmapped hspells hne hout).not_placeable
            rw [Segment.mapInto, (Segment.content_eq_ok_iff s _).mpr hspells] at hmap
            dsimp only at hmap
            rw [load_of_not_loadable hload] at hmap
            exact hmap.symm

/-- Pages that are mapped for a segment are for all uses. -/
theorem Shows.access_of_allocated (h : m.Shows done) {chunk : Chunk} {x : Nat} {access : Access}
    (hx : (m.allocated .all chunk).accessAt? x = some access) : access = .all := by
  rw [accessAt?_allocated] at hx
  cases hold : m.accessAt? x with
  | some old =>
      rw [hold] at hx
      cases hx
      exact h.access x access hold
  | none =>
      rw [hold, Option.none_or] at hx
      split at hx
      · exact (Option.some.inj hx).symm
      · cases hx

/-- Fresh pages hold zeros, and no segment before covers an address in them. -/
theorem Shows.bytes_of_allocated (h : m.Shows done) {chunk : Chunk} {x : Nat}
    (hx : x / pageSize ∈ (m.allocated .all chunk).pages) :
    (m.allocated .all chunk).byteAt? x = some ((Segment.lastByteAt? done x).getD 0) := by
  rw [byteAt?_allocated]
  by_cases hold : x / pageSize ∈ m.pages
  · rw [h.bytes x ((isMapped_iff m x).mpr hold)]
    rfl
  · have hunmapped : m.byteAt? x = none := by
      rw [← Option.not_isSome_iff_eq_none, isSome_byteAt?, Option.not_isSome_iff_eq_none,
        accessAt?_eq_none_iff]
      exact hold
    rw [mem_pages_allocated] at hx
    rw [hunmapped, h.lastByteAt?_of_not_mem hold, if_pos (hx.resolve_left hold)]
    rfl

/-- **One load.** The new segment is shown behind those before it. -/
theorem Shows.mapInto (h : m.Shows done) (hmap : s.mapInto m = .ok n) :
    n.Shows (done ++ [s]) ∧ n.byteOrder = m.byteOrder ∧ n.spaceBits = m.spaceBits := by
  obtain ⟨bytes, hspells, hplaceable, rfl⟩ := h.mapInto_eq_ok_iff.mp hmap
  have hload := (loadable_iff h hspells).mpr hplaceable
  have hover : Overwrites (m.allocated .all (s.chunkOf bytes)) _ _ _ := overwrites_of_loadable hload
  -- a segment without bytes meets no page, so it does not matter whether it fits
  have hfits : ∀ p, (s.chunkOf bytes).Meets p → (s.chunkOf bytes).Fits m := fun p hmeets =>
    hload.1.resolve_left (Nat.pos_iff_ne_zero.mp (Chunk.size_pos_of_meets hmeets))
  refine ⟨⟨fun p => ?mapped, fun x access hx => ?access, fun x hx => ?bytes⟩,
    hover.byteOrder.trans (byteOrder_allocated ..), hover.spaceBits.trans (spaceBits_allocated ..)⟩
  case mapped =>
    rw [hover.pages, mem_pages_allocated, h.mapped]
    simp only [List.mem_append, List.mem_singleton, or_and_right, exists_or, exists_eq_left,
      Segment.exists_byteAt?_iff hspells]
    exact or_congr_right ⟨fun hmeets => hmeets.2, fun hmeets => ⟨hfits p hmeets, hmeets⟩⟩
  case access =>
    rw [hover.access] at hx
    exact h.access_of_allocated hx
  case bytes =>
    rw [Segment.lastByteAt?_append_singleton]
    by_cases hin : s.address.toNat ≤ x ∧ x < s.address.toNat + bytes.length
    · -- the segment covers the address and has written last
      obtain ⟨i, rfl⟩ : ∃ i, x = s.address.toNat + i := ⟨x - s.address.toNat, by omega⟩
      have hi : i < bytes.length := by omega
      have hbyte : s.byteAt? (s.address.toNat + i) = some bytes[i] :=
        (Segment.byteAt?_eq_some_iff ..).mpr ⟨bytes, i, hspells, List.getElem?_eq_getElem hi, rfl⟩
      rw [hover.inside i hi, hbyte]
      rfl
    · -- the address keeps the byte that it has before the write
      have hnone : s.byteAt? x = none := by
        rw [← Option.not_isSome_iff_eq_none, Segment.isSome_byteAt?_iff hspells]
        exact hin
      rw [isMapped_iff, hover.pages] at hx
      rw [hover.outside x (by omega), hnone, Option.none_or]
      exact h.bytes_of_allocated hx

/-! ## All loads -/

/-- **A whole run of loads.** Each segment could be mapped, and all of them are shown. -/
theorem Shows.foldlM (h : m.Shows done) (hrun : rest.foldlM Segment.mapInto m = .ok n) :
    (∀ s ∈ rest, s.Placeable m.spaceBits) ∧ n.Shows (done ++ rest) ∧
      n.byteOrder = m.byteOrder ∧ n.spaceBits = m.spaceBits := by
  induction rest generalizing done m with
  | nil =>
      cases hrun
      exact ⟨nofun, by rwa [List.append_nil], rfl, rfl⟩
  | cons s rest ih =>
      obtain ⟨between, hmap, hrun⟩ := bind_eq_ok_iff.mp hrun
      obtain ⟨bytes, hspells, hplaceable, -⟩ := h.mapInto_eq_ok_iff.mp hmap
      obtain ⟨hshows, horder, hbits⟩ := h.mapInto hmap
      obtain ⟨hrest, hall, horder', hbits'⟩ := ih hshows hrun
      rw [List.append_assoc, List.singleton_append] at hall
      rw [hbits] at hrest
      exact ⟨List.forall_mem_cons.mpr ⟨hplaceable, hrest⟩, hall, horder'.trans horder,
        hbits'.trans hbits⟩

/-- Where loading stops, it does so at the first segment that cannot be mapped. -/
theorem Shows.foldlM_eq_error (h : m.Shows done) {e : SegmentFault}
    (hrun : rest.foldlM Segment.mapInto m = .error e) :
    ∃ before s after, rest = before ++ s :: after ∧ (∀ r ∈ before, r.Placeable m.spaceBits) ∧
      s.Refused m.spaceBits e := by
  obtain ⟨before, s, after, between, hcut, hbefore, hmap⟩ := exists_of_foldlM_eq_error hrun
  obtain ⟨hplaceable, hshows, -, hbits⟩ := h.foldlM hbefore
  refine ⟨before, s, after, hcut, hplaceable, ?_⟩
  rw [← hbits]
  exact (hshows.mapInto_eq_error_iff e).mp hmap

theorem Shows.exists_foldlM (h : m.Shows done) (hall : ∀ s ∈ rest, s.Placeable m.spaceBits) :
    ∃ n, rest.foldlM Segment.mapInto m = .ok n := by
  cases hrun : rest.foldlM Segment.mapInto m with
  | ok n => exact ⟨n, rfl⟩
  | error e =>
      obtain ⟨before, s, after, rfl, -, hrefused⟩ := h.foldlM_eq_error hrun
      exact absurd (hall s (by simp)) hrefused.not_placeable

end Memory

/-! ## The memory of an image -/

namespace ProgramImage

open Memory

/-- The width of an address in the memory of an image: the one that the image gives, taken into the
range of widths that a memory may have. -/
def addressBits (image : ProgramImage) : Nat :=
  max 8 (min image.spaceBits 64)

/-- The memory of an image shows its segments, in the byte order and the address width of the
image. -/
theorem shows_of_memory {image : ProgramImage} {m : Memory} (h : image.memory = .ok m) :
    m.Shows image.segments ∧ m.byteOrder = image.byteOrder ∧ m.spaceBits = image.addressBits :=
  ((shows_new image.byteOrder image.spaceBits).foldlM h).2

/-- **The memory of an image is its segments.** There is one exactly where the text of every segment
spells bytes, and these lie below the top of the address space, unless there are none. Otherwise the
fault is that of the first segment that fails in this, and has its address. The memory has the pages
that the segments touch and no others, for all uses, and at each address of them the byte of the
last segment that covers it, or zero. -/
theorem memory_shows_segments (image : ProgramImage) :
    ((∃ m, image.memory = .ok m) ↔ ∀ s ∈ image.segments, s.Placeable image.addressBits) ∧
    (∀ e, image.memory = .error e ↔
      ∃ before s after, image.segments = before ++ s :: after ∧
        (∀ r ∈ before, r.Placeable image.addressBits) ∧ s.Refused image.addressBits e) ∧
    ∀ m, image.memory = .ok m → m.Shows image.segments ∧
      m.byteOrder = image.byteOrder ∧ m.spaceBits = image.addressBits := by
  have hnew := shows_new image.byteOrder image.spaceBits
  have hbits : (new image.byteOrder image.spaceBits).spaceBits = image.addressBits := rfl
  refine ⟨⟨?_, fun hall => ?_⟩, fun e => ⟨fun hrun => ?_, ?_⟩, fun m hm => ?_⟩
  · rintro ⟨m, hm⟩
    exact (hnew.foldlM hm).1
  · exact hnew.exists_foldlM hall
  · exact hnew.foldlM_eq_error hrun
  · rintro ⟨before, s, after, hcut, hbefore, hrefused⟩
    obtain ⟨between, hrun⟩ := hnew.exists_foldlM hbefore
    obtain ⟨-, hshows, -, hsame⟩ := hnew.foldlM hrun
    rw [← hbits, ← hsame] at hrefused
    rw [memory, hcut, List.foldlM_append, hrun]
    show (s :: after).foldlM Segment.mapInto between = .error e
    rw [List.foldlM_cons, (hshows.mapInto_eq_error_iff e).mpr hrefused]
    rfl
  · exact shows_of_memory hm

end ProgramImage

end RoutineEmulator
