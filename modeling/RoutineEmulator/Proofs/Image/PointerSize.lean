import RoutineEmulator.Proofs.CommandLine.SetUp
import RoutineEmulator.Proofs.Emulation.PointerWidth
/-!
The size of a pointer in an image that does not give one.

Such an image has pointers as wide as its addresses: an eighth of the number of bits that the
document has for them. Two things do not follow this number. The memory takes it into the range of
widths that there are before it divides, and it has words of four widths only. So the pointers of an
image can be used for three ranges of address widths, and fail at every access for all others.
-/

namespace RoutineEmulator

/-! ## What a run starts with -/

/-- The machine has the sizes of the image. -/
structure Machine.SizedBy (s : Machine) (image : ProgramImage) : Prop where
  types : s.types = image.typeTable
  pointerSize : s.pointerSize = image.pointerSize

namespace Machine

variable {s s' : Machine}

theorem types_of_addDump {dump : MemoryDump} (h : s.addDump dump = .ok s') :
    s'.types = s.types := by
  obtain ⟨between, hallocate, h⟩ := bind_eq_ok_iff.mp h
  obtain ⟨_, _, hallocate⟩ := bind_eq_ok_iff.mp hallocate
  cases hallocate
  obtain ⟨_, _, h⟩ := bind_eq_ok_iff.mp h
  cases h
  rfl

theorem types_of_foldlM_addDump {dumps : List MemoryDump} (h : dumps.foldlM addDump s = .ok s') :
    s'.types = s.types := by
  induction dumps generalizing s with
  | nil =>
      cases h
      rfl
  | cons dump rest ih =>
      obtain ⟨between, hdump, h⟩ := bind_eq_ok_iff.mp h
      rw [ih h, types_of_addDump hdump]

theorem types_of_ofDumps {types : TypeTable} {memory : Memory} {stack heap : Option MemoryDump}
    (h : ofDumps types memory stack heap = .ok s) : s.types = types := by
  obtain ⟨between, hdumps, h⟩ := bind_eq_ok_iff.mp h
  have hkept : between.types = types := types_of_foldlM_addDump hdumps
  split at h
  · cases h
    exact hkept
  · cases h
    exact hkept

/-- A stack changes no size. -/
theorem SizedBy.of_allocateStackSpace {image : ProgramImage} {grown : Option Machine}
    (h : s.SizedBy image) (hgrown : s.allocateStackSpace = .ok grown) :
    (grown.getD s).SizedBy image := by
  unfold allocateStackSpace at hgrown
  split at hgrown
  · cases hgrown
    exact h
  · cases hallocate : s.allocate (stackStart _) stackSize with
    | error e =>
        rw [hallocate] at hgrown
        cases hgrown
    | ok s' =>
        rw [hallocate] at hgrown
        cases hgrown
        obtain ⟨_, _, hallocate⟩ := bind_eq_ok_iff.mp hallocate
        cases hallocate
        exact ⟨h.types, h.pointerSize⟩

end Machine

namespace CommandLine

variable {files : Files} {options : Options} {image : ProgramImage} {s : Machine}

theorem eq_ok_of_orFail {ε α : Type} {context : String} {message : ε → String}
    {result : Except ε α} {a : α} (h : orFail context message result = .ok a) : result = .ok a := by
  unfold orFail at h
  split at h
  · cases h
    rfl
  · cases h

/-- Whatever dumps there are, a run starts with the sizes of its image. -/
theorem sizedBy_of_setUp (h : setUp files options image = .ok s) : s.SizedBy image := by
  unfold setUp at h
  cases hmemory : image.memory with
  | error e =>
      rw [hmemory] at h
      cases h
  | ok memory =>
      rw [hmemory] at h
      obtain ⟨_, -, h⟩ := bind_eq_ok_iff.mp h
      obtain ⟨stack, -, h⟩ := bind_eq_ok_iff.mp h
      obtain ⟨heap, -, h⟩ := bind_eq_ok_iff.mp h
      obtain ⟨machine, hdumps, h⟩ := bind_eq_ok_iff.mp h
      obtain ⟨grown, hgrown, h⟩ := bind_eq_ok_iff.mp h
      cases h
      have htypes : machine.types = image.typeTable :=
        Machine.types_of_ofDumps (eq_ok_of_orFail hdumps)
      refine Machine.SizedBy.of_allocateStackSpace ?_ (eq_ok_of_orFail hgrown)
      split
      · exact ⟨htypes, rfl⟩
      · exact ⟨htypes, rfl⟩

/-- A machine that the program comes to with an image: that of a session that its chain comes to
from where the run is set up. -/
def ComesTo (files : Files) (options : Options) (image : ProgramImage) (s : Machine) : Prop :=
  ∃ start file session, setUp files options image = .ok start ∧
    HandlerChain.ComesTo (chainSettings options) image.routineAt? options.first
      { own := simulators options, machine := start } file session ∧
    session.machine = s

/-- **The sizes of an image hold all through the program.** -/
theorem ComesTo.sizedBy (h : ComesTo files options image s) : s.SizedBy image := by
  obtain ⟨start, file, session, hsetUp, hcomes, rfl⟩ := h
  have hstart := sizedBy_of_setUp hsetUp
  have hkept := hcomes.keepsSizes
  exact ⟨hkept.types.trans hstart.types, hkept.pointerSize.trans hstart.pointerSize⟩

end CommandLine

/-! ## Pointers of an image -/

theorem ProgramImage.pointerSize_typeTable (image : ProgramImage) :
    image.typeTable.pointerSize = image.pointerSize := by
  unfold typeTable
  rw [TypeTable.pointerSize_extend, TypeTable.pointerSize_withPointerSize]

/-- The table and the machine agree on the size of a pointer. -/
theorem Machine.SizedBy.types_pointerSize {s : Machine} {image : ProgramImage}
    (h : s.SizedBy image) : s.types.pointerSize = s.pointerSize := by
  rw [h.types, image.pointerSize_typeTable, h.pointerSize]

namespace ProgramImage

open CommandLine

/-- **Pointers follow the addresses that the document gives.** In an image that gives no size of a
pointer, it is an eighth of the given width of an address, in the type table and in every machine
that the program comes to. A machine that derives the size from the memory of the image has the same
one exactly for given widths of 8 to 71 bits. It is the width of a word for three ranges of them.
There pointer variables can be read and assigned wherever their bytes can be, and stores of the
default width only fail for the place that they go to; with all other widths they fail wherever they
go. -/
theorem pointers_follow_addresses {image : ProgramImage} (hown : image.ownPointerSize = none) :
    image.typeTable.pointerSize = image.spaceBits / 8 ∧
    (∀ files options s, ComesTo files options image s →
      s.SizedBy image ∧ s.pointerSize = image.spaceBits / 8) ∧
    (∀ m, image.memory = .ok m →
      ((Machine.new image.typeTable m).pointerSize = image.pointerSize ↔
        8 ≤ image.spaceBits ∧ image.spaceBits < 72)) ∧
    (isWordWidth image.pointerSize = true ↔
      (8 ≤ image.spaceBits ∧ image.spaceBits < 24) ∨
      (32 ≤ image.spaceBits ∧ image.spaceBits < 40) ∨
      (64 ≤ image.spaceBits ∧ image.spaceBits < 72)) ∧
    ∀ s : Machine, s.SizedBy image →
      (isWordWidth image.pointerSize = true → s.PointersUsable) ∧
      (isWordWidth image.pointerSize = false → s.PointersRefused) := by
  have hsize : image.pointerSize = image.spaceBits / 8 := by
    unfold pointerSize
    rw [hown]
    rfl
  refine ⟨?_, fun files options s hcomes => ?_, fun m hm => ?_, ?_, fun s hs => ?_⟩
  · rw [pointerSize_typeTable, hsize]
  · have hs := hcomes.sizedBy
    exact ⟨hs, by rw [hs.pointerSize, hsize]⟩
  · have hbits : m.spaceBits = image.addressBits := (image.shows_of_memory hm).2.2
    show m.spaceBits / 8 = image.pointerSize ↔ _
    rw [hbits, hsize]
    unfold addressBits
    omega
  · rw [isWordWidth_iff, hsize]
    omega
  · rw [← hs.pointerSize]
    exact ⟨Machine.pointersUsable hs.types_pointerSize,
      Machine.pointersRefused hs.types_pointerSize⟩

/-- With addresses of 64 bits a run can be set up, and pointers can be used wherever it comes. -/
theorem pointers_follow_addresses_64 :
    (probeImage 64).ownPointerSize = none ∧
      (∃ machine,
        ComesTo (holding (probeDocument 64).compact) probeOptions (probeImage 64) machine) ∧
      ∀ files options s, ComesTo files options (probeImage 64) s → s.PointersUsable := by
  have hown : (probeImage 64).ownPointerSize = none := rfl
  have hmemory : (probeImage 64).memory = .ok (.new .little 64) := rfl
  obtain ⟨-, hsized, -, -, husable⟩ := pointers_follow_addresses hown
  obtain ⟨machine, hsetUp, -⟩ := exists_setUp (holding (probeDocument 64).compact) hmemory
    probeOptions_withoutDumps (by decide : 48 ≤ 64)
  refine ⟨hown, ⟨machine, machine, none, _, hsetUp, .start, rfl⟩, fun files options s hcomes => ?_⟩
  exact (husable s (hsized files options s hcomes).1).1 rfl

/-- With addresses that are given as 128 bits, the pointer of the small routine lies in memory that
may be read and written, and it cannot be read. -/
theorem probe_pointer_refused_128 :
    let image := probeImage 128
    let files := holding (probeDocument 128).compact
    loadImage files probeOptions.image = .ok image ∧ image.ownPointerSize = none ∧
      ∃ m machine address, image.memory = .ok m ∧
        (Machine.new image.typeTable m).pointerSize ≠ image.pointerSize ∧
        setUp files probeOptions image = .ok machine ∧
        machine.PointerAt probeVariable address ∧
        machine.memory.Covers (·.includes .readWrite) address image.pointerSize ∧
        machine.varValue probeVariable = .error (.unsupportedWidth 16) := by
  intro image files
  have hmemory : image.memory = .ok (.new .little 128) := rfl
  have hsize : image.pointerSize = 16 := by decide
  obtain ⟨machine, hsetUp, hmapped⟩ :=
    exists_setUp files hmemory probeOptions_withoutDumps (by decide : 48 ≤ 128)
  have hplace : machine.PointerAt probeVariable 0x7fffffffdf98 := by
    refine ⟨rfl, ?_⟩
    show (do return (0 + machine.frame.bias).toUInt64 + (← machine.frameBase)) = _
    rw [hmapped.frameBase (register?_startOf image _), hmapped.others]
    show Except.ok ((0 + 8 : Int64).toUInt64 + defaultFrameBase) = .ok 0x7fffffffdf98
    exact congrArg Except.ok (by decide)
  have hcovers :
      machine.memory.Covers (·.includes .readWrite) 0x7fffffffdf98 image.pointerSize := by
    have hstart : UInt64.toNat 0x7fffffffdf98 = defaultFrameBase.toNat + 8 := rfl
    rw [hsize]
    refine .inr ⟨by decide, ?_, fun x hle hlt => ⟨.readWrite, ?_, rfl⟩⟩
    · rw [Memory.maxAddress, Memory.spaceSize, hmapped.spaceBits]
      decide
    · exact hmapped.accessAt?_of_free Std.ExtTreeMap.not_mem_empty (by omega) (by omega)
  have hs := sizedBy_of_setUp hsetUp
  have hwidth : isWordWidth machine.pointerSize = false := by
    rw [hs.pointerSize, hsize]
    rfl
  have hread := (Machine.pointersRefused hs.types_pointerSize hwidth).read hplace
  rw [hs.pointerSize, hsize] at hread
  exact ⟨loadImage_probe (by decide), rfl, _, machine, _, hmemory, by decide, hsetUp, hplace,
    hcovers, hread⟩

end ProgramImage

end RoutineEmulator
