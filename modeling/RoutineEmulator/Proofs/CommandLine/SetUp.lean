import RoutineEmulator.CommandLine.Program
import RoutineEmulator.Proofs.Image.Segments
import RoutineEmulator.Proofs.Json.Lawful
import RoutineEmulator.Proofs.Json.Reading
import RoutineEmulator.Proofs.Machine.StackSpace
import RoutineEmulator.Proofs.Routine.RoundTrip
/-!
Setting up a run without dumps.

Without a dumped stack the frame base is a constant, whatever the width of an address in the image,
and the stack around it is the one thing that can still fail once the memory of the image is there.
The constant is an address of 47 bits, and its stack reaches one bit further. So the chain is
entered for the images with addresses of 48 bits or more, and for no others.
-/

namespace RoutineEmulator

/-! ## The default frame base -/

/-- The stack around the default frame base takes addresses of 48 bits. -/
theorem Machine.stackFits_defaultFrameBase_iff (m : Memory) :
    StackFits m CommandLine.defaultFrameBase ↔ 48 ≤ m.spaceBits := by
  have hpage : pageStart CommandLine.defaultFrameBase.toNat = 0x7fffffffd000 := rfl
  have hspace : m.spaceSize = 2 ^ m.spaceBits := Nat.one_shiftLeft _
  unfold StackFits Memory.maxAddress
  rw [hpage, hspace]
  constructor
  · rintro ⟨-, hroom⟩
    apply Nat.le_of_not_lt
    intro hnarrow
    have hsmall : 2 ^ m.spaceBits ≤ 2 ^ 47 := Nat.pow_le_pow_right (by decide) (by omega)
    omega
  · intro hwide
    have hlarge : 2 ^ 48 ≤ 2 ^ m.spaceBits := Nat.pow_le_pow_right (by decide) hwide
    omega

namespace CommandLine

/-! ## Setting up -/

/-- No dump is read: each lacks its file or its address. -/
def Options.WithoutDumps (options : Options) : Prop :=
  (options.stackDump = none ∨ options.stackAddress = none) ∧
    (options.heapDump = none ∨ options.heapAddress = none)

/-- The machine for an image without dumps, before it has a stack. Only the frame register has a
value. -/
def startOf (image : ProgramImage) (memory : Memory) : Machine :=
  { Machine.new image.typeTable memory with pointerSize := image.pointerSize }.setRegister
    Register.rbp defaultFrameBase

/-- Follows the chain on a machine that was set up. -/
def follow (files : Files) (options : Options) (image : ProgramImage) (machine : Machine) :
    Result :=
  let file : Option LogFile :=
    options.log.map fun path => { path, refusal := fun _ => files.logRefusal }
  let result := HandlerChain.run (chainSettings options) image.routineAt? options.first
    { own := simulators options, machine } file
  match result.report with
  | some chain => report options chain result.session.log result.file
  | none => { code := 1, errors := Failure.text ⟨"Emulation did not end", none⟩ }

/-- The stack around the default frame base lies beyond the address space. -/
def noRoomForStack : Failure where
  context := "Failed to allocate stack space"
  cause := some "Memory access fault at 0x7fffffefd000 (1114112 bytes)"

section

variable {files : Files} {options : Options} {image : ProgramImage} {memory : Memory}

/-- Once its image is loaded, a run is set up, and follows the chain unless that fails. -/
theorem run_of_loadImage (h : loadImage files options.image = .ok image) :
    run files options =
      match setUp files options image with
      | .ok machine => follow files options image machine
      | .error failure => { code := 1, errors := failure.text } := by
  have hprepared : (do
      let image ← loadImage files options.image
      return (image, ← setUp files options image) : Except Failure (ProgramImage × Machine)) =
      (setUp files options image).map (image, ·) := by
    rw [h]
    rfl
  unfold run
  rw [hprepared]
  cases setUp files options image with
  | ok machine => rfl
  | error failure => rfl

theorem loadDump_eq_none {what : String} {path : Option String}
    {address basePointer : Option UInt64} (h : path = none ∨ address = none) :
    loadDump files what path address basePointer = .ok none := by
  rcases h with rfl | rfl
  · rfl
  · cases path <;> rfl

/-- Without dumps only the stack can fail. -/
theorem setUp_of_withoutDumps (hmemory : image.memory = .ok memory) (h : options.WithoutDumps) :
    setUp files options image =
      (orFail "Failed to allocate stack space" (·.message)
        (startOf image memory).allocateStackSpace).map (·.getD (startOf image memory)) := by
  unfold setUp
  rw [hmemory, loadDump_eq_none h.1, loadDump_eq_none h.2]
  rfl

theorem register?_startOf (image : ProgramImage) (memory : Memory) :
    (startOf image memory).register? (startOf image memory).frame.frameRegister =
      some defaultFrameBase :=
  Std.ExtTreeMap.getElem?_insert_self

/-- The stack of the start fits for the images with wide addresses. -/
theorem stackFits_startOf_iff (hmemory : image.memory = .ok memory) :
    Machine.StackFits (startOf image memory).memory defaultFrameBase ↔ 48 ≤ image.spaceBits := by
  have hbits : memory.spaceBits = image.addressBits := (image.shows_of_memory hmemory).2.2
  show Machine.StackFits memory defaultFrameBase ↔ _
  rw [Machine.stackFits_defaultFrameBase_iff, hbits]
  unfold ProgramImage.addressBits
  omega

theorem exists_setUp (files : Files) (hmemory : image.memory = .ok memory)
    (h : options.WithoutDumps) (hwide : 48 ≤ image.spaceBits) :
    ∃ machine, setUp files options image = .ok machine ∧
      Machine.StackMapped (startOf image memory) machine defaultFrameBase := by
  obtain ⟨machine, hgrown, hmapped⟩ := Machine.exists_allocateStackSpace
    (register?_startOf image memory) ((stackFits_startOf_iff hmemory).mpr hwide)
  refine ⟨machine, ?_, hmapped⟩
  rw [setUp_of_withoutDumps hmemory h, hgrown]
  rfl

theorem setUp_of_narrow (hmemory : image.memory = .ok memory) (h : options.WithoutDumps)
    (hnarrow : image.spaceBits < 48) : setUp files options image = .error noRoomForStack := by
  have hrefused := Machine.allocateStackSpace_of_not_fits (register?_startOf image memory)
    (mt (stackFits_startOf_iff hmemory).mp (Nat.not_le.mpr hnarrow))
  rw [setUp_of_withoutDumps hmemory h, hrefused]
  rfl

/-- **The chain is entered where addresses are wide enough.** A run without dumps whose image is
loaded, with a memory, is set up exactly where an address has 48 bits or more. Then a stack is
mapped around the default frame base and the chain is followed. With narrower addresses the stack
lies beyond the address space, and the run ends with this as its error before any routine is looked
for. -/
theorem run_enters_chain (hload : loadImage files options.image = .ok image)
    (hmemory : image.memory = .ok memory) (h : options.WithoutDumps) :
    (48 ≤ image.spaceBits → ∃ machine, setUp files options image = .ok machine ∧
      Machine.StackMapped (startOf image memory) machine defaultFrameBase ∧
      run files options = follow files options image machine) ∧
    (image.spaceBits < 48 → setUp files options image = .error noRoomForStack ∧
      run files options =
        { code := 1
          errors := "Error: Failed to allocate stack space\n\nCaused by:\n" ++
            "    Memory access fault at 0x7fffffefd000 (1114112 bytes)\n" }) := by
  constructor
  · intro hwide
    obtain ⟨machine, hsetUp, hmapped⟩ := exists_setUp files hmemory h hwide
    refine ⟨machine, hsetUp, hmapped, ?_⟩
    rw [run_of_loadImage hload, hsetUp]
  · intro hnarrow
    have hsetUp : setUp files options image = .error noRoomForStack :=
      setUp_of_narrow hmemory h hnarrow
    refine ⟨hsetUp, ?_⟩
    rw [run_of_loadImage hload, hsetUp]
    rfl

end

/-! ## A small image -/

/-- The files of a run where every one of them has this text. -/
def holding (document : String) : Files where
  read := fun _ => .ok document.toByteArray.data.toList

theorem readText_holding (document path : String) :
    readText (holding document) path = .ok document := by
  have htext : String.fromUTF8? ⟨document.toByteArray.data.toList.toArray⟩ = some document :=
    dif_pos document.isValidUTF8
  simp only [readText, holding, bind, Except.bind, htext]

/-- An image is loaded from its document. -/
theorem loadImage_holding {document : Json} {image : ProgramImage} (path : String)
    (h : ProgramImage.decode Json.nestingLimit document = some image) :
    loadImage (holding document.compact) path = .ok image := by
  have hdecode : ProgramImage.decodeText? document.compact = some image := by
    simp [ProgramImage.decodeText?, Json.decodeText?, Json.read?_compact, h]
  simp only [loadImage, readText_holding, orFail, bind, Except.bind, hdecode]

/-- A pointer in the frame. -/
def probeVariable : Identifier where
  name := "p"
  storage := .local
  type := "char*"

/-- A routine that returns this pointer. -/
def probeDraft : Draft where
  name := "probe"
  address := 0x401000
  body := ⟨0⟩
  stmts := #[.block [⟨1⟩], .ret (some (.ident ⟨0⟩))]
  idents := #[probeVariable]

def probeRoutine : Routine where
  toDraft := probeDraft
  valid := Draft.check_eq_ok_iff.mpr ⟨by decide, by decide, by decide, by decide⟩

def probeRoutineDocument : Json :=
  .record
    [("name", .text "probe"), ("address", .nat 0x401000),
     ("stmts", .arr [.variant "block" (.record [("stmts", .arr [.nat 1])]),
       .variant "return" (.variant "ident" (.nat 0))]),
     ("idents", .arr [.record
       [("name", .text "p"), ("class", .text "local"), ("ty", .text "char*"),
        ("address", .nat 0)]]),
     ("body", .nat 0)]

/-- An image of this routine alone, with addresses of this width. -/
def probeImage (bits : Nat) : ProgramImage where
  spaceBits := bits
  routines := [probeRoutine]

def probeDocument (bits : Nat) : Json :=
  .record [("space_bits", .nat bits), ("routines", .arr [probeRoutineDocument])]

theorem decode_probeDocument {bits : Nat} (h : bits < 1 <<< 32) :
    ProgramImage.decode Json.nestingLimit (probeDocument bits) = some (probeImage bits) := by
  have hdraft : Draft.decode 125 probeRoutineDocument = some probeDraft := rfl
  have hroutine : Routine.decodeValid 125 probeRoutineDocument = some probeRoutine := by
    rw [Routine.decodeValid, hdraft]
    show (Routine.ofDraft probeRoutine.toDraft).toOption = _
    rw [Routine.ofDraft_toDraft]
    rfl
  have hroutines : Json.listOf Routine.decodeValid 126 (.arr [probeRoutineDocument]) =
      some [probeRoutine] := by
    show [probeRoutineDocument].mapM (Routine.decodeValid 125) = _
    simp [hroutine]
  show (do
    let spaceBits ← Json.nat? 32 (.nat bits)
    let routines ← Json.listOf Routine.decodeValid 126 (.arr [probeRoutineDocument])
    return ({ spaceBits, routines } : ProgramImage)) = _
  rw [Json.nat?_nat 32 h, hroutines]
  rfl

/-- The options of a run of the small image, without dumps. -/
def probeOptions : Options where
  image := "probe.json"
  first := 0x401000

theorem probeOptions_withoutDumps : probeOptions.WithoutDumps :=
  ⟨.inl rfl, .inl rfl⟩

theorem loadImage_probe {bits : Nat} (h : bits < 1 <<< 32) :
    loadImage (holding (probeDocument bits).compact) probeOptions.image = .ok (probeImage bits) :=
  loadImage_holding _ (decode_probeDocument h)

/-- The narrowest addresses with which the chain is entered. -/
theorem run_enters_chain_48 :
    let files := holding (probeDocument 48).compact
    loadImage files probeOptions.image = .ok (probeImage 48) ∧
      (probeImage 48).memory = .ok (.new .little 48) ∧ probeOptions.WithoutDumps ∧
      ∃ machine, setUp files probeOptions (probeImage 48) = .ok machine ∧
        run files probeOptions = follow files probeOptions (probeImage 48) machine := by
  intro files
  have hload : loadImage files probeOptions.image = .ok (probeImage 48) :=
    loadImage_probe (by decide)
  have hmemory : (probeImage 48).memory = .ok (.new .little 48) := rfl
  obtain ⟨hwide, -⟩ := run_enters_chain hload hmemory probeOptions_withoutDumps
  obtain ⟨machine, hsetUp, -, hrun⟩ := hwide (Nat.le_refl 48)
  exact ⟨hload, hmemory, probeOptions_withoutDumps, machine, hsetUp, hrun⟩

/-- With addresses of 32 bits the chain is not entered. -/
theorem setUp_probe_32 :
    let files := holding (probeDocument 32).compact
    loadImage files probeOptions.image = .ok (probeImage 32) ∧
      (probeImage 32).memory = .ok (.new .little 32) ∧ probeOptions.WithoutDumps ∧
      ¬ ∃ machine, setUp files probeOptions (probeImage 32) = .ok machine := by
  intro files
  have hmemory : (probeImage 32).memory = .ok (.new .little 32) := rfl
  have hfails : setUp files probeOptions (probeImage 32) = .error noRoomForStack :=
    setUp_of_narrow hmemory probeOptions_withoutDumps (by decide : 32 < 48)
  refine ⟨loadImage_probe (by decide), hmemory, probeOptions_withoutDumps, ?_⟩
  rintro ⟨machine, hsetUp⟩
  rw [hfails] at hsetUp
  cases hsetUp

end CommandLine

end RoutineEmulator
