import RoutineEmulator.Emulation.HandlerChain
import RoutineEmulator.Memory.Format
import RoutineEmulator.Routine.Format
/-!
Program images: decompiled routines, with the memory and the types that they run against.

An image is a JSON document. Its segments are written as hexadecimal text, which is read only when
the memory is made, so a document with a faulty segment is an image all the same.
-/

namespace RoutineEmulator

/-- Memory content at an address, as hexadecimal text. -/
structure Segment where
  address : UInt64
  bytes : String
  deriving Repr, DecidableEq, Inhabited

structure ProgramImage where
  /-- The width of an address, as the document gives it. -/
  spaceBits : Nat := 64
  byteOrder : ByteOrder := .little
  /-- The size of a pointer where it does not follow from the width of an address. -/
  ownPointerSize : Option Nat := none
  /-- Types beside the built-in ones. -/
  types : List (String × Nat) := []
  segments : List Segment := []
  routines : List Routine

/-- Why a segment of an image is not in memory. -/
inductive SegmentFault where
  | badText (address : UInt64) (cause : Text.HexFault)
  | unmapped (address : UInt64) (cause : EmulationError)
  deriving Repr, DecidableEq

namespace SegmentFault

/-- What failed. -/
def context : SegmentFault → String
  | badText address _ => "Invalid hex in segment at " ++ Text.hexAddress address.toNat
  | unmapped address _ => "Failed to map segment at " ++ Text.hexAddress address.toNat

/-- Why it failed. -/
def cause : SegmentFault → String
  | badText _ cause => cause.message
  | unmapped _ cause => cause.message

end SegmentFault

/-! ## Segments in memory -/

namespace Segment

/-- The bytes of a segment. Blanks around the text do not count. -/
def content (s : Segment) : Except Text.HexFault (List UInt8) :=
  Text.bytesOfHex (String.ofList (Text.trim s.bytes.toList))

/-- Maps the segment. -/
def mapInto (memory : Memory) (s : Segment) : Except SegmentFault Memory :=
  match s.content with
  | .error e => .error (.badText s.address e)
  | .ok bytes =>
    match memory.load s.address bytes with
    | (.error e, _) => .error (.unmapped s.address e)
    | (.ok (), memory) => .ok memory

end Segment

namespace ProgramImage

/-- The memory with every segment mapped, in order. -/
def memory (image : ProgramImage) : Except SegmentFault Memory :=
  image.segments.foldlM Segment.mapInto (Memory.new image.byteOrder image.spaceBits)

/-- The size of a pointer: a given one, or that of an address. -/
def pointerSize (image : ProgramImage) : Nat :=
  image.ownPointerSize.getD (image.spaceBits / 8)

/-- The built-in types with the types of the image. -/
def typeTable (image : ProgramImage) : TypeTable :=
  (TypeTable.withPointerSize image.pointerSize).extend image.types

/-- The first routine with an address. -/
def routineAt? (image : ProgramImage) : HandlerChain.Provider :=
  HandlerChain.Provider.ofList image.routines

end ProgramImage

/-! ## The JSON format -/

def Segment.decode : Nat → Json → Option Segment
  | 0, _ => none
  | _ + 1, value => do
    match ← Json.fields? ["address", "bytes"] value with
    | [address, bytes] =>
      return { address := ← address.required Json.word64?, bytes := ← bytes.required Json.text? }
    | _ => none

/-- Decodes a routine whose references fit together. -/
def Routine.decodeValid (depth : Nat) (value : Json) : Option Routine := do
  (Routine.ofDraft (← Draft.decode depth value)).toOption

namespace ProgramImage

def decode : Nat → Json → Option ProgramImage
  | 0, _ => none
  | depth + 1, value => do
    match ← Json.fields?
        ["space_bits", "endianness", "pointer_size", "types", "segments", "routines"] value with
    | [spaceBits, byteOrder, pointerSize, types, segments, routines] =>
      return {
        spaceBits := ← spaceBits.withDefault 64 (Json.nat? 32)
        byteOrder := ← byteOrder.withDefault .little (ByteOrder.decode depth)
        ownPointerSize := ← pointerSize.withDefault none (Json.nullable Json.size?)
        types := ← types.withDefault [] (Json.mapOf Json.size? depth)
        segments := ← segments.withDefault [] (Json.listOf Segment.decode depth)
        routines := ← routines.required (Json.listOf Routine.decodeValid depth) }
    | _ => none

/-- The image in a document. -/
def decodeText? (document : String) : Option ProgramImage :=
  Json.decodeText? decode document

end ProgramImage

end RoutineEmulator
