import RoutineEmulator.Main
import RoutineEmulator.Routine.Builder
import RoutineEmulator.Types.Format
import RoutineEmulator.Proofs.Memory.Flat
import RoutineEmulator.Proofs.Memory.Mapping
import RoutineEmulator.Proofs.Memory.Words
import RoutineEmulator.Proofs.Machine.Faults
import RoutineEmulator.Proofs.Simulation.Steady
import RoutineEmulator.Proofs.StackMachine.Links
import RoutineEmulator.Proofs.StackMachine.Heap
import RoutineEmulator.Proofs.StackMachine.Refinement
import RoutineEmulator.Proofs.Routine.Containment
import RoutineEmulator.Proofs.Routine.Faults
import RoutineEmulator.Proofs.Routine.SourceOrder
import RoutineEmulator.Proofs.Json.Reading
import RoutineEmulator.Proofs.Json.Lawful
import RoutineEmulator.Proofs.Routine.ExprFormat
import RoutineEmulator.Proofs.Routine.RoundTrip
import RoutineEmulator.Proofs.Graph.Descent
import RoutineEmulator.Proofs.Graph.Successors
import RoutineEmulator.Proofs.Graph.Table
import RoutineEmulator.Proofs.Emulation.Steady
import RoutineEmulator.Proofs.Emulation.StepLimit
import RoutineEmulator.Proofs.Emulation.Rounds
import RoutineEmulator.Proofs.Emulation.ChainReport
import RoutineEmulator.Proofs.Emulation.Structured
import RoutineEmulator.Proofs.Emulation.Walking
import RoutineEmulator.Proofs.Graph.Replay
import RoutineEmulator.Proofs.Graph.Refusal
import RoutineEmulator.Proofs.Graph.Building
import RoutineEmulator.Proofs.Emulation.Rejection
import RoutineEmulator.Proofs.Emulation.Points
import RoutineEmulator.Proofs.Graph.Targets
import RoutineEmulator.Proofs.Emulation.Reachability
import RoutineEmulator.Proofs.Memory.Growth
import RoutineEmulator.Proofs.Simulation.Courses
import RoutineEmulator.Proofs.Simulation.Serving
import RoutineEmulator.Proofs.Emulation.Courses
import RoutineEmulator.Proofs.Emulation.Pages
import RoutineEmulator.Proofs.Emulation.Registers
import RoutineEmulator.Proofs.Simulation.Agreement
import RoutineEmulator.Proofs.Emulation.Agreement
import RoutineEmulator.Proofs.Emulation.TestLogging
import RoutineEmulator.Proofs.Emulation.ComputedCalls
import RoutineEmulator.Proofs.Emulation.Itinerary
import RoutineEmulator.Proofs.Emulation.TraceMirroring
import RoutineEmulator.Proofs.Graph.Forward
import RoutineEmulator.Proofs.Emulation.LoopFree
import RoutineEmulator.Proofs.StackMachine.OutOfRange
import RoutineEmulator.Proofs.StackMachine.Overwriting
import RoutineEmulator.Proofs.Memory.Allocation
import RoutineEmulator.Proofs.Memory.Loading
import RoutineEmulator.Proofs.Memory.Halves
import RoutineEmulator.Proofs.StackMachine.FailedCalls
import RoutineEmulator.Proofs.Emulation.Inspection
import RoutineEmulator.Proofs.Simulation.Transfers
import RoutineEmulator.Proofs.Simulation.Texts
import RoutineEmulator.Proofs.Types.Signatures
import RoutineEmulator.Proofs.Memory.SignExtension
import RoutineEmulator.Proofs.Emulation.Truncation
import RoutineEmulator.Proofs.Emulation.Dereferences
import RoutineEmulator.Proofs.Emulation.AccessFaults
import RoutineEmulator.Proofs.Emulation.ExactValues
import RoutineEmulator.Proofs.Emulation.FailedStatements
import RoutineEmulator.Proofs.Emulation.Division
import RoutineEmulator.Proofs.Emulation.Dispatch
import RoutineEmulator.Proofs.Emulation.LoggedTests
import RoutineEmulator.Proofs.Routine.Wrappers
import RoutineEmulator.Proofs.Text.ByteStrings
import RoutineEmulator.Proofs.Machine.StackSpace
import RoutineEmulator.Proofs.Image.Segments
import RoutineEmulator.Proofs.CommandLine.SetUp
import RoutineEmulator.Proofs.Emulation.Sizes
import RoutineEmulator.Proofs.Emulation.PointerWidth
import RoutineEmulator.Proofs.Image.PointerSize
import RoutineEmulator.Proofs.Types.Qualifiers
import RoutineEmulator.Proofs.StackMachine.HandlerNames
import RoutineEmulator.Proofs.Log.Flushing
import RoutineEmulator.Proofs.Emulation.LogFile
import RoutineEmulator.Proofs.Routine.Requests
import RoutineEmulator.Proofs.Routine.Construction
import RoutineEmulator.Proofs.StackMachine.CorruptLists
