import RoutineEmulator.Proofs.Memory.Growth
import RoutineEmulator.Proofs.Simulation.Courses
import RoutineEmulator.Simulation.Chain
/-!
What simulators do to a machine.

Whatever call a simulator answers, and whether it succeeds or fails, the machine keeps all but its
memory, and the memory only grows by the chunks that stack machines hand out for it. `HandsOut`
tells which chunks these are: each is the next one of a stack machine of the chain.
-/

namespace RoutineEmulator

/-! ## Handing out chunks -/

/-- Where a stack machine takes its next chunk, and how many bytes a chunk has. -/
structure Allocator where
  next : UInt64
  size : UInt64
  deriving Repr, DecidableEq

namespace Allocator

/-- The chunk that is handed out next. -/
def chunk (a : Allocator) : Chunk :=
  ⟨a.next, a.size.toNat⟩

/-- The allocator once that chunk was handed out. -/
def advance (a : Allocator) : Allocator :=
  { a with next := a.next + a.size }

/-- Allocators hand out these chunks, one after the other, and have then come to others. -/
inductive HandsOut : List Allocator → List Chunk → List Allocator → Prop
  | nothing (allocators : List Allocator) : HandsOut allocators [] allocators
  | chunk {before after others : List Allocator} {a : Allocator} {chunks : List Chunk} :
      HandsOut (before ++ a.advance :: after) chunks others →
      HandsOut (before ++ a :: after) (a.chunk :: chunks) others

namespace HandsOut

variable {as bs cs : List Allocator} {chunks more : List Chunk}

theorem trans (h : HandsOut as chunks bs) (h' : HandsOut bs more cs) :
    HandsOut as (chunks ++ more) cs := by
  induction h with
  | nothing => exact h'
  | chunk _ ih => exact .chunk (ih h')

/-- Other allocators may stand around. -/
theorem frame (h : HandsOut as chunks bs) (front back : List Allocator) :
    HandsOut (front ++ as ++ back) chunks (front ++ bs ++ back) := by
  induction h with
  | nothing => exact .nothing _
  | @chunk before after others a chunks _ ih =>
      have hnext : HandsOut ((front ++ before) ++ a :: (after ++ back)) (a.chunk :: chunks)
          (front ++ others ++ back) := .chunk (by simpa using ih)
      simpa using hnext

/-- Where there is no allocator, nothing is handed out. -/
theorem eq_nil (h : HandsOut [] chunks bs) : chunks = [] := by
  generalize has : ([] : List Allocator) = as at h
  cases h with
  | nothing => rfl
  | chunk => simp at has

end HandsOut

end Allocator

open Allocator

/-- Where the next chunk of a stack machine lies. -/
def StackMachine.allocator (m : StackMachine) : Allocator :=
  ⟨m.nextChunk, m.layout.chunkSize⟩

/-- The allocator of a simulator, where it is a stack machine. -/
def Simulator.allocators : Simulator → List Allocator
  | stackMachine m => [m.allocator]
  | _ => []

/-- From one bench to another chunks are handed out, and the memory grows by them. Nothing else of
the machine is different. -/
def Serves {σ : Type} (allocators : σ → List Allocator) (before after : Bench σ) : Prop :=
  ∃ chunks, HandsOut (allocators before.own) chunks (allocators after.own) ∧
    before.machine.GrowsBy after.machine chunks

namespace Serves

variable {σ : Type} {allocators : σ → List Allocator}

theorem course (allocators : σ → List Allocator) : Work.Course (Serves allocators) where
  refl bench := ⟨[], .nothing _, .refl bench.machine⟩
  trans := fun ⟨_, hout, hgrows⟩ ⟨_, hout', hgrows'⟩ =>
    ⟨_, hout.trans hout', hgrows.trans hgrows'⟩

/-- Changes of the own state that leave the allocators alone. -/
theorem of_own {own own' : σ} {s : Machine} {log log' : OutputLog}
    (h : allocators own' = allocators own) : Serves allocators ⟨own, s, log⟩ ⟨own', s, log'⟩ :=
  ⟨[], by rw [h]; exact .nothing _, .refl s⟩

/-- Changes of the memory that allocate nothing. -/
theorem of_growsBy {own : σ} {s s' : Machine} {log log' : OutputLog} (h : s.GrowsBy s' []) :
    Serves allocators ⟨own, s, log⟩ ⟨own, s', log'⟩ :=
  ⟨[], .nothing _, h⟩

theorem say (line : String) : (Work.say line : Work σ Unit).Moves (Serves allocators) :=
  Work.moves_say (fun _ _ => of_own rfl) line

theorem write (address value : UInt64) (size : Nat) :
    (Work.change (·.write address value size) : Work σ Unit).Moves (Serves allocators) :=
  (course allocators).change fun _ _ _ _ h => of_growsBy (Machine.growsBy_of_write h)

end Serves

/-! ## The C library -/

namespace Libc

/-- The C library has no allocator, so it hands nothing out. -/
theorem serves_run (f : Function) (values : List Int64) :
    (f.run values).Moves (Serves fun _ => []) := by
  have hc := Serves.course fun _ : Libc => []
  unfold Function.run
  split
  · exact hc.pure 42
  · exact hc.bind (fun _ => Serves.of_own rfl) fun _ => hc.pure 37
  · exact Work.moves_update fun _ _ _ => Serves.of_own rfl
  · exact hc.bind (hc.ask _) fun _ => hc.bind
      (hc.change fun _ _ _ _ h => .of_growsBy (Machine.growsBy_of_copy h)) fun _ => hc.pure _
  · exact hc.bind (hc.ask _) fun _ => hc.bind
      (hc.change fun _ _ _ _ h => .of_growsBy (Machine.growsBy_of_fill h)) fun _ => hc.pure _
  · exact hc.bind (hc.ask _) fun _ => hc.pure _
  · exact hc.pure 0

end Libc

/-! ## The stack machine -/

namespace StackMachine

/-- What the handlers of a stack machine do to its allocator and to the machine. -/
abbrev Serving (before after : Bench StackMachine) : Prop :=
  Serves (fun m => [m.allocator]) before after

theorem serves_course : Work.Course Serving :=
  Serves.course _

/-- Taking a chunk hands it out, and then it is mapped where it fits. -/
theorem serves_allocateChunk : allocateChunk.Moves Serving := by
  rintro ⟨own, s, log⟩
  have hout : HandsOut ([] ++ own.allocator :: []) [own.allocator.chunk]
      ([] ++ own.allocator.advance :: []) := .chunk (.nothing _)
  unfold allocateChunk
  rw [Work.runOn_bind_of_ok Work.runOn_own, Work.runOn_bind_of_ok (Work.runOn_setOwn _)]
  -- the allocator is advanced before the pages are mapped, so also where they cannot be
  rcases s.growsBy_of_allocate own.allocator.chunk with ⟨s', hallocate, hgrows⟩ |
    ⟨e, hallocate, hgrows⟩
  · rw [Work.runOn_bind_of_ok (Work.runOn_change_of_ok hallocate)]
    exact ⟨_, hout, hgrows⟩
  · rw [Work.runOn_bind_of_error (Work.runOn_change_of_error hallocate)]
    exact ⟨_, hout, hgrows⟩

theorem serves_logOperation (pushed : Option Expr) : (logOperation pushed).Moves Serving := by
  rintro ⟨own, s, log⟩
  unfold logOperation
  rw [Work.runOn_bind_of_ok Work.runOn_own]
  split
  · split
    · exact Serves.of_own rfl
    · exact serves_course.refl _
  · exact serves_course.refl _

theorem serves_run (h : Handler) (args : List Expr) (values : List Int64) :
    (h.run args values).Moves Serving := by
  have hc := serves_course
  unfold Handler.run
  -- a push is the only handler that takes a chunk, and it does so first: whatever of its work
  -- fails later, the chunk is handed out
  split
  · exact Work.moves_update fun _ _ _ => Serves.of_own rfl
  · exact hc.pure 0
  · exact hc.bind serves_allocateChunk fun _ => hc.bind (Serves.write _ _ 4) fun _ =>
      hc.bind (hc.ask _) fun _ => hc.bind (Serves.write _ _ 8) fun _ =>
        hc.bind (Serves.write _ _ 8) fun _ => hc.bind (Serves.say _) fun _ =>
          hc.bind (serves_logOperation _) fun _ => hc.pure 0
  · exact hc.bind (hc.ask _) fun _ => hc.bind (hc.ask _) fun _ => hc.bind (hc.ask _) fun _ =>
      hc.bind (Serves.write _ _ 8) fun _ => hc.bind (Serves.say _) fun _ =>
        Work.moves_update fun _ _ _ => Serves.of_own rfl
  · exact hc.bind (hc.ask _) fun _ => hc.bind (hc.ask _) fun _ => hc.bind (Serves.say _) fun _ =>
      hc.pure _
  · exact hc.bind (hc.ask _) fun _ => hc.bind (Serves.write _ _ 4) fun _ =>
      hc.bind (Serves.say _) fun _ => hc.pure _
  · exact hc.bind (Serves.say _) fun _ => hc.pure 0
  · exact hc.pure 0

end StackMachine

/-! ## The chain -/

namespace Simulator

/-- Working for a simulator serves it as the work serves the one who works. -/
theorem serves_workAs {σ : Type} {view : σ → List Allocator} (wrap : σ → Simulator)
    (hview : ∀ state, (wrap state).allocators = view state) {work : Work σ Int64}
    (h : work.Moves (Serves view)) (state : σ) (machine : Machine) (log : OutputLog) :
    Serves allocators ⟨wrap state, machine, log⟩ (workAs wrap state work machine log).2 := by
  obtain ⟨chunks, hout, hgrows⟩ := h ⟨state, machine, log⟩
  refine ⟨chunks, ?_, hgrows⟩
  rw [hview]
  show HandsOut _ _ (wrap _).allocators
  rw [hview]
  exact hout

theorem serves_respond? {s : Simulator} {callee : String} {args : List Expr} {values : List Int64}
    {machine : Machine} {log : OutputLog} {result : Except EmulationError Int64}
    {bench : Bench Simulator}
    (h : s.respond? callee args values machine log = some (result, bench)) :
    Serves allocators ⟨s, machine, log⟩ bench := by
  cases s with
  | libc state =>
      obtain ⟨f, _, h⟩ := Option.map_eq_some_iff.mp h
      have hserves := serves_workAs .libc (fun _ => rfl)
        (Libc.serves_run f values) state machine log
      rwa [h] at hserves
  | stackMachine state =>
      obtain ⟨f, _, h⟩ := Option.map_eq_some_iff.mp h
      have hserves := serves_workAs .stackMachine (fun _ => rfl)
        (StackMachine.serves_run f args values) state machine log
      rwa [h] at hserves
  | scripted script =>
      unfold respond? at h
      dsimp only at h
      split at h
      · cases h
        exact (Serves.course _).refl _
      · obtain ⟨_, _, h⟩ := Option.map_eq_some_iff.mp h
        cases h
        exact (Serves.course _).refl _

/-- **Chains serve.** Whichever simulator answers a call, and whatever comes of it, the memory grows
by the chunks that the stack machines of the chain hand out, and the machine is otherwise kept. -/
theorem serves_respondFirst (callee : String) (args : List Expr) (values : List Int64)
    (chain : List Simulator) (machine : Machine) (log : OutputLog) :
    Serves (·.flatMap allocators) ⟨chain, machine, log⟩
      (respondFirst callee args values chain machine log).2 := by
  induction chain with
  | nil => exact (Serves.course _).refl _
  | cons s rest ih =>
      rw [respondFirst]
      split
      · rename_i result bench hrespond
        obtain ⟨chunks, hout, hgrows⟩ := serves_respond? hrespond
        exact ⟨chunks, by simpa using hout.frame [] (rest.flatMap allocators), hgrows⟩
      · obtain ⟨chunks, hout, hgrows⟩ := ih
        exact ⟨chunks, by simpa using hout.frame s.allocators [], hgrows⟩

/-- Preparing for a routine settles the pops of the chain. -/
theorem own_beforeRoutineAll (routine : String) (chain : List Simulator) (log : OutputLog) :
    (beforeRoutineAll routine chain log).1 = chain.map settlePops := by
  induction chain generalizing log with
  | nil => rfl
  | cons s rest ih =>
      show (s.beforeRoutine routine log).1 ::
        (beforeRoutineAll routine rest (s.beforeRoutine routine log).2).1 = _
      rw [ih]
      cases s <;> rfl

@[simp] theorem allocators_settlePops (s : Simulator) : s.settlePops.allocators = s.allocators := by
  cases s <;> rfl

end Simulator

end RoutineEmulator
