import RoutineEmulator.Proofs.Machine.Faults
import RoutineEmulator.Proofs.Simulation.Work
import RoutineEmulator.Simulation.Chain
/-!
Computations for which the log is only for writing.

A steady computation goes the same way whatever the log holds: it answers the same, leaves the same
state and machine, and appends the same lines. Its faults are those of the work itself, never the
step limit of a walk. The primitives of a bench are steady, sequences of steady computations are,
and so is every answer of a simulator.
-/

namespace RoutineEmulator

/-! ## Appending lines -/

namespace OutputLog

/-- The log with some lines more. -/
def extend (log : OutputLog) (lines : List String) : OutputLog :=
  lines.foldl push log

@[simp] theorem extend_nil (log : OutputLog) : log.extend [] = log := rfl

@[simp] theorem extend_singleton (log : OutputLog) (line : String) :
    log.extend [line] = log.push line := rfl

/-- Lines that are appended in two goes are appended in one. -/
@[simp] theorem extend_extend (log : OutputLog) (first more : List String) :
    (log.extend first).extend more = log.extend (first ++ more) :=
  List.foldl_append.symm

/-- The lines of a log stay in front of those that are appended. -/
theorem toList_lines_extend (log : OutputLog) (lines : List String) :
    (log.extend lines).lines.toList = log.lines.toList ++ lines := by
  induction lines generalizing log with
  | nil => simp
  | cons line rest ih =>
      have hpush : (log.push line).lines.toList = log.lines.toList ++ [line] := by
        rw [push, Array.toList_push]
      show ((log.push line).extend rest).lines.toList = _
      rw [ih, hpush, List.append_assoc]
      rfl

end OutputLog

/-! ## Steady computations -/

namespace Work

variable {σ α β : Type}

/-- The computation goes the same way whatever the log holds. It appends to the log, and it never
fails for want of visits. -/
def Steady (work : Work σ α) : Prop :=
  ∀ own s, ∃ result own' s' lines, SparesLimit result ∧
    ∀ log : OutputLog, work.runOn ⟨own, s, log⟩ = (result, ⟨own', s', log.extend lines⟩)

namespace Steady

theorem pure (a : α) : (pure a : Work σ α).Steady := fun own s =>
  ⟨.ok a, own, s, [], .ok a, fun _ => rfl⟩

/-- Failing is steady, with any fault but that of the step limit. -/
theorem fail {e : EmulationError} (h : ∀ limit, e ≠ .stepLimitExceeded limit) :
    (Work.fail e : Work σ α).Steady := fun own s =>
  ⟨.error e, own, s, [], SparesLimit.error_iff.mpr h, fun _ => rfl⟩

/-- Steps that are steady make a steady sequence. -/
theorem bind {work : Work σ α} {next : α → Work σ β} (h : work.Steady)
    (hnext : ∀ a, (next a).Steady) : (work >>= next).Steady := by
  intro own s
  obtain ⟨result, own', s', lines, hspares, hrun⟩ := h own s
  cases result with
  | error e => exact ⟨.error e, own', s', lines, hspares.retype, fun log =>
      runOn_bind_of_error (hrun log)⟩
  | ok a =>
      obtain ⟨result, own'', s'', more, hspares', hrun'⟩ := hnext a own' s'
      refine ⟨result, own'', s'', lines ++ more, hspares', fun log => ?_⟩
      rw [runOn_bind_of_ok (hrun log), hrun', OutputLog.extend_extend]

/-- The machine is the same whatever the log holds. -/
theorem machine : (Work.machine : Work σ Machine).Steady := fun own s =>
  ⟨.ok s, own, s, [], .ok s, fun _ => rfl⟩

/-- So is the own state. -/
theorem own : (Work.own : Work σ σ).Steady := fun own s =>
  ⟨.ok own, own, s, [], .ok own, fun _ => rfl⟩

theorem setOwn (state : σ) : (Work.setOwn state).Steady := fun _ s =>
  ⟨.ok (), state, s, [], .ok (), fun _ => rfl⟩

/-- Saying a line appends this line. -/
theorem say (line : String) : (Work.say line : Work σ Unit).Steady := fun own s =>
  ⟨.ok (), own, s, [line], .ok (), fun _ => rfl⟩

theorem setRegister (id : RegisterId) (value : UInt64) :
    (Work.setRegister id value : Work σ Unit).Steady := fun own s =>
  ⟨.ok (), own, s.setRegister id value, [], .ok (), fun _ => rfl⟩

/-- A question to the machine is steady if it spares the limit. -/
theorem ask {question : Machine → Except EmulationError α} (h : ∀ s, SparesLimit (question s)) :
    (Work.ask question : Work σ α).Steady := fun own s =>
  ⟨question s, own, s, [], h s, fun _ => runOn_ask question⟩

/-- A change of the machine is steady if it spares the limit; where it fails, nothing is changed. -/
theorem change {step : Machine → Except EmulationError Machine} (h : ∀ s, SparesLimit (step s)) :
    (Work.change step : Work σ Unit).Steady := by
  intro own s
  cases hstep : step s with
  | ok s' => exact ⟨.ok (), own, s', [], .ok (), fun _ => runOn_change_of_ok hstep⟩
  | error e =>
      have hspares := h s
      rw [hstep] at hspares
      exact ⟨.error e, own, s, [], hspares.retype, fun _ => runOn_change_of_error hstep⟩

end Steady

end Work

open Work

/-! ## The C library -/

namespace Libc

theorem sparesLimit_byteCount (dst n : Int64) : SparesLimit (byteCount dst n) := by
  unfold byteCount
  split <;> simp

theorem sparesLimit_textLength (s : Machine) (start : UInt64) (left len : Nat) :
    SparesLimit (textLength s start left len) := by
  induction left generalizing len with
  | zero => simp [textLength]
  | succ left ih =>
      have hread := s.sparesLimit_read (start + UInt64.ofNat len) 1
      unfold textLength
      cases hbyte : s.read (start + UInt64.ofNat len) 1 with
      | error e =>
          rw [hbyte] at hread
          exact hread.retype
      | ok byte =>
          dsimp only
          split
          · exact .ok len
          · exact ih (len + 1)

/-- Every function of the library is steady. -/
theorem steady_run (f : Function) (values : List Int64) : (f.run values).Steady := by
  unfold Function.run
  split
  · exact .pure 42
  · exact (Steady.setOwn _).bind fun _ => .pure 37
  · exact Steady.own.bind fun _ => (Steady.setOwn _).bind fun _ => .pure _
  · exact (Steady.ask fun _ => sparesLimit_byteCount _ _).bind fun _ =>
      (Steady.change fun s => s.sparesLimit_copy _ _ _).bind fun _ => .pure _
  · exact (Steady.ask fun _ => sparesLimit_byteCount _ _).bind fun _ =>
      (Steady.change fun s => s.sparesLimit_fill _ _ _).bind fun _ => .pure _
  · exact (Steady.ask fun s => sparesLimit_textLength s _ _ _).bind fun _ => .pure _
  · exact .pure 0

end Libc

/-! ## The stack machine -/

namespace StackMachine

/-- A list that has no end within the bound is a fault of the list, not of the walk. -/
theorem sparesLimit_linkCount (s : Machine) (cell : UInt64) (left : Nat) (current : UInt64)
    (len : Nat) : SparesLimit (linkCount s cell left current len) := by
  induction left generalizing current len with
  | zero =>
      unfold linkCount
      split <;> simp
  | succ left ih =>
      have hread := s.sparesLimit_read current 8
      unfold linkCount
      split
      · exact .ok len
      · cases hnext : s.read current 8 with
        | error e =>
            rw [hnext] at hread
            exact hread.retype
        | ok next => exact ih next (len + 1)

theorem sparesLimit_follow (s : Machine) (hops : Nat) (cell : UInt64) :
    SparesLimit (follow s hops cell) := by
  induction hops generalizing cell with
  | zero => exact .ok cell
  | succ hops ih =>
      have hread := s.sparesLimit_read cell 8
      unfold follow
      cases hnext : s.read cell 8 with
      | error e =>
          rw [hnext] at hread
          exact hread.retype
      | ok next => exact ih next

/-- Looking for an element, by counting links and following them, spares the limit. -/
theorem sparesLimit_elementAt (s : Machine) (cell : UInt64) (index : Int64) :
    SparesLimit (elementAt s cell index) := by
  refine (sparesLimit_linkCount s cell _ _ _).bind fun links => ?_
  split
  · exact sparesLimit_follow s _ cell
  · simp

theorem steady_allocateChunk : allocateChunk.Steady :=
  Steady.own.bind fun _ => (Steady.setOwn _).bind fun _ =>
    (Steady.change fun s => s.sparesLimit_allocate _ _).bind fun _ => .pure _

theorem steady_logOperation (pushed : Option Expr) : (logOperation pushed).Steady := by
  refine Steady.own.bind fun m => ?_
  split
  · split
    · exact (Steady.say _).bind fun _ => .setOwn _
    · exact .pure ()
  · exact .pure ()

theorem steady_read (address : UInt64) (size : Nat) :
    (ask (·.read address size) : Work StackMachine UInt64).Steady :=
  .ask fun s => s.sparesLimit_read address size

theorem steady_write (address value : UInt64) (size : Nat) :
    (change (·.write address value size) : Work StackMachine Unit).Steady :=
  .change fun s => s.sparesLimit_write address value size

theorem steady_push (cell value : Int64) (pushed : Option Expr) : (push cell value pushed).Steady :=
  steady_allocateChunk.bind fun _ => (steady_write _ _ 4).bind fun _ =>
    (steady_read _ 8).bind fun _ => (steady_write _ _ 8).bind fun _ =>
      (steady_write _ _ 8).bind fun _ => (Steady.say _).bind fun _ =>
        (steady_logOperation pushed).bind fun _ => .pure 0

theorem steady_pop (cell : Int64) : (pop cell).Steady :=
  (steady_read _ 8).bind fun _ => (steady_read _ 4).bind fun _ => (steady_read _ 8).bind fun _ =>
    (steady_write _ _ 8).bind fun _ => (Steady.say _).bind fun _ =>
      Steady.own.bind fun _ => (Steady.setOwn _).bind fun _ => .pure _

theorem steady_get (cell index : Int64) : (get cell index).Steady :=
  (Steady.ask fun s => sparesLimit_elementAt s _ index).bind fun _ =>
    (steady_read _ 4).bind fun _ => (Steady.say _).bind fun _ => .pure _

theorem steady_set (cell index value : Int64) : (set cell index value).Steady :=
  (Steady.ask fun s => sparesLimit_elementAt s _ index).bind fun _ =>
    (steady_write _ _ 4).bind fun _ => (Steady.say _).bind fun _ => .pure _

/-- Every handler is steady. -/
theorem steady_run (h : Handler) (args : List Expr) (values : List Int64) :
    (h.run args values).Steady := by
  unfold Handler.run
  split
  · exact Steady.own.bind fun _ => (Steady.setOwn _).bind fun _ => .pure _
  · exact .pure 0
  · exact steady_push _ _ _
  · exact steady_pop _
  · exact steady_get _ _
  · exact steady_set _ _ _
  · exact (Steady.say _).bind fun _ => .pure 0
  · exact .pure 0

end StackMachine

/-! ## The chain -/

namespace Simulator

/-- What a simulator answers, and what it does, is the same for every log. -/
theorem respond?_steady (s : Simulator) (callee : String) (args : List Expr)
    (values : List Int64) (machine : Machine) :
    (∀ log, s.respond? callee args values machine log = none) ∨
      ∃ result own' machine' lines, SparesLimit result ∧ ∀ log : OutputLog,
        s.respond? callee args values machine log =
          some (result, ⟨own', machine', log.extend lines⟩) := by
  cases s with
  | libc state =>
      cases hname : Libc.named? callee with
      | none => exact .inl fun log => by simp [respond?, hname]
      | some f =>
          obtain ⟨result, own', machine', lines, hspares, hrun⟩ :=
            Libc.steady_run f values state machine
          exact .inr ⟨result, .libc own', machine', lines, hspares, fun log => by
            simp [respond?, hname, workAs, hrun]⟩
  | stackMachine state =>
      cases hname : StackMachine.named? state.layout callee with
      | none => exact .inl fun log => by simp [respond?, hname]
      | some h =>
          obtain ⟨result, own', machine', lines, hspares, hrun⟩ :=
            StackMachine.steady_run h args values state machine
          exact .inr ⟨result, .stackMachine own', machine', lines, hspares, fun log => by
            simp [respond?, hname, workAs, hrun]⟩
  | scripted script =>
      by_cases hsum : callee ∈ script.sums
      · exact .inr ⟨.ok (values.foldl (· + ·) 0), .scripted script, machine, [], .ok _,
          fun log => by simp [respond?, hsum]⟩
      · cases hanswer : script.answers.lookup callee with
        | none => exact .inl fun log => by simp [respond?, hsum, hanswer]
        | some value => exact .inr ⟨.ok value, .scripted script, machine, [], .ok _, fun log => by
            simp [respond?, hsum, hanswer]⟩

/-- The first simulator that recognises a call answers the same for every log. -/
theorem respondFirst_steady (callee : String) (args : List Expr) (values : List Int64)
    (chain : List Simulator) (machine : Machine) :
    ∃ result own' machine' lines, SparesLimit result ∧ ∀ log : OutputLog,
      respondFirst callee args values chain machine log =
        (result, ⟨own', machine', log.extend lines⟩) := by
  induction chain with
  | nil => exact ⟨.ok none, [], machine, [], .ok none, fun log => rfl⟩
  | cons s rest ih =>
      rcases s.respond?_steady callee args values machine with hpass |
        ⟨result, own', machine', lines, hspares, hrun⟩
      · obtain ⟨result, own', machine', lines, hspares, hrun⟩ := ih
        refine ⟨result, s :: own', machine', lines, hspares, fun log => ?_⟩
        simp only [respondFirst, hpass log, hrun log]
      · refine ⟨result.map some, own' :: rest, machine', lines, hspares.map some, fun log => ?_⟩
        simp only [respondFirst, hrun log]

/-- Preparing for a routine appends the same lines to every log. -/
theorem beforeRoutine_steady (s : Simulator) (routine : String) :
    ∃ s' lines, ∀ log : OutputLog, s.beforeRoutine routine log = (s', log.extend lines) := by
  cases s with
  | libc state => exact ⟨.libc state, [], fun log => rfl⟩
  | stackMachine state =>
      refine ⟨.stackMachine { state with pops := 0 },
        if normalizeName routine = state.layout.swap then [StackMachine.swapLine] else [],
        fun log => ?_⟩
      by_cases hswap : normalizeName routine = state.layout.swap <;> simp [beforeRoutine, hswap]
  | scripted script =>
      refine ⟨.scripted script,
        if script.hooks then [script.name ++ ": routine " ++ routine] else [], fun log => ?_⟩
      by_cases hhooks : script.hooks <;> simp [beforeRoutine, hhooks]

/-- The simulators of a chain prepare one after the other, each appending its lines. -/
theorem beforeRoutineAll_steady (routine : String) (chain : List Simulator) :
    ∃ chain' lines, ∀ log : OutputLog,
      beforeRoutineAll routine chain log = (chain', log.extend lines) := by
  induction chain with
  | nil => exact ⟨[], [], fun log => rfl⟩
  | cons s rest ih =>
      obtain ⟨s', lines, hs⟩ := s.beforeRoutine_steady routine
      obtain ⟨rest', more, hrest⟩ := ih
      refine ⟨s' :: rest', lines ++ more, fun log => ?_⟩
      simp only [beforeRoutineAll, hs log, hrest, OutputLog.extend_extend]

end Simulator

end RoutineEmulator
