import RoutineEmulator.Proofs.Emulation.Inspection
import RoutineEmulator.Proofs.Memory.Loading
import RoutineEmulator.Proofs.Simulation.Serving
import RoutineEmulator.Proofs.StackMachine.OutOfRange
import RoutineEmulator.Proofs.StackMachine.Overwriting
/-!
What a failed call of a handler leaves.

A pop, a get and a set read all that they need before they write once, so that one of them that
fails changes nothing. A push starts with its chunk: the chunk is mapped and its value written
before the stack cell is looked at, and nothing of this is taken back. `PushFails` lists the places
where a push can fail, each with the memory that stays.
-/

namespace RoutineEmulator

open Memory

namespace Machine

/-- An allocation succeeds where the chunk fits, and fails elsewhere. -/
theorem allocate_eq (s : Machine) (chunk : Chunk) :
    s.allocate chunk.start chunk.size =
      if chunk.size = 0 ∨ chunk.Fits s.memory then
        .ok (s.withMemory (s.memory.allocated .readWrite chunk))
      else .error (.memoryAccessFault chunk.start chunk.size) := by
  split
  · rename_i hroom
    obtain ⟨added, hallocate⟩ := exists_allocate_eq s.memory .readWrite chunk hroom
    rw [allocate, hallocate]
    rfl
  · rename_i hroom
    obtain ⟨hsize, hfits⟩ := not_or.mp hroom
    rw [allocate, allocate_of_not_fits .readWrite (Nat.pos_of_ne_zero hsize) hfits]
    rfl

end Machine

/-- A sequence that starts with writing a word goes on with the memory that has it, or fails. -/
theorem Work.runOn_write_bind {σ α : Type} (own : σ) (s : Machine) (m : Memory) (log : OutputLog)
    (address value : UInt64) (size : Nat) (next : Unit → Work σ α) :
    runOn (change (·.write address value size) >>= next) ⟨own, s.withMemory m, log⟩ =
      match m.writeWord address value size with
      | .ok n => (next ()).runOn ⟨own, s.withMemory n, log⟩
      | .error e => (.error e, ⟨own, s.withMemory m, log⟩) := by
  rw [runOn_change_bind, Machine.write, Machine.memory_withMemory]
  cases m.writeWord address value size <;> rfl

namespace StackMachine

/-! ## A failed push -/

/-- The bytes of the link and of the value of a chunk. In a chunk at the end of the addresses the
value goes on from the first address. -/
def InSlots (chunk : UInt64) (x : Nat) : Prop :=
  (chunk.toNat ≤ x ∧ x < chunk.toNat + 8) ∨
    ((chunk + valueOffset).toNat ≤ x ∧ x < (chunk + valueOffset).toNat + 4)

/-- A push on the memory `m` fails, and another memory stays. -/
inductive PushFails (m : Memory) (chunk : Chunk) (cell value : UInt64) :
    EmulationError → Memory → Prop
  /-- The chunk does not fit. -/
  | unfit : chunk.size ≠ 0 → ¬ chunk.Fits m →
      PushFails m chunk cell value (.memoryAccessFault chunk.start chunk.size) m
  /-- The value cannot be written; the chunk is mapped. -/
  | value {e : EmulationError} : chunk.size = 0 ∨ chunk.Fits m →
      (m.allocated .readWrite chunk).writeWord (chunk.start + valueOffset) value 4 = .error e →
      PushFails m chunk cell value e (m.allocated .readWrite chunk)
  /-- The stack cell cannot be read; the value is written. -/
  | cell {e : EmulationError} {n : Memory} : chunk.size = 0 ∨ chunk.Fits m →
      (m.allocated .readWrite chunk).writeWord (chunk.start + valueOffset) value 4 = .ok n →
      n.readWord cell 8 = .error e → PushFails m chunk cell value e n
  /-- The link cannot be written. -/
  | link {e : EmulationError} {n : Memory} {head : UInt64} : chunk.size = 0 ∨ chunk.Fits m →
      (m.allocated .readWrite chunk).writeWord (chunk.start + valueOffset) value 4 = .ok n →
      n.readWord cell 8 = .ok head → n.writeWord chunk.start head 8 = .error e →
      PushFails m chunk cell value e n
  /-- The stack cell cannot be written; value and link are. -/
  | relink {e : EmulationError} {n o : Memory} {head : UInt64} : chunk.size = 0 ∨ chunk.Fits m →
      (m.allocated .readWrite chunk).writeWord (chunk.start + valueOffset) value 4 = .ok n →
      n.readWord cell 8 = .ok head → n.writeWord chunk.start head 8 = .ok o →
      o.writeWord cell chunk.start 8 = .error e → PushFails m chunk cell value e o

/-- What a push that fails leaves of a bench. The next chunk is taken, the memory is what a failed
push leaves, and everything else is as before. -/
def LeavesPush (cell value : Int64) (e : EmulationError) (before after : Bench StackMachine) :
    Prop :=
  ∃ n, PushFails before.machine.memory before.own.allocator.chunk cell.toUInt64 value.toUInt64 e n ∧
    after = ⟨{ before.own with nextChunk := before.own.nextChunk + before.own.layout.chunkSize },
      before.machine.withMemory n, before.log⟩

/-- **How a push fails.** The next chunk is taken in any case, and nothing is logged. -/
theorem push_of_error {before left : Bench StackMachine} {cell value : Int64}
    {pushed : Option Expr} {e : EmulationError}
    (h : (push cell value pushed).runOn before = (.error e, left)) :
    LeavesPush cell value e before left := by
  obtain ⟨own, s, log⟩ := before
  have hallocate := s.allocate_eq own.allocator.chunk
  split at hallocate
  case isFalse hroom =>
    obtain ⟨hsize, hfits⟩ := not_or.mp hroom
    rw [push_of_allocate_eq_error log cell value pushed hallocate] at h
    cases h
    exact ⟨s.memory, .unfit hsize hfits, rfl⟩
  rename_i hroom
  unfold push at h
  rw [Work.runOn_bind_of_ok (allocateChunk_runOn hallocate), Work.runOn_write_bind] at h
  split at h
  case h_2 hvalue =>
    cases h
    exact ⟨_, .value hroom hvalue, rfl⟩
  rename_i n hvalue
  rw [Work.runOn_ask_bind] at h
  split at h
  case h_2 hhead =>
    cases h
    exact ⟨n, .cell hroom hvalue hhead, rfl⟩
  rename_i head hhead
  rw [Work.runOn_write_bind] at h
  split at h
  case h_2 hlink =>
    cases h
    exact ⟨n, .link hroom hvalue hhead hlink, rfl⟩
  rename_i o hlink
  rw [Work.runOn_write_bind] at h
  split at h
  case h_2 hrelink =>
    cases h
    exact ⟨o, .relink hroom hvalue hhead hlink hrelink, rfl⟩
  -- what is left to do is logging, which does not fail
  obtain ⟨pops, log', hlog⟩ := logOperation_runOn pushed
    { own with nextChunk := own.nextChunk + own.layout.chunkSize } _ _
  rw [Work.runOn_bind_of_ok (Work.runOn_say _), Work.runOn_bind_of_ok hlog] at h
  cases h

namespace PushFails

variable {m n : Memory} {chunk : Chunk} {cell value : UInt64} {e : EmulationError}

/-- **What a failed push leaves.** The chunk is mapped, as far as it fits, and at most its link and
its value are written. -/
theorem rewrites (h : PushFails m chunk cell value e n) :
    (m.allocated .readWrite chunk).Rewrites (InSlots chunk.start) n := by
  have hvalue : ∀ {n},
      (m.allocated .readWrite chunk).writeWord (chunk.start + valueOffset) value 4 = .ok n →
      (m.allocated .readWrite chunk).Rewrites (InSlots chunk.start) n :=
    fun hwrite => .of_writeWord hwrite fun x hle hlt => .inr ⟨hle, hlt⟩
  cases h with
  | unfit _ hfits =>
      rw [(allocated_eq_self_iff m .readWrite chunk).mpr (.inl hfits)]
      exact .refl _ m
  | value => exact .refl _ _
  | cell _ hwrite => exact hvalue hwrite
  | link _ hwrite => exact hvalue hwrite
  | relink _ hwrite _ hlink =>
      exact (hvalue hwrite).trans (.of_writeWord hlink fun x hle hlt => .inl ⟨hle, hlt⟩)

/-- A failed push keeps the set of mapped pages exactly where its chunk does not fit, or is mapped
already. -/
theorem keepsFlags_iff (h : PushFails m chunk cell value e n) :
    (∀ x, n.accessAt? x = m.accessAt? x) ↔ ¬ chunk.Fits m ∨
      ∀ x, chunk.start.toNat ≤ x → x < chunk.start.toNat + chunk.size → m.accessAt? x ≠ none := by
  rw [← accessAt?_allocated_eq_iff m .readWrite chunk]
  exact forall_congr' fun x => by rw [h.rewrites.flags x]

end PushFails

/-- Nothing bars a push once its chunk is mapped: link and value find room in the chunk, no page of
theirs is locked, and the stack cell may be read and written. -/
structure Unbarred (m : Memory) (chunk : Chunk) (cell : UInt64) : Prop where
  room : 12 ≤ chunk.size
  unlocked : m.Unlocked chunk.start.toNat 12
  readable : (m.allocated .readWrite chunk).Covers (·.read) cell 8
  writable : (m.allocated .readWrite chunk).Covers (·.write) cell 8

/-- Where nothing bars it, a push fails for want of room only. -/
theorem PushFails.not_fits {m n : Memory} {chunk : Chunk} {cell value : UInt64}
    {e : EmulationError} (h : PushFails m chunk cell value e n) (hbar : Unbarred m chunk cell) :
    ¬ chunk.Fits m := by
  intro hfits
  have hroom := hbar.room
  have hvalueAt : (chunk.start + valueOffset).toNat = chunk.start.toNat + 8 := by
    have hspace := m.spaceSize_le
    unfold Chunk.Fits at hfits
    exact toNat_add_valueOffset (by omega)
  have hvalueCovers :
      (m.allocated .readWrite chunk).Covers (·.write) (chunk.start + valueOffset) 4 :=
    covers_allocated rfl hfits (by omega) (by omega) fun x hle hlt =>
      hbar.unlocked x (by omega) (by omega)
  have hlinkCovers : (m.allocated .readWrite chunk).Covers (·.write) chunk.start 8 :=
    covers_allocated rfl hfits (Nat.le_refl _) (by omega) fun x hle hlt =>
      hbar.unlocked x hle (by omega)
  -- writing a word keeps what may be accessed, so each later step finds what it needs as well
  cases h with
  | unfit _ hout => exact hout hfits
  | value _ hfails =>
      obtain ⟨_, hwrite, _⟩ := exists_writeWord_of_covers value isWordWidth_four hvalueCovers
      rw [hwrite] at hfails
      cases hfails
  | cell _ hwrite hfails =>
      have hcovers := ((overwrites_of_writeWord hwrite).covers_iff _ _ _).mpr hbar.readable
      rw [readWord_of_covers isWordWidth_eight hcovers] at hfails
      cases hfails
  | @link _ _ head _ hwrite _ hfails =>
      have hcovers := ((overwrites_of_writeWord hwrite).covers_iff _ _ _).mpr hlinkCovers
      obtain ⟨_, hlink, _⟩ := exists_writeWord_of_covers head isWordWidth_eight hcovers
      rw [hlink] at hfails
      cases hfails
  | relink _ hwrite _ hlink hfails =>
      have hcovers := ((overwrites_of_writeWord hlink).covers_iff _ _ _).mpr
        (((overwrites_of_writeWord hwrite).covers_iff _ _ _).mpr hbar.writable)
      obtain ⟨_, hcell, _⟩ := exists_writeWord_of_covers chunk.start isWordWidth_eight hcovers
      rw [hcell] at hfails
      cases hfails

/-- A push that fails for want of room changes nothing. -/
theorem PushFails.eq_of_not_fits {m n : Memory} {chunk : Chunk} {cell value : UInt64}
    {e : EmulationError} (h : PushFails m chunk cell value e n) (hsize : chunk.size ≠ 0)
    (hfits : ¬ chunk.Fits m) : n = m := by
  cases h with
  | unfit => rfl
  | value hroom | cell hroom | link hroom | relink hroom =>
      exact absurd hroom (not_or.mpr ⟨hsize, hfits⟩)

/-- The trace of a failed push in memory. -/
structure PushTrace (m : Memory) (chunk : Chunk) (cell : UInt64) (n : Memory) : Prop where
  /-- The chunk is mapped, as far as it fits, and at most its link and its value are written. -/
  rewrites : (m.allocated .readWrite chunk).Rewrites (InSlots chunk.start) n
  /-- The set of mapped pages is as before exactly where the chunk does not fit, or has no gap. -/
  keepsFlags_iff : (∀ x, n.accessAt? x = m.accessAt? x) ↔ ¬ chunk.Fits m ∨
    ∀ x, chunk.start.toNat ≤ x → x < chunk.start.toNat + chunk.size → m.accessAt? x ≠ none
  /-- Where the chunk does not fit, the memory is as before. -/
  eq_of_not_fits : chunk.size ≠ 0 → ¬ chunk.Fits m → n = m
  /-- Where nothing bars the push, the memory is as before. -/
  eq_of_unbarred : Unbarred m chunk cell → n = m

theorem PushFails.trace {m n : Memory} {chunk : Chunk} {cell value : UInt64} {e : EmulationError}
    (h : PushFails m chunk cell value e n) : PushTrace m chunk cell n where
  rewrites := h.rewrites
  keepsFlags_iff := h.keepsFlags_iff
  eq_of_not_fits := h.eq_of_not_fits
  eq_of_unbarred hbar := by
    have hroom := hbar.room
    exact h.eq_of_not_fits (by omega) (h.not_fits hbar)

/-! ## Failed calls -/

/-- **Failed handlers.** A handler that fails has changed nothing, or it is a push. -/
theorem run_of_error {handler : Handler} {args : List Expr} {values : List Int64}
    {before after : Bench StackMachine} {e : EmulationError}
    (h : (handler.run args values).runOn before = (.error e, after)) :
    after = before ∨ handler = .push ∧
      ∃ cell value, values = [cell, value] ∧ LeavesPush cell value e before after := by
  obtain ⟨own, s, log⟩ := before
  unfold Handler.run at h
  split at h
  · cases h
  · cases h
  · rename_i cell value
    exact .inr ⟨rfl, cell, value, rfl, push_of_error h⟩
  · exact .inl (pop_keeps h)
  · rename_i cell index
    exact .inl ((accesses_get own s log cell index).keeps h)
  · rename_i cell index value
    exact .inl ((accesses_set own s log cell index value).keeps h)
  · cases h
  · cases h

/-- A call that a stack machine of the chain answers fails with its arguments, or in its handler. -/
theorem simulate_of_error (r : Draft) {callee : Callee} {args : List Expr}
    (hfree : ∀ e ∈ args, e.CallFree) {session left : Session} {before after : List Simulator}
    {own : StackMachine} (hown : session.own = before ++ .stackMachine own :: after)
    (hbefore : ∀ x ∈ before, x.demand? (normalizeName callee.name) = none) {handler : Handler}
    (hname : named? own.layout (normalizeName callee.name) = some handler) {e : EmulationError}
    (hfails : (Evaluation.simulate r callee args).runOn session = (.error e, left)) :
    left = session ∨ ∃ values bench,
      (Evaluation.evalArgs r callee.name args 0 handler.arity).runOn session =
        (.ok values, session) ∧
      (handler.run args values).runOn ⟨own, session.machine, session.log⟩ = (.error e, bench) ∧
      left = ⟨before ++ .stackMachine bench.own :: after, bench.machine, bench.log⟩ := by
  have hdemand : session.own.findSome? (·.demand? (normalizeName callee.name)) =
      some (.first handler.arity) := by
    rw [hown, Simulator.findSome?_demand?_of_passed hbefore, List.findSome?_cons,
      demand?_stackMachine hname]
  have hkept := Evaluation.evalArgs_of_callFree r callee.name hfree 0 handler.arity session
  unfold Evaluation.simulate at hfails
  rw [Evaluation.runOn_simulateWith hdemand, Demand.count] at hfails
  split at hfails
  · rename_i values between hvalues
    rw [hvalues] at hkept
    dsimp only at hkept
    rw [hkept] at hvalues hfails
    rw [hown, Simulator.respondFirst_of_passed hbefore, respondFirst_stackMachine hname] at hfails
    cases hrun : (handler.run args values).runOn ⟨own, session.machine, session.log⟩ with
    | mk result bench =>
        rw [hrun] at hfails
        cases result with
        | ok answer => cases hfails
        | error e' =>
            cases hfails
            exact .inr ⟨values, bench, hvalues, hrun, rfl⟩
  · rename_i between hvalues
    rw [hvalues] at hkept
    cases hfails
    exact .inl hkept

/-- **What a failed call leaves.** Where a handler of a stack machine answers a call whose arguments
have no calls, and the call fails, the session is as it was before, or the handler is the one for
pushes, its arguments have values, and the memory has the trace of a push. Then nothing else is
different either, no register, no line of the log and no pending pop, but that the stack machine
took its next chunk. -/
theorem failedCall_leaves (r : Draft) {callee : Callee} {args : List Expr}
    (hfree : ∀ e ∈ args, e.CallFree) {session left : Session} {before after : List Simulator}
    {own : StackMachine} (hown : session.own = before ++ .stackMachine own :: after)
    (hbefore : ∀ x ∈ before, x.demand? (normalizeName callee.name) = none) {handler : Handler}
    (hname : named? own.layout (normalizeName callee.name) = some handler) {e : EmulationError}
    (hfails : (Evaluation.simulate r callee args).runOn session = (.error e, left)) :
    left = session ∨ handler = .push ∧ ∃ cell value n,
      (Evaluation.evalArgs r callee.name args 0 2).runOn session = (.ok [cell, value], session) ∧
      left = ⟨before ++ .stackMachine
          { own with nextChunk := own.nextChunk + own.layout.chunkSize } :: after,
        session.machine.withMemory n, session.log⟩ ∧
      PushFails session.machine.memory own.allocator.chunk cell.toUInt64 value.toUInt64 e n ∧
      PushTrace session.machine.memory own.allocator.chunk cell.toUInt64 n := by
  rcases simulate_of_error r hfree hown hbefore hname hfails with
    hsame | ⟨values, bench, hvalues, hrun, rfl⟩
  · exact .inl hsame
  · rcases run_of_error hrun with rfl | ⟨rfl, cell, value, rfl, n, hpush, rfl⟩
    · left
      rw [← hown]
    · exact .inr ⟨rfl, cell, value, n, hvalues, rfl, hpush, hpush.trace⟩

/-! ## Calls with a cell that is not mapped -/

/-- A chain with a stack machine between other simulators, and a machine with one page. -/
def mixedSession : Session :=
  ⟨[.scripted {}, .stackMachine {}, .libc {}], onePageMachine, {}⟩

/-- A call outside of any statement, by a name of the default layout. -/
def plainCall (name : String) (args : List Expr) : Run (Option Int64) :=
  Evaluation.simulate { name := "f", address := 0, stmts := #[], body := ⟨0⟩ } { name } args

/-- What a push on a cell that is not mapped leaves is the trace of a push. -/
theorem failedCall_leaves_unmapped :
    ∃ left n, (plainCall "sub_400AAE" [.ptr 0x9000, .int 5]).runOn mixedSession =
        (.error (.memoryAccessFault 0x9000 8), left) ∧
      left.machine = onePageMachine.withMemory n ∧
      PushTrace onePageMachine.memory ⟨0x1000000, 16⟩ 0x9000 n := by
  obtain ⟨left, hfails, hmapped⟩ : ∃ left,
      (plainCall "sub_400AAE" [.ptr 0x9000, .int 5]).runOn mixedSession =
        (.error (.memoryAccessFault 0x9000 8), left) ∧
      left.machine.memory.accessAt? 0x1000000 = some .readWrite := ⟨_, rfl, rfl⟩
  have hown : mixedSession.own = [.scripted {}] ++ .stackMachine {} :: [.libc {}] := rfl
  have hbefore : ∀ x ∈ [Simulator.scripted {}], x.demand? (normalizeName "sub_400AAE") = none := by
    intro x hx
    obtain rfl := List.mem_singleton.mp hx
    rfl
  have hname : named? {} (normalizeName "sub_400AAE") = some .push := by decide
  rcases @failedCall_leaves _ { name := "sub_400AAE" } [.ptr 0x9000, .int 5] (by decide)
    mixedSession left _ _ _ hown hbefore _ hname _ hfails with
    hsame | ⟨_, cell, value, n, hvalues, hleft, _, htrace⟩
  · -- the page of the chunk tells the two sessions apart
    rw [hsame] at hmapped
    cases hmapped
  · cases hvalues
    exact ⟨left, n, hfails, by rw [hleft]; rfl, htrace⟩

/-- A push on a cell that is not mapped. The page of its chunk is mapped afterwards, with the value
in it. -/
theorem push_maps_and_fails :
    ∃ left, (plainCall "sub_400AAE" [.ptr 0x9000, .int 5]).runOn mixedSession =
        (.error (.memoryAccessFault 0x9000 8), left) ∧
      mixedSession.machine.memory.accessAt? 0x1000000 = none ∧
      left.machine.memory.accessAt? 0x1000000 = some .readWrite ∧
      left.machine.memory.byteAt? 0x100000b = some 5 :=
  ⟨_, rfl, rfl, rfl, rfl⟩

end StackMachine

end RoutineEmulator
