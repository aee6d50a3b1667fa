import RoutineEmulator.Proofs.Emulation.Courses
/-!
The registers that an emulation keeps.

Simulators never set a register. Calls set the result register or the next-handler register, and an
assignment sets the register of its variable; all other registers are kept from the start of an
emulation to its end. Where the frame register is one of these, the stack frame lies still.
-/

namespace RoutineEmulator

/-- The registers that the routine may set: those of calls and returns, and those of the register
variables and parameters that it assigns. -/
inductive Draft.Writes (r : Draft) : RegisterId → Prop
  | result : r.Writes Register.rax
  | nextHandler : r.Writes Register.nextHandler
  | assigned {var : Identifier} : r.Assigns var →
      var.storage = .register ∨ var.storage = .parameter → r.Writes var.id

/-- Evaluations set the registers of calls only. -/
def Register.SetByCalls (id : RegisterId) : Prop :=
  id = Register.rax ∨ id = Register.nextHandler

namespace Emulator

open Evaluation

/-- Registers that may not be written have the same value or none as before, a register with a value
keeps having one, and the frame lies at the same place of the same register. -/
structure KeepsRegisters (written : RegisterId → Prop) (before after : Session) : Prop where
  kept : ∀ id, ¬ written id → after.machine.register? id = before.machine.register? id
  stays : ∀ id, before.machine.register? id ≠ none → after.machine.register? id ≠ none
  frame : after.machine.frame = before.machine.frame

/-- The frame base and the addresses of variables are the same, or missing for the same reason. -/
structure KeepsFrame (before after : Session) : Prop where
  base : after.machine.frameBase = before.machine.frameBase
  address : ∀ var, after.machine.varAddress var = before.machine.varAddress var

namespace KeepsRegisters

variable {written : RegisterId → Prop} {before after : Session}

/-- Changes of anything but registers and the frame. -/
theorem of_registers (hregisters : after.machine.registers = before.machine.registers)
    (hframe : after.machine.frame = before.machine.frame) :
    KeepsRegisters written before after := by
  have hsame : ∀ id, after.machine.register? id = before.machine.register? id := fun id => by
    rw [Machine.register?, Machine.register?, hregisters]
  exact ⟨fun id _ => hsame id, fun id hset => by rwa [hsame], hframe⟩

theorem of_growsBy {chunks : List Chunk} (h : before.machine.GrowsBy after.machine chunks) :
    KeepsRegisters written before after := by
  obtain ⟨m, hmachine, _⟩ := h
  exact of_registers (by rw [hmachine]; rfl) (by rw [hmachine]; rfl)

theorem of_setRegister {id : RegisterId} (hid : written id) (value : UInt64) (session : Session) :
    KeepsRegisters written session
      { session with machine := session.machine.setRegister id value } := by
  have hget : ∀ other, (session.machine.setRegister id value).register? other =
      if id = other then some value else session.machine.register? other := fun other => by
    rw [Machine.register?, Machine.setRegister, Std.ExtTreeMap.getElem?_insert]
    simp only [Std.LawfulEqCmp.compare_eq_iff_eq]
    rfl
  refine ⟨fun other hother => ?_, fun other hset => ?_, rfl⟩
  · have hne : id ≠ other := fun heq => hother (heq ▸ hid)
    exact (hget other).trans (if_neg hne)
  · show (session.machine.setRegister id value).register? other ≠ none
    rw [hget]
    split
    · exact Option.some_ne_none value
    · exact hset

theorem course (written : RegisterId → Prop) : Work.Course (KeepsRegisters written) where
  refl _ := of_registers rfl rfl
  trans h h' := ⟨fun id hid => (h'.kept id hid).trans (h.kept id hid),
    fun id hset => h'.stays id (h.stays id hset), h'.frame.trans h.frame⟩

/-- Calls keep all registers but their own two. -/
theorem callCourse (hresult : written Register.rax) (hnext : written Register.nextHandler) :
    CallCourse (KeepsRegisters written) where
  toCourse := course written
  chain _ _ _ _ := by
    obtain ⟨_, _, hgrows⟩ := Simulator.serves_respondFirst _ _ _ _ _ _
    exact of_growsBy hgrows
  result := of_setRegister hresult
  nextHandler := of_setRegister hnext

theorem sessionCourse (r : Draft) : SessionCourse r (KeepsRegisters r.Writes) where
  toCallCourse := callCourse .result .nextHandler
  log _ _ := of_registers rfl rfl
  settleAll _ := of_registers rfl rfl
  settle _ _ := of_registers rfl rfl
  write _ hwrite := of_growsBy (Machine.growsBy_of_write hwrite)
  register value session hassigns hstorage :=
    of_setRegister (.assigned hassigns hstorage) value session

/-- A frame register that is kept holds the frame in place. -/
theorem keepsFrame (h : KeepsRegisters written before after)
    (hframe : ¬ written before.machine.frame.frameRegister) : KeepsFrame before after := by
  have hbase : after.machine.frameBase = before.machine.frameBase := by
    rw [Machine.frameBase, Machine.frameBase, h.frame, h.kept _ hframe]
  refine ⟨hbase, fun var => ?_⟩
  rw [Machine.varAddress, Machine.varAddress, h.frame, hbase]

end KeepsRegisters

/-- A frame register that the routine does not write holds the frame in place all through a run. -/
theorem Throughout.keepsFrame {settings : Settings} {r : Draft} {entry : Graph → Option StmtId}
    {session : Session} {written : RegisterId → Prop}
    (h : Throughout (KeepsRegisters written) settings r entry session)
    (hframe : ¬ written session.machine.frame.frameRegister) :
    Throughout KeepsFrame settings r entry session := by
  refine ⟨h.ends.keepsFrame hframe, fun hbuild hreaches => ?_⟩
  obtain ⟨hbefore, hafter, honward⟩ := h.reached hbuild hreaches
  -- the frame register itself is part of the frame, which is the same from point to point
  rw [← hbefore.frame] at hframe
  exact ⟨hbefore.keepsFrame (by rwa [← hbefore.frame]), hafter.keepsFrame hframe,
    fun q hq => (honward q hq).keepsFrame hframe⟩

/-- **Emulations keep registers.** Evaluating an expression sets no register but those of calls.
From one session of an emulation to any later one, wherever the routine is entered and however it
ends, every register is kept that the routine does not write, and no register that has a value loses
it. Where the frame register is one that the routine does not write, the frame base and the address
of every variable are the same all through. -/
theorem emulate_keeps_registers (settings : Settings) (r : Routine) (session : Session) :
    (∀ e before, KeepsRegisters Register.SetByCalls before
      ((Evaluation.eval r.toDraft e).runOn before).2) ∧
    (∀ entry, Throughout (KeepsRegisters r.Writes) settings r.toDraft entry session) ∧
    KeepsRegisters r.Writes session (emulate settings r session).2 ∧
    (∀ entry, KeepsRegisters r.Writes session (emulateFrom settings r entry session).2) ∧
    (¬ r.Writes session.machine.frame.frameRegister →
      (∀ entry, Throughout KeepsFrame settings r.toDraft entry session) ∧
      KeepsFrame session (emulate settings r session).2 ∧
      ∀ entry, KeepsFrame session (emulateFrom settings r entry session).2) := by
  have hcourse := KeepsRegisters.sessionCourse r.toDraft
  have hcalls : CallCourse (KeepsRegisters Register.SetByCalls) :=
    KeepsRegisters.callCourse (.inl rfl) (.inr rfl)
  have hrun : ∀ entry, Throughout (KeepsRegisters r.Writes) settings r.toDraft entry session :=
    fun entry => hcourse.throughout settings entry session
  have hfrom := fun entry => hcourse.emulateFrom settings entry session
  exact ⟨hcalls.eval r.toDraft, hrun, (hrun _).ends, hfrom, fun hframe =>
    ⟨fun entry => (hrun entry).keepsFrame hframe, (hrun _).ends.keepsFrame hframe,
      fun entry => (hfrom entry).keepsFrame hframe⟩⟩

/-- A routine that assigns a register variable. -/
def tallyDraft : Draft where
  name := "tally"
  address := 0x1000
  body := ⟨0⟩
  stmts := #[.block [⟨1⟩], .assign (.ident ⟨0⟩) (.int 5) none false]
  idents := #[{ id := Register.rbx, name := "n", storage := .register, type := "int" }]

def tallyRoutine : Routine where
  toDraft := tallyDraft
  valid := Draft.check_eq_ok_iff.mpr ⟨by decide, by decide, by decide, by decide⟩

theorem tallyDraft_not_writes : ¬ tallyDraft.Writes Register.rbp := by
  generalize hid : Register.rbp = id
  rintro (_ | _ | ⟨⟨_, _, _, _, _, ident, _, _, hvar⟩, _⟩)
  · exact absurd hid (by decide)
  · exact absurd hid (by decide)
  · have hmem := Array.mem_of_getElem? hvar
    rw [tallyDraft, List.mem_toArray, List.mem_singleton] at hmem
    subst hmem
    exact absurd hid (by decide)

/-- The assignment of its register variable leaves the frame where it is. -/
theorem emulate_keeps_registers_tally :
    let session : Session := ⟨[], .new {} (.new .little 64), {}⟩
    ¬ tallyRoutine.Writes session.machine.frame.frameRegister ∧
      KeepsFrame session (emulate {} tallyRoutine session).2 := by
  intro session
  obtain ⟨_, _, _, _, hframe⟩ := emulate_keeps_registers {} tallyRoutine session
  exact ⟨tallyDraft_not_writes, (hframe tallyDraft_not_writes).2.1⟩

end Emulator

end RoutineEmulator
