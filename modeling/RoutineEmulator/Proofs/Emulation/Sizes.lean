import RoutineEmulator.Proofs.Emulation.Courses
import RoutineEmulator.Proofs.Emulation.Rounds
/-!
The sizes of types stay as they are.

No call, no assignment and no round of a chain changes the type table of a machine, or the size of a
pointer that it has besides the table. So what the machine is set up with holds wherever the chain
comes.
-/

namespace RoutineEmulator

namespace Emulator

/-- The type table and the size of a pointer are the same. -/
structure KeepsSizes (before after : Session) : Prop where
  types : after.machine.types = before.machine.types
  pointerSize : after.machine.pointerSize = before.machine.pointerSize

namespace KeepsSizes

variable {before after : Session}

theorem refl (session : Session) : KeepsSizes session session :=
  ⟨rfl, rfl⟩

theorem trans {later : Session} (h : KeepsSizes before after) (h' : KeepsSizes after later) :
    KeepsSizes before later :=
  ⟨h'.types.trans h.types, h'.pointerSize.trans h.pointerSize⟩

theorem of_growsBy {chunks : List Chunk} (h : before.machine.GrowsBy after.machine chunks) :
    KeepsSizes before after := by
  obtain ⟨m, hmachine, -⟩ := h
  exact ⟨by rw [hmachine]; rfl, by rw [hmachine]; rfl⟩

theorem callCourse : CallCourse KeepsSizes where
  refl := refl
  trans := trans
  chain _ _ _ _ := by
    obtain ⟨_, _, hgrows⟩ := Simulator.serves_respondFirst _ _ _ _ _ _
    exact of_growsBy hgrows
  result _ _ := ⟨rfl, rfl⟩
  nextHandler _ _ := ⟨rfl, rfl⟩

/-- Nothing that an emulation does to a session changes a size. -/
theorem sessionCourse (r : Draft) : SessionCourse r KeepsSizes where
  toCallCourse := callCourse
  log _ _ := ⟨rfl, rfl⟩
  settleAll _ := ⟨rfl, rfl⟩
  settle _ _ := ⟨rfl, rfl⟩
  write _ hwrite := of_growsBy (Machine.growsBy_of_write hwrite)
  register _ _ _ _ := ⟨rfl, rfl⟩

end KeepsSizes

end Emulator

/-! ## Chains -/

namespace HandlerChain

open Emulator

variable {settings : Settings} {provider : Provider} {address next : UInt64}
  {session session' later : Session} {file file' : Option LogFile} {round : Round}

/-- A session that a chain comes to from an address: the one that it starts with, one between two
visits of its first round, or one that it comes to from the next address. -/
inductive ComesTo (settings : Settings) (provider : Provider) :
    UInt64 → Session → Option LogFile → Session → Prop
  | start {address : UInt64} {session : Session} {file : Option LogFile} :
      ComesTo settings provider address session file session
  | visit {address : UInt64} {session : Session} {file : Option LogFile} {routine : Routine}
      {g : Graph} {p : Point} : provider address = some routine →
      Graph.build routine.toDraft = .ok g →
      (Point.first settings.emulator routine.toDraft g.entry
        { session with machine := session.machine.clearRegister Register.nextHandler }
        (settings.emulator.maxSteps.getD unlimited)).Reaches
          settings.emulator routine.toDraft g p →
      ComesTo settings provider address session file p.session
  | turn {address next : UInt64} {session session' later : Session} {file file' : Option LogFile}
      {round : Round} :
      turn settings provider address session file = .goesOn round next session' file' →
      ComesTo settings provider next session' file' later →
      ComesTo settings provider address session file later

/-- A chain writes its log and nothing else. -/
theorem keepsSizes_of_flush (h : flush session file = .ok (session', file')) :
    KeepsSizes session session' := by
  unfold flush at h
  split at h
  · cases h
    exact .refl _
  · split at h
    · cases h
      exact ⟨rfl, rfl⟩
    · cases h

theorem keepsSizes_of_round (settings : Settings) (routine : Routine) (session : Session) :
    KeepsSizes session (HandlerChain.round settings routine session).2 := by
  have hcleared : KeepsSizes session
      { session with machine := session.machine.clearRegister Register.nextHandler } := ⟨rfl, rfl⟩
  exact hcleared.trans
    ((KeepsSizes.sessionCourse routine.toDraft).throughout settings.emulator _ _).ends

/-- A turn that goes on keeps the sizes. -/
theorem keepsSizes_of_goesOn
    (h : turn settings provider address session file = .goesOn round next session' file') :
    KeepsSizes session session' := by
  unfold turn at h
  split at h
  · unfold givesUp at h
    split at h <;> cases h
  · rename_i routine _
    have hround := keepsSizes_of_round settings routine session
    split at h
    · cases h
    · unfold givesUp at h
      split at h <;> cases h
    · rename_i trace after hrun
      rw [hrun] at hround
      unfold goesOnAfter at h
      split at h
      · cases h
      · rename_i flushed flushedFile hflush
        split at h
        · cases h
        · split at h
          · cases h
            exact hround.trans (keepsSizes_of_flush hflush)
          · cases h

/-- **Chains keep the sizes.** Wherever a chain comes, the type table and the size of a pointer are
those that it started with. -/
theorem ComesTo.keepsSizes (h : ComesTo settings provider address session file later) :
    KeepsSizes session later := by
  induction h with
  | start => exact .refl _
  | @visit address session file routine g p _ hbuild hreaches =>
      have hcleared : KeepsSizes session
          { session with machine := session.machine.clearRegister Register.nextHandler } :=
        ⟨rfl, rfl⟩
      have hcourse := KeepsSizes.sessionCourse routine.toDraft
      exact hcleared.trans
        ((hcourse.throughout settings.emulator (·.entry) _).reached hbuild hreaches).1
  | turn hturn _ ih => exact (keepsSizes_of_goesOn hturn).trans ih

end HandlerChain

end RoutineEmulator
