import RoutineEmulator.Proofs.Emulation.Courses
/-!
What an emulation does to the pages of the memory.

Memory is written by assignments and by simulators, and only a stack machine maps pages, for the
chunks that it hands out. So an emulation keeps every page and its flags, leaves the bytes of locked
pages alone, and maps what the chunks need and no more.
-/

namespace RoutineEmulator.Emulator

open Allocator

/-- The chunks that the stack machines of the chain hand out are those by which the memory grows. -/
def GrowsByChunks (before after : Session) : Prop :=
  ∃ chunks, HandsOut (before.own.flatMap Simulator.allocators) chunks
      (after.own.flatMap Simulator.allocators) ∧
    before.machine.memory.Grows after.machine.memory chunks

/-- The pages of the memory are kept, but for writes and for what stack machines allocate. -/
structure KeepsPages (before after : Session) : Prop where
  grows : GrowsByChunks before after
  /-- Without a stack machine in the chain no page is mapped. -/
  still : (∀ m, .stackMachine m ∉ before.own) → ∀ page,
    page ∈ after.machine.memory.pages ↔ page ∈ before.machine.memory.pages

/-- A chain without stack machines has no allocators. -/
theorem allocators_eq_nil {chain : List Simulator} (h : ∀ m, .stackMachine m ∉ chain) :
    chain.flatMap Simulator.allocators = [] := by
  rw [List.flatMap_eq_nil_iff]
  intro s hs
  cases s with
  | stackMachine m => exact absurd hs (h m)
  | libc | scripted => rfl

theorem GrowsByChunks.keepsPages {before after : Session} (h : GrowsByChunks before after) :
    KeepsPages before after := by
  refine ⟨h, fun hchain page => ?_⟩
  obtain ⟨chunks, hout, hgrows⟩ := h
  rw [allocators_eq_nil hchain] at hout
  rw [hgrows.mapped, hout.eq_nil]
  simp

namespace GrowsByChunks

/-- Changes that allocate nothing and leave the allocators alone. -/
theorem of_grows {before after : Session}
    (hown : after.own.flatMap Simulator.allocators = before.own.flatMap Simulator.allocators)
    (h : before.machine.memory.Grows after.machine.memory []) : GrowsByChunks before after :=
  ⟨[], by rw [hown]; exact .nothing _, h⟩

theorem of_serves {before after : Session}
    (h : Serves (·.flatMap Simulator.allocators) before after) : GrowsByChunks before after := by
  obtain ⟨chunks, hout, m, hmachine, hgrows⟩ := h
  exact ⟨chunks, hout, by rw [hmachine]; exact hgrows⟩

/-- Everything that an emulation does to a session only lets the memory grow. -/
theorem sessionCourse (r : Draft) : SessionCourse r GrowsByChunks where
  refl _ := of_grows rfl (.refl _)
  log _ _ := of_grows rfl (.refl _)
  trans := fun ⟨_, hout, hgrows⟩ ⟨_, hout', hgrows'⟩ =>
    ⟨_, hout.trans hout', hgrows.trans hgrows'⟩
  chain _ _ _ _ := of_serves (Simulator.serves_respondFirst _ _ _ _ _ _)
  settleAll session := of_grows (by simp [List.flatMap_map]) (.refl _)
  settle place session := by
    refine of_grows ?_ (.refl _)
    rw [List.flatMap_def, List.flatMap_def,
      map_modify_settlePops Simulator.allocators_settlePops session.own place]
  result _ _ := of_grows rfl (.refl _)
  nextHandler _ _ := of_grows rfl (.refl _)
  write _ hwrite := of_serves ⟨[], .nothing _, Machine.growsBy_of_write hwrite⟩
  register _ _ _ _ := of_grows rfl (.refl _)

end GrowsByChunks

/-- **Emulations keep the pages.** However an emulation ends, every page that was mapped is mapped
with the same flags, a page that may not be written has the same bytes, and byte order and address
width are the same. The pages that are new are for reading and writing, and they are those that meet
a chunk which a stack machine of the chain handed out and which fits the address space. Without a
stack machine the set of mapped pages is the same. All of this also holds from any statement. -/
theorem emulate_keeps_pages (settings : Settings) (r : Routine) (session : Session) :
    KeepsPages session (emulate settings r session).2 ∧
      ∀ entry, KeepsPages session (emulateFrom settings r entry session).2 := by
  have hcourse := GrowsByChunks.sessionCourse r.toDraft
  exact ⟨(hcourse.throughout settings _ session).ends.keepsPages,
    fun entry => (hcourse.emulateFrom settings entry session).keepsPages⟩

end RoutineEmulator.Emulator
