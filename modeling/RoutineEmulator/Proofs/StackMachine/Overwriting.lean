import RoutineEmulator.Proofs.Routine.Validity
import RoutineEmulator.Proofs.Simulation.Courses
import RoutineEmulator.Proofs.StackMachine.Refinement
/-!
What pushes do to memory that is in use.

A stack machine hands out its chunks at addresses that its layout fixes, and does not ask whether
they are mapped: allocating a chunk fills the gaps of its range, and what was there is kept until
the push writes link and value over it. So pushes change mapped bytes in two places only: in the
stack cells, and in the first twelve bytes of the chunks that they take.
-/

namespace RoutineEmulator

/-! ## Memory that is spared -/

namespace Memory

/-- The memory `n` is `m` with other bytes at addresses that may be touched. Nothing is mapped and
no flag is different. -/
structure Rewrites (touched : Nat → Prop) (m n : Memory) : Prop where
  flags : ∀ x, n.accessAt? x = m.accessAt? x
  bytes : ∀ x, ¬ touched x → n.byteAt? x = m.byteAt? x
  byteOrder : n.byteOrder = m.byteOrder
  spaceBits : n.spaceBits = m.spaceBits

namespace Rewrites

variable {touched : Nat → Prop} {m n o : Memory}

theorem refl (touched : Nat → Prop) (m : Memory) : m.Rewrites touched m :=
  ⟨fun _ => rfl, fun _ _ => rfl, rfl, rfl⟩

theorem trans (h : m.Rewrites touched n) (h' : n.Rewrites touched o) : m.Rewrites touched o where
  flags x := (h'.flags x).trans (h.flags x)
  bytes x hx := (h'.bytes x hx).trans (h.bytes x hx)
  byteOrder := h'.byteOrder.trans h.byteOrder
  spaceBits := h'.spaceBits.trans h.spaceBits

/-- A word that was written touches its own bytes. -/
theorem of_writeWord {address value : UInt64} {size : Nat}
    (h : m.writeWord address value size = .ok n)
    (htouched : ∀ x, address.toNat ≤ x → x < address.toNat + size → touched x) :
    m.Rewrites touched n := by
  have hover := overwrites_of_writeWord h
  refine ⟨hover.access, fun x hspared => hover.outside x ?_, hover.byteOrder, hover.spaceBits⟩
  refine Classical.or_iff_not_imp_left.mpr fun hle => Nat.not_lt.mp fun hlt => ?_
  exact hspared (htouched x (Nat.not_lt.mp hle) (by simpa using hlt))

end Rewrites

/-- Mapped bytes stay mapped, with their flags, and they are the same but for those that may be
touched. -/
structure Spares (touched : Nat → Prop) (m n : Memory) : Prop where
  flags : ∀ x, m.accessAt? x ≠ none → n.accessAt? x = m.accessAt? x
  bytes : ∀ x, m.accessAt? x ≠ none → ¬ touched x → n.byteAt? x = m.byteAt? x

namespace Spares

variable {touched : Nat → Prop} {m n o : Memory}

theorem refl (touched : Nat → Prop) (m : Memory) : m.Spares touched m :=
  ⟨fun _ _ => rfl, fun _ _ _ => rfl⟩

theorem trans (h : m.Spares touched n) (h' : n.Spares touched o) : m.Spares touched o := by
  have hmapped : ∀ x, m.accessAt? x ≠ none → n.accessAt? x ≠ none := by
    intro x hx
    rw [h.flags x hx]
    exact hx
  refine ⟨fun x hx => ?_, fun x hx hspared => ?_⟩
  · rw [h'.flags x (hmapped x hx), h.flags x hx]
  · rw [h'.bytes x (hmapped x hx) hspared, h.bytes x hx hspared]

/-- Filling gaps touches nothing that is mapped. -/
theorem of_fillsGaps {access : Access} {a size : Nat} (h : FillsGaps m n access a size) :
    m.Spares touched n :=
  ⟨fun x hx => (h.kept x hx).1, fun x hx _ => (h.kept x hx).2⟩

theorem of_rewrites (h : m.Rewrites touched n) : m.Spares touched n :=
  ⟨fun x _ => h.flags x, fun x _ => h.bytes x⟩

end Spares

end Memory

open Memory

namespace Machine

variable {touched : Nat → Prop} {s s' : Machine} {address value : UInt64} {size : Nat}

/-- A write touches the bytes of its word. -/
theorem spares_of_write (h : s.write address value size = .ok s')
    (htouched : ∀ x, address.toNat ≤ x → x < address.toNat + size → touched x) :
    s.memory.Spares touched s'.memory := by
  obtain ⟨m, hwrite, h⟩ := bind_eq_ok_iff.mp h
  cases h
  exact .of_rewrites (.of_writeWord hwrite htouched)

/-- What is allocated lies in the address space, and its gaps are filled. -/
theorem fillsGaps_of_allocate (hsize : 0 < size) (h : s.allocate address size = .ok s') :
    address.toNat + size ≤ s.memory.spaceSize ∧
      FillsGaps s.memory s'.memory .readWrite address.toNat size := by
  by_cases hspace : address.toNat + size ≤ s.memory.spaceSize
  · obtain ⟨n, hallocate, hfill⟩ := s.exists_allocate address size hsize hspace
    rw [hallocate] at h
    cases h
    exact ⟨hspace, hfill⟩
  · unfold allocate Memory.allocate at h
    rw [if_neg (Nat.pos_iff_ne_zero.mp hsize), if_neg hspace] at h
    cases h

end Machine

/-! ## One push -/

namespace StackMachine

/-- From one bench to another mapped memory is spared, and no chunk is taken. -/
structure Spares (touched : Nat → Prop) (before after : Bench StackMachine) : Prop where
  memory : before.machine.memory.Spares touched after.machine.memory
  layout : after.own.layout = before.own.layout
  next : after.own.nextChunk = before.own.nextChunk

theorem Spares.course (touched : Nat → Prop) : Work.Course (Spares touched) where
  refl bench := ⟨.refl touched bench.machine.memory, rfl, rfl⟩
  trans h h' := ⟨h.memory.trans h'.memory, h'.layout.trans h.layout, h'.next.trans h.next⟩

section Push

variable {touched : Nat → Prop}

theorem spares_write {address : UInt64} {size : Nat}
    (htouched : ∀ x, address.toNat ≤ x → x < address.toNat + size → touched x) (value : UInt64) :
    (Work.change (·.write address value size)).Moves (Spares touched) :=
  (Spares.course touched).change fun _ _ _ _ h => ⟨Machine.spares_of_write h htouched, rfl, rfl⟩

/-- A push fails where its chunk cannot be mapped. -/
theorem push_of_allocate_eq_error {own : StackMachine} {s : Machine} (log : OutputLog)
    (cell value : Int64) (pushed : Option Expr) {e : EmulationError}
    (h : s.allocate own.nextChunk own.layout.chunkSize.toNat = .error e) :
    (push cell value pushed).runOn ⟨own, s, log⟩ =
      (.error e, ⟨{ own with nextChunk := own.nextChunk + own.layout.chunkSize }, s, log⟩) := by
  unfold push
  rw [Work.runOn_bind_of_error (allocateChunk_runOn_of_error h)]

theorem spares_logOperation (pushed : Option Expr) :
    (logOperation pushed).Moves (Spares touched) := by
  rintro ⟨own, s, log⟩
  obtain ⟨pops, log', hlog⟩ := logOperation_runOn pushed own s log
  rw [hlog]
  exact ⟨.refl touched s.memory, rfl, rfl⟩

/-- The first twelve bytes of a chunk hold its link and its value. -/
def InChunk (chunk : UInt64) (x : Nat) : Prop :=
  chunk.toNat ≤ x ∧ x < chunk.toNat + 12

/-- The eight bytes of a stack cell. -/
def InCell (cell : Int64) (x : Nat) : Prop :=
  cell.toUInt64.toNat ≤ x ∧ x < cell.toUInt64.toNat + 8

instance (chunk : UInt64) (x : Nat) : Decidable (InChunk chunk x) :=
  inferInstanceAs (Decidable (_ ∧ _))

instance (cell : Int64) (x : Nat) : Decidable (InCell cell x) :=
  inferInstanceAs (Decidable (_ ∧ _))

/-- **One push.** Whether a push succeeds or fails, it takes the next chunk, and of mapped memory it
touches its cell and the link and the value of that chunk only. -/
theorem push_spares (own : StackMachine) (s : Machine) (log : OutputLog) (cell value : Int64)
    (pushed : Option Expr) (hsize : 12 ≤ own.layout.chunkSize.toNat)
    (hcell : ∀ x, InCell cell x → touched x) (hchunk : ∀ x, InChunk own.nextChunk x → touched x) :
    Spares touched
      ⟨{ own with nextChunk := own.nextChunk + own.layout.chunkSize }, s, log⟩
      ((push cell value pushed).runOn ⟨own, s, log⟩).2 := by
  have hc := Spares.course touched
  cases hallocate : s.allocate own.nextChunk own.layout.chunkSize.toNat with
  | error e =>
      rw [push_of_allocate_eq_error log cell value pushed hallocate]
      exact hc.refl _
  | ok s' =>
      unfold push
      rw [Work.runOn_bind_of_ok (allocateChunk_runOn hallocate)]
      obtain ⟨hspace, hfill⟩ := Machine.fillsGaps_of_allocate (by omega) hallocate
      -- the chunk lies in the address space, so its value lies behind its link
      have hvalueAt : (own.nextChunk + valueOffset).toNat = own.nextChunk.toNat + 8 := by
        have hle := s.memory.spaceSize_le
        exact toNat_add_valueOffset (by omega)
      have hvalue : ∀ x, (own.nextChunk + valueOffset).toNat ≤ x →
          x < (own.nextChunk + valueOffset).toNat + 4 → touched x := by
        rw [hvalueAt]
        exact fun x hle hlt => hchunk x ⟨by omega, by omega⟩
      have hlink : ∀ x, own.nextChunk.toNat ≤ x → x < own.nextChunk.toNat + 8 → touched x :=
        fun x hle hlt => hchunk x ⟨hle, by omega⟩
      have hmapped : Spares touched
          ⟨{ own with nextChunk := own.nextChunk + own.layout.chunkSize }, s, log⟩
          ⟨{ own with nextChunk := own.nextChunk + own.layout.chunkSize }, s', log⟩ :=
        ⟨.of_fillsGaps hfill, rfl, rfl⟩
      refine hc.trans hmapped ?_
      exact hc.bind (spares_write hvalue _) (fun _ => hc.bind (hc.ask _) fun _ =>
        hc.bind (spares_write hlink _) fun _ =>
          hc.bind (spares_write (fun x hle hlt => hcell x ⟨hle, hlt⟩) _) fun _ =>
            hc.bind (Work.moves_say (fun bench _ => ⟨.refl touched bench.machine.memory, rfl, rfl⟩) _)
              fun _ => hc.bind (spares_logOperation pushed) fun _ => hc.pure 0) _

/-- The accesses of a push that answers, one after the other. -/
theorem exists_of_push_eq_ok {own : StackMachine} {s : Machine} {log : OutputLog}
    {cell value answer : Int64} {pushed : Option Expr} {after : Bench StackMachine}
    (h : (push cell value pushed).runOn ⟨own, s, log⟩ = (.ok answer, after)) :
    ∃ mapped valued linked head,
      s.allocate own.nextChunk own.layout.chunkSize.toNat = .ok mapped ∧
      mapped.write (own.nextChunk + valueOffset) value.toUInt64 4 = .ok valued ∧
      valued.read cell.toUInt64 8 = .ok head ∧
      valued.write own.nextChunk head 8 = .ok linked ∧
      linked.write cell.toUInt64 own.nextChunk 8 = .ok after.machine := by
  cases hallocate : s.allocate own.nextChunk own.layout.chunkSize.toNat with
  | error e =>
      rw [push_of_allocate_eq_error log cell value pushed hallocate] at h
      cases h
  | ok mapped =>
      unfold push at h
      rw [Work.runOn_bind_of_ok (allocateChunk_runOn hallocate)] at h
      obtain ⟨valued, hvalue, h⟩ := Work.exists_of_runOn_change_bind_eq_ok h
      obtain ⟨head, hhead, h⟩ := Work.exists_of_runOn_ask_bind_eq_ok h
      obtain ⟨linked, hlink, h⟩ := Work.exists_of_runOn_change_bind_eq_ok h
      obtain ⟨last, hcell, h⟩ := Work.exists_of_runOn_change_bind_eq_ok h
      rw [Work.runOn_bind_of_ok (Work.runOn_say _)] at h
      obtain ⟨pops, log', hlog⟩ := logOperation_runOn pushed
        { own with nextChunk := own.nextChunk + own.layout.chunkSize } last
        (log.push ("S: PUSH " ++ toString value.toInt))
      rw [Work.runOn_bind_of_ok hlog] at h
      cases h
      exact ⟨mapped, valued, linked, head, rfl, hvalue, hhead, hlink, hcell⟩

/-- After a push that answers its chunk is mapped. -/
theorem mapped_of_push_eq_ok {own : StackMachine} {s : Machine} {log : OutputLog}
    {cell value answer : Int64} {pushed : Option Expr} {after : Bench StackMachine}
    (hsize : 0 < own.layout.chunkSize.toNat)
    (h : (push cell value pushed).runOn ⟨own, s, log⟩ = (.ok answer, after)) {x : Nat}
    (hle : own.nextChunk.toNat ≤ x) (hlt : x < own.nextChunk.toNat + own.layout.chunkSize.toNat) :
    after.machine.memory.accessAt? x ≠ none := by
  obtain ⟨mapped, valued, linked, head, hallocate, hvalue, -, hlink, hcell⟩ :=
    exists_of_push_eq_ok h
  obtain ⟨-, hfill⟩ := Machine.fillsGaps_of_allocate hsize hallocate
  have hmapped : mapped.memory.accessAt? x ≠ none := by
    rw [hfill.accessAt?_of_range hle hlt]
    exact Option.some_ne_none _
  -- the writes keep what is mapped
  have hspares : mapped.memory.Spares (fun _ => True) after.machine.memory :=
    ((Machine.spares_of_write hvalue fun _ _ _ => trivial).trans
      (Machine.spares_of_write hlink fun _ _ _ => trivial)).trans
        (Machine.spares_of_write hcell fun _ _ _ => trivial)
  rw [hspares.flags x hmapped]
  exact hmapped

/-- After a push that answers its stack cell leads to its chunk. -/
theorem read_of_push_eq_ok {own : StackMachine} {s : Machine} {log : OutputLog}
    {cell value answer : Int64} {pushed : Option Expr} {after : Bench StackMachine}
    (h : (push cell value pushed).runOn ⟨own, s, log⟩ = (.ok answer, after)) :
    after.machine.read cell.toUInt64 8 = .ok own.nextChunk := by
  obtain ⟨mapped, valued, linked, head, -, -, hhead, hlink, hcell⟩ := exists_of_push_eq_ok h
  obtain ⟨-, m, rfl, hlinked⟩ := Machine.exists_overwrites_of_write hlink
  obtain ⟨-, n, hafter, hrelinked⟩ := Machine.exists_overwrites_of_write hcell
  have hreadable : m.Covers (·.read) cell.toUInt64 8 :=
    (hlinked.covers_iff _ _ _).mpr (covers_of_readWord isWordWidth_eight hhead)
  rw [hafter]
  exact (hrelinked.readWord_of_same isWordWidth_eight hreadable).trans
    (congrArg Except.ok (lowBytes_eight _))

end Push

/-! ## A run of pushes -/

/-- A call of the push handler: its arguments as written, and the values of the first two. -/
structure PushCall where
  args : List Expr
  cell : Int64
  value : Int64

namespace PushCall

/-- What the handler answers to the call, and the bench that it leaves. -/
def runOn (c : PushCall) (bench : Bench StackMachine) :
    Except EmulationError Int64 × Bench StackMachine :=
  (Handler.push.run c.args [c.cell, c.value]).runOn bench

/-- The call takes the chunk at an address, whatever is mapped there: this is the next chunk, and
afterwards the one behind it is. Where the chunk cannot be mapped the call fails as that does, and
after an answer the whole chunk is mapped and the stack cell leads to it. -/
structure Takes (c : PushCall) (chunk : UInt64) (bench : Bench StackMachine) : Prop where
  next : bench.own.nextChunk = chunk
  behind : (c.runOn bench).2.own.nextChunk = chunk + bench.own.layout.chunkSize
  fails : ∀ e, bench.machine.allocate chunk bench.own.layout.chunkSize.toNat = .error e →
    (c.runOn bench).1 = .error e
  mapped : ∀ answer, (c.runOn bench).1 = .ok answer → ∀ x, chunk.toNat ≤ x →
    x < chunk.toNat + bench.own.layout.chunkSize.toNat →
      (c.runOn bench).2.machine.memory.accessAt? x ≠ none
  linked : ∀ answer, (c.runOn bench).1 = .ok answer →
    (c.runOn bench).2.machine.read c.cell.toUInt64 8 = .ok chunk

/-- On every bench a push takes the next chunk. -/
theorem takes_nextChunk (c : PushCall) (bench : Bench StackMachine)
    (hsize : 12 ≤ bench.own.layout.chunkSize.toNat) : c.Takes bench.own.nextChunk bench where
  next := rfl
  behind := (@push_spares (fun _ => True) bench.own bench.machine bench.log c.cell c.value c.args[1]?
    hsize (fun _ _ => trivial) (fun _ _ => trivial)).next
  fails e h := congrArg Prod.fst (push_of_allocate_eq_error bench.log c.cell c.value c.args[1]? h)
  mapped answer h x hle hlt := mapped_of_push_eq_ok (by omega) (Prod.ext h rfl) hle hlt
  linked answer h := read_of_push_eq_ok (Prod.ext h rfl)

end PushCall

/-- The bench that a run of pushes leaves. A push that fails does not stop the others. -/
def pushAll (calls : List PushCall) (bench : Bench StackMachine) : Bench StackMachine :=
  calls.foldl (fun bench c => ((Handler.push.run c.args [c.cell, c.value]).runOn bench).2) bench

/-- The bytes that a run of pushes may write, from a chunk on: those of its stack cells, and those
of the links and values of its chunks. -/
def WrittenBy (layout : StackLayout) (used : Nat) (calls : List PushCall) (x : Nat) : Prop :=
  (∃ c ∈ calls, InCell c.cell x) ∨
    ∃ slot < calls.length, InChunk (chunkAt layout (used + slot)) x

instance (layout : StackLayout) (used : Nat) (calls : List PushCall) (x : Nat) :
    Decidable (WrittenBy layout used calls x) :=
  inferInstanceAs (Decidable (_ ∨ _))

/-- A run of pushes takes one chunk after the other, and of mapped memory it touches only what it
may write. -/
theorem pushAll_spares {layout : StackLayout} (hsize : 12 ≤ layout.chunkSize.toNat)
    {touched : Nat → Prop} (calls : List PushCall) {used : Nat}
    (htouched : ∀ x, WrittenBy layout used calls x → touched x) (own : StackMachine)
    (hlayout : own.layout = layout) (hnext : own.nextChunk = chunkAt layout used) (s : Machine)
    (log : OutputLog) :
    Spares touched ⟨{ own with nextChunk := chunkAt layout (used + calls.length) }, s, log⟩
      (pushAll calls ⟨own, s, log⟩) := by
  induction calls generalizing used own s log with
  | nil => exact ⟨.refl touched s.memory, rfl, hnext⟩
  | cons c calls ih =>
      subst hlayout
      have hfirst := push_spares own s log c.cell c.value c.args[1]? hsize
        (fun x hx => htouched x (.inl ⟨c, List.mem_cons_self, hx⟩))
        (fun x hx => htouched x (.inr ⟨0, by simp, hnext ▸ hx⟩))
      have hnext' : own.nextChunk + own.layout.chunkSize = chunkAt own.layout (used + 1) := by
        rw [chunkAt_succ, ← hnext]
      have hlater : ∀ x, WrittenBy own.layout (used + 1) calls x → touched x := by
        rintro x (⟨c', hmem, hx⟩ | ⟨slot, hlt, hx⟩)
        · exact htouched x (.inl ⟨c', List.mem_cons_of_mem c hmem, hx⟩)
        · refine htouched x (.inr ⟨slot + 1, Nat.succ_lt_succ hlt, ?_⟩)
          rwa [Nat.add_assoc, Nat.add_comm 1] at hx
      have hrest := ih hlater _ hfirst.layout (hfirst.next.trans hnext')
        (c.runOn ⟨own, s, log⟩).2.machine (c.runOn ⟨own, s, log⟩).2.log
      rw [Nat.add_assoc, Nat.add_comm 1] at hrest
      exact ⟨hfirst.memory.trans hrest.memory, hrest.layout.trans hfirst.layout, hrest.next⟩

/-- What a fresh stack machine spares while it pushes. -/
theorem pushAll_spares_fresh {layout : StackLayout} (hsize : 12 ≤ layout.chunkSize.toNat)
    (calls : List PushCall) (s : Machine) (log : OutputLog) :
    Spares (WrittenBy layout 0 calls)
      ⟨{ layout, nextChunk := chunkAt layout calls.length }, s, log⟩
      (pushAll calls ⟨{ layout }, s, log⟩) := by
  have hspares := pushAll_spares hsize calls (fun _ => id) { layout } rfl
    (chunkAt_zero layout).symm s log
  rwa [Nat.zero_add] at hspares

/-- **Pushes overwrite their chunks.** Whatever a fresh stack machine pushes, and whichever pushes
fail, the chunks that it takes lie one behind the other from the base of the layout on, whether or
not memory is in use there. A byte that was mapped before keeps its value unless it belongs to one
of the stack cells, or to the link or the value of a chunk that was handed out. Where nothing was
mapped for links and values, nothing but the stack cells changes. -/
theorem pushes_overwrite_chunks (layout : StackLayout) (hsize : 12 ≤ layout.chunkSize.toNat)
    (s : Machine) (log : OutputLog) (calls : List PushCall) :
    (∀ (k : Nat) (c : PushCall), calls[k]? = some c →
      c.Takes (chunkAt layout k) (pushAll (calls.take k) ⟨{ layout }, s, log⟩)) ∧
    (pushAll calls ⟨{ layout }, s, log⟩).own.nextChunk = chunkAt layout calls.length ∧
    (∀ x, s.memory.accessAt? x ≠ none → ¬ WrittenBy layout 0 calls x →
      (pushAll calls ⟨{ layout }, s, log⟩).machine.memory.byteAt? x = s.memory.byteAt? x) ∧
    ((∀ slot < calls.length, ∀ x, InChunk (chunkAt layout slot) x → s.memory.accessAt? x = none) →
      ∀ x, s.memory.accessAt? x ≠ none → (∀ c ∈ calls, ¬ InCell c.cell x) →
        (pushAll calls ⟨{ layout }, s, log⟩).machine.memory.byteAt? x = s.memory.byteAt? x) := by
  have hspares := pushAll_spares_fresh hsize calls s log
  refine ⟨fun k c hc => ?_, hspares.next, hspares.memory.bytes, fun hfree x hmapped hcells =>
    hspares.memory.bytes x hmapped ?_⟩
  · -- the pushes before this one have taken `k` chunks
    have hbefore := pushAll_spares_fresh hsize (calls.take k) s log
    have hlen : (calls.take k).length = k := by
      have hk := (List.getElem?_eq_some_iff.mp hc).1
      rw [List.length_take, Nat.min_eq_left (Nat.le_of_lt hk)]
    have htakes := c.takes_nextChunk (pushAll (calls.take k) ⟨{ layout }, s, log⟩)
      (by rwa [hbefore.layout])
    rwa [hbefore.next, hlen] at htakes
  · rintro (⟨c, hmem, hx⟩ | ⟨slot, hlt, hx⟩)
    · exact hcells c hmem hx
    · rw [Nat.zero_add] at hx
      exact hmapped (hfree slot hlt x hx)

/-- Two pushes on a machine with one page. The second takes the second chunk. Where the chunks lie
in this page, a byte behind them keeps its value, and where they lie elsewhere, only the stack cells
change. -/
theorem pushes_overwrite_chunks_onePage :
    (⟨[], 0x2018, 7⟩ : PushCall).Takes 0x2010
      (pushAll [⟨[], 0x2010, 5⟩] ⟨{ layout := { chunkBase := 0x2000 } }, onePageMachine, {}⟩) ∧
    (pushAll [⟨[], 0x2010, 5⟩, ⟨[], 0x2018, 7⟩]
        ⟨{ layout := { chunkBase := 0x2000 } }, onePageMachine, {}⟩).machine.memory.byteAt? 0x2020 =
      onePageMachine.memory.byteAt? 0x2020 ∧
    (pushAll [⟨[], 0x2010, 5⟩, ⟨[], 0x2018, 7⟩]
        ⟨{ layout := {} }, onePageMachine, {}⟩).machine.memory.byteAt? 0x200b =
      onePageMachine.memory.byteAt? 0x200b := by
  have hmapped : ∀ x, x / pageSize = 2 → onePageMachine.memory.accessAt? x ≠ none := by
    intro x hx
    rw [accessAt?_onePageMachine, if_pos hx]
    exact Option.some_ne_none _
  refine ⟨?_, ?_, ?_⟩
  · exact (pushes_overwrite_chunks { chunkBase := 0x2000 } (by decide) onePageMachine {}
      [⟨[], 0x2010, 5⟩, ⟨[], 0x2018, 7⟩]).1 1 _ rfl
  · exact (pushes_overwrite_chunks { chunkBase := 0x2000 } (by decide) onePageMachine {}
      [⟨[], 0x2010, 5⟩, ⟨[], 0x2018, 7⟩]).2.2.1 0x2020 (hmapped _ (by decide)) (by decide)
  · refine (pushes_overwrite_chunks {} (by decide) onePageMachine {}
      [⟨[], 0x2010, 5⟩, ⟨[], 0x2018, 7⟩]).2.2.2 ?_ 0x200b (hmapped _ (by decide)) (by decide)
    rintro slot hslot x ⟨hle, hlt⟩
    have hslot : slot = 0 ∨ slot = 1 := by
      rw [List.length_cons, List.length_cons, List.length_nil] at hslot
      omega
    have hpage : x / pageSize ≠ 2 := by
      rcases hslot with rfl | rfl
      · have hstart : (chunkAt {} 0).toNat = 0x1000000 := by decide
        unfold pageSize
        omega
      · have hstart : (chunkAt {} 1).toNat = 0x1000010 := by decide
        unfold pageSize
        omega
    rw [accessAt?_onePageMachine, if_neg hpage]

/-- A push on a page that is in use: the chunk is handed out there, and a byte behind its link
changes, which is not one of the stack cell. -/
theorem push_overwrites_page :
    onePageMachine.memory.byteAt? 0x200b = some 0 ∧ ¬ InCell 0x2010 0x200b ∧
      (pushAll [⟨[], 0x2010, 5⟩]
        ⟨{ layout := { chunkBase := 0x2000 } }, onePageMachine, {}⟩).machine.memory.byteAt? 0x200b =
          some 5 :=
  ⟨rfl, by decide, rfl⟩

end StackMachine

end RoutineEmulator
