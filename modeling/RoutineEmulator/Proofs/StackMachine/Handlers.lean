import RoutineEmulator.Proofs.StackMachine.Heap
/-!
What the handlers of a stack machine do to its list.

`Carries` ties the state of the machine and its memory to a list of chunks with values. Each handler
has one law: it succeeds, answers by the list, and leaves a state that is tied to the next list.
-/

namespace RoutineEmulator.StackMachine

open Memory

/-! ## What a bench carries -/

/-- The machine took `used` chunks of a room for `total`, and its cell links to these chunks with
these values, newest first. -/
structure Carries (layout : StackLayout) (cell : UInt64) (total used : Nat)
    (nodes : List (Nat × UInt32)) (own : StackMachine) (s : Machine) : Prop where
  layout_eq : own.layout = layout
  next_eq : own.nextChunk = chunkAt layout used
  ground : Ground layout cell total used s.memory
  list : ∃ head, s.memory.readWord cell 8 = .ok head ∧ Nodes layout used head nodes s.memory

section Handlers

variable {layout : StackLayout} {cell : Int64} {total used : Nat} {nodes : List (Nat × UInt32)}

/-- Writing the cell links it to another list, where that one is in memory already. -/
theorem relink {s : Machine} {cell head : UInt64} (hground : Ground layout cell total used s.memory)
    (hnodes : Nodes layout used head nodes s.memory) :
    ∃ n, s.write cell head 8 = .ok (s.withMemory n) ∧ Ground layout cell total used n ∧
      n.readWord cell 8 = .ok head ∧ Nodes layout used head nodes n := by
  obtain ⟨n, hwrite, hover⟩ := Machine.exists_write head isWordWidth_eight hground.writable
  have hhead := hover.readWord_of_same isWordWidth_eight hground.readable
  rw [lowBytes_eight] at hhead
  exact ⟨n, hwrite, hground.overwrites hover, hhead,
    hnodes.frame_of_cell hground (by simp) hover⟩

/-- Filling the newest chunk with a value and a link keeps the list and the cell. -/
theorem fillChunk {s : Machine} {cell head : UInt64}
    (hground : Ground layout cell total (used + 1) s.memory)
    (hnodes : Nodes layout used head nodes s.memory)
    (hhead : s.memory.readWord cell 8 = .ok head) (value : UInt64) :
    ∃ m n, s.write (chunkAt layout used + valueOffset) value 4 = .ok (s.withMemory m) ∧
      m.readWord cell 8 = .ok head ∧
      (s.withMemory m).write (chunkAt layout used) head 8 = .ok (s.withMemory n) ∧
      Ground layout cell total (used + 1) n ∧
      Nodes layout (used + 1) (chunkAt layout used) ((used, value.toUInt32) :: nodes) n := by
  have hsize := hground.size_ge
  have hstart := hground.toNat_chunkAt hground.used_le
  have hvalueAt := hground.toNat_valueAt hground.used_le
  have hapart := hground.apart used hground.used_le
  -- the value
  have hcovers : ∀ allowed : Access → Bool, allowed .readWrite = true →
      s.memory.Covers allowed (chunkAt layout used + valueOffset) 4 := fun allowed hallowed =>
    hground.covers_of_taken (Nat.lt_succ_self used) hallowed (by omega) (by omega)
  obtain ⟨m, hwrite, hover⟩ := Machine.exists_write value isWordWidth_four (hcovers _ rfl)
  have hlen : (s.memory.byteOrder.arrange (bytesOfNat 4 value.toNat)).length = 4 := by simp
  have hvalue := hover.readWord_of_same isWordWidth_four (hcovers _ rfl)
  rw [lowBytes_four] at hvalue
  have hground' := hground.overwrites hover
  have hnodes' := hnodes.frame_of_newer hground (Nat.le_succ used) hover (by omega)
  -- the link
  have hcovers' : ∀ allowed : Access → Bool, allowed .readWrite = true →
      m.Covers allowed (chunkAt layout used) 8 := fun allowed hallowed =>
    hground'.covers_of_taken (Nat.lt_succ_self used) hallowed (by omega) (by omega)
  obtain ⟨n, hwrite', hover'⟩ := Machine.exists_write (s := s.withMemory m) head
    isWordWidth_eight (hcovers' _ rfl)
  have hlen' : (m.byteOrder.arrange (bytesOfNat 8 head.toNat)).length = 8 := by simp
  have hlink := hover'.readWord_of_same isWordWidth_eight (hcovers' _ rfl)
  rw [lowBytes_eight] at hlink
  refine ⟨m, n, hwrite, hover.readWord_of_disjoint isWordWidth_eight (by omega) hhead,
    hwrite', hground'.overwrites hover', ?_⟩
  refine Nodes.cons (hground'.overwrites hover')
    (hnodes'.frame_of_newer hground' (Nat.le_succ used) hover' (by omega)) hlink ?_
  rw [Machine.memory_withMemory] at hover'
  exact hover'.readWord_of_disjoint isWordWidth_four (by omega) hvalue

/-- Logging changes nothing but the count of pops. -/
theorem logOperation_runOn (pushed : Option Expr) (own : StackMachine) (s : Machine)
    (log : OutputLog) :
    ∃ pops log', (logOperation pushed).runOn ⟨own, s, log⟩ =
      (.ok (), ⟨{ own with pops }, s, log'⟩) := by
  unfold logOperation
  rw [Work.runOn_bind_of_ok Work.runOn_own]
  by_cases hpops : own.pops = 2
  · rw [if_pos hpops]
    split
    · rw [Work.runOn_bind_of_ok (Work.runOn_say _)]
      exact ⟨0, _, Work.runOn_setOwn _⟩
    · exact ⟨own.pops, log, Work.runOn_pure _ _⟩
  · rw [if_neg hpops]
    exact ⟨own.pops, log, Work.runOn_pure _ _⟩

theorem allocateChunk_runOn {own : StackMachine} {s s' : Machine} {log : OutputLog}
    (h : s.allocate own.nextChunk own.layout.chunkSize.toNat = .ok s') :
    allocateChunk.runOn ⟨own, s, log⟩ =
      (.ok own.nextChunk,
        ⟨{ own with nextChunk := own.nextChunk + own.layout.chunkSize }, s', log⟩) := by
  unfold allocateChunk
  rw [Work.runOn_bind_of_ok Work.runOn_own, Work.runOn_bind_of_ok (Work.runOn_setOwn _),
    Work.runOn_bind_of_ok (Work.runOn_change_of_ok h)]
  rfl

/-- A chunk that cannot be mapped is taken all the same. -/
theorem allocateChunk_runOn_of_error {own : StackMachine} {s : Machine} {log : OutputLog}
    {e : EmulationError} (h : s.allocate own.nextChunk own.layout.chunkSize.toNat = .error e) :
    allocateChunk.runOn ⟨own, s, log⟩ =
      (.error e, ⟨{ own with nextChunk := own.nextChunk + own.layout.chunkSize }, s, log⟩) := by
  unfold allocateChunk
  rw [Work.runOn_bind_of_ok Work.runOn_own, Work.runOn_bind_of_ok (Work.runOn_setOwn _),
    Work.runOn_bind_of_error (Work.runOn_change_of_error h)]

/-- **Push.** The next chunk becomes the newest node. -/
theorem push_runOn {own : StackMachine} {s : Machine} {log : OutputLog}
    (h : Carries layout cell.toUInt64 total used nodes own s) (hused : used < total)
    (value : Int64) (pushed : Option Expr) :
    ∃ own' s' log', (push cell value pushed).runOn ⟨own, s, log⟩ = (.ok 0, ⟨own', s', log'⟩) ∧
      Carries layout cell.toUInt64 total (used + 1)
        ((used, value.toUInt64.toUInt32) :: nodes) own' s' := by
  obtain ⟨hlayout, hnext, hground, head, hhead, hnodes⟩ := h
  subst hlayout
  have hsize := hground.size_ge
  have hstart := hground.toNat_chunkAt hused
  -- mapping the chunk keeps the list, since it only fills gaps
  obtain ⟨m₁, hallocate, hfill⟩ := s.exists_allocate (chunkAt own.layout used)
    own.layout.chunkSize.toNat (by omega) (by rw [hstart]; exact hground.slotStart_le hused)
  rw [hstart] at hfill
  -- value and link go into the chunk, which no node of the list has
  obtain ⟨m₂, m₃, hvalue, hhead₂, hlink, hground₃, hnodes₃⟩ :=
    fillChunk (s := s.withMemory m₁) (hground.fillsGaps hused hfill)
      (hnodes.frame_of_fillsGaps hfill) (hfill.readWord isWordWidth_eight hhead) value.toUInt64
  -- only now the cell leads to the new node
  obtain ⟨m₄, hcell, hground₄, hhead₄, hnodes₄⟩ :=
    relink (s := s.withMemory m₃) hground₃ hnodes₃
  rw [← hnext] at hallocate hvalue hlink hcell
  simp only [Machine.withMemory_withMemory] at hvalue hlink hcell
  obtain ⟨pops, log', hlog⟩ := logOperation_runOn pushed
    { own with nextChunk := own.nextChunk + own.layout.chunkSize } (s.withMemory m₄)
    (log.push ("S: PUSH " ++ toString value.toInt))
  refine ⟨{ own with nextChunk := own.nextChunk + own.layout.chunkSize, pops }, s.withMemory m₄,
    log', ?_, rfl, ?_, hground₄, _, hhead₄, hnodes₄⟩
  · unfold push
    rw [Work.runOn_bind_of_ok (allocateChunk_runOn hallocate),
      Work.runOn_bind_of_ok (Work.runOn_change_of_ok hvalue),
      Work.runOn_bind_of_ok (Work.runOn_ask_of_ok hhead₂),
      Work.runOn_bind_of_ok (Work.runOn_change_of_ok hlink),
      Work.runOn_bind_of_ok (Work.runOn_change_of_ok hcell),
      Work.runOn_bind_of_ok (Work.runOn_say _), Work.runOn_bind_of_ok hlog]
    rfl
  · rw [chunkAt_succ, ← hnext]

/-- **Pop.** The newest node leaves the list, and its value is the answer. -/
theorem pop_runOn {own : StackMachine} {s : Machine} {log : OutputLog} {node : Nat × UInt32}
    (h : Carries layout cell.toUInt64 total used (node :: nodes) own s) :
    ∃ own' s' log', (pop cell).runOn ⟨own, s, log⟩ =
        (.ok node.2.toUInt64.toInt64, ⟨own', s', log'⟩) ∧
      Carries layout cell.toUInt64 total used nodes own' s' := by
  obtain ⟨hlayout, hnext, hground, head, hhead, hnodes⟩ := h
  obtain ⟨rfl, next, hlink, htail⟩ := hnodes.tail
  have hvalue := hnodes.values 0 node rfl
  obtain ⟨m, hcell, hground', hhead', hnodes'⟩ := relink hground htail
  refine ⟨{ own with pops := own.pops + 1 }, s.withMemory m,
    log.push ("S: POP (" ++ toString node.2.toUInt64.toNat ++ ")"), ?_, hlayout, hnext, hground',
    next, hhead', hnodes'⟩
  unfold pop
  rw [Work.runOn_bind_of_ok (Work.runOn_ask_of_ok hhead),
    Work.runOn_bind_of_ok (Work.runOn_ask_of_ok hvalue),
    Work.runOn_bind_of_ok (Work.runOn_ask_of_ok hlink),
    Work.runOn_bind_of_ok (Work.runOn_change_of_ok hcell),
    Work.runOn_bind_of_ok (Work.runOn_say _), Work.runOn_bind_of_ok Work.runOn_own,
    Work.runOn_bind_of_ok (Work.runOn_setOwn _)]
  rfl

/-- The element that an index means is a node, counted from the oldest. -/
theorem elementAt_of_carries {own : StackMachine} {s : Machine}
    (h : Carries layout cell.toUInt64 total used nodes own s) (hlen : nodes.length < maxLinks)
    {index : Int64} (hlow : 0 ≤ index.toInt) (hhigh : index.toInt < nodes.length) :
    ∃ node, nodes[nodes.length - 1 - index.toInt.toNat]? = some node ∧
      elementAt s cell.toUInt64 index = .ok (chunkAt layout node.1) := by
  obtain ⟨_, _, hground, head, hhead, hnodes⟩ := h
  have hlinks : Links s.memory cell.toUInt64
      (cell.toUInt64 :: nodes.map fun node => chunkAt layout node.1) :=
    ⟨rfl, hground.cell_ne, head, hhead, hnodes.links⟩
  obtain ⟨hplace, helement⟩ := hlinks.elementAt_eq (by simpa using hlen) hlow (by simpa using hhigh)
  rw [List.length_map] at hplace
  refine ⟨_, List.getElem?_eq_getElem hplace, ?_⟩
  rw [helement, List.getElem_map]
  simp only [List.length_map]

/-- **Get.** The value of the node with the index is the answer, and nothing changes. -/
theorem get_runOn {own : StackMachine} {s : Machine} {log : OutputLog}
    (h : Carries layout cell.toUInt64 total used nodes own s) (hlen : nodes.length < maxLinks)
    {index : Int64} (hlow : 0 ≤ index.toInt) (hhigh : index.toInt < nodes.length) :
    ∃ node log', nodes[nodes.length - 1 - index.toInt.toNat]? = some node ∧
      (get cell index).runOn ⟨own, s, log⟩ =
        (.ok node.2.toUInt64.toInt64, ⟨own, s, log'⟩) := by
  obtain ⟨node, hnode, helement⟩ := elementAt_of_carries h hlen hlow hhigh
  obtain ⟨_, _, _, head, _, hnodes⟩ := h
  refine ⟨node, log.push ("S: GET index:" ++ toString index.toInt), hnode, ?_⟩
  unfold get
  rw [Work.runOn_bind_of_ok (Work.runOn_ask_of_ok helement),
    Work.runOn_bind_of_ok (Work.runOn_ask_of_ok (hnodes.values _ node hnode)),
    Work.runOn_bind_of_ok (Work.runOn_say _)]
  rfl

/-- **Set.** The value of the node with the index is replaced. -/
theorem set_runOn {own : StackMachine} {s : Machine} {log : OutputLog}
    (h : Carries layout cell.toUInt64 total used nodes own s) (hlen : nodes.length < maxLinks)
    {index : Int64} (hlow : 0 ≤ index.toInt) (hhigh : index.toInt < nodes.length) (value : Int64) :
    ∃ node answer s' log', nodes[nodes.length - 1 - index.toInt.toNat]? = some node ∧
      (set cell index value).runOn ⟨own, s, log⟩ = (.ok answer, ⟨own, s', log'⟩) ∧
      Carries layout cell.toUInt64 total used
        (nodes.set (nodes.length - 1 - index.toInt.toNat)
          (node.1, value.toUInt64.toUInt32)) own s' := by
  obtain ⟨node, hnode, helement⟩ := elementAt_of_carries h hlen hlow hhigh
  obtain ⟨hlayout, hnext, hground, head, hhead, hnodes⟩ := h
  have hsize := hground.size_ge
  have hslot := hnodes.slots node (List.mem_of_getElem? hnode)
  have hroom := Nat.lt_of_lt_of_le hslot hground.used_le
  have hvalueAt := hground.toNat_valueAt hroom
  have hapart := hground.apart node.1 hroom
  have hcovers : s.memory.Covers (·.write) (chunkAt layout node.1 + valueOffset) 4 :=
    hground.covers_of_taken hslot rfl (by omega) (by omega)
  obtain ⟨m, hwrite, hover⟩ := Machine.exists_write value.toUInt64 isWordWidth_four hcovers
  have hlen' : (s.memory.byteOrder.arrange (bytesOfNat 4 value.toUInt64.toNat)).length = 4 := by
    simp
  refine ⟨node, (chunkAt layout node.1).toInt64, s.withMemory m,
    log.push ("S: SET index:" ++ toString index.toInt ++ " value:" ++ toString value.toInt), hnode,
    ?_, hlayout, hnext, hground.overwrites hover, head,
    hover.readWord_of_disjoint isWordWidth_eight (by omega) hhead, hnodes.set hground hnode hover⟩
  unfold set
  rw [Work.runOn_bind_of_ok (Work.runOn_ask_of_ok helement),
    Work.runOn_bind_of_ok (Work.runOn_change_of_ok hwrite),
    Work.runOn_bind_of_ok (Work.runOn_say _)]
  rfl

end Handlers

end RoutineEmulator.StackMachine
