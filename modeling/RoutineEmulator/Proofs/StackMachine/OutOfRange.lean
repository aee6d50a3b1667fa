import RoutineEmulator.Proofs.StackMachine.Refinement
/-!
Indices outside of the list.

The handlers count the links of the list, cell included, and walk so many of them back from the
last one as the index says. `Links.elementAt_eq_walk` is that rule for every index. One past the
newest element the walk takes no step and stays at the cell, and below zero it goes on from the null
link, so that these indices are rejected only where there is nothing to be accessed.
-/

namespace RoutineEmulator.StackMachine

/-- The fault of an index that is outside of a list of so many elements. -/
def rangeFault (elements : Nat) (index : Int64) : EmulationError :=
  .unimplementedExpression
    ("stack index " ++ toString index.toInt ++ " out of range (" ++ toString elements
      ++ " elements)")

/-! ## The walk -/

section Walk

variable {s : Machine} {cell : UInt64} {chunks : List UInt64} {index : Int64}

/-- Behind the last cell of a path the walk goes on from the null link. -/
theorem Links.follow_past {current : UInt64} {cells : List UInt64}
    (h : Links s.memory current cells) (hops : Nat) :
    follow s (cells.length + hops) current = follow s hops 0 :=
  (leadsBy_null_iff.mpr ⟨cells, rfl, h⟩).follow_eq hops

/-- An index is too far when the distance from it to the cell is no 63-bit number. -/
theorem hopsTo?_eq_none {elements : Nat}
    (h : elements < index.toInt ∨ 0x8000000000000000 ≤ elements - index.toInt) :
    hopsTo? (elements + 1) index = none := by
  rw [hopsTo?, if_neg (by omega)]

/-- **The rule for every index.** The walk takes as many steps from the cell as the index is below
the number of elements, and an index without such a number is out of range. -/
theorem Links.elementAt_eq_walk (h : Links s.memory cell (cell :: chunks))
    (hlen : chunks.length < maxLinks) (index : Int64) :
    elementAt s cell index =
      match hopsTo? (chunks.length + 1) index with
      | some hops => follow s hops cell
      | none => .error (rangeFault chunks.length index) := by
  have hcount := h.linkCount_eq cell maxLinks 0 (by rw [List.length_cons]; omega)
  rw [Nat.zero_add, List.length_cons] at hcount
  unfold elementAt
  rw [hcount]
  rfl

/-- Past the newest element but one, and where the distance overflows, an index is rejected. -/
theorem Links.elementAt_of_far (h : Links s.memory cell (cell :: chunks))
    (hlen : chunks.length < maxLinks)
    (hfar : chunks.length < index.toInt ∨ 0x8000000000000000 ≤ chunks.length - index.toInt) :
    elementAt s cell index = .error (rangeFault chunks.length index) := by
  rw [h.elementAt_eq_walk hlen, hopsTo?_eq_none hfar]

/-- The index behind the newest element means the stack cell. -/
theorem Links.elementAt_of_end (h : Links s.memory cell (cell :: chunks))
    (hlen : chunks.length < maxLinks) (hend : index.toInt = chunks.length) :
    elementAt s cell index = .ok cell := by
  rw [h.elementAt_eq_walk hlen, hopsTo?_eq_some (by omega) (by omega), hend, Int.sub_self]
  rfl

/-- A negative index means a place behind the null link. -/
theorem Links.elementAt_of_neg (h : Links s.memory cell (cell :: chunks))
    (hlen : chunks.length < maxLinks) (hneg : index.toInt < 0)
    (hnear : chunks.length - index.toInt < 0x8000000000000000) :
    elementAt s cell index = follow s (-1 - index.toInt).toNat 0 := by
  have hhops : (chunks.length - index.toInt).toNat =
      (cell :: chunks).length + (-1 - index.toInt).toNat := by
    rw [List.length_cons]
    omega
  rw [h.elementAt_eq_walk hlen, hopsTo?_eq_some (by omega) hnear]
  dsimp only
  rw [hhops, h.follow_past]

end Walk

/-! ## The handlers -/

/-- A computation that looks for the element with an index first. It fails and changes nothing where
there is none, or where it cannot access the element that it finds. -/
def Accesses (accessible : UInt64 → Prop) (cell : UInt64) (index : Int64)
    (work : Work StackMachine Int64) (bench : Bench StackMachine) : Prop :=
  (∃ e, elementAt bench.machine cell index = .error e ∧ work.runOn bench = (.error e, bench)) ∨
    ∃ element, elementAt bench.machine cell index = .ok element ∧
      ((∃ e, work.runOn bench = (.error e, bench)) ∨
        accessible element ∧ ∃ answer after, work.runOn bench = (.ok answer, after))

section Handlers

variable (own : StackMachine) (s : Machine) (log : OutputLog) (cell index : Int64)

theorem accesses_get :
    Accesses (fun element => ∃ value, s.read (element + valueOffset) 4 = .ok value) cell.toUInt64
      index (get cell index) ⟨own, s, log⟩ := by
  unfold Accesses get
  rw [Work.runOn_ask_bind]
  cases elementAt s cell.toUInt64 index with
  | error e => exact .inl ⟨e, rfl, rfl⟩
  | ok element =>
      refine .inr ⟨element, rfl, ?_⟩
      dsimp only
      rw [Work.runOn_ask_bind]
      cases s.read (element + valueOffset) 4 with
      | error e => exact .inl ⟨e, rfl⟩
      | ok value => exact .inr ⟨⟨value, rfl⟩, _, _, rfl⟩

theorem accesses_set (value : Int64) :
    Accesses (fun element => ∃ s', s.write (element + valueOffset) value.toUInt64 4 = .ok s')
      cell.toUInt64 index (set cell index value) ⟨own, s, log⟩ := by
  unfold Accesses set
  rw [Work.runOn_ask_bind]
  cases elementAt s cell.toUInt64 index with
  | error e => exact .inl ⟨e, rfl, rfl⟩
  | ok element =>
      refine .inr ⟨element, rfl, ?_⟩
      dsimp only
      rw [Work.runOn_change_bind]
      cases s.write (element + valueOffset) value.toUInt64 4 with
      | error e => exact .inl ⟨e, rfl⟩
      | ok s' => exact .inr ⟨⟨s', rfl⟩, _, _, rfl⟩

/-- A pop fails and changes nothing, or it takes the chunk that the cell links to. It does not ask
whether there is one. -/
theorem pop_cases :
    (∃ e, (pop cell).runOn ⟨own, s, log⟩ = (.error e, ⟨own, s, log⟩)) ∨
      ∃ head value next s', s.read cell.toUInt64 8 = .ok head ∧
        s.read (head + valueOffset) 4 = .ok value ∧ s.read head 8 = .ok next ∧
        s.write cell.toUInt64 next 8 = .ok s' ∧
        (pop cell).runOn ⟨own, s, log⟩ = (.ok value.toInt64,
          ⟨{ own with pops := own.pops + 1 }, s',
            log.push ("S: POP (" ++ toString value.toNat ++ ")")⟩) := by
  unfold pop
  rw [Work.runOn_ask_bind]
  cases s.read cell.toUInt64 8 with
  | error e => exact .inl ⟨e, rfl⟩
  | ok head =>
      dsimp only
      rw [Work.runOn_ask_bind]
      cases hvalue : s.read (head + valueOffset) 4 with
      | error e => exact .inl ⟨e, rfl⟩
      | ok value =>
          dsimp only
          rw [Work.runOn_ask_bind]
          cases hnext : s.read head 8 with
          | error e => exact .inl ⟨e, rfl⟩
          | ok next =>
              dsimp only
              rw [Work.runOn_change_bind]
              cases hwrite : s.write cell.toUInt64 next 8 with
              | error e => exact .inl ⟨e, rfl⟩
              | ok s' => exact .inr ⟨head, value, next, s', rfl, hvalue, hnext, hwrite, rfl⟩

end Handlers

/-! ## Rejected indices -/

/-- There is nothing to be accessed where a walk goes too far: no value behind the stack cell, and
neither a link nor a value at the null link. -/
structure Barred (s : Machine) (cell : UInt64) : Prop where
  unreadBehind : ∃ e, s.read (cell + valueOffset) 4 = .error e
  unwrittenBehind : ∀ value, ∃ e, s.write (cell + valueOffset) value 4 = .error e
  noLink : ∃ e, s.read 0 8 = .error e
  unreadNull : ∃ e, s.read valueOffset 4 = .error e
  unwrittenNull : ∀ value, ∃ e, s.write valueOffset value 4 = .error e

theorem not_exists_ok {ε α : Type} {result : Except ε α} (h : ∃ e, result = .error e) :
    ¬ ∃ a, result = .ok a := by
  rintro ⟨a, hok⟩
  obtain ⟨e, herror⟩ := h
  rw [herror] at hok
  cases hok

theorem Barred.not_readable {s : Machine} {cell : UInt64} (h : Barred s cell) {element : UInt64}
    (helement : element = cell ∨ element = 0) :
    ¬ ∃ value, s.read (element + valueOffset) 4 = .ok value := by
  rcases helement with rfl | rfl
  · exact not_exists_ok h.unreadBehind
  · rw [UInt64.zero_add]
    exact not_exists_ok h.unreadNull

theorem Barred.not_writable {s : Machine} {cell : UInt64} (h : Barred s cell) {element : UInt64}
    (helement : element = cell ∨ element = 0) (value : UInt64) :
    ¬ ∃ s', s.write (element + valueOffset) value 4 = .ok s' := by
  rcases helement with rfl | rfl
  · exact not_exists_ok (h.unwrittenBehind value)
  · rw [UInt64.zero_add]
    exact not_exists_ok (h.unwrittenNull value)

/-- An access by an index to a list with these chunks rejects what is outside of the list. -/
structure RejectsOutside (cell : UInt64) (chunks : List UInt64) (index : Int64)
    (work : Work StackMachine Int64) (bench : Bench StackMachine) : Prop where
  /-- An index past the number of elements is rejected, and so is one whose distance overflows. -/
  far : chunks.length < index.toInt ∨ 0x8000000000000000 ≤ chunks.length - index.toInt →
    work.runOn bench = (.error (rangeFault chunks.length index), bench)
  /-- Where nothing is to be accessed outside of the list, every index outside of it fails. -/
  barred : Barred bench.machine cell → ¬ (0 ≤ index.toInt ∧ index.toInt < chunks.length) →
    ∃ e, work.runOn bench = (.error e, bench)
  /-- An access that fails changes nothing. -/
  keeps : ∀ e after, work.runOn bench = (.error e, after) → after = bench

section Rejected

variable {cell : UInt64} {chunks : List UInt64} {index : Int64}

/-- The element that an index outside of the list leads to is the stack cell or the null link, where
there is no link at null to go on with. -/
theorem Links.element_outside {s : Machine} (h : Links s.memory cell (cell :: chunks))
    (hlen : chunks.length < maxLinks) (hnull : ∃ e, s.read 0 8 = .error e)
    (houtside : ¬ (0 ≤ index.toInt ∧ index.toInt < chunks.length)) {element : UInt64}
    (helement : elementAt s cell index = .ok element) : element = cell ∨ element = 0 := by
  by_cases hfar :
      chunks.length < index.toInt ∨ 0x8000000000000000 ≤ chunks.length - index.toInt
  · rw [h.elementAt_of_far hlen hfar] at helement
    cases helement
  · by_cases hneg : index.toInt < 0
    · right
      rw [h.elementAt_of_neg hlen hneg (by omega)] at helement
      cases hhops : (-1 - index.toInt).toNat with
      | zero =>
          rw [hhops] at helement
          exact (Except.ok.inj helement).symm
      | succ hops =>
          -- the next step of the walk reads a link at null
          obtain ⟨e, hnull⟩ := hnull
          rw [hhops, follow, hnull] at helement
          cases helement
    · left
      rw [h.elementAt_of_end hlen (by omega)] at helement
      exact (Except.ok.inj helement).symm

/-- An access that fails changes nothing. -/
theorem Accesses.keeps {work : Work StackMachine Int64} {bench after : Bench StackMachine}
    {accessible : UInt64 → Prop} {e : EmulationError}
    (h : Accesses accessible cell index work bench)
    (hfails : work.runOn bench = (.error e, after)) : after = bench := by
  rcases h with ⟨_, _, hrun⟩ | ⟨_, _, ⟨_, hrun⟩ | ⟨_, _, _, hrun⟩⟩
  · exact (Prod.mk.inj (hrun.symm.trans hfails)).2.symm
  · exact (Prod.mk.inj (hrun.symm.trans hfails)).2.symm
  · rw [hrun] at hfails
    cases hfails

theorem rejectsOutside_of_accesses {work : Work StackMachine Int64} {bench : Bench StackMachine}
    {accessible : UInt64 → Prop} (h : Links bench.machine.memory cell (cell :: chunks))
    (hlen : chunks.length < maxLinks) (hwork : Accesses accessible cell index work bench)
    (hbarred : Barred bench.machine cell → ∀ element, element = cell ∨ element = 0 →
      ¬ accessible element) :
    RejectsOutside cell chunks index work bench := by
  have hkeeps : ∀ e after, work.runOn bench = (.error e, after) → after = bench :=
    fun _ _ => hwork.keeps
  rcases hwork with ⟨e, helement, hrun⟩ | ⟨element, helement, hrun⟩
  · refine ⟨fun hfar => ?_, fun _ _ => ⟨e, hrun⟩, hkeeps⟩
    rw [h.elementAt_of_far hlen hfar] at helement
    rw [hrun, Except.error.inj helement]
  · refine ⟨fun hfar => ?_, fun hbar houtside => ?_, hkeeps⟩
    · rw [h.elementAt_of_far hlen hfar] at helement
      cases helement
    · rcases hrun with hfailed | ⟨haccessible, _⟩
      · exact hfailed
      · exact absurd haccessible
          (hbarred hbar _ (h.element_outside hlen hbar.noLink houtside helement))

end Rejected

section Pop

variable {own : StackMachine} {s : Machine} {log : OutputLog} {cell : Int64}

/-- A pop of an empty list looks for a value at the null link. -/
theorem pop_of_empty (h : Links s.memory cell.toUInt64 [cell.toUInt64])
    (hnull : ¬ ∃ value, s.read (0 + valueOffset) 4 = .ok value) :
    ∃ e, (pop cell).runOn ⟨own, s, log⟩ = (.error e, ⟨own, s, log⟩) := by
  rcases pop_cases own s log cell with hfailed | ⟨head, found, next, s', hhead, hfound, _⟩
  · exact hfailed
  · obtain ⟨_, _, link, hlink, rfl⟩ := h
    obtain rfl : 0 = head := Except.ok.inj (hlink.symm.trans hhead)
    exact absurd ⟨found, hfound⟩ hnull

theorem pop_keeps {e : EmulationError} {after : Bench StackMachine}
    (h : (pop cell).runOn ⟨own, s, log⟩ = (.error e, after)) : after = ⟨own, s, log⟩ := by
  rcases pop_cases own s log cell with ⟨e', hfailed⟩ | ⟨_, _, _, _, _, _, _, _, hdone⟩
  · rw [hfailed] at h
    exact (Prod.mk.inj h).2.symm
  · rw [hdone] at h
    cases h

end Pop

/-- **Accesses outside of the list.** On a list that ends in a null link, a get or a set with an
index past the number of elements is rejected as out of range, and so is one so far below zero that
the distance overflows. An index below the number of elements means a chunk. But the index behind
the newest element means the stack cell itself, and the other negative ones mean a place behind the
null link. Where nothing is to be accessed there, these fail as well, and so does a pop of an empty
list. Whatever fails changes nothing. -/
theorem listAccess_outside (own : StackMachine) {s : Machine} (log : OutputLog) (cell : Int64)
    {chunks : List UInt64} (h : Links s.memory cell.toUInt64 (cell.toUInt64 :: chunks))
    (hlen : chunks.length < maxLinks) (index value : Int64) :
    RejectsOutside cell.toUInt64 chunks index (get cell index) ⟨own, s, log⟩ ∧
      RejectsOutside cell.toUInt64 chunks index (set cell index value) ⟨own, s, log⟩ ∧
      (0 ≤ index.toInt → index.toInt < chunks.length →
        ∃ hplace : chunks.length - 1 - index.toInt.toNat < chunks.length,
          elementAt s cell.toUInt64 index = .ok chunks[chunks.length - 1 - index.toInt.toNat]) ∧
      (index.toInt = chunks.length → elementAt s cell.toUInt64 index = .ok cell.toUInt64) ∧
      (index.toInt < 0 → chunks.length - index.toInt < 0x8000000000000000 →
        elementAt s cell.toUInt64 index = follow s (-1 - index.toInt).toNat 0) ∧
      (Barred s cell.toUInt64 → chunks = [] →
        ∃ e, (pop cell).runOn ⟨own, s, log⟩ = (.error e, ⟨own, s, log⟩)) ∧
      ∀ e after, (pop cell).runOn ⟨own, s, log⟩ = (.error e, after) → after = ⟨own, s, log⟩ := by
  refine ⟨?_, ?_, h.elementAt_eq hlen, h.elementAt_of_end hlen, h.elementAt_of_neg hlen, ?_, ?_⟩
  · exact rejectsOutside_of_accesses h hlen (accesses_get own s log cell index)
      fun hbar _ helement => hbar.not_readable helement
  · exact rejectsOutside_of_accesses h hlen (accesses_set own s log cell index value)
      fun hbar _ helement => hbar.not_writable helement _
  · rintro hbar rfl
    exact pop_of_empty h (hbar.not_readable (.inr rfl))
  · exact fun _ _ => pop_keeps

/-- Every word of the page is null. -/
theorem readWord_onePageMachine {address : UInt64} (hle : 0x2000 ≤ address.toNat)
    (hlt : address.toNat + 8 ≤ 0x3000) : onePageMachine.memory.readWord address 8 = .ok 0 := by
  have hcovers : onePageMachine.memory.Covers (·.read) address 8 := by
    have hmax : onePageMachine.memory.maxAddress = 0xffffffff := rfl
    refine .inr ⟨by omega, by omega, fun x hfirst hlast => ⟨.readWrite, ?_, rfl⟩⟩
    rw [accessAt?_onePageMachine, if_pos (by unfold pageSize; omega)]
  have hbytes : onePageMachine.memory.bytesFrom address.toNat 8 = List.replicate 8 0 := by
    refine List.eq_replicate_iff.mpr ⟨Memory.length_bytesFrom .., fun byte hbyte => ?_⟩
    obtain ⟨x, _, rfl⟩ := List.mem_map.mp hbyte
    show ((((Memory.new .big 32).mapPages .readWrite [2]).byteAt? x).getD 0) = 0
    rw [Memory.byteAt?_eq, Memory.getElem?_pages_mapPages]
    split
    · exact Vector.getElem_replicate (pageOffset x).isLt
    · rfl
  rw [Memory.readWord_of_covers isWordWidth_eight hcovers, Memory.wordAt, hbytes]
  rfl

/-- The cell of this list is the last one of its page. There are no elements, and all indices
fail. -/
theorem listAccess_outside_onePage :
    Links onePageMachine.memory 0x2ff8 [0x2ff8] ∧ Barred onePageMachine 0x2ff8 ∧
      (get 0x2ff8 1).runOn ⟨{}, onePageMachine, {}⟩ =
        (.error (rangeFault 0 1), ⟨{}, onePageMachine, {}⟩) ∧
      (∃ e, (get 0x2ff8 0).runOn ⟨{}, onePageMachine, {}⟩ =
        (.error e, ⟨{}, onePageMachine, {}⟩)) ∧
      (∃ e, (set 0x2ff8 (-1) 7).runOn ⟨{}, onePageMachine, {}⟩ =
        (.error e, ⟨{}, onePageMachine, {}⟩)) ∧
      ∃ e, (pop 0x2ff8).runOn ⟨{}, onePageMachine, {}⟩ = (.error e, ⟨{}, onePageMachine, {}⟩) := by
  have hlinks : Links onePageMachine.memory 0x2ff8 [0x2ff8] :=
    ⟨rfl, by decide, 0, readWord_onePageMachine (by decide) (by decide), rfl⟩
  have hbarred : Barred onePageMachine 0x2ff8 :=
    ⟨⟨.memoryAccessFault 0x3000 4, rfl⟩, fun _ => ⟨.memoryAccessFault 0x3000 4, rfl⟩,
      ⟨.memoryAccessFault 0 8, rfl⟩, ⟨.memoryAccessFault 8 4, rfl⟩,
      fun _ => ⟨.memoryAccessFault 8 4, rfl⟩⟩
  have haccess := fun index value =>
    listAccess_outside {} {} 0x2ff8 hlinks (by decide) index value
  obtain ⟨hone, _⟩ := haccess 1 0
  obtain ⟨hzero, _, _, _, _, hpop, _⟩ := haccess 0 0
  obtain ⟨_, hnegative, _⟩ := haccess (-1) 7
  exact ⟨hlinks, hbarred, hone.far (.inl (by decide)), hzero.barred hbarred (by decide),
    hnegative.barred hbarred (by decide), hpop hbarred rfl⟩

/-- With memory behind the cell of the empty list, the index 0 is accepted: the answer is the word
behind the cell. -/
theorem get_of_emptyList :
    Links onePageMachine.memory 0x2000 [0x2000] ∧
      (get 0x2000 0).runOn ⟨{}, onePageMachine, {}⟩ =
        (.ok 0, ⟨{}, onePageMachine, { lines := #["S: GET index:0"] }⟩) :=
  ⟨⟨rfl, by decide, 0, rfl, rfl⟩, rfl⟩

end RoutineEmulator.StackMachine
