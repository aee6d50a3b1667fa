import Mathlib.Data.Fintype.Pigeonhole
import RoutineEmulator.Proofs.StackMachine.FailedCalls
import RoutineEmulator.Proofs.StackMachine.HandlerNames
/-!
Lists that do not end as a list should.

Links lead from cell to cell through whatever the memory holds, so that a list may run into a circle
or into memory that cannot be read. An access by an index counts the links of its list before it
takes one step towards an element, and the count is bounded. `WalkEnds` lists the ways in which it
ends on any memory, and `linkCount_eq_iff` says that there are no others. What runs into a circle
meets the bound, and what breaks off has the fault of the link that cannot be read.
-/

namespace RoutineEmulator.StackMachine

open Memory

/-! ## Lists without an end -/

/-- Links can be followed forever: however many are followed, each of them is read, and none is
null. -/
def Endless (m : Memory) (cell : UInt64) : Prop :=
  ∀ links, ∃ last, last ≠ 0 ∧ LeadsBy m links cell last

/-- Links lead into a circle: after a tail, which may be empty, some of them lead back to where they
start. -/
def Circular (m : Memory) (cell : UInt64) : Prop :=
  ∃ tail round joint, 0 < round ∧ LeadsBy m tail cell joint ∧ LeadsBy m round joint joint

/-- A circle can be gone round any number of times. -/
theorem LeadsBy.rounds {m : Memory} {round : Nat} {joint : UInt64} (h : LeadsBy m round joint joint)
    (times : Nat) : LeadsBy m (times * round) joint joint := by
  induction times with
  | zero =>
      rw [Nat.zero_mul]
      exact .here joint
  | succ times ih =>
      rw [Nat.succ_mul]
      exact ih.trans h

theorem Circular.endless {m : Memory} {cell : UInt64} (h : Circular m cell) : Endless m cell := by
  obtain ⟨tail, round, joint, hround, htail, hcircle⟩ := h
  intro links
  -- with one round for each link, at least one link is left behind them
  have hlong : links + 1 ≤ (links + 1) * round := Nat.le_mul_of_pos_right _ hround
  obtain ⟨left, hleft⟩ : ∃ left, tail + (links + 1) * round = links + (left + 1) :=
    ⟨tail + (links + 1) * round - (links + 1), by omega⟩
  have hwalk := htail.trans (hcircle.rounds (links + 1))
  rw [hleft] at hwalk
  obtain ⟨last, hfirst, hlater⟩ := hwalk.split
  exact ⟨last, hlater.ne_zero, hfirst⟩

/-- There are only so many cells, so that one of them comes again. -/
theorem Endless.circular {m : Memory} {cell : UInt64} (h : Endless m cell) : Circular m cell := by
  choose cells _ hcells using h
  have hfinite : Finite UInt64 := .of_injective UInt64.toFin fun _ _ => UInt64.toFin_inj.mp
  obtain ⟨i, j, hne, hsame⟩ := Finite.exists_ne_map_eq_of_infinite cells
  have hback {i j : Nat} (hlt : i < j) (hsame : cells i = cells j) : Circular m cell := by
    obtain ⟨round, rfl⟩ := Nat.exists_eq_add_of_lt hlt
    have hwalk := hcells (i + round + 1)
    rw [← hsame, Nat.add_assoc] at hwalk
    obtain ⟨joint, hfirst, hcircle⟩ := hwalk.split
    obtain rfl := hfirst.unique (hcells i)
    exact ⟨i, round + 1, _, Nat.succ_pos round, hfirst, hcircle⟩
  rcases Nat.lt_or_gt_of_ne hne with hlt | hgt
  · exact hback hlt hsame
  · exact hback hgt hsame.symm

theorem endless_iff_circular {m : Memory} {cell : UInt64} : Endless m cell ↔ Circular m cell :=
  ⟨Endless.circular, Circular.endless⟩

/-! ## How the count of links ends -/

/-- How a count of at most so many links ends. -/
inductive WalkEnds (m : Memory) (cell : UInt64) (bound : Nat) : Except EmulationError Nat → Prop
  /-- A null link comes within the bound. -/
  | null {links : Nat} : links ≤ bound → LeadsBy m links cell 0 → WalkEnds m cell bound (.ok links)
  /-- A link within the bound cannot be read. -/
  | broken {links : Nat} {last : UInt64} {e : EmulationError} :
      links < bound → last ≠ 0 → LeadsBy m links cell last → m.readWord last 8 = .error e →
      WalkEnds m cell bound (.error e)
  /-- Nothing of that comes within the bound. -/
  | long {last : UInt64} : last ≠ 0 → LeadsBy m bound cell last →
      WalkEnds m cell bound (.error (.memoryAccessFault cell 8))

/-- There are no other ways. -/
theorem exists_walkEnds (m : Memory) (cell : UInt64) (bound : Nat) :
    ∃ result, WalkEnds m cell bound result := by
  induction bound with
  | zero =>
      by_cases hcell : cell = 0
      · subst hcell
        exact ⟨_, .null (Nat.le_refl 0) (.here 0)⟩
      · exact ⟨_, .long hcell (.here cell)⟩
  | succ bound ih =>
      obtain ⟨result, hends⟩ := ih
      cases hends with
      | null hlinks hwalk => exact ⟨_, .null (Nat.le_succ_of_le hlinks) hwalk⟩
      | broken hlinks hlast hwalk hread =>
          exact ⟨_, .broken (Nat.lt_succ_of_lt hlinks) hlast hwalk hread⟩
      | @long last hlast hwalk =>
          cases hread : m.readWord last 8 with
          | error e => exact ⟨_, .broken (Nat.lt_succ_self bound) hlast hwalk hread⟩
          | ok next =>
              have hnext := hwalk.trans (.link hlast hread (.here next))
              by_cases hnull : next = 0
              · subst hnull
                exact ⟨_, .null (Nat.le_refl _) hnext⟩
              · exact ⟨_, .long hnull hnext⟩

section Count

variable {s : Machine} {cell : UInt64} {links bound : Nat}

theorem linkCount_of_walkEnds {result : Except EmulationError Nat}
    (h : WalkEnds s.memory cell bound result) : linkCount s cell bound cell 0 = result := by
  cases h with
  | @null links hlinks hwalk =>
      obtain ⟨left, rfl⟩ := Nat.exists_eq_add_of_le hlinks
      rw [hwalk.linkCount_eq, linkCount_null, Nat.zero_add]
  | @broken links last e hlinks hlast hwalk hread =>
      obtain ⟨left, rfl⟩ := Nat.exists_eq_add_of_lt hlinks
      have hread : s.read last 8 = .error e := hread
      rw [Nat.add_assoc, hwalk.linkCount_eq, linkCount, if_neg hlast]
      simp only [hread]
  | long hlast hwalk =>
      rw [← Nat.add_zero bound, hwalk.linkCount_eq, linkCount, if_neg hlast]

/-- **The count of links on any memory.** It ends in one of the three ways, and the first one of
them that comes decides. -/
theorem linkCount_eq_iff {result : Except EmulationError Nat} :
    linkCount s cell bound cell 0 = result ↔ WalkEnds s.memory cell bound result := by
  refine ⟨?_, linkCount_of_walkEnds⟩
  rintro rfl
  obtain ⟨result, hends⟩ := exists_walkEnds s.memory cell bound
  rwa [linkCount_of_walkEnds hends]

/-- Only proper lists within the bound are counted. -/
theorem linkCount_eq_ok_iff :
    linkCount s cell bound cell 0 = .ok links ↔
      links ≤ bound ∧ ∃ cells, cells.length = links ∧ Links s.memory cell cells := by
  rw [linkCount_eq_iff, ← leadsBy_null_iff]
  constructor
  · intro hends
    cases hends with
    | null hlinks hwalk => exact ⟨hlinks, hwalk⟩
  · rintro ⟨hlinks, hwalk⟩
    exact .null hlinks hwalk

end Count

/-! ## Accesses -/

/-- No access by an index to the list of a cell gets anywhere on this machine. Every get and every
set has this fault, whatever the index and the value are, and leaves state, memory and log as they
are. So has every call that goes to one of them, and it leaves what its arguments left when they had
been evaluated. -/
structure Refuses (s : Machine) (cell : Int64) (e : EmulationError) : Prop where
  ofGet : ∀ own log index, (get cell index).runOn ⟨own, s, log⟩ = (.error e, ⟨own, s, log⟩)
  ofSet : ∀ own log index value,
    (set cell index value).runOn ⟨own, s, log⟩ = (.error e, ⟨own, s, log⟩)
  ofCall : ∀ {m : StackMachine} {h : Handler} (r : Draft) {callee : Callee} {args : List Expr}
    {before after : List Simulator} {session left : Session} {operands : List Int64},
    h = .get ∨ h = .set → named? m.layout (normalizeName callee.name) = some h →
    session.own = before ++ .stackMachine m :: after →
    (∀ t ∈ before, normalizeName callee.name ∉ t.names) →
    (Evaluation.evalArgs r callee.name args 0 h.arity).runOn session =
      (.ok (cell :: operands), left) →
    left.machine = s → (Evaluation.simulate r callee args).runOn session = (.error e, left)

section Accesses

variable {s : Machine} {cell : Int64} {e : EmulationError}

/-- Elements are looked for in lists that were counted. -/
theorem elementAt_of_linkCount_eq_error
    (h : linkCount s cell.toUInt64 maxLinks cell.toUInt64 0 = .error e) (index : Int64) :
    elementAt s cell.toUInt64 index = .error e := by
  unfold elementAt
  rw [h]
  rfl

/-- Where no get and no set succeeds, no call that goes to one of them does. -/
theorem refuses_of_handlers
    (hget : ∀ own log index, (get cell index).runOn ⟨own, s, log⟩ = (.error e, ⟨own, s, log⟩))
    (hset : ∀ own log index value,
      (set cell index value).runOn ⟨own, s, log⟩ = (.error e, ⟨own, s, log⟩)) :
    Refuses s cell e := by
  refine ⟨hget, hset, ?_⟩
  intro m h r callee args before after session left operands haccess hnamed hcut hbefore hargs
    hmachine
  subst hmachine
  refine simulate_eq_error_of_run r hnamed hcut hbefore hargs fun own => ?_
  -- the arity tells how many operands there are
  have harity := Evaluation.length_of_evalArgs hargs
  rcases haccess with rfl | rfl
  · obtain ⟨index, rfl⟩ := List.length_eq_one_iff.mp (Nat.succ.inj harity)
    exact hget own left.log index
  · obtain ⟨index, value, rfl⟩ := List.length_eq_two.mp (Nat.succ.inj harity)
    exact hset own left.log index value

/-- Where the links cannot be counted, every access is refused. -/
theorem refuses_of_linkCount_eq_error
    (h : linkCount s cell.toUInt64 maxLinks cell.toUInt64 0 = .error e) : Refuses s cell e := by
  have helement := elementAt_of_linkCount_eq_error h
  apply refuses_of_handlers
  · intro own log index
    unfold get
    rw [Work.runOn_ask_bind, helement]
  · intro own log index value
    unfold set
    rw [Work.runOn_ask_bind, helement]

/-- **Corrupt lists are refused.** A list has no end exactly where it runs into a circle, with or
without a tail in front. Then every access to it fails at its cell. A list that breaks off within
2^20 links refuses every access too, with the fault of the link that cannot be read. What is counted
at all is a proper list, of at most 2^20 cells. -/
theorem accesses_fail_on_corrupt_lists (s : Machine) (cell : Int64) :
    (Endless s.memory cell.toUInt64 ↔ Circular s.memory cell.toUInt64) ∧
    (Endless s.memory cell.toUInt64 → Refuses s cell (.memoryAccessFault cell.toUInt64 8)) ∧
    (∀ links last e, links < 2 ^ 20 → last ≠ 0 → LeadsBy s.memory links cell.toUInt64 last →
      s.read last 8 = .error e → e = .memoryAccessFault last 8 ∧ Refuses s cell e) ∧
    ∀ links, linkCount s cell.toUInt64 maxLinks cell.toUInt64 0 = .ok links ↔
      links ≤ 2 ^ 20 ∧ ∃ cells, cells.length = links ∧ Links s.memory cell.toUInt64 cells := by
  have hbound : maxLinks = 2 ^ 20 := rfl
  refine ⟨endless_iff_circular, ?_, ?_, ?_⟩
  · intro hendless
    obtain ⟨last, hlast, hwalk⟩ := hendless maxLinks
    exact refuses_of_linkCount_eq_error (linkCount_of_walkEnds (.long hlast hwalk))
  · intro links last e hlinks hlast hwalk hread
    have hends : WalkEnds s.memory cell.toUInt64 maxLinks (.error e) :=
      .broken (hbound ▸ hlinks) hlast hwalk hread
    exact ⟨eq_of_readWord_eq_error isWordWidth_eight hread,
      refuses_of_linkCount_eq_error (linkCount_of_walkEnds hends)⟩
  · intro links
    rw [← hbound]
    exact linkCount_eq_ok_iff

end Accesses

/-! ## Corrupt lists on one page -/

/-- The machine with one page, with these links in it. -/
def linkedMachine (links : List (UInt64 × UInt64)) : Machine :=
  onePageMachine.withMemory (links.foldl
    (fun m (cell, next) =>
      m.setBytes cell.toNat (m.byteOrder.arrange (bytesOfNat 8 next.toNat)))
    onePageMachine.memory)

/-- A tail of one cell, and a circle of two behind it. -/
def loopedMachine : Machine :=
  linkedMachine [(0x2000, 0x2010), (0x2010, 0x2020), (0x2020, 0x2010)]

/-- A cell that links to where nothing is mapped. -/
def brokenMachine : Machine :=
  linkedMachine [(0x2000, 0x9000)]

set_option maxRecDepth 1000 in
theorem circular_loopedMachine : Circular loopedMachine.memory 0x2000 := by
  have hfirst : loopedMachine.memory.readWord 0x2000 8 = .ok 0x2010 := by rfl
  have hsecond : loopedMachine.memory.readWord 0x2010 8 = .ok 0x2020 := by rfl
  have hthird : loopedMachine.memory.readWord 0x2020 8 = .ok 0x2010 := by rfl
  exact ⟨1, 2, 0x2010, by decide, .link (by decide) hfirst (.here _),
    .link (by decide) hsecond (.link (by decide) hthird (.here _))⟩

/-- Accesses to the list with a circle, by a handler and by a call, and one to the list that breaks
off. -/
theorem accesses_fail_on_corrupt_lists_onePage :
    Endless loopedMachine.memory 0x2000 ∧
      (get 0x2000 1).runOn ⟨{}, loopedMachine, {}⟩ =
        (.error (.memoryAccessFault 0x2000 8), ⟨{}, loopedMachine, {}⟩) ∧
      (plainCall "sub_400D55" [.ptr 0x2000, .int 0, .int 7]).runOn
          ⟨[.stackMachine {}], loopedMachine, {}⟩ =
        (.error (.memoryAccessFault 0x2000 8), ⟨[.stackMachine {}], loopedMachine, {}⟩) ∧
      LeadsBy brokenMachine.memory 1 0x2000 0x9000 ∧
      (set 0x2000 0 7).runOn ⟨{}, brokenMachine, {}⟩ =
        (.error (.memoryAccessFault 0x9000 8), ⟨{}, brokenMachine, {}⟩) := by
  have hlink : brokenMachine.memory.readWord 0x2000 8 = .ok 0x9000 := by rfl
  have hunmapped : brokenMachine.read 0x9000 8 = .error (.memoryAccessFault 0x9000 8) := by rfl
  have hout : LeadsBy brokenMachine.memory 1 0x2000 0x9000 := .link (by decide) hlink (.here _)
  obtain ⟨hcircular, hrefuses, _⟩ := accesses_fail_on_corrupt_lists loopedMachine 0x2000
  obtain ⟨_, _, hbreaks, _⟩ := accesses_fail_on_corrupt_lists brokenMachine 0x2000
  have hendless := hcircular.mpr circular_loopedMachine
  obtain ⟨_, hbroken⟩ := hbreaks 1 0x9000 _ (by decide) (by decide) hout hunmapped
  have hset : named? {} (normalizeName "sub_400D55") = some .set := by decide
  have hcut : [Simulator.stackMachine {}] = [] ++ .stackMachine {} :: [] := rfl
  refine ⟨hendless, (hrefuses hendless).ofGet {} {} 1, ?_, hout, hbroken.ofSet {} {} 0 7⟩
  exact (hrefuses hendless).ofCall _ (.inr rfl) hset hcut (by simp) rfl rfl

end RoutineEmulator.StackMachine
