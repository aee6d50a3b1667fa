import RoutineEmulator.Simulation.StackMachine
import RoutineEmulator.Proofs.Memory.Words
/-!
The linked list of a stack machine, as a path of links in memory.

`Links m current cells` says that following links from `current` visits exactly `cells` and then
meets a null link. `LeadsBy m links cell last` says that so many links lead from one cell to another,
whatever comes behind it. `Links.linkCount_eq` and `Links.follow_eq` say what the two walks of the
machine find on a path, and `Links.elementAt_eq` combines them: an index counts from the far end.
-/

namespace RoutineEmulator.StackMachine

/-- The cells that the links from `current` lead through before a null link. -/
def Links (m : Memory) : UInt64 → List UInt64 → Prop
  | current, [] => current = 0
  | current, cell :: rest =>
    current = cell ∧ cell ≠ 0 ∧ ∃ next, m.readWord cell 8 = .ok next ∧ Links m next rest

/-- A path only depends on the link words of its cells. -/
theorem Links.frame {m n : Memory} {current : UInt64} {cells : List UInt64}
    (h : Links m current cells)
    (hsame : ∀ cell ∈ cells, ∀ next, m.readWord cell 8 = .ok next → n.readWord cell 8 = .ok next) :
    Links n current cells := by
  induction cells generalizing current with
  | nil => exact h
  | cons cell rest ih =>
      obtain ⟨hcurrent, hcell, next, hread, hrest⟩ := h
      refine ⟨hcurrent, hcell, next, hsame cell List.mem_cons_self next hread, ih hrest ?_⟩
      exact fun c hc => hsame c (List.mem_cons_of_mem _ hc)

/-! ## Walks along links -/

/-- So many links lead from a cell to another one. Each of them is read, and only the last cell may
be null. -/
inductive LeadsBy (m : Memory) : Nat → UInt64 → UInt64 → Prop
  | here (cell : UInt64) : LeadsBy m 0 cell cell
  | link {links : Nat} {cell next last : UInt64} :
      cell ≠ 0 → m.readWord cell 8 = .ok next → LeadsBy m links next last →
      LeadsBy m (links + 1) cell last

namespace LeadsBy

variable {m : Memory} {links more : Nat} {cell joint last last' : UInt64}

theorem trans (h : LeadsBy m links cell joint) (h' : LeadsBy m more joint last) :
    LeadsBy m (links + more) cell last := by
  induction h with
  | here => rwa [Nat.zero_add]
  | link hcell hread _ ih =>
      rw [Nat.add_right_comm]
      exact .link hcell hread (ih h')

theorem split (h : LeadsBy m (links + more) cell last) :
    ∃ joint, LeadsBy m links cell joint ∧ LeadsBy m more joint last := by
  induction links generalizing cell with
  | zero =>
      rw [Nat.zero_add] at h
      exact ⟨cell, .here cell, h⟩
  | succ links ih =>
      rw [Nat.add_right_comm] at h
      cases h with
      | link hcell hread hrest =>
          obtain ⟨joint, hfirst, hlater⟩ := ih hrest
          exact ⟨joint, .link hcell hread hfirst, hlater⟩

theorem unique (h : LeadsBy m links cell last) (h' : LeadsBy m links cell last') :
    last = last' := by
  induction h with
  | here => cases h'; rfl
  | link _ hread _ ih =>
      cases h' with
      | link _ hread' hrest' =>
          obtain rfl := Except.ok.inj (hread.symm.trans hread')
          exact ih hrest'

/-- No link is followed from null. -/
theorem ne_zero (h : LeadsBy m (links + 1) cell last) : cell ≠ 0 := by
  cases h with
  | link hcell => exact hcell

end LeadsBy

/-- What leads to null is a proper list. -/
theorem leadsBy_null_iff {m : Memory} {links : Nat} {cell : UInt64} :
    LeadsBy m links cell 0 ↔ ∃ cells, cells.length = links ∧ Links m cell cells := by
  constructor
  · intro h
    generalize hlast : (0 : UInt64) = last at h
    induction h with
    | here => exact ⟨[], rfl, hlast.symm⟩
    | @link links cell next last hcell hread _ ih =>
        obtain ⟨cells, hlength, hrest⟩ := ih hlast
        exact ⟨cell :: cells, by rw [List.length_cons, hlength], rfl, hcell, next, hread, hrest⟩
  · rintro ⟨cells, rfl, h⟩
    induction cells generalizing cell with
    | nil =>
        obtain rfl : cell = 0 := h
        exact .here 0
    | cons _ cells ih =>
        obtain ⟨rfl, hcell, next, hread, hrest⟩ := h
        exact .link hcell hread (ih hrest)

/-! ## What the two walks find -/

/-- One step of the walk that counts. -/
theorem linkCount_of_read {s : Machine} {current next : UInt64} (start : UInt64) (left len : Nat)
    (hcurrent : current ≠ 0) (hread : s.memory.readWord current 8 = .ok next) :
    linkCount s start (left + 1) current len = linkCount s start left next (len + 1) := by
  have hread : s.read current 8 = .ok next := hread
  rw [linkCount, if_neg hcurrent]
  simp only [hread]

/-- One step of the walk that looks for a cell. -/
theorem follow_of_read {s : Machine} {cell next : UInt64} (hops : Nat)
    (hread : s.memory.readWord cell 8 = .ok next) :
    follow s (hops + 1) cell = follow s hops next := by
  have hread : s.read cell 8 = .ok next := hread
  rw [follow]
  simp only [hread]

/-- The walk that counts ends at a null link. -/
theorem linkCount_null (s : Machine) (start : UInt64) (left len : Nat) :
    linkCount s start left 0 len = .ok len := by
  cases left <;> rw [linkCount, if_pos rfl]

/-- The walk that counts goes on where links lead. -/
theorem LeadsBy.linkCount_eq {s : Machine} {links : Nat} {cell last : UInt64}
    (h : LeadsBy s.memory links cell last) (start : UInt64) (left len : Nat) :
    linkCount s start (links + left) cell len = linkCount s start left last (len + links) := by
  induction h generalizing len with
  | here => rw [Nat.zero_add, Nat.add_zero]
  | link hcell hread _ ih =>
      rw [Nat.add_right_comm, linkCount_of_read start _ len hcell hread, ih, Nat.add_right_comm,
        Nat.add_assoc]

/-- The walk that looks for a cell goes on where links lead. -/
theorem LeadsBy.follow_eq {s : Machine} {links : Nat} {cell last : UInt64}
    (h : LeadsBy s.memory links cell last) (hops : Nat) :
    follow s (links + hops) cell = follow s hops last := by
  induction h with
  | here => rw [Nat.zero_add]
  | link _ hread _ ih => rw [Nat.add_right_comm, follow_of_read _ hread, ih]

/-- The first walk counts the cells of the path. -/
theorem Links.linkCount_eq {s : Machine} {current : UInt64} {cells : List UInt64}
    (h : Links s.memory current cells) (start : UInt64) (left len : Nat)
    (hlen : cells.length ≤ left) :
    linkCount s start left current len = .ok (len + cells.length) := by
  have hwalk := leadsBy_null_iff.mpr ⟨cells, rfl, h⟩
  obtain ⟨left, rfl⟩ := Nat.exists_eq_add_of_le hlen
  rw [hwalk.linkCount_eq, linkCount_null]

/-- The second walk finds a cell of the path by its distance. -/
theorem Links.follow_eq {s : Machine} {current : UInt64} {cells : List UInt64}
    (h : Links s.memory current cells) (hops : Nat) (hhops : hops < cells.length) :
    follow s hops current = .ok cells[hops] := by
  induction cells generalizing current hops with
  | nil => exact absurd hhops (Nat.not_lt_zero hops)
  | cons cell rest ih =>
      obtain ⟨rfl, _, next, hread, hrest⟩ := h
      cases hops with
      | zero => rfl
      | succ hops =>
          rw [follow_of_read hops hread]
          exact ih hrest hops (by simpa using hhops)

/-- An index is found that far from the end of the list, where the distance is a 63-bit number. -/
theorem hopsTo?_eq_some {elements : Nat} {index : Int64} (hhigh : index.toInt ≤ elements)
    (hlow : elements - index.toInt < 0x8000000000000000) :
    hopsTo? (elements + 1) index = some (elements - index.toInt).toNat := by
  have hhops : ((elements + 1 : Nat) : Int) - 1 - index.toInt = elements - index.toInt := by omega
  rw [hopsTo?]
  simp only [hhops]
  rw [if_pos ⟨by omega, hlow⟩]

/-- The element with an index is the chunk at that place of the list, counted from the oldest. -/
theorem Links.elementAt_eq {s : Machine} {cell : UInt64} {chunks : List UInt64}
    (h : Links s.memory cell (cell :: chunks)) (hlen : chunks.length < maxLinks) {index : Int64}
    (hlow : 0 ≤ index.toInt) (hhigh : index.toInt < chunks.length) :
    ∃ hplace : chunks.length - 1 - index.toInt.toNat < chunks.length,
      elementAt s cell index = .ok chunks[chunks.length - 1 - index.toInt.toNat] := by
  refine ⟨by omega, ?_⟩
  have hmax : maxLinks ≤ 0x8000000000000000 := by decide
  have hcount := h.linkCount_eq cell maxLinks 0 (by rw [List.length_cons]; omega)
  have hhops : hopsTo? (chunks.length + 1) index = some (chunks.length - index.toInt).toNat :=
    hopsTo?_eq_some (by omega) (by omega)
  have hfollow := h.follow_eq (chunks.length - index.toInt).toNat
    (by rw [List.length_cons]; omega)
  rw [Nat.zero_add, List.length_cons] at hcount
  simp only [elementAt, hcount, bind, Except.bind, hhops]
  rw [hfollow, List.getElem_cons, dif_neg (by omega)]
  congr 2
  omega

end RoutineEmulator.StackMachine
