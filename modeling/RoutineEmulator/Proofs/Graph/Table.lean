import RoutineEmulator.Proofs.Graph.Successors
/-!
The table of a graph.

A graph writes the edges of one statement after the other into a table. Edges of the same statement
agree, since a statement has one place only, so their order does not matter.
-/

namespace RoutineEmulator.Graph

/-! ## Writing a table -/

/-- The table once the edges of one statement after the other were written into it. -/
def writeAll (edges : List Edges) (table : Array Successors) : Array Successors :=
  edges.foldl (fun table (id, successors) => table.setIfInBounds id.index successors) table

theorem writeAll_cons (e : Edges) (rest : List Edges) (table : Array Successors) :
    writeAll (e :: rest) table = writeAll rest (table.setIfInBounds e.1.index e.2) := rfl

theorem size_writeAll (edges : List Edges) (table : Array Successors) :
    (writeAll edges table).size = table.size := by
  induction edges generalizing table with
  | nil => rfl
  | cons e rest ih =>
      rw [writeAll_cons, ih, Array.size_setIfInBounds]

/-- A slot that no edges go to is kept. -/
theorem getElem?_writeAll_of_forall_ne {edges : List Edges} {n : Nat}
    (h : ∀ e ∈ edges, e.1.index ≠ n) (table : Array Successors) :
    (writeAll edges table)[n]? = table[n]? := by
  induction edges generalizing table with
  | nil => rfl
  | cons e rest ih =>
      obtain ⟨hfirst, hrest⟩ := List.forall_mem_cons.mp h
      rw [writeAll_cons, ih hrest, Array.getElem?_setIfInBounds_ne hfirst]

/-- A slot that edges go to holds them, where all of these agree. -/
theorem getElem?_writeAll_of_agree {edges : List Edges} {n : Nat} {successors : Successors}
    (hagree : ∀ e ∈ edges, e.1.index = n → e.2 = successors) (hsome : ∃ e ∈ edges, e.1.index = n)
    {table : Array Successors} (hn : n < table.size) :
    (writeAll edges table)[n]? = some successors := by
  induction edges generalizing table with
  | nil =>
      obtain ⟨e, he, _⟩ := hsome
      cases he
  | cons e rest ih =>
      obtain ⟨hfirst, hrest⟩ := List.forall_mem_cons.mp hagree
      rw [writeAll_cons]
      -- a later write to the slot decides, and without one this write stays
      by_cases hlater : ∃ e' ∈ rest, e'.1.index = n
      · exact ih hrest hlater (by rw [Array.size_setIfInBounds]; exact hn)
      · have hne : ∀ e' ∈ rest, e'.1.index ≠ n := fun e' he' heq => hlater ⟨e', he', heq⟩
        obtain ⟨e', he', hindex⟩ := hsome
        rcases List.mem_cons.mp he' with rfl | he'
        · rw [getElem?_writeAll_of_forall_ne hne, hindex,
            Array.getElem?_setIfInBounds_self_of_lt hn, hfirst hindex]
        · exact absurd hindex (hne e' he')

/-! ## Built graphs -/

section Build

variable {r : Draft} {g : Graph}

theorem build_eq_ok (h : build r = .ok g) :
    ∃ edges, wiring r = .ok edges ∧ g.entry = r.entry? ∧
      g.edges = writeAll edges (Array.replicate r.size {}) := by
  obtain ⟨edges, hedges, h⟩ := bind_eq_ok_iff.mp h
  obtain rfl := Except.ok.inj h
  exact ⟨edges, hedges, rfl, rfl⟩

theorem contains_child {id parent child : StmtId} {s : Stmt} (h : Contains r id parent)
    (hs : r.stmt? parent = some s) (hchild : child ∈ s.children) : Contains r id child := by
  induction h with
  | self => exact .child hs hchild (.self _)
  | child hs' hmem _ ih => exact .child hs' hmem (ih hs)

theorem contains_of_ancestors {id : StmtId} {path : List StmtId} (h : r.Ancestors id path) :
    Contains r r.body id := by
  induction h with
  | body => exact .self _
  | child _ hs hchild ih => exact contains_child ih hs hchild

theorem size_eq_of_build (h : build r = .ok g) : g.size = r.size := by
  obtain ⟨edges, _, _, hedges⟩ := build_eq_ok h
  rw [size, hedges, size_writeAll, Array.size_replicate]

/-- A statement that the body contains has the edges that its parents give it. -/
theorem successors?_of_ancestors (hr : r.WellFormed) (h : build r = .ok g) {id : StmtId}
    {path : List StmtId} (hpath : r.Ancestors id path) :
    g.successors? id = some (successorsAt r id path) := by
  obtain ⟨edges, hwiring, _, hedges⟩ := build_eq_ok h
  have hwires := wires_of_wiring hr hwiring
  rw [successors?, hedges]
  refine getElem?_writeAll_of_agree ?_ ?_ (by rw [Array.size_replicate]; exact hpath.index_lt hr)
  · rintro ⟨id', successors⟩ he hindex
    obtain rfl := StmtId.eq_of_index hindex
    obtain ⟨path', hpath', hsuccessors⟩ := hwires.right _ he
    obtain rfl := hpath.unique hr hpath'
    exact hsuccessors
  · obtain ⟨e, he, rfl⟩ := hwires.covers _ List.mem_cons_self _ (contains_of_ancestors hpath)
    exact ⟨e, he, rfl⟩

theorem next_of_ancestors (hr : r.WellFormed) (h : build r = .ok g) {id : StmtId}
    {path : List StmtId} (hpath : r.Ancestors id path) : g.next id = fallthroughAt r id path := by
  rw [next, successors?_of_ancestors hr h hpath]
  rfl

theorem nthNext_of_ancestors (hr : r.WellFormed) (h : build r = .ok g) {id : StmtId}
    {path : List StmtId} {s : Stmt} (hpath : r.Ancestors id path) (hs : r.stmt? id = some s)
    (n : Nat) : g.nthNext id n = (targetsOf s)[n]? := by
  rw [nthNext, successors?_of_ancestors hr h hpath, successorsAt, hs]
  rfl

/-- A statement that the body does not contain has no edges. -/
theorem successors?_of_detached (hr : r.WellFormed) (h : build r = .ok g) {id : StmtId}
    (hcontains : r.contains id = true) (hdetached : ∀ path, ¬ r.Ancestors id path) :
    g.successors? id = some {} := by
  obtain ⟨edges, hwiring, _, hedges⟩ := build_eq_ok h
  have hwires := wires_of_wiring hr hwiring
  have hne : ∀ e ∈ edges, e.1.index ≠ id.index := by
    intro e he hindex
    obtain ⟨path, hpath, _⟩ := hwires.right e he
    exact hdetached path (StmtId.eq_of_index hindex ▸ hpath)
  have hlt : id.index < r.size := of_decide_eq_true hcontains
  rw [successors?, hedges, getElem?_writeAll_of_forall_ne hne, Array.getElem?_replicate, if_pos hlt]

end Build

/-- **The graph has the edges that parents tell.** The graph of a routine starts at the first
statement of the body and has a slot for every statement. A statement that the body contains has the
successors that its parents give it, and one that is detached from the body has none. -/
theorem build_follows_parents (r : Routine) {g : Graph} (h : build r.toDraft = .ok g) :
    g.entry = r.entry? ∧ g.size = r.size ∧
      (∀ id path, r.Ancestors id path → g.successors? id = some (successorsAt r.toDraft id path)) ∧
      ∀ id, r.contains id = true → (∀ path, ¬ r.Ancestors id path) →
        g.successors? id = some {} := by
  obtain ⟨_, _, hentry, _⟩ := build_eq_ok h
  exact ⟨hentry, size_eq_of_build h,
    fun _ _ hpath => successors?_of_ancestors r.wellFormed h hpath,
    fun _ hcontains hdetached => successors?_of_detached r.wellFormed h hcontains hdetached⟩

/-! ## A loop that is left from inside an `if` -/

/-- An endless loop around an `if` with two arms and a default; the second arm breaks. Behind the
loop stand an empty block and a `return`, and a label stands nowhere. -/
def nestedDraft : Draft where
  name := "nested"
  address := 0x1000
  body := ⟨0⟩
  stmts := #[.block [⟨1⟩, ⟨9⟩, ⟨10⟩], .loop .while (.int 1) ⟨2⟩, .block [⟨3⟩, ⟨8⟩],
    .ifElse [⟨.int 0, ⟨4⟩⟩, ⟨.int 1, ⟨5⟩⟩] (some ⟨6⟩), .block [], .block [⟨7⟩], .block [],
    .breakLoop none, .continueLoop none, .block [], .ret (some (.int 7)), .label "detached"]

theorem nestedDraft_wellFormed : nestedDraft.WellFormed :=
  ⟨by decide, by decide, by decide, by decide⟩

def nestedRoutine : Routine where
  toDraft := nestedDraft
  valid := Draft.check_eq_ok_iff.mpr nestedDraft_wellFormed

theorem nestedDraft_detached (path : List StmtId) : ¬ nestedDraft.Ancestors ⟨11⟩ path := by
  have hchildren : ∀ s ∈ nestedDraft.stmts.toList, ⟨11⟩ ∉ s.children := by decide
  intro hpath
  cases hpath with
  | child _ hs hmem => exact hchildren _ (Draft.mem_of_stmt? hs) hmem

/-- The empty arm leads to the `continue` behind the `if`, and the `break` to the empty block behind
the loop. -/
theorem build_follows_parents_nested :
    ∃ g, build nestedRoutine.toDraft = .ok g ∧
      g.successors? ⟨4⟩ = some { fallthrough := some ⟨8⟩ } ∧
      g.successors? ⟨7⟩ = some { fallthrough := some ⟨9⟩ } ∧ g.successors? ⟨11⟩ = some {} := by
  have hbody : nestedDraft.Ancestors ⟨2⟩ [⟨1⟩, ⟨0⟩] :=
    .child (.child .body rfl (by decide)) rfl (by decide)
  have hbranch : nestedDraft.Ancestors ⟨3⟩ [⟨2⟩, ⟨1⟩, ⟨0⟩] := .child hbody rfl (by decide)
  have harm : nestedDraft.Ancestors ⟨5⟩ [⟨3⟩, ⟨2⟩, ⟨1⟩, ⟨0⟩] := .child hbranch rfl (by decide)
  obtain ⟨_, _, hplaced, hdetached⟩ := build_follows_parents nestedRoutine rfl
  exact ⟨_, rfl, hplaced ⟨4⟩ _ (.child hbranch rfl (by decide)),
    hplaced ⟨7⟩ _ (.child harm rfl (by decide)),
    hdetached ⟨11⟩ (by decide) nestedDraft_detached⟩

end RoutineEmulator.Graph
