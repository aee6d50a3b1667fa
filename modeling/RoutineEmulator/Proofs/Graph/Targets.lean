import Mathlib.Data.Option.Basic
import RoutineEmulator.Proofs.Graph.Building
import RoutineEmulator.Proofs.Routine.Faults
/-!
Where the edges of a graph lead.

An edge leads to a statement that the body contains, or it is the edge of a jump and leads to a
label. Statements that are detached from the body have no edges, so control does not go on behind a
detached label. The conditional edges of loops and branches lead to blocks.

`Wanders` follows edges from a statement on, any number of them and without asking which of them
control takes. It comes wherever an emulation can come, under whatever simulators.
-/

namespace RoutineEmulator.Graph

/-- Control may come to a statement: the body contains it, or it is a label. -/
def CanArrive (r : Draft) (id : StmtId) : Prop :=
  r.Placed id ∨ ∃ name, r.stmt? id = some (.label name)

/-- A label that the body does not contain. -/
def DetachedLabel (r : Draft) (id : StmtId) : Prop :=
  (∃ name, r.stmt? id = some (.label name)) ∧ ¬ r.Placed id

section Targets

variable {r : Draft} {g : Graph} {id target : StmtId} {path : List StmtId}

theorem CanArrive.exists_stmt (hr : r.WellFormed) (h : CanArrive r id) :
    ∃ s, r.stmt? id = some s := by
  rcases h with ⟨path, hpath⟩ | ⟨name, hlabel⟩
  · exact hpath.exists_stmt hr
  · exact ⟨_, hlabel⟩

theorem CanArrive.contains (hr : r.WellFormed) (h : CanArrive r id) : r.contains id = true :=
  Draft.contains_iff.mpr (h.exists_stmt hr)

/-! ## Fallthrough successors -/

theorem mem_of_nextSibling? {stmts : List StmtId} (h : nextSibling? stmts id = some target) :
    target ∈ stmts := by
  induction stmts with
  | nil => cases h
  | cons first rest ih =>
      rw [nextSibling?] at h
      split at h
      · exact List.mem_cons_of_mem _ (List.mem_of_head? h)
      · exact List.mem_cons_of_mem _ (ih h)

/-- Behind a statement of the body comes a statement of a block, or a loop. -/
theorem exists_of_follow (hpath : r.Ancestors id path) (h : follow r id path = some target) :
    (∃ parent above stmts, r.Ancestors parent above ∧ r.stmt? parent = some (.block stmts) ∧
        target ∈ stmts) ∨
      ∃ above kind predicate body, r.Ancestors target above ∧
        r.stmt? target = some (.loop kind predicate body) := by
  induction hpath with
  | body => cases h
  | @child parent id path s hparent hs _ ih =>
      rw [follow, followIn, hs] at h
      cases s with
      | block stmts =>
          rcases (Option.orElse_eq_some _ _ _).mp h with hsibling | ⟨_, hnext⟩
          · exact .inl ⟨parent, path, stmts, hparent, hs, mem_of_nextSibling? hsibling⟩
          · exact ih hnext
      | loop =>
          obtain rfl := Option.some.inj h
          exact .inr ⟨_, _, _, _, hparent, hs⟩
      | _ => exact ih h

theorem placed_of_follow (hpath : r.Ancestors id path) (h : follow r id path = some target) :
    r.Placed target := by
  rcases exists_of_follow hpath h with ⟨_, _, _, hparent, hs, hmem⟩ | ⟨_, _, _, _, hloop, _⟩
  · exact ⟨_, .child hparent hs hmem⟩
  · exact ⟨_, hloop⟩

/-- Behind a branch none of its own blocks comes. -/
theorem follow_ne_of_mem_bodies (hr : r.WellFormed) {block : StmtId} {branches : List Branch}
    {default : Option StmtId} (hpath : r.Ancestors id path)
    (hs : r.stmt? id = some (.ifElse branches default))
    (hblock : block ∈ (Stmt.ifElse branches default).bodies) : follow r id path ≠ some block := by
  intro hfollow
  rcases exists_of_follow hpath hfollow with
    ⟨_, _, _, _, hparent, hmem⟩ | ⟨_, _, _, _, _, hloop⟩
  · obtain rfl := hr.parent_unique hs hblock hparent hmem
    cases hs.symm.trans hparent
  · obtain ⟨stmts, hstmts⟩ := hr.exists_block hs hblock
    cases hstmts.symm.trans hloop

theorem ancestors_of_innermostLoop? {loop : StmtId} {above : List StmtId}
    (hpath : r.Ancestors id path) (h : innermostLoop? r path = some (loop, above)) :
    r.Ancestors loop above := by
  induction hpath with
  | body => cases h
  | @child parent id path s hparent hs hchild ih =>
      rw [innermostLoop?] at h
      split at h
      · obtain ⟨rfl, rfl⟩ := Prod.mk.inj (Option.some.inj h)
        exact hparent
      · exact ih h

theorem exists_label_of_mem_jumpTargets (hr : r.WellFormed) {s : Stmt} (hs : r.stmt? id = some s)
    (htarget : target ∈ s.jumpTargets) : ∃ name, r.stmt? target = some (.label name) := by
  have hlabel := (hr.references s (Draft.mem_of_stmt? hs)).targets target htarget
  obtain ⟨t, ht, hlabel⟩ := (Option.any_eq_true _ _).mp hlabel
  cases t with
  | label name => exact ⟨name, ht⟩
  | _ => cases hlabel

theorem canArrive_of_fallthroughAt (hr : r.WellFormed) (hpath : r.Ancestors id path)
    (h : fallthroughAt r id path = some target) : CanArrive r target := by
  obtain ⟨s, hs⟩ := hpath.exists_stmt hr
  unfold fallthroughAt at h
  rw [hs] at h
  cases s with
  | goto label =>
      obtain rfl := Option.some.inj h
      exact .inr (exists_label_of_mem_jumpTargets hr hs List.mem_cons_self)
  | breakLoop label =>
      cases label with
      | some label =>
          obtain rfl := Option.some.inj h
          exact .inr (exists_label_of_mem_jumpTargets hr hs List.mem_cons_self)
      | none =>
          obtain ⟨⟨loop, above⟩, hloop, hexit⟩ := Option.bind_eq_some_iff.mp h
          exact .inl (placed_of_follow (ancestors_of_innermostLoop? hpath hloop) hexit)
  | continueLoop label =>
      cases label with
      | some label =>
          obtain rfl := Option.some.inj h
          exact .inr (exists_label_of_mem_jumpTargets hr hs List.mem_cons_self)
      | none =>
          obtain ⟨⟨loop, above⟩, hloop, rfl⟩ := Option.map_eq_some_iff.mp h
          exact .inl ⟨above, ancestors_of_innermostLoop? hpath hloop⟩
  | ret | jumpFar => cases h
  | block stmts =>
      rcases (Option.orElse_eq_some _ _ _).mp h with hhead | ⟨_, hnext⟩
      · exact .inl ⟨_, .child hpath hs (List.mem_of_head? hhead)⟩
      · exact .inl (placed_of_follow hpath hnext)
  | _ => exact .inl (placed_of_follow hpath h)

/-! ## Edges -/

theorem mem_bodies_of_mem_targetsOf {s : Stmt} (h : target ∈ targetsOf s) :
    target ∈ s.bodies := by
  cases s with
  | loop | ifElse => exact h
  | _ => cases h

/-- Control may go here after a statement: along one of its edges, or out of the routine where that
edge is missing. -/
inductive Leads (g : Graph) (id : StmtId) : Option StmtId → Prop
  | fallthrough : Leads g id (g.next id)
  | conditional (n : Nat) : Leads g id (g.nthNext id n)

/-- Control may come here from a statement, going along edges. -/
inductive Wanders (g : Graph) (start : Option StmtId) : Option StmtId → Prop
  | start : Wanders g start start
  | step {id : StmtId} {next : Option StmtId} :
      Wanders g start (some id) → Leads g id next → Wanders g start next

/-- Behind a detached statement control leaves the routine. -/
theorem eq_none_of_leads_of_detached (hr : r.WellFormed) (h : build r = .ok g)
    (hcontains : r.contains id = true) (hdetached : ¬ r.Placed id) {next : Option StmtId}
    (hleads : Leads g id next) : next = none := by
  have hnone := successors?_of_detached hr h hcontains fun path hpath => hdetached ⟨path, hpath⟩
  cases hleads with
  | fallthrough =>
      rw [Graph.next, hnone]
      rfl
  | conditional n =>
      rw [nthNext, hnone]
      rfl

/-- An edge leads to a statement of the body or to a label. -/
theorem canArrive_of_leads (hr : r.WellFormed) (h : build r = .ok g)
    (hcontains : r.contains id = true) (hleads : Leads g id (some target)) :
    CanArrive r target := by
  by_cases hplaced : r.Placed id
  · obtain ⟨path, hpath⟩ := hplaced
    obtain ⟨s, hs⟩ := hpath.exists_stmt hr
    generalize hnext : some target = next at hleads
    cases hleads with
    | fallthrough =>
        rw [next_of_ancestors hr h hpath] at hnext
        exact canArrive_of_fallthroughAt hr hpath hnext.symm
    | conditional n =>
        rw [nthNext_of_ancestors hr h hpath hs] at hnext
        have hbody := mem_bodies_of_mem_targetsOf (List.mem_of_getElem? hnext.symm)
        exact .inl ⟨_, .child hpath hs (Draft.mem_children_of_mem_bodies hbody)⟩
  · cases eq_none_of_leads_of_detached hr h hcontains hplaced hleads

/-- Control that starts in a set of statements stays in it, where no edge leads out of the set. -/
theorem Wanders.closed {S : StmtId → Prop} {start : Option StmtId}
    (hclosed : ∀ id target, S id → Leads g id (some target) → S target)
    (hstart : ∀ id, start = some id → S id) (hwanders : Wanders g start (some id)) : S id := by
  generalize hcurrent : some id = current at hwanders
  induction hwanders generalizing id with
  | start => exact hstart id hcurrent.symm
  | @step before next _ hleads ih =>
      subst hcurrent
      exact hclosed before id (ih rfl) hleads

/-- Control that starts where it may come stays there. -/
theorem canArrive_of_wanders (hr : r.WellFormed) (h : build r = .ok g) {start : Option StmtId}
    (hstart : ∀ id, start = some id → CanArrive r id) (hwanders : Wanders g start (some id)) :
    CanArrive r id := by
  refine hwanders.closed ?_ hstart
  intro before target hbefore hleads
  exact canArrive_of_leads hr h (hbefore.contains hr) hleads

/-- Control that starts in the arena stays in the arena. -/
theorem contains_of_wanders (hr : r.WellFormed) (h : build r = .ok g) {start : Option StmtId}
    (hstart : ∀ id, start = some id → r.contains id = true)
    (hwanders : Wanders g start (some id)) : r.contains id = true := by
  refine hwanders.closed (S := fun id => r.contains id = true) ?_ hstart
  intro before target hbefore hleads
  exact (canArrive_of_leads hr h hbefore hleads).contains hr

/-- The first statement of a routine stands in its body. -/
theorem placed_of_entry (hr : r.WellFormed) (h : build r = .ok g) (hentry : g.entry = some id) :
    r.Placed id := by
  obtain ⟨_, _, hfirst, _⟩ := build_eq_ok h
  obtain ⟨stmts, hbody⟩ := hr.exists_body
  rw [hfirst, Draft.entry?, Draft.bodyStmts, hbody] at hentry
  exact ⟨_, .child .body hbody (List.mem_of_head? hentry)⟩

theorem canArrive_of_entry (hr : r.WellFormed) (h : build r = .ok g) (hentry : g.entry = some id) :
    CanArrive r id :=
  .inl (placed_of_entry hr h hentry)

/-- A conditional edge with this number, to a block. -/
def EntersBlock (r : Draft) (g : Graph) (id : StmtId) (n : Nat) (block : StmtId) : Prop :=
  g.nthNext id n = some block ∧ ∃ stmts, r.stmt? block = some (.block stmts)

/-- The conditional targets of a statement of the body are entered. -/
theorem entersBlock_of_targetsOf (hr : r.WellFormed) (h : build r = .ok g)
    (hplaced : r.Placed id) {s : Stmt} (hs : r.stmt? id = some s) {n : Nat} {block : StmtId}
    (hblock : (targetsOf s)[n]? = some block) : EntersBlock r g id n block := by
  obtain ⟨path, hpath⟩ := hplaced
  have hbody := mem_bodies_of_mem_targetsOf (List.mem_of_getElem? hblock)
  exact ⟨by rw [nthNext_of_ancestors hr h hpath hs, hblock], hr.exists_block hs hbody⟩

/-- A routine that has a graph contains nothing that is refused. -/
theorem not_refused_of_build (hr : r.WellFormed) (h : build r = .ok g) {e : EmulationError}
    (hpath : r.Ancestors id path) : ¬ Refused r id path e := by
  have hnone : firstRefusal? r r.sourceOrder = none := by
    apply Option.eq_none_iff_forall_ne_some.mpr
    intro e hfirst
    rw [(build_eq_error_iff hr).mpr hfirst] at h
    cases h
  exact firstRefusal?_eq_none_iff.mp hnone _ ((Draft.mem_sourceOrder_iff hr).mpr hpath) e

/-- Where an emulation may come: the statement exists and is no `switch`; the body contains it, or
it is a detached label, behind which control leaves the routine. -/
structure Visitable (r : Draft) (g : Graph) (id : StmtId) : Prop where
  executable : ∃ s, r.stmt? id = some s ∧ ∀ value cases default, s ≠ .switch value cases default
  place : r.Placed id ∨ DetachedLabel r id ∧ ∀ next, Leads g id next → next = none

theorem visitable_of_canArrive (hr : r.WellFormed) (h : build r = .ok g)
    (harrive : CanArrive r id) : Visitable r g id := by
  obtain ⟨s, hs⟩ := harrive.exists_stmt hr
  by_cases hplaced : r.Placed id
  · refine ⟨⟨s, hs, ?_⟩, .inl hplaced⟩
    rintro value cases default rfl
    obtain ⟨path, hpath⟩ := hplaced
    exact not_refused_of_build hr h hpath (.switch hs)
  · obtain ⟨name, hlabel⟩ := harrive.resolve_left hplaced
    refine ⟨⟨_, hlabel, by simp⟩, .inr ⟨⟨⟨name, hlabel⟩, hplaced⟩, ?_⟩⟩
    intro next hleads
    exact eq_none_of_leads_of_detached hr h (harrive.contains hr) hplaced hleads

end Targets

end RoutineEmulator.Graph
