import Mathlib.Data.List.Flatten
import RoutineEmulator.Proofs.Graph.Targets
/-!
Edges go forward in the source, or back to a loop.

A statement stands somewhere in the source order of its routine. Where control goes after it, found
by climbing its parents, is either behind the whole parent that the climb came from, or it is the
header of a loop that the climb came to. So an edge that is not the edge of a jump leads to a later
statement, or to the header of a loop around the statement that it leaves.
-/

namespace RoutineEmulator

/-! ## Positions -/

namespace Draft

/-- The place of a statement in the source order. -/
def position (r : Draft) (id : StmtId) : Nat :=
  (r.sourceOrder.map (·.1)).idxOf id

/-- The body contains a statement that stands behind another one in the source. -/
structure Precedes (r : Draft) (id later : StmtId) : Prop where
  placed : r.Placed later
  lt : r.position id < r.position later

section Positions

variable {r : Draft} {id other : StmtId} {path above : List StmtId}

theorem Precedes.trans {a b c : StmtId} (h : r.Precedes a b) (h' : r.Precedes b c) :
    r.Precedes a c :=
  ⟨h'.placed, Nat.lt_trans h.lt h'.lt⟩

theorem Precedes.ne (h : r.Precedes id other) : id ≠ other := by
  rintro rfl
  exact Nat.lt_irrefl _ h.lt

theorem mem_map_sourceOrder (hr : r.WellFormed) (h : r.Placed id) :
    id ∈ r.sourceOrder.map (·.1) := by
  obtain ⟨path, hpath⟩ := h
  exact List.mem_map.mpr ⟨(id, path), (mem_sourceOrder_iff hr).mpr hpath, rfl⟩

/-- Of two elements of a list without repetitions, the one in front has the smaller index. -/
theorem idxOf_lt_of_pair_sublist {α : Type} [BEq α] [LawfulBEq α] {a b : α} {l : List α}
    (hnodup : l.Nodup) (h : [a, b].Sublist l) : l.idxOf a < l.idxOf b := by
  obtain ⟨before, after, rfl⟩ := List.append_of_mem (h.subset (by simp : b ∈ [a, b]))
  have ha := mem_of_pair_sublist hnodup h
  have hb : b ∉ before := fun hmem =>
    (List.nodup_append.mp hnodup).2.2 b hmem b List.mem_cons_self rfl
  rw [List.idxOf_append_of_mem ha, List.idxOf_append_of_notMem hb]
  exact Nat.lt_of_lt_of_le (List.idxOf_lt_length_of_mem ha) (Nat.le_add_right _ _)

/-- What is listed first precedes what is listed later. -/
theorem precedes_of_sublist (hr : r.WellFormed) {entry later : StmtId × List StmtId}
    (h : [entry, later].Sublist r.sourceOrder) : r.Precedes entry.1 later.1 where
  placed := ⟨later.2, (mem_sourceOrder_iff hr).mp (h.subset (by simp))⟩
  lt := idxOf_lt_of_pair_sublist (nodup_map_sourceOrder hr) (h.map Prod.fst)

theorem sublist_contents {child : StmtId} {s : Stmt} (hs : r.stmt? id = some s)
    (hchild : child ∈ s.children) :
    (r.listing child (id :: path)).Sublist (r.contents id path) := by
  rw [← childrenOf_eq hs] at hchild
  unfold contents
  rw [List.flatMap_def]
  exact List.sublist_flatten_of_mem (List.mem_map_of_mem hchild)

/-- A statement and what it contains are listed in the source order as they are on their own. -/
theorem Ancestors.sublist_sourceOrder (hr : r.WellFormed) (hpath : r.Ancestors id path) :
    (r.listing id path).Sublist r.sourceOrder := by
  induction hpath with
  | body => exact List.Sublist.refl _
  | child hparent hs hchild ih =>
      refine ((sublist_contents hs hchild).trans ?_).trans ih
      rw [hparent.listing_eq hr]
      exact List.sublist_cons_self _ _

/-- A statement is listed with each of its parents. -/
theorem Ancestors.mem_listing (hr : r.WellFormed) (habove : r.Ancestors other above)
    (hpath : r.Ancestors id path) (h : (other :: above) <:+ (id :: path)) :
    (id, path) ∈ r.listing other above := by
  induction hpath with
  | body =>
      obtain ⟨rfl, rfl⟩ := List.cons.inj (h.eq_of_length_le (by simp))
      rw [habove.listing_eq hr]
      exact List.mem_cons_self
  | child hparent hs hchild ih =>
      rcases List.suffix_cons_iff.mp h with heq | h
      · obtain ⟨rfl, rfl⟩ := List.cons.inj heq
        rw [habove.listing_eq hr]
        exact List.mem_cons_self
      · refine mem_listWithin_child hr habove (by have := habove.length_lt hr; omega) (ih h) ?_
        rw [childrenOf_eq hs]
        exact hchild

/-- A statement precedes what is nested in it. -/
theorem precedes_child (hr : r.WellFormed) (hpath : r.Ancestors id path) {s : Stmt}
    (hs : r.stmt? id = some s) {child : StmtId} (hchild : child ∈ s.children) :
    r.Precedes id child := by
  have hlisted : (child, id :: path) ∈ r.contents id path := by
    apply (sublist_contents hs hchild).subset
    rw [(Ancestors.child hpath hs hchild).listing_eq hr]
    exact List.mem_cons_self
  have hsub := hpath.sublist_sourceOrder hr
  rw [hpath.listing_eq hr] at hsub
  exact precedes_of_sublist hr
    (((List.singleton_sublist.mpr hlisted).cons_cons (id, path)).trans hsub)

end Positions

end Draft

namespace Graph

/-- A loop around a statement with these parents. -/
def Encloses (r : Draft) (loop : StmtId) (path : List StmtId) : Prop :=
  loop ∈ path ∧ ∃ s, r.stmt? loop = some s ∧ s.isLoop = true

section Forward

variable {r : Draft} {id target : StmtId} {path : List StmtId}

/-! ## Behind a statement -/

/-- A statement of a block, with all it contains, precedes the statement behind it. -/
theorem precedes_of_nextSibling? (hr : r.WellFormed) {parent : StmtId} {stmts : List StmtId}
    (hparent : r.Ancestors parent path) (hs : r.stmt? parent = some (.block stmts))
    (h : nextSibling? stmts id = some target) {entry : StmtId × List StmtId}
    (hentry : entry ∈ r.listing id (parent :: path)) : r.Precedes entry.1 target := by
  -- the two siblings are neighbours, so their listings are
  have hpair : [id, target].Sublist stmts := by
    clear hs
    induction stmts with
    | nil => cases h
    | cons first rest ih =>
        rw [nextSibling?] at h
        split at h
        · rename_i hfirst
          subst hfirst
          exact (List.singleton_sublist.mpr (List.mem_of_head? h)).cons_cons _
        · exact (ih h).cons _
  have htarget : r.Ancestors target (parent :: path) :=
    .child hparent hs (hpair.subset (by simp))
  have hlisted : (target, parent :: path) ∈ r.listing target (parent :: path) := by
    rw [htarget.listing_eq hr]
    exact List.mem_cons_self
  have hcontents : [entry, (target, parent :: path)].Sublist (r.contents parent path) := by
    unfold Draft.contents
    rw [Draft.childrenOf_eq hs]
    refine List.Sublist.trans ?_ (hpair.flatMap fun child => r.listing child (parent :: path))
    simp only [List.flatMap_cons, List.flatMap_nil, List.append_nil]
    exact (List.singleton_sublist.mpr hentry).append (List.singleton_sublist.mpr hlisted)
  refine Draft.precedes_of_sublist hr (hcontents.trans ?_)
  refine List.Sublist.trans ?_ (hparent.sublist_sourceOrder hr)
  rw [hparent.listing_eq hr]
  exact List.sublist_cons_self _ _

/-- **Behind a statement.** Where control goes after a statement is behind all that the statement
contains, or it is the header of a loop around it. -/
theorem precedes_of_follow (hr : r.WellFormed) (hpath : r.Ancestors id path)
    (h : follow r id path = some target) :
    (∀ entry ∈ r.listing id path, r.Precedes entry.1 target) ∨ Encloses r target path := by
  induction hpath with
  | body => cases h
  | @child parent id path s hparent hs hchild ih =>
      -- what the statement contains is contained in its parent
      have hclimb : follow r parent path = some target →
          (∀ entry ∈ r.listing id (parent :: path), r.Precedes entry.1 target) ∨
            Encloses r target (parent :: path) := by
        intro habove
        rcases ih habove with hlater | ⟨hmem, hloop⟩
        · left
          intro entry hentry
          apply hlater
          rw [hparent.listing_eq hr]
          exact List.mem_cons_of_mem _ ((Draft.sublist_contents hs hchild).subset hentry)
        · exact .inr ⟨List.mem_cons_of_mem _ hmem, hloop⟩
      rw [follow, followIn, hs] at h
      cases s with
      | block stmts =>
          rcases (Option.orElse_eq_some _ _ _).mp h with hsibling | ⟨_, habove⟩
          · exact .inl fun _ hentry => precedes_of_nextSibling? hr hparent hs hsibling hentry
          · exact hclimb habove
      | loop =>
          obtain rfl := Option.some.inj h
          exact .inr ⟨List.mem_cons_self, _, hs, rfl⟩
      | _ => exact hclimb h

theorem suffix_of_innermostLoop? {loop : StmtId} {above : List StmtId}
    (h : innermostLoop? r path = some (loop, above)) :
    (loop :: above) <:+ path ∧ ∃ s, r.stmt? loop = some s ∧ s.isLoop = true := by
  induction path with
  | nil => cases h
  | cons parent path ih =>
      rw [innermostLoop?] at h
      split at h
      · rename_i hs
        obtain ⟨rfl, rfl⟩ := Prod.mk.inj (Option.some.inj h)
        exact ⟨List.suffix_refl _, _, hs, rfl⟩
      · obtain ⟨hsuffix, hloop⟩ := ih h
        exact ⟨hsuffix.trans (List.suffix_cons _ _), hloop⟩

/-! ## Edges -/

/-- The fallthrough edge of a statement that does not jump. -/
theorem forward_of_fallthroughAt (hr : r.WellFormed) (hpath : r.Ancestors id path) {s : Stmt}
    (hs : r.stmt? id = some s) (hjump : s.jumpTargets = [])
    (h : fallthroughAt r id path = some target) :
    r.Precedes id target ∨ Encloses r target path := by
  have hself : (id, path) ∈ r.listing id path :=
    hpath.mem_listing hr hpath (List.suffix_refl _)
  have hbehind : follow r id path = some target → r.Precedes id target ∨ Encloses r target path :=
    fun hfollow => (precedes_of_follow hr hpath hfollow).imp_left fun hlater => hlater _ hself
  unfold fallthroughAt at h
  rw [hs] at h
  cases s with
  | goto => cases hjump
  | breakLoop label =>
      cases label with
      | some label => cases hjump
      | none =>
          obtain ⟨⟨loop, above⟩, hloop, hexit⟩ := Option.bind_eq_some_iff.mp h
          have habove := ancestors_of_innermostLoop? hpath hloop
          obtain ⟨hsuffix, _⟩ := suffix_of_innermostLoop? hloop
          rcases precedes_of_follow hr habove hexit with hlater | ⟨hmem, houter⟩
          · exact .inl (hlater _ (habove.mem_listing hr hpath (hsuffix.trans (List.suffix_cons _ _))))
          · exact .inr ⟨hsuffix.subset (List.mem_cons_of_mem _ hmem), houter⟩
  | continueLoop label =>
      cases label with
      | some label => cases hjump
      | none =>
          obtain ⟨⟨loop, above⟩, hloop, rfl⟩ := Option.map_eq_some_iff.mp h
          obtain ⟨hsuffix, hheader⟩ := suffix_of_innermostLoop? hloop
          exact .inr ⟨hsuffix.subset List.mem_cons_self, hheader⟩
  | ret | jumpFar => cases h
  | block stmts =>
      rcases (Option.orElse_eq_some _ _ _).mp h with hhead | ⟨_, hnext⟩
      · exact .inl (Draft.precedes_child hr hpath hs (List.mem_of_head? hhead))
      · exact hbehind hnext
  | _ => exact hbehind h

/-- **Edges go forward.** An edge of a statement that does not jump leads to a later statement, or
to the header of a loop around it. -/
theorem forward_of_leads {g : Graph} (hr : r.WellFormed) (hbuild : build r = .ok g)
    (hpath : r.Ancestors id path) {s : Stmt} (hs : r.stmt? id = some s)
    (hjump : s.jumpTargets = []) (h : Leads g id (some target)) :
    r.Precedes id target ∨ Encloses r target path := by
  generalize hnext : some target = next at h
  cases h with
  | fallthrough =>
      rw [next_of_ancestors hr hbuild hpath] at hnext
      exact forward_of_fallthroughAt hr hpath hs hjump hnext.symm
  | conditional n =>
      rw [nthNext_of_ancestors hr hbuild hpath hs] at hnext
      have hbody := mem_bodies_of_mem_targetsOf (List.mem_of_getElem? hnext.symm)
      exact .inl (Draft.precedes_child hr hpath hs (Draft.mem_children_of_mem_bodies hbody))

end Forward

end Graph

end RoutineEmulator
