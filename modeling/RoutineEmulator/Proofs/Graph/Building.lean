import Mathlib.Data.List.Perm.Subperm
import RoutineEmulator.Proofs.Graph.Refusal
import RoutineEmulator.Proofs.Graph.Replay
/-!
The descent through the body of a routine comes to an end and does nothing twice.

A well-formed draft may have containment cycles among its detached statements, but what the body
contains is a tree. `Follows` compares a course with a listing of statements in source order: the
course halts at the first listed statement that has no edges, and for no other cause, and no
statement is entered, assigned or added more often than it is listed. Every step of the descent
keeps it, and the source order lists no statement twice.
-/

namespace RoutineEmulator.Graph

/-! ## Stamps -/

/-- What an action does to which statement. The successor that it sets does not matter. -/
inductive Stamp where
  | entered (block : StmtId)
  | assigned (id : StmtId)
  | added (target : StmtId)
  deriving DecidableEq

namespace Stamp

/-- All that may happen to these statements. -/
def allOf (listed : List (StmtId × List StmtId)) : List Stamp :=
  listed.flatMap fun q => [added q.1, assigned q.1, entered q.1]

theorem allOf_append (listed listed' : List (StmtId × List StmtId)) :
    allOf (listed ++ listed') = allOf listed ++ allOf listed' :=
  List.flatMap_append

theorem nodup_allOf {listed : List (StmtId × List StmtId)} (h : (listed.map (·.1)).Nodup) :
    (allOf listed).Nodup := by
  refine List.pairwise_flatMap.mpr ⟨fun q _ => by simp, ?_⟩
  refine (List.pairwise_map.mp h).imp ?_
  intro q q' hne
  simp [hne]

end Stamp

def Action.stamp : Action → Stamp
  | enter block => .entered block
  | assign id _ => .assigned id
  | push _ target => .added target

/-! ## Courses along a listing -/

/-- A course halts at the first refused statement of a listing, and only there, after actions with
these stamps at most. -/
structure Follows (r : Draft) (stamps : List Stamp) (listed : List (StmtId × List StmtId))
    (c : Course) : Prop where
  halt : c.halt = (firstRefusal? r listed).map Halt.refused
  once : (c.actions.map Action.stamp).Subperm stamps

section Follows

variable {r : Draft} {stamps stamps' : List Stamp} {listed listed' : List (StmtId × List StmtId)}
  {c d : Course} {id : StmtId} {path : List StmtId}

theorem Follows.nil : Follows r [] [] {} :=
  ⟨rfl, List.Subperm.refl []⟩

theorem Follows.act (a : Action) : Follows r [a.stamp] [] (.act a) :=
  ⟨rfl, List.Subperm.refl _⟩

theorem Follows.andThen (h : Follows r stamps listed c) (h' : Follows r stamps' listed' d) :
    Follows r (stamps ++ stamps') (listed ++ listed') (c.andThen d) := by
  cases hfirst : firstRefusal? r listed with
  | some e =>
      have hc : c.halt = some (.refused e) := by rw [h.halt, hfirst]; rfl
      rw [Course.andThen_of_halt hc]
      constructor
      · rw [firstRefusal?_append, hfirst, hc]
        rfl
      · exact h.once.trans (List.sublist_append_left stamps stamps').subperm
  | none =>
      have hc : c.halt = none := by rw [h.halt, hfirst]; rfl
      rw [Course.andThen_of_end hc]
      constructor
      · rw [firstRefusal?_append, hfirst, h'.halt]
        rfl
      · rw [List.map_append]
        exact h.once.append h'.once

/-- An action behind a course. -/
theorem Follows.thenAct (h : Follows r stamps listed c) (a : Action) :
    Follows r (stamps ++ [a.stamp]) listed (c.andThen (.act a)) := by
  have hboth := h.andThen (Follows.act a)
  rw [List.append_nil] at hboth
  exact hboth

theorem Follows.widen (h : Follows r stamps listed c) (hstamps : stamps.Subperm stamps') :
    Follows r stamps' listed c :=
  ⟨h.halt, h.once.trans hstamps⟩

/-- A statement that has edges, in front of what is in it. -/
theorem Follows.visit (hpassed : refusal? r id path = none) (h : Follows r stamps listed c) :
    Follows r stamps ((id, path) :: listed) c :=
  ⟨by rw [firstRefusal?_cons_of_passed hpassed, h.halt], h.once⟩

/-- A statement that has none. -/
theorem Follows.refused {e : EmulationError} (hrefused : refusal? r id path = some e) :
    Follows r stamps ((id, path) :: listed) (.stop (.refused e)) :=
  ⟨by rw [firstRefusal?_cons_of_refused hrefused]; rfl, List.nil_subperm⟩

end Follows

/-! ## The descent follows the source order -/

section Descent

variable {r : Draft} {descend : Course.Descent} {parents : Nat} {id : StmtId}
  {path stmts : List StmtId} {next : Option StmtId} {inner : Option LoopContext}

/-- What a descent into a block with at least so many parents does. It is told of a loop where there
is one among the parents. -/
def Opens (r : Draft) (descend : Course.Descent) (parents : Nat) : Prop :=
  ∀ ⦃block : StmtId⦄ ⦃path stmts : List StmtId⦄, r.Ancestors block path →
    parents ≤ path.length → r.stmt? block = some (.block stmts) →
    ∀ next inner, Option.isSome inner = (loopContext r path).isSome →
    Follows r (.entered block :: Stamp.allOf (r.contents block path)) (r.contents block path)
      (descend block next inner)

theorem refusal?_block (hblock : r.stmt? id = some (.block stmts)) (path : List StmtId) :
    refusal? r id path = none := by
  rw [refusal?, hblock]

theorem follows_enterOwned (hblock : r.stmt? id = some (.block stmts)) (ifEmpty : Option StmtId) :
    Follows r [.assigned id] [] (enterOwned r id ifEmpty) := by
  unfold enterOwned
  rw [hblock]
  exact .act (.assign id (stmts.head? <|> ifEmpty))

/-- A block that another statement owns, once it was given its own edge. -/
theorem follows_owned (hr : r.WellFormed) (hdescend : Opens r descend parents)
    (hpath : r.Ancestors id path) (hdeep : parents ≤ path.length)
    (hblock : r.stmt? id = some (.block stmts)) (next : Option StmtId) (inner : Option LoopContext)
    (hinner : inner.isSome = (loopContext r path).isSome) :
    Follows r (.entered id :: Stamp.allOf (r.contents id path)) (r.listing id path)
      (descend id next inner) := by
  rw [hpath.listing_eq hr]
  exact (hdescend hpath hdeep hblock next inner hinner).visit (refusal?_block hblock path)

/-- The arms of an `if`. -/
theorem follows_throughArms (hr : r.WellFormed) (hdescend : Opens r descend parents)
    (hdeep : parents ≤ path.length) (hinner : inner.isSome = (loopContext r path).isSome)
    (id : StmtId) (next : Option StmtId) {arms : List StmtId}
    (hpath : ∀ arm ∈ arms, r.Ancestors arm path)
    (hblocks : ∀ arm ∈ arms, ∃ stmts, r.stmt? arm = some (.block stmts)) :
    Follows r (Stamp.allOf (arms.flatMap fun arm => r.listing arm path))
      (arms.flatMap fun arm => r.listing arm path) (throughArms r descend id next inner arms) := by
  induction arms with
  | nil => exact .nil
  | cons arm rest ih =>
      obtain ⟨harm, hothers⟩ := List.forall_mem_cons.mp hpath
      obtain ⟨⟨stmts, hblock⟩, hblocks⟩ := List.forall_mem_cons.mp hblocks
      have hinside := follows_owned hr hdescend harm hdeep hblock next inner hinner
      -- an arm is added, assigned and entered in this order
      have hcourse := (Follows.act (.push id arm)).andThen
        ((follows_enterOwned hblock next).andThen (hinside.andThen (ih hothers hblocks)))
      rw [List.flatMap_cons, Stamp.allOf_append]
      refine hcourse.widen ?_
      rw [harm.listing_eq hr]
      exact List.Subperm.refl _

/-- The stamps of a statement that is assigned behind what is inside it. -/
theorem assignLast_subperm (inside : List Stamp) :
    (inside ++ [Stamp.assigned id]).Subperm
      (.added id :: .assigned id :: .entered id :: inside) := by
  refine (List.perm_append_singleton _ inside).subperm.trans (List.Sublist.subperm ?_)
  exact ((List.sublist_cons_self _ inside).cons_cons _).cons _

/-- A statement without children whose fallthrough successor is set. -/
theorem follows_leaf (hpassed : refusal? r id path = none) (target : Option StmtId) :
    Follows r (Stamp.allOf [(id, path)]) [(id, path)] (.act (.assign id target)) := by
  refine ((Follows.act (.assign id target)).widen ?_).visit hpassed
  exact List.singleton_subperm_iff.mpr (by simp [Stamp.allOf, Action.stamp])

/-- A `break` or `continue` without a label. The descent knows of a loop where there is one. -/
theorem follows_jump
    (hs : r.stmt? id = some (.breakLoop none) ∨ r.stmt? id = some (.continueLoop none))
    (hinner : inner.isSome = (loopContext r path).isSome) (target : LoopContext → Option StmtId) :
    Follows r (Stamp.allOf [(id, path)]) [(id, path)]
      (inner.elim (.stop (.refused (outsideLoop r id)))
        fun loop => .act (.assign id (target loop))) := by
  rw [loopContext, Option.isSome_map] at hinner
  -- the descent is inside a loop exactly where a parent is one
  cases inner with
  | some loop =>
      obtain ⟨found, hfound⟩ := Option.isSome_iff_exists.mp hinner.symm
      apply follows_leaf
      rcases hs with hs | hs <;> simp [refusal?, hs, hfound]
  | none =>
      have hnone : innermostLoop? r path = none := by
        apply Option.not_isSome_iff_eq_none.mp
        simp [← hinner]
      apply Follows.refused
      rcases hs with hs | hs <;> simp [refusal?, hs, hnone]

/-- Any statement. -/
theorem follows_throughStmt (hr : r.WellFormed) (hdescend : Opens r descend parents)
    (hpath : r.Ancestors id path) (hdeep : parents ≤ path.length) (next : Option StmtId)
    (hinner : inner.isSome = (loopContext r path).isSome) :
    Follows r (Stamp.allOf (r.listing id path)) (r.listing id path)
      (throughStmt r descend id next inner) := by
  obtain ⟨s, hs⟩ := hpath.exists_stmt hr
  have hdeep' : parents ≤ (id :: path).length := Nat.le_succ_of_le hdeep
  rw [hpath.listing_eq hr, Draft.contents, Draft.childrenOf_eq hs]
  unfold throughStmt
  rw [hs]
  cases s with
  | loop kind predicate body =>
      have hpassed : refusal? r id path = none := by rw [refusal?, hs]
      have hbody : r.Ancestors body (id :: path) := .child hpath hs List.mem_cons_self
      have hloop : (loopContext r (id :: path)).isSome = true := by
        rw [loopContext_in_loop hs]
        rfl
      obtain ⟨stmts, hblock⟩ := hr.exists_block hs List.mem_cons_self
      have hinside := follows_owned hr hdescend hbody hdeep' hblock (some id)
        (some { header := id, exit := next }) hloop.symm
      have hcourse := (follows_enterOwned hblock (some id)).andThen
        ((Follows.act (.push id body)).andThen (hinside.thenAct (.assign id next)))
      have hlisted : ((Stmt.loop kind predicate body).children.flatMap fun child =>
          r.listing child (id :: path)) = r.listing body (id :: path) := List.flatMap_singleton _ _
      rw [hlisted]
      refine (hcourse.widen ?_).visit hpassed
      rw [hbody.listing_eq hr]
      -- the body is assigned before it is added
      exact (List.Perm.swap _ _ _).subperm.trans (assignLast_subperm (_ :: _ :: _ :: _))
  | ifElse branches default =>
      have hpassed : refusal? r id path = none := by rw [refusal?, hs]
      have hinner' : inner.isSome = (loopContext r (id :: path)).isSome := by
        rw [hinner, loopContext_in_branch hs]
      have harms := follows_throughArms hr hdescend hdeep' hinner' id next
        (fun arm harm => .child hpath hs harm) (fun arm harm => hr.exists_block hs harm)
      exact ((harms.thenAct (.assign id next)).widen (assignLast_subperm _)).visit hpassed
  | block stmts =>
      have hinside := hdescend hpath hdeep hs next inner hinner
      have hcourse := hinside.thenAct (.assign id (stmts.head? <|> next))
      rw [Draft.contents, Draft.childrenOf_eq hs] at hcourse
      refine (hcourse.widen ?_).visit (refusal?_block hs path)
      -- a nested block is added nowhere
      apply (List.perm_append_singleton _ _).subperm.trans
      exact (List.sublist_cons_self _ _).subperm
  | switch value cases default => exact .refused (by rw [refusal?, hs])
  | breakLoop label =>
      cases label with
      | some target => exact follows_leaf (by rw [refusal?, hs]) _
      | none =>
          have hjump := follows_jump (.inl hs) hinner (·.exit)
          cases inner <;> exact hjump
  | continueLoop label =>
      cases label with
      | some target => exact follows_leaf (by rw [refusal?, hs]) _
      | none =>
          have hjump := follows_jump (.inr hs) hinner (some ·.header)
          cases inner <;> exact hjump
  | assign | goto | label | ret | jumpFar | call | decl =>
      exact follows_leaf (by rw [refusal?, hs]) _

/-- The statements of a block. -/
theorem follows_throughStmts (hr : r.WellFormed) (hdescend : Opens r descend parents)
    (hdeep : parents ≤ path.length) (hinner : inner.isSome = (loopContext r path).isSome)
    (next : Option StmtId) (hpath : ∀ id ∈ stmts, r.Ancestors id path) :
    Follows r (Stamp.allOf (stmts.flatMap fun id => r.listing id path))
      (stmts.flatMap fun id => r.listing id path) (throughStmts r descend next inner stmts) := by
  induction stmts with
  | nil => exact .nil
  | cons id rest ih =>
      obtain ⟨hid, hrest⟩ := List.forall_mem_cons.mp hpath
      rw [List.flatMap_cons, Stamp.allOf_append]
      exact (follows_throughStmt hr hdescend hid hdeep _ hinner).andThen (ih hrest)

end Descent

/-- A descent that allows for enough nesting goes through all that is in a block. -/
theorem opens_throughBlock {r : Draft} (hr : r.WellFormed) (depth : Nat) :
    Opens r (throughBlock r depth) (r.size - depth) := by
  induction depth with
  | zero =>
      -- so many parents do not exist
      intro block path stmts hpath hdeep
      have := hpath.length_lt hr
      omega
  | succ depth ih =>
      intro block path stmts hpath hdeep hblock next inner hinner
      have hinner' : inner.isSome = (loopContext r (block :: path)).isSome := by
        rw [hinner, loopContext_in_block path hblock]
      have hdeep' : r.size - depth ≤ (block :: path).length := by
        rw [List.length_cons]
        omega
      have hinside := follows_throughStmts hr ih hdeep' hinner' next
        fun id hid => .child hpath hblock hid
      rw [Draft.contents, Draft.childrenOf_eq hblock]
      unfold throughBlock
      rw [hblock]
      exact (Follows.act (.enter block)).andThen hinside

/-- The descent through a routine goes along its source order. -/
theorem follows_descent {r : Draft} (hr : r.WellFormed) {depth : Nat} (hdepth : r.size ≤ depth) :
    Follows r (Stamp.allOf r.sourceOrder) r.sourceOrder (descent r depth) := by
  obtain ⟨stmts, hbody⟩ := hr.exists_body
  have hinside := opens_throughBlock hr depth .body (by rw [List.length_nil]; omega) hbody none none
    rfl
  have hcourse := (Follows.act (.assign r.body r.entry?)).andThen hinside
  unfold Draft.sourceOrder
  rw [Draft.Ancestors.body.listing_eq hr]
  refine (hcourse.widen ?_).visit (refusal?_block hbody [])
  exact (List.sublist_cons_self _ _).subperm

/-! ## Nothing happens twice -/

section Once

variable {actions : List Action}

/-- What is read off the actions of one kind has nothing twice, where no stamp stands twice. -/
theorem nodup_filterMap_of_stamps (h : (actions.map Action.stamp).Nodup)
    {mark : Action → Option StmtId} (kind : StmtId → Stamp)
    (hmark : ∀ a id, mark a = some id → a.stamp = kind id) : (actions.filterMap mark).Nodup := by
  refine List.pairwise_filterMap.mpr ((List.pairwise_map.mp h).imp ?_)
  rintro a a' hne id ha _ ha' rfl
  apply hne
  rw [hmark a id ha, hmark a' id ha']

theorem nodup_entered (h : (actions.map Action.stamp).Nodup) :
    (actions.filterMap Action.entered?).Nodup := by
  apply nodup_filterMap_of_stamps h .entered
  rintro (_ | _ | _) id ⟨⟩
  rfl

theorem nodup_assigned (h : (actions.map Action.stamp).Nodup) :
    ((actions.filterMap Action.assignment?).map (·.1)).Nodup := by
  rw [List.map_filterMap]
  apply nodup_filterMap_of_stamps h .assigned
  rintro (_ | _ | _) id ⟨⟩
  rfl

theorem nodup_added (h : (actions.map Action.stamp).Nodup) :
    ((actions.filterMap Action.addition?).map (·.2)).Nodup := by
  rw [List.map_filterMap]
  apply nodup_filterMap_of_stamps h .added
  rintro (_ | _ | _) id ⟨⟩
  rfl

end Once

section Build

variable {r : Draft}

theorem nodup_stamps (hr : r.WellFormed) :
    ((descent r r.size).actions.map Action.stamp).Nodup := by
  obtain ⟨stamps, hperm, hsub⟩ := (follows_descent hr (Nat.le_refl _)).once
  exact hperm.nodup_iff.mp (hsub.nodup (Stamp.nodup_allOf (Draft.nodup_map_sourceOrder hr)))

/-- Allowing for more nesting than there are statements changes nothing. -/
theorem descent_eq_of_le (hr : r.WellFormed) {depth : Nat} (hdepth : r.size ≤ depth) :
    descent r depth = descent r r.size := by
  refine descent_of_le ?_ hdepth
  rw [(follows_descent hr (Nat.le_refl _)).halt]
  cases firstRefusal? r r.sourceOrder <;> simp

theorem build_eq_error_of_refused {e : EmulationError}
    (hhalt : (descent r r.size).halt = some (.refused e)) : build r = .error e := by
  unfold build
  rw [(matches_descent r).refused e hhalt]
  rfl

/-- The finished graph is the table that the descent wrote. -/
theorem build_eq_replay (hr : r.WellFormed) (hhalt : (descent r r.size).halt = none) :
    build r = .ok ⟨r.entry?, replay (descent r r.size).actions (Array.replicate r.size {})⟩ := by
  obtain ⟨edges, hwiring, hrealises⟩ := (matches_descent r).done hhalt
  have hassigned := (hrealises.assigned.map (·.1)).nodup_iff.mp (nodup_assigned (nodup_stamps hr))
  have hnodup : (edges.map (·.1)).Nodup := by
    rw [fallthroughs, List.map_map] at hassigned
    exact hassigned
  rw [replay_eq_writeAll hrealises hnodup]
  unfold build
  rw [hwiring]
  rfl

/-- The first refused statement in source order decides whether there is a graph. -/
theorem build_eq_error_iff (hr : r.WellFormed) {e : EmulationError} :
    build r = .error e ↔ firstRefusal? r r.sourceOrder = some e := by
  have hhalt := (follows_descent hr (Nat.le_refl _)).halt
  cases hfirst : firstRefusal? r r.sourceOrder with
  | some e' =>
      rw [hfirst] at hhalt
      rw [build_eq_error_of_refused hhalt]
      simp
  | none =>
      rw [hfirst] at hhalt
      rw [build_eq_replay hr hhalt]
      simp

end Build

/-- **The descent through a routine ends, and does nothing twice.** What the body contains is a
tree: a statement has one way up to the body, does not stand on it again, and lists no child twice.
So the descent is never deeper than the number of statements, whatever is detached from the body. It
comes to its end or is refused, and what it wrote is the graph. It enters no block twice, sets no
fallthrough successor twice and adds no statement twice as a conditional successor. -/
theorem build_descends_once (r : Routine) :
    (∀ id path path', r.Ancestors id path → r.Ancestors id path' → path = path') ∧
      (∀ id path, r.Ancestors id path → (id :: path).Nodup ∧ path.length < r.size) ∧
      (∀ id path s, r.Ancestors id path → r.stmt? id = some s → s.children.Nodup) ∧
      (∀ depth, r.size ≤ depth → descent r.toDraft depth = descent r.toDraft r.size) ∧
      ((∃ e, (descent r.toDraft r.size).halt = some (.refused e) ∧ build r.toDraft = .error e) ∨
        ((descent r.toDraft r.size).halt = none ∧ build r.toDraft =
          .ok ⟨r.entry?, replay (descent r.toDraft r.size).actions (Array.replicate r.size {})⟩)) ∧
      ((descent r.toDraft r.size).actions.filterMap Action.entered?).Nodup ∧
      (((descent r.toDraft r.size).actions.filterMap Action.assignment?).map (·.1)).Nodup ∧
      (((descent r.toDraft r.size).actions.filterMap Action.addition?).map (·.2)).Nodup := by
  have hr := r.wellFormed
  have hstamps := nodup_stamps hr
  refine ⟨fun _ _ _ hpath hpath' => hpath.unique hr hpath',
    fun _ _ hpath => ⟨hpath.nodup hr, hpath.length_lt hr⟩,
    fun _ _ _ _ hs => hr.nodup_children hs, fun _ hdepth => descent_eq_of_le hr hdepth, ?_,
    nodup_entered hstamps, nodup_assigned hstamps, nodup_added hstamps⟩
  have hhalt := (follows_descent hr (Nat.le_refl _)).halt
  cases hfirst : firstRefusal? r.toDraft r.sourceOrder with
  | some e =>
      rw [hfirst] at hhalt
      exact .inl ⟨e, hhalt, build_eq_error_of_refused hhalt⟩
  | none =>
      rw [hfirst] at hhalt
      exact .inr ⟨hhalt, build_eq_replay hr hhalt⟩

/-- A loop with an empty body, and two detached blocks: one lists itself, and the other one is
listed nowhere. -/
def cyclicDraft : Draft where
  name := "cyclic"
  address := 0x1000
  body := ⟨0⟩
  stmts := #[.block [⟨1⟩], .loop .while (.int 1) ⟨2⟩, .block [], .block [⟨3⟩], .block []]

def cyclicRoutine : Routine where
  toDraft := cyclicDraft
  valid := Draft.check_eq_ok_iff.mpr ⟨by decide, by decide, by decide, by decide⟩

/-- No descent gets near the block that lists itself. -/
theorem build_descends_once_cyclic :
    cyclicDraft.stmt? ⟨3⟩ = some (.block [⟨3⟩]) ∧ ∀ depth, 5 ≤ depth →
      descent cyclicDraft depth =
        { actions := [.assign ⟨0⟩ (some ⟨1⟩), .enter ⟨0⟩, .assign ⟨2⟩ (some ⟨1⟩), .push ⟨1⟩ ⟨2⟩,
            .enter ⟨2⟩, .assign ⟨1⟩ none] } := by
  obtain ⟨_, _, _, hdepth, _⟩ := build_descends_once cyclicRoutine
  exact ⟨rfl, fun depth hle => hdepth depth hle⟩

end RoutineEmulator.Graph
