import RoutineEmulator.Proofs.Graph.Descent
/-!
A descent makes the graph that the builder makes.

`Realises` relates the actions of a descent to collected edges: they set the same fallthrough
successors, and where no statement has two edges they add the same conditional successors, in the
same order. A descent adds the successors of an `if` one by one, with the inside of its arms between
them, so their order is kept only where no arm contains the `if` again. `Matches` says it of whole
courses, for those that come to their end and those that are refused.
-/

namespace RoutineEmulator.Graph

/-! ## What a list says of one slot -/

/-- What a list of entries says of the statement with this number, in order. -/
def entriesAt {α : Type} (n : Nat) (l : List (StmtId × α)) : List α :=
  l.filterMap fun (id, a) => if id.index = n then some a else none

section Entries

variable {α β : Type} {n : Nat} {id : StmtId} {a : α} {l l' : List (StmtId × α)}

@[simp] theorem entriesAt_nil : entriesAt n ([] : List (StmtId × α)) = [] := rfl

@[simp] theorem entriesAt_append : entriesAt n (l ++ l') = entriesAt n l ++ entriesAt n l' :=
  List.filterMap_append

theorem entriesAt_cons_self : entriesAt id.index ((id, a) :: l) = a :: entriesAt id.index l := by
  simp [entriesAt]

theorem entriesAt_cons_of_ne (h : id.index ≠ n) : entriesAt n ((id, a) :: l) = entriesAt n l := by
  simp [entriesAt, h]

/-- A list says nothing of a statement that has no entry in it. -/
theorem entriesAt_eq_nil (h : ∀ e ∈ l, e.1.index ≠ n) : entriesAt n l = [] := by
  unfold entriesAt
  refine List.filterMap_eq_nil_iff.mpr ?_
  rintro ⟨id, a⟩ hmem
  exact if_neg (h _ hmem)

theorem entriesAt_eq_nil_of_not_mem (h : id ∉ l.map (·.1)) : entriesAt id.index l = [] := by
  apply entriesAt_eq_nil
  intro e he hindex
  apply h
  rw [← StmtId.eq_of_index hindex]
  exact List.mem_map_of_mem he

/-- A list without a statement twice says one thing of each of them. -/
theorem entriesAt_of_mem (hnodup : (l.map (·.1)).Nodup) (hmem : (id, a) ∈ l) :
    entriesAt id.index l = [a] := by
  obtain ⟨before, after, rfl⟩ := List.append_of_mem hmem
  rw [List.map_append, List.map_cons, List.nodup_append] at hnodup
  obtain ⟨_, hafter, hapart⟩ := hnodup
  have hbefore : id ∉ before.map (·.1) := fun h => hapart id h id List.mem_cons_self rfl
  rw [entriesAt_append, entriesAt_cons_self, entriesAt_eq_nil_of_not_mem hbefore,
    entriesAt_eq_nil_of_not_mem (List.nodup_cons.mp hafter).1]
  rfl

theorem entriesAt_map (f : α → β) :
    entriesAt n (l.map fun e => (e.1, f e.2)) = (entriesAt n l).map f := by
  induction l with
  | nil => rfl
  | cons e rest ih =>
      obtain ⟨id, a⟩ := e
      rw [List.map_cons]
      by_cases h : id.index = n
      · subst h
        rw [entriesAt_cons_self, entriesAt_cons_self, ih]
        rfl
      · rw [entriesAt_cons_of_ne h, entriesAt_cons_of_ne h, ih]

end Entries

/-! ## Actions that realise edges -/

/-- The conditional successors that actions add to the statement with this number. -/
def targetsAt (n : Nat) (actions : List Action) : List StmtId :=
  entriesAt n (actions.filterMap Action.addition?)

/-- The conditional successors that edges give the statement with this number. -/
def conditionalAt (n : Nat) (edges : List Edges) : List StmtId :=
  (entriesAt n edges).flatMap (·.conditional)

/-- The statements with their fallthrough successors. -/
def fallthroughs (edges : List Edges) : List (StmtId × Option StmtId) :=
  edges.map fun e => (e.1, e.2.fallthrough)

/-- Actions set the fallthrough successors of these edges, each once, and add their conditional
successors. -/
structure Realises (actions : List Action) (edges : List Edges) : Prop where
  assigned : (actions.filterMap Action.assignment?).Perm (fallthroughs edges)
  added : (edges.map (·.1)).Nodup → ∀ n, targetsAt n actions = conditionalAt n edges

/-- The same for the arms of a statement, which get edges as its conditional successors too. -/
structure RealisesArms (id : StmtId) (arms : List StmtId) (actions : List Action)
    (edges : List Edges) : Prop where
  assigned : (actions.filterMap Action.assignment?).Perm (fallthroughs edges)
  added : (id :: edges.map (·.1)).Nodup → ∀ n,
    targetsAt n actions = conditionalAt n ((id, { conditional := arms }) :: edges)

section Realises

variable {actions actions' : List Action} {edges edges' : List Edges} {id : StmtId} {n : Nat}

theorem targetsAt_append :
    targetsAt n (actions ++ actions') = targetsAt n actions ++ targetsAt n actions' := by
  simp [targetsAt]

theorem conditionalAt_append :
    conditionalAt n (edges ++ edges') = conditionalAt n edges ++ conditionalAt n edges' := by
  simp [conditionalAt]

theorem conditionalAt_cons (e : Edges) :
    conditionalAt n (e :: edges) =
      (if e.1.index = n then e.2.conditional else []) ++ conditionalAt n edges := by
  obtain ⟨id, s⟩ := e
  by_cases h : id.index = n <;> simp [conditionalAt, entriesAt, h]

theorem targetsAt_push (target : StmtId) :
    targetsAt n (.push id target :: actions) =
      (if id.index = n then [target] else []) ++ targetsAt n actions := by
  by_cases h : id.index = n <;> simp [targetsAt, Action.addition?, entriesAt, h]

theorem targetsAt_assign (target : Option StmtId) :
    targetsAt n (.assign id target :: actions) = targetsAt n actions := rfl

theorem Realises.nil : Realises [] [] :=
  ⟨.nil, fun _ _ => rfl⟩

theorem Realises.append (h : Realises actions edges) (h' : Realises actions' edges') :
    Realises (actions ++ actions') (edges ++ edges') where
  assigned := by
    rw [List.filterMap_append, fallthroughs, List.map_append]
    exact h.assigned.append h'.assigned
  added hnodup n := by
    rw [List.map_append] at hnodup
    obtain ⟨hnodup, hnodup', _⟩ := List.nodup_append.mp hnodup
    rw [targetsAt_append, conditionalAt_append, h.added hnodup, h'.added hnodup']

theorem Realises.enter (h : Realises actions edges) (block : StmtId) :
    Realises (.enter block :: actions) edges :=
  ⟨h.assigned, h.added⟩

/-- A statement without conditional successors that is assigned first. -/
theorem Realises.assignFirst (h : Realises actions edges) (target : Option StmtId) :
    Realises (.assign id target :: actions) ((id, { fallthrough := target }) :: edges) where
  assigned := h.assigned.cons (id, target)
  added hnodup n := by
    rw [targetsAt_assign, conditionalAt_cons, h.added (List.nodup_cons.mp hnodup).2]
    simp

/-- A statement without conditional successors that is assigned last. -/
theorem Realises.assignLast (h : Realises actions edges) (target : Option StmtId) :
    Realises (actions ++ [.assign id target]) ((id, { fallthrough := target }) :: edges) where
  assigned := by
    rw [List.filterMap_append]
    exact (List.perm_append_singleton (id, target) _).trans (h.assigned.cons _)
  added hnodup n := by
    rw [targetsAt_append, targetsAt_assign, conditionalAt_cons,
      h.added (List.nodup_cons.mp hnodup).2]
    simp [targetsAt]

/-- A loop, whose body is added before the inside of it is gone through. -/
theorem Realises.loop {body : StmtId} {first next : Option StmtId} (h : Realises actions edges) :
    Realises (.assign body first :: .push id body :: (actions ++ [.assign id next]))
      ((id, { fallthrough := next, conditional := [body] }) ::
        (body, { fallthrough := first }) :: edges) where
  assigned := by
    have hinside : ((actions ++ [Action.assign id next]).filterMap Action.assignment?).Perm
        ((id, next) :: fallthroughs edges) := by
      rw [List.filterMap_append]
      exact (List.perm_append_singleton (id, next) _).trans (h.assigned.cons _)
    exact (hinside.cons (body, first)).trans (.swap _ _ _)
  added hnodup n := by
    obtain ⟨_, hnodup⟩ := List.nodup_cons.mp hnodup
    obtain ⟨_, hnodup⟩ := List.nodup_cons.mp hnodup
    rw [targetsAt_assign, targetsAt_push, targetsAt_append, targetsAt_assign, conditionalAt_cons,
      conditionalAt_cons, h.added hnodup]
    simp [targetsAt]

theorem RealisesArms.nil : RealisesArms id [] [] [] where
  assigned := .nil
  added _ n := by
    rw [conditionalAt_cons]
    simp [targetsAt, conditionalAt]

/-- An arm in front of others. What is inside the arm adds nothing to the statement that owns it. -/
theorem RealisesArms.cons (arm : StmtId) (first : Option StmtId) {rest : List StmtId}
    (h : Realises actions edges) (h' : RealisesArms id rest actions' edges') :
    RealisesArms id (arm :: rest) (.push id arm :: .assign arm first :: (actions ++ actions'))
      ((arm, { fallthrough := first }) :: edges ++ edges') where
  assigned := by
    show ((arm, first) :: (actions ++ actions').filterMap Action.assignment?).Perm _
    rw [List.filterMap_append, fallthroughs, List.map_append]
    exact (h.assigned.append h'.assigned).cons (arm, first)
  added hnodup n := by
    obtain ⟨hid, hnodup⟩ := List.nodup_cons.mp hnodup
    rw [List.map_append, List.map_cons] at hid hnodup
    obtain ⟨hnodup, hnodup', _⟩ := List.nodup_append.mp hnodup
    have hinside := h.added (List.nodup_cons.mp hnodup).2
    have hothers := h'.added (List.nodup_cons.mpr
      ⟨fun hmem => hid (List.mem_append_right _ hmem), hnodup'⟩)
    -- what is inside the arm adds nothing to the statement that owns it
    have hnone : conditionalAt id.index edges = [] := by
      unfold conditionalAt
      rw [entriesAt_eq_nil_of_not_mem
        (fun hmem => hid (List.mem_append_left _ (List.mem_cons_of_mem _ hmem)))]
      rfl
    rw [targetsAt_push, targetsAt_assign, targetsAt_append, hinside, hothers, conditionalAt_cons,
      conditionalAt_cons, conditionalAt_append, conditionalAt_cons]
    by_cases hn : id.index = n
    · subst hn
      simp [hnone]
    · simp [hn]

/-- A branch, once all of its arms were gone through. -/
theorem Realises.branch {arms : List StmtId} {next : Option StmtId}
    (h : RealisesArms id arms actions edges) :
    Realises (actions ++ [.assign id next])
      ((id, { fallthrough := next, conditional := arms }) :: edges) where
  assigned := by
    rw [List.filterMap_append]
    exact (List.perm_append_singleton (id, next) _).trans (h.assigned.cons _)
  added hnodup n := by
    rw [targetsAt_append, targetsAt_assign, h.added hnodup, conditionalAt_cons, conditionalAt_cons]
    simp [targetsAt]

end Realises

/-! ## Courses that match results -/

/-- A course is refused only as this computation is, and comes to its end only as this computation
does, after actions that fit its result. -/
structure Matches {α : Type} (Fits : List Action → α → Prop) (c : Course)
    (result : Except EmulationError α) : Prop where
  refused : ∀ e, c.halt = some (.refused e) → result = .error e
  done : c.halt = none → ∃ a, result = .ok a ∧ Fits c.actions a

section Matches

variable {α β : Type} {Fits : List Action → α → Prop} {Fits' : List Action → β → Prop}

theorem Matches.ended {actions : List Action} {a : α} (h : Fits actions a) :
    Matches Fits { actions := actions } (.ok a) where
  refused _ hhalt := by cases hhalt
  done _ := ⟨a, rfl, h⟩

theorem Matches.refuse (e : EmulationError) : Matches Fits (.stop (.refused e)) (.error e) where
  refused e' hhalt := by
    obtain rfl := Halt.refused.inj (Option.some.inj hhalt)
    rfl
  done hhalt := by cases hhalt

/-- A course that stops for another cause than a refusal matches anything. -/
theorem Matches.stray {cause : Halt} {result : Except EmulationError α}
    (h : ∀ e, cause ≠ .refused e) : Matches Fits (.stop cause) result where
  refused e hhalt := absurd (Option.some.inj hhalt) (h e)
  done hhalt := by cases hhalt

/-- One course after the other matches one computation after the other. -/
theorem Matches.bind {c d : Course} {x : Except EmulationError α}
    {f : α → Except EmulationError β} (h : Matches Fits c x)
    (hnext : ∀ a, Fits c.actions a →
      Matches (fun actions b => Fits' (c.actions ++ actions) b) d (f a)) :
    Matches Fits' (c.andThen d) (x >>= f) := by
  cases hc : c.halt with
  | some cause =>
      rw [Course.andThen_of_halt hc]
      constructor
      · intro e hhalt
        rw [h.refused e hhalt]
        rfl
      · intro hhalt
        rw [hc] at hhalt
        cases hhalt
  | none =>
      obtain ⟨a, rfl, hfits⟩ := h.done hc
      have hrest := hnext a hfits
      rw [Course.andThen_of_end hc]
      exact ⟨hrest.refused, hrest.done⟩

/-- The same course matches a computation that goes on without failing. -/
theorem Matches.map {c : Course} {x : Except EmulationError α} {f : α → β}
    (h : Matches Fits c x) (hfits : ∀ a, Fits c.actions a → Fits' c.actions (f a)) :
    Matches Fits' c (x >>= fun a => .ok (f a)) where
  refused e hhalt := by
    rw [h.refused e hhalt]
    rfl
  done hhalt := by
    obtain ⟨a, rfl, ha⟩ := h.done hhalt
    exact ⟨f a, rfl, hfits a ha⟩

theorem Matches.imp {Fits' : List Action → α → Prop} {c : Course}
    {result : Except EmulationError α} (h : Matches Fits c result)
    (hfits : ∀ a, Fits c.actions a → Fits' c.actions a) : Matches Fits' c result where
  refused := h.refused
  done hhalt := by
    obtain ⟨a, ha, hfitting⟩ := h.done hhalt
    exact ⟨a, ha, hfits a hfitting⟩

theorem Matches.act {a : Action} {c : Course} {result : Except EmulationError α}
    (h : Matches (fun actions b => Fits (a :: actions) b) c result) :
    Matches Fits ((Course.act a).andThen c) result :=
  ⟨h.refused, h.done⟩

end Matches

/-! ## The descent matches the builder -/

section Through

variable {r : Draft}

theorem matches_enterOwned (block : StmtId) (ifEmpty : Option StmtId) :
    Matches (fun actions e => ∃ first, actions = [.assign block first] ∧
        e = (block, { fallthrough := first }))
      (enterOwned r block ifEmpty) (enterBlock r block ifEmpty) := by
  unfold enterOwned enterBlock
  cases r.stmt? block with
  | none => exact .stray (by simp)
  | some s =>
      cases s with
      | block stmts => exact .ended ⟨_, rfl, rfl⟩
      | _ =>
          exact .refuse _

variable {through : Course.Descent} {descend : Descent}

theorem matches_throughArms
    (h : ∀ block next inner, Matches Realises (through block next inner) (descend block next inner))
    (id : StmtId) (next : Option StmtId) (inner : Option LoopContext) (arms : List StmtId) :
    Matches (RealisesArms id arms) (throughArms r through id next inner arms)
      (wireArms r descend next inner arms) := by
  induction arms with
  | nil => exact .ended .nil
  | cons arm rest ih =>
      apply Matches.act
      refine (matches_enterOwned arm next).bind ?_
      rintro _ ⟨first, hentered, rfl⟩
      refine (h arm next inner).bind fun inside hinside => ?_
      refine ih.map fun others hothers => ?_
      have harms := RealisesArms.cons arm first hinside hothers
      rw [hentered]
      exact harms

theorem matches_throughStmt
    (h : ∀ block next inner, Matches Realises (through block next inner) (descend block next inner))
    (id : StmtId) (next : Option StmtId) (inner : Option LoopContext) :
    Matches Realises (throughStmt r through id next inner) (wireStmt r descend id next inner) := by
  have hleaf : ∀ target, Matches Realises (.act (.assign id target))
      (.ok [(id, { fallthrough := target })]) := fun target =>
    .ended (Realises.nil.assignFirst target)
  unfold throughStmt wireStmt
  cases r.stmt? id with
  | none => exact .stray (by simp)
  | some s =>
      cases s with
      | loop kind predicate body =>
          refine (matches_enterOwned body (some id)).bind ?_
          rintro _ ⟨first, hentered, rfl⟩
          apply Matches.act
          refine (h body _ _).bind fun inside hinside => .ended ?_
          rw [hentered]
          exact hinside.loop
      | ifElse branches default =>
          exact (matches_throughArms h id next inner _).bind fun _ harms => .ended (.branch harms)
      | block stmts =>
          exact (h id next inner).bind fun _ hinside => .ended (hinside.assignLast _)
      | breakLoop label | continueLoop label =>
          cases label with
          | some target => exact hleaf _
          | none =>
              cases inner with
              | some loop => exact hleaf _
              | none => exact .refuse _
      | switch value cases default => exact .refuse _
      | assign | goto | label | ret | jumpFar | call | decl => exact hleaf _

theorem matches_throughStmts
    (h : ∀ block next inner, Matches Realises (through block next inner) (descend block next inner))
    (follow : Option StmtId) (inner : Option LoopContext) (stmts : List StmtId) :
    Matches Realises (throughStmts r through follow inner stmts)
      (wireStmts r descend follow inner stmts) := by
  induction stmts with
  | nil => exact .ended .nil
  | cons id rest ih =>
      refine (matches_throughStmt h id _ inner).bind fun first hfirst => ?_
      exact ih.map fun others hothers => hfirst.append hothers

theorem matches_throughBlock (depth : Nat) (block : StmtId) (follow : Option StmtId)
    (inner : Option LoopContext) :
    Matches Realises (throughBlock r depth block follow inner)
      (wireBlock r depth block follow inner) := by
  induction depth generalizing block follow inner with
  | zero => exact .stray (by simp)
  | succ depth ih =>
      unfold throughBlock wireBlock
      apply Matches.act
      cases r.stmt? block with
      | none => exact .stray (by simp)
      | some s =>
          cases s with
          | block stmts =>
              exact (matches_throughStmts ih follow inner stmts).imp fun _ h => h.enter block
          | _ => exact .ended (Realises.nil.enter block)

/-- A descent, nested as deep as the builder allows for, matches the wiring of the routine. -/
theorem matches_descent (r : Draft) : Matches Realises (descent r r.size) (wiring r) := by
  apply Matches.act
  exact (matches_throughBlock r.size r.body none none).map fun _ hinside => hinside.assignFirst _

end Through

/-! ## Replaying the actions -/

/-- The fallthrough successors that actions set for the statement with this number. -/
def assignedAt (n : Nat) (actions : List Action) : List (Option StmtId) :=
  entriesAt n (actions.filterMap Action.assignment?)

/-- A slot once actions were replayed: it has what was set last, and all that was added. -/
theorem getElem?_replay (actions : List Action) (table : Array Successors) (n : Nat) :
    (replay actions table)[n]? = table[n]?.map fun s =>
      { fallthrough := (assignedAt n actions).getLast?.getD s.fallthrough
        conditional := s.conditional ++ targetsAt n actions } := by
  induction actions generalizing table with
  | nil => simp [replay, assignedAt, targetsAt]
  | cons a rest ih =>
      show (replay rest (a.apply table))[n]? = _
      rw [ih]
      cases a with
      | enter block => rfl
      | assign id target =>
          rw [Action.apply, Array.getElem?_modify, targetsAt_assign]
          by_cases h : id.index = n
          · have hassigned : assignedAt n (.assign id target :: rest) =
                target :: assignedAt n rest := by
              subst h
              exact entriesAt_cons_self
            rw [if_pos h, Option.map_map, hassigned, List.getLast?_cons]
            rfl
          · have hassigned : assignedAt n (.assign id target :: rest) = assignedAt n rest :=
              entriesAt_cons_of_ne h
            rw [if_neg h, hassigned]
      | push id target =>
          rw [Action.apply, Array.getElem?_modify, targetsAt_push]
          by_cases h : id.index = n
          · rw [if_pos h, if_pos h, Option.map_map]
            simp only [Function.comp_def, List.append_assoc]
            rfl
          · rw [if_neg h, if_neg h, List.nil_append]
            rfl

/-- Actions that realise edges make the table of these edges, where no statement has two. -/
theorem replay_eq_writeAll {actions : List Action} {edges : List Edges}
    (h : Realises actions edges) (hnodup : (edges.map (·.1)).Nodup) (size : Nat) :
    replay actions (Array.replicate size {}) = writeAll edges (Array.replicate size {}) := by
  apply Array.ext_getElem?
  intro n
  have hassigned : (assignedAt n actions).Perm (entriesAt n (fallthroughs edges)) :=
    h.assigned.filterMap _
  have hadded := h.added hnodup n
  rw [getElem?_replay]
  by_cases hn : n < size
  · rw [Array.getElem?_replicate, if_pos hn, Option.map_some]
    -- a slot with an edge, and one that is left empty
    by_cases hsome : ∃ e ∈ edges, e.1.index = n
    · obtain ⟨⟨id, s⟩, he, rfl⟩ := hsome
      have hentry : entriesAt id.index edges = [s] := entriesAt_of_mem hnodup he
      have hfall : entriesAt id.index (fallthroughs edges) = [s.fallthrough] := by
        rw [fallthroughs, entriesAt_map, hentry]
        rfl
      rw [hfall] at hassigned
      have hagree : ∀ e ∈ edges, e.1.index = id.index → e.2 = s := by
        rintro ⟨id', s'⟩ he' hindex
        obtain rfl := StmtId.eq_of_index hindex
        have hentry' := entriesAt_of_mem hnodup he'
        rw [hentry] at hentry'
        exact (List.cons.inj hentry').1.symm
      rw [List.perm_singleton.mp hassigned, hadded, conditionalAt, hentry,
        getElem?_writeAll_of_agree hagree ⟨_, he, rfl⟩ (by rw [Array.size_replicate]; exact hn)]
      simp
    · have hne : ∀ e ∈ edges, e.1.index ≠ n := fun e he hindex => hsome ⟨e, he, hindex⟩
      have hentry : entriesAt n edges = [] := entriesAt_eq_nil hne
      rw [fallthroughs, entriesAt_map, hentry] at hassigned
      rw [hassigned.eq_nil, hadded, conditionalAt, hentry, getElem?_writeAll_of_forall_ne hne,
        Array.getElem?_replicate, if_pos hn]
      rfl
  · -- neither table has a slot there
    have hsize : (writeAll edges (Array.replicate size {})).size ≤ n := by
      rw [size_writeAll, Array.size_replicate]
      exact Nat.le_of_not_lt hn
    rw [Array.getElem?_replicate, if_neg hn, Array.getElem?_eq_none hsize]
    rfl

end RoutineEmulator.Graph
