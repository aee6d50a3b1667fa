import RoutineEmulator.Graph
import RoutineEmulator.Proofs.Routine.Containment
/-!
The successor relation of a routine, told through parents, and the proof that the graph has it.

`follow` says where control goes after a statement by climbing its parents, and `successorsAt` says
what the edges of a statement are. The graph is built the other way, by descending from the body.
`Wires` says of a list of edges that each of them is right and that no statement below its roots is
left out; every step of the descent keeps it.
-/

namespace RoutineEmulator.Graph

/-! ## Successors through parents -/

/-- The statement that stands behind another one in a list. -/
def nextSibling? : List StmtId → StmtId → Option StmtId
  | [], _ => none
  | first :: rest, id => if first = id then rest.head? else nextSibling? rest id

/-- Where control goes after a child of `parent`, when it goes to `next` after the parent. Behind
the last statement of a block it goes where it goes after the block, and a loop body leads back to
the header of its loop. -/
def followIn (r : Draft) (parent id : StmtId) (next : Option StmtId) : Option StmtId :=
  match r.stmt? parent with
  | some (.block stmts) => nextSibling? stmts id <|> next
  | some (.loop ..) => some parent
  | _ => next

/-- Where control goes after a statement with these parents, the nearest first. After the body it
leaves the routine. -/
def follow (r : Draft) : StmtId → List StmtId → Option StmtId
  | _, [] => none
  | id, parent :: path => followIn r parent id (follow r parent path)

/-- The innermost loop among the parents of a statement, with the parents of the loop. -/
def innermostLoop? (r : Draft) : List StmtId → Option (StmtId × List StmtId)
  | [] => none
  | parent :: path =>
    match r.stmt? parent with
    | some (.loop ..) => some (parent, path)
    | _ => innermostLoop? r path

/-- The fallthrough successor of a statement with these parents. -/
def fallthroughAt (r : Draft) (id : StmtId) (path : List StmtId) : Option StmtId :=
  match r.stmt? id with
  | some (.goto target) | some (.breakLoop (some target)) | some (.continueLoop (some target)) =>
    some target
  | some (.ret _) | some (.jumpFar _) => none
  | some (.breakLoop none) => (innermostLoop? r path).bind fun (loop, above) => follow r loop above
  | some (.continueLoop none) => (innermostLoop? r path).map fun (loop, _) => loop
  | some (.block stmts) => stmts.head? <|> follow r id path
  | _ => follow r id path

/-- The conditional targets of a statement: a loop has its body, and an `if` has its arms in source
order with the default behind them. -/
def targetsOf : Stmt → List StmtId
  | .loop _ _ body => [body]
  | .ifElse branches default => branches.map (·.block) ++ default.toList
  | _ => []

/-- The edges of a statement with these parents. -/
def successorsAt (r : Draft) (id : StmtId) (path : List StmtId) : Successors where
  fallthrough := fallthroughAt r id path
  conditional := (r.stmt? id).elim [] targetsOf

/-! ## The descent climbs along -/

/-- The innermost loop around a statement with these parents, as the descent carries it. -/
def loopContext (r : Draft) (path : List StmtId) : Option LoopContext :=
  (innermostLoop? r path).map fun (loop, above) => { header := loop, exit := follow r loop above }

section Climbing

variable {r : Draft} {id parent : StmtId} {path : List StmtId}

/-- A statement behind others in a list that has no statement twice. -/
theorem nextSibling?_append {before rest : List StmtId} (h : id ∉ before) :
    nextSibling? (before ++ id :: rest) id = rest.head? := by
  induction before with
  | nil => exact if_pos rfl
  | cons first before ih =>
      have hne : first ≠ id := fun heq => h (heq ▸ List.mem_cons_self)
      have hbefore : id ∉ before := fun hmem => h (List.mem_cons_of_mem first hmem)
      rw [List.cons_append, nextSibling?, if_neg hne, ih hbefore]

theorem follow_in_block {before rest : List StmtId}
    (hparent : r.stmt? parent = some (.block (before ++ id :: rest)))
    (hbefore : id ∉ before) :
    follow r id (parent :: path) = (rest.head? <|> follow r parent path) := by
  rw [follow, followIn, hparent]
  simp only [nextSibling?_append hbefore]

theorem follow_in_loop {kind : LoopKind} {predicate : Expr} {body : StmtId}
    (hparent : r.stmt? parent = some (.loop kind predicate body)) :
    follow r id (parent :: path) = some parent := by
  rw [follow, followIn, hparent]

theorem follow_in_branch {branches : List Branch} {default : Option StmtId}
    (hparent : r.stmt? parent = some (.ifElse branches default)) :
    follow r id (parent :: path) = follow r parent path := by
  rw [follow, followIn, hparent]

theorem loopContext_in_loop {kind : LoopKind} {predicate : Expr} {body : StmtId}
    (hparent : r.stmt? parent = some (.loop kind predicate body)) :
    loopContext r (parent :: path) = some { header := parent, exit := follow r parent path } := by
  rw [loopContext, innermostLoop?, hparent]
  rfl

theorem loopContext_in_block {stmts : List StmtId} (path : List StmtId)
    (hparent : r.stmt? parent = some (.block stmts)) :
    loopContext r (parent :: path) = loopContext r path := by
  rw [loopContext, innermostLoop?, hparent]
  rfl

theorem loopContext_in_branch {branches : List Branch} {default : Option StmtId}
    (hparent : r.stmt? parent = some (.ifElse branches default)) :
    loopContext r (parent :: path) = loopContext r path := by
  rw [loopContext, innermostLoop?, hparent]
  rfl

end Climbing

/-! ## Right edges -/

/-- A statement with its edges, and a place in the body that gives it these edges. -/
def RightEdges (r : Draft) (e : Edges) : Prop :=
  ∃ path, r.Ancestors e.1 path ∧ e.2 = successorsAt r e.1 path

/-- One statement contains another, or is it. -/
inductive Contains (r : Draft) : StmtId → StmtId → Prop
  | self (id : StmtId) : Contains r id id
  | child {id child inside : StmtId} {s : Stmt} :
      r.stmt? id = some s → child ∈ s.children → Contains r child inside → Contains r id inside

/-- Right edges, with some for every statement that the roots contain. -/
structure Wires (r : Draft) (roots : List StmtId) (edges : List Edges) : Prop where
  right : ∀ e ∈ edges, RightEdges r e
  covers : ∀ root ∈ roots, ∀ id, Contains r root id → ∃ e ∈ edges, e.1 = id

section Wires

variable {r : Draft} {roots roots' : List StmtId} {edges edges' inside : List Edges} {id : StmtId}
  {path : List StmtId}

theorem Wires.nil (r : Draft) : Wires r [] [] :=
  ⟨by simp, by simp⟩

theorem Wires.append (h : Wires r roots edges) (h' : Wires r roots' edges') :
    Wires r (roots ++ roots') (edges ++ edges') where
  right e he := by
    rcases List.mem_append.mp he with he | he
    · exact h.right e he
    · exact h'.right e he
  covers root hroot id hid := by
    rcases List.mem_append.mp hroot with hroot | hroot
    · obtain ⟨e, he, hfst⟩ := h.covers root hroot id hid
      exact ⟨e, List.mem_append_left _ he, hfst⟩
    · obtain ⟨e, he, hfst⟩ := h'.covers root hroot id hid
      exact ⟨e, List.mem_append_right _ he, hfst⟩

/-- A statement with its edges, in front of those of its children. -/
theorem Wires.node {s : Stmt} {successors : Successors} (hpath : r.Ancestors id path)
    (hs : r.stmt? id = some s) (hfall : successors.fallthrough = fallthroughAt r id path)
    (hcond : successors.conditional = targetsOf s) (h : Wires r s.children inside) :
    Wires r [id] ((id, successors) :: inside) where
  right e he := by
    rcases List.mem_cons.mp he with rfl | he
    · refine ⟨path, hpath, ?_⟩
      rw [successorsAt, ← hfall, hs, Option.elim_some, ← hcond]
    · exact h.right e he
  covers root hroot other hother := by
    obtain rfl := List.mem_singleton.mp hroot
    cases hother with
    | self => exact ⟨_, List.mem_cons_self, rfl⟩
    | child hs' hchild hother =>
        rw [hs] at hs'
        obtain rfl := Option.some.inj hs'
        obtain ⟨e, he, hfst⟩ := h.covers _ hchild other hother
        exact ⟨e, List.mem_cons_of_mem _ he, hfst⟩

end Wires

/-! ## The descent -/

/-- What a descent into a block with at least so many parents is to find. -/
def Descends (r : Draft) (descend : Descent) (parents : Nat) : Prop :=
  ∀ {block : StmtId} {path stmts : List StmtId} {edges : List Edges},
    r.Ancestors block path → parents ≤ path.length → r.stmt? block = some (.block stmts) →
    descend block (follow r block path) (loopContext r path) = .ok edges → Wires r stmts edges

theorem enterBlock_eq_ok {r : Draft} {block : StmtId} {ifEmpty : Option StmtId} {e : Edges}
    (h : enterBlock r block ifEmpty = .ok e) :
    ∃ stmts, r.stmt? block = some (.block stmts) ∧
      e = (block, { fallthrough := stmts.head? <|> ifEmpty }) := by
  unfold enterBlock at h
  split at h
  · rename_i stmts hblock
    exact ⟨stmts, hblock, (Except.ok.inj h).symm⟩
  · cases h

section Descent

variable {r : Draft} {descend : Descent} {parents : Nat} {id : StmtId} {path : List StmtId}
  {edges : List Edges}

/-- A block that another statement owns, entered and descended into. -/
theorem wires_of_owned (hdescend : Descends r descend parents) {e : Edges}
    (hpath : r.Ancestors id path) (hdeep : parents ≤ path.length)
    (hentered : enterBlock r id (follow r id path) = .ok e)
    (hinside : descend id (follow r id path) (loopContext r path) = .ok edges) :
    Wires r [id] (e :: edges) := by
  obtain ⟨stmts, hblock, rfl⟩ := enterBlock_eq_ok hentered
  refine Wires.node hpath hblock ?_ rfl (hdescend hpath hdeep hblock hinside)
  rw [fallthroughAt, hblock]

/-- The arms of an `if`. -/
theorem wires_of_wireArms (hdescend : Descends r descend parents) {next : Option StmtId}
    {inner : Option LoopContext} {arms : List StmtId} (hdeep : parents ≤ path.length)
    (hpath : ∀ arm ∈ arms, r.Ancestors arm path) (hnext : ∀ arm ∈ arms, follow r arm path = next)
    (hinner : loopContext r path = inner) (h : wireArms r descend next inner arms = .ok edges) :
    Wires r arms edges := by
  induction arms generalizing edges with
  | nil =>
      obtain rfl := Except.ok.inj h
      exact .nil r
  | cons arm rest ih =>
      obtain ⟨entered, hentered, h⟩ := bind_eq_ok_iff.mp h
      obtain ⟨inside, hinside, h⟩ := bind_eq_ok_iff.mp h
      obtain ⟨others, hothers, h⟩ := bind_eq_ok_iff.mp h
      obtain rfl := Except.ok.inj h
      rw [← hnext arm List.mem_cons_self] at hentered hinside
      rw [← hinner] at hinside
      have hfirst := wires_of_owned hdescend (hpath arm List.mem_cons_self) hdeep hentered hinside
      exact hfirst.append
        (ih (fun other hother => hpath other (List.mem_cons_of_mem arm hother))
          (fun other hother => hnext other (List.mem_cons_of_mem arm hother)) hothers)

/-- A statement without children. -/
theorem wires_of_leaf {s : Stmt} (hpath : r.Ancestors id path) (hs : r.stmt? id = some s)
    (hleaf : s.children = []) (hcond : targetsOf s = []) :
    Wires r [id] [(id, { fallthrough := fallthroughAt r id path })] :=
  Wires.node hpath hs rfl hcond.symm (by rw [hleaf]; exact .nil r)

/-- Any statement. -/
theorem wires_of_wireStmt (hr : r.WellFormed) (hdescend : Descends r descend parents)
    (hpath : r.Ancestors id path) (hdeep : parents ≤ path.length)
    (h : wireStmt r descend id (follow r id path) (loopContext r path) = .ok edges) :
    Wires r [id] edges := by
  obtain ⟨s, hs⟩ := hpath.exists_stmt hr
  have hleaf := fun hchildren => wires_of_leaf (s := s) hpath hs hchildren
  have hdeep' : parents ≤ (id :: path).length := Nat.le_succ_of_le hdeep
  unfold wireStmt at h
  rw [hs] at h
  cases s with
  | loop kind predicate body =>
      obtain ⟨entered, hentered, h⟩ := bind_eq_ok_iff.mp h
      obtain ⟨inside, hinside, h⟩ := bind_eq_ok_iff.mp h
      obtain rfl := Except.ok.inj h
      have hbody : r.Ancestors body (id :: path) := .child hpath hs List.mem_cons_self
      rw [← follow_in_loop hs] at hentered hinside
      rw [← loopContext_in_loop hs] at hinside
      refine Wires.node hpath hs ?_ rfl
        (wires_of_owned hdescend hbody hdeep' hentered hinside)
      rw [fallthroughAt, hs]
  | ifElse branches default =>
      obtain ⟨inside, hinside, h⟩ := bind_eq_ok_iff.mp h
      obtain rfl := Except.ok.inj h
      refine Wires.node hpath hs ?_ rfl
        (wires_of_wireArms hdescend hdeep' (fun arm harm => .child hpath hs harm)
          (fun arm _ => follow_in_branch hs) (loopContext_in_branch hs) hinside)
      rw [fallthroughAt, hs]
  | block stmts =>
      obtain ⟨inside, hinside, h⟩ := bind_eq_ok_iff.mp h
      obtain rfl := Except.ok.inj h
      refine Wires.node hpath hs ?_ rfl (hdescend hpath hdeep hs hinside)
      rw [fallthroughAt, hs]
  | switch value cases default => cases h
  | breakLoop label =>
      cases label with
      | some target =>
          obtain rfl := Except.ok.inj h
          simpa [fallthroughAt, hs] using hleaf rfl rfl
      | none =>
          -- the loop that the descent carries is the one that climbing finds
          cases hloop : innermostLoop? r path with
          | none => simp [loopContext, hloop] at h
          | some found =>
              simp only [loopContext, hloop, Option.map_some] at h
              obtain rfl := Except.ok.inj h
              simpa [fallthroughAt, hs, hloop] using hleaf rfl rfl
  | continueLoop label =>
      cases label with
      | some target =>
          obtain rfl := Except.ok.inj h
          simpa [fallthroughAt, hs] using hleaf rfl rfl
      | none =>
          cases hloop : innermostLoop? r path with
          | none => simp [loopContext, hloop] at h
          | some found =>
              simp only [loopContext, hloop, Option.map_some] at h
              obtain rfl := Except.ok.inj h
              simpa [fallthroughAt, hs, hloop] using hleaf rfl rfl
  | assign | goto | label | ret | jumpFar | call | decl =>
      obtain rfl := Except.ok.inj h
      simpa [fallthroughAt, hs] using hleaf rfl rfl

/-- The statements of a block, from one of them on. -/
theorem wires_of_wireStmts (hr : r.WellFormed) (hdescend : Descends r descend parents)
    {block : StmtId} (before : List StmtId) {rest : List StmtId} (hpath : r.Ancestors block path)
    (hdeep : parents ≤ path.length + 1) (hblock : r.stmt? block = some (.block (before ++ rest)))
    (h : wireStmts r descend (follow r block path) (loopContext r path) rest = .ok edges) :
    Wires r rest edges := by
  induction rest generalizing before edges with
  | nil =>
      obtain rfl := Except.ok.inj h
      exact .nil r
  | cons id rest ih =>
      obtain ⟨first, hfirst, h⟩ := bind_eq_ok_iff.mp h
      obtain ⟨others, hothers, h⟩ := bind_eq_ok_iff.mp h
      obtain rfl := Except.ok.inj h
      have hchild : r.Ancestors id (block :: path) := .child hpath hblock (by simp [Stmt.children])
      -- where this place of the block leads is where the parents of the statement lead
      rw [← follow_in_block hblock (hr.not_mem_before hblock),
        ← loopContext_in_block path hblock] at hfirst
      refine (wires_of_wireStmt hr hdescend hchild hdeep hfirst).append ?_
      exact ih (before ++ [id]) (by simpa using hblock) hothers

end Descent

/-- A descent that allows for enough nesting finds all edges in a block. -/
theorem descends_wireBlock {r : Draft} (hr : r.WellFormed) (depth : Nat) :
    Descends r (wireBlock r depth) (r.size - depth) := by
  induction depth with
  | zero =>
      -- so many parents do not exist
      intro block path stmts edges hpath hdeep
      have := hpath.length_lt hr
      omega
  | succ depth ih =>
      intro block path stmts edges hpath hdeep hblock h
      rw [wireBlock, hblock] at h
      exact wires_of_wireStmts hr ih [] hpath (by omega) hblock h

theorem wires_of_wiring {r : Draft} {edges : List Edges} (hr : r.WellFormed)
    (h : wiring r = .ok edges) : Wires r [r.body] edges := by
  obtain ⟨inside, hinside, h⟩ := bind_eq_ok_iff.mp h
  obtain rfl := Except.ok.inj h
  obtain ⟨stmts, hbody⟩ := hr.exists_body
  refine Wires.node .body hbody ?_ rfl
    (descends_wireBlock hr r.size .body (by omega) hbody hinside)
  rw [fallthroughAt, hbody]
  simp [Draft.entry?, Draft.bodyStmts, hbody, follow]

end RoutineEmulator.Graph
