import RoutineEmulator.Routine.Builder
/-!
Calls of a builder.

A `Declaration` is a call that adds an identifier, a `Request` one that adds a statement. A request
wraps each body that it takes in a block of its own, in source order, and then adds the statement
that holds these blocks. `Request.run_perform` says that this is all that it does, so that nothing
about a call needs to be read off the builder again.
-/

namespace RoutineEmulator

/-! ## Declarations -/

/-- A call that declares an identifier. -/
inductive Declaration where
  | ident (identifier : Identifier)
  | localVar (name type : String) (offset : Int64)
  | globalVar (name type : String) (address : UInt64)
  | registerVar (name type : String) (id : RegisterId)
  | parameterVar (name type : String) (id : RegisterId)

namespace Declaration

/-- What it declares. -/
def identifier : Declaration → Identifier
  | ident identifier => identifier
  | localVar name type offset => { name, storage := .local, type, address := offset }
  | globalVar name type address => { name, storage := .global, type, address := address.toInt64 }
  | registerVar name type id => { id, name, storage := .register, type }
  | parameterVar name type id => { id, name, storage := .parameter, type }

def perform : Declaration → StateM Builder IdentId
  | ident identifier => Builder.ident identifier
  | localVar name type offset => Builder.localVar name type offset
  | globalVar name type address => Builder.globalVar name type address
  | registerVar name type id => Builder.registerVar name type id
  | parameterVar name type id => Builder.parameterVar name type id

/-- A declaration is put behind the identifiers, and answered with its position. -/
theorem run_perform (d : Declaration) (b : Builder) : d.perform.run b =
    (⟨UInt32.ofNat b.idents.size⟩, { b with idents := b.idents.push d.identifier }) := by
  cases d <;> rfl

end Declaration

/-! ## Requests -/

/-- A call that adds a statement. -/
inductive Request where
  | assign (lhs rhs : Expr)
  | declare (ident : IdentId) (rhs : Expr)
  | compoundAssign (o : Operator) (lhs rhs : Expr)
  | decl (ident : IdentId)
  | block (stmts : List StmtId)
  | ifElse (branches : List (Expr × List StmtId)) (default : Option (List StmtId))
  | ifThen (predicate : Expr) (body : List StmtId)
  | loop (kind : LoopKind) (predicate : Expr) (body : List StmtId)
  | label (name : String)
  | goto (target : StmtId)
  | ret (value : Option Expr)
  | jumpFar (target : Expr)
  | call (c : Call)
  | breakLoop (target : Option StmtId)
  | continueLoop (target : Option StmtId)
  | switch (value : Expr) (cases : List (List Int64 × List StmtId))
      (default : Option (List StmtId))

namespace Request

def perform : Request → StateM Builder StmtId
  | assign lhs rhs => Builder.assign lhs rhs
  | declare ident rhs => Builder.declare ident rhs
  | compoundAssign o lhs rhs => Builder.compoundAssign o lhs rhs
  | decl ident => Builder.decl ident
  | block stmts => Builder.block stmts
  | ifElse branches default => Builder.ifElse branches default
  | ifThen predicate body => Builder.ifThen predicate body
  | loop kind predicate body => Builder.loop kind predicate body
  | label name => Builder.label name
  | goto target => Builder.goto target
  | ret value => Builder.ret value
  | jumpFar target => Builder.jumpFar target
  | call c => Builder.call c
  | breakLoop target => Builder.breakLoop target
  | continueLoop target => Builder.continueLoop target
  | switch value cases default => Builder.switch value cases default

/-- The bodies, each of which gets a block of its own; the default stands last. -/
def bodies : Request → List (List StmtId)
  | ifElse branches default => branches.map (·.2) ++ default.toList
  | ifThen _ body | loop _ _ body => [body]
  | switch _ cases default => cases.map (·.2) ++ default.toList
  | _ => []

/-- The statements that become members of the new statement itself. -/
def members : Request → List StmtId
  | block stmts => stmts
  | _ => []

/-- All statements that get their place by the call. -/
def placed (request : Request) : List StmtId :=
  request.bodies.flatten ++ request.members

/-- The labels that the new statement may jump to. -/
def targets : Request → List StmtId
  | goto target => [target]
  | breakLoop target | continueLoop target => target.toList
  | _ => []

/-- The identifiers that the call refers to. -/
def idents : Request → List IdentId
  | assign lhs rhs | compoundAssign _ lhs rhs => lhs.idents ++ rhs.idents
  | declare ident rhs => ident :: rhs.idents
  | decl ident => [ident]
  | ifElse branches _ => branches.flatMap (·.1.idents)
  | ifThen predicate _ | loop _ predicate _ => predicate.idents
  | ret value => value.toList.flatMap Expr.idents
  | jumpFar target => target.idents
  | call c => c.subexprs.filterMap Expr.ident?
  | switch value _ _ => value.idents
  | block _ | label _ | goto _ | breakLoop _ | continueLoop _ => []

/-- The statement that the call describes, with its bodies in these blocks. -/
def stmt (blocks : List StmtId) : Request → Stmt
  | assign lhs rhs => .assign lhs rhs none false
  | declare ident rhs => .assign (.ident ident) rhs none true
  | compoundAssign o lhs rhs => .assign lhs rhs (some o) false
  | decl ident => .decl ident
  | block stmts => .block stmts
  | ifElse branches default =>
    .ifElse (branches.zipWith (fun branch block => { predicate := branch.1, block }) blocks)
      (default.bind fun _ => blocks[branches.length]?)
  | ifThen predicate _ => .ifElse (blocks.map fun block => { predicate, block }) none
  | loop kind predicate _ => .loop kind predicate (blocks.headD default)
  | label name => .label name
  | goto target => .goto target
  | ret value => .ret value
  | jumpFar target => .jumpFar target
  | call c => .call c
  | breakLoop target => .breakLoop target
  | continueLoop target => .continueLoop target
  | switch value cases default =>
    .switch value (cases.zipWith (fun arm block => { values := arm.1, block }) blocks)
      (default.bind fun _ => blocks[cases.length]?)

/-! ## The statement of a request -/

section Arms

variable {α β γ : Type} (f : α → StmtId → β)

/-- The blocks of arms, and of a default behind them, are all the blocks there are. -/
theorem blocks_of_arms (block : β → StmtId) (hblock : ∀ a id, block (f a id) = id) (arms : List α)
    (default : Option γ) {blocks : List StmtId}
    (h : blocks.length = arms.length + default.toList.length) :
    (arms.zipWith f blocks).map block ++ (default.bind fun _ => blocks[arms.length]?).toList =
      blocks := by
  have harms : (arms.zipWith f blocks).map block = blocks.take arms.length := by
    clear h
    induction arms generalizing blocks with
    | nil => simp
    | cons arm rest ih =>
        cases blocks with
        | nil => rfl
        | cons id blocks =>
            rw [List.zipWith_cons_cons, List.map_cons, hblock, ih, List.length_cons,
              List.take_succ_cons]
  rw [harms]
  cases default with
  | none =>
      rw [Option.bind_none, Option.toList_none, List.append_nil]
      exact List.take_of_length_le (Nat.le_of_eq h)
  | some _ =>
      rw [Option.bind_some, ← List.take_add_one]
      exact List.take_of_length_le (Nat.le_of_eq h)

/-- What stands in the arms apart from their blocks is kept. -/
theorem flatMap_of_arms {δ : Type} (part : β → List δ) (part' : α → List δ)
    (hpart : ∀ a id, part (f a id) = part' a) (arms : List α) {blocks : List StmtId}
    (h : arms.length ≤ blocks.length) :
    (arms.zipWith f blocks).flatMap part = arms.flatMap part' := by
  induction arms generalizing blocks with
  | nil => rfl
  | cons arm rest ih =>
      cases blocks with
      | nil => exact absurd h (Nat.not_succ_le_zero _)
      | cons id blocks =>
          rw [List.zipWith_cons_cons, List.flatMap_cons, List.flatMap_cons, hpart,
            ih (Nat.le_of_succ_le_succ h)]

end Arms

section Stmt

variable (request : Request) {blocks : List StmtId}

theorem jumpTargets_stmt : (request.stmt blocks).jumpTargets = request.targets := by
  cases request with
  | breakLoop target | continueLoop target => cases target <;> rfl
  | _ => rfl

variable (h : blocks.length = request.bodies.length)

include h

theorem bodies_stmt : (request.stmt blocks).bodies = blocks := by
  cases request with
  | ifElse branches default =>
      exact blocks_of_arms _ _ (fun _ _ => rfl) branches default (by simpa [bodies] using h)
  | switch value cases default =>
      exact blocks_of_arms _ _ (fun _ _ => rfl) cases default (by simpa [bodies] using h)
  | ifThen | loop =>
      obtain ⟨block, rfl⟩ := List.length_eq_one_iff.mp h
      rfl
  | _ =>
      obtain rfl := List.length_eq_zero_iff.mp h
      rfl

theorem children_stmt : (request.stmt blocks).children = request.members ++ blocks := by
  have hbodies := request.bodies_stmt h
  cases request with
  | block stmts =>
      obtain rfl := List.length_eq_zero_iff.mp h
      exact (List.append_nil stmts).symm
  | _ => exact hbodies

theorem identsOf_stmt : Draft.identsOf (request.stmt blocks) = request.idents := by
  unfold Draft.identsOf
  cases request with
  | ifElse branches default =>
      have hlength : branches.length ≤ blocks.length := by
        simp only [bodies, List.length_append, List.length_map] at h
        omega
      rw [stmt, Stmt.exprs, List.append_nil, List.filterMap_flatMap]
      exact flatMap_of_arms (fun branch block => Branch.mk branch.1 block)
        (fun branch => branch.predicate.idents) (fun branch => branch.1.idents) (fun _ _ => rfl)
        branches hlength
  | ifThen predicate body =>
      obtain ⟨block, rfl⟩ := List.length_eq_one_iff.mp h
      simp [stmt, Stmt.exprs, idents, Expr.idents]
  | ret value => cases value <;> simp [stmt, Stmt.exprs, idents, Expr.idents]
  | _ => simp [stmt, Stmt.exprs, idents, Expr.idents, Expr.subexprs, Expr.ident?]

end Stmt

end Request

/-! ## What a request adds -/

namespace Builder

/-- The builder with these statements more. -/
def extend (b : Builder) (stmts : List Stmt) : Builder :=
  { b with stmts := b.stmts ++ stmts.toArray }

@[simp] theorem extend_nil (b : Builder) : b.extend [] = b := by
  simp [extend]

@[simp] theorem extend_extend (b : Builder) (first more : List Stmt) :
    (b.extend first).extend more = b.extend (first ++ more) := by
  simp [extend]

@[simp] theorem size_extend (b : Builder) (stmts : List Stmt) :
    (b.extend stmts).stmts.size = b.stmts.size + stmts.length := by
  simp [extend]

theorem getElem?_extend_left {b : Builder} {n : Nat} (h : n < b.stmts.size) (stmts : List Stmt) :
    (b.extend stmts).stmts[n]? = b.stmts[n]? :=
  Array.getElem?_append_left h

theorem getElem?_extend_right (b : Builder) (stmts : List Stmt) (i : Nat) :
    (b.extend stmts).stmts[b.stmts.size + i]? = stmts[i]? := by
  unfold extend
  rw [Array.getElem?_append_right (Nat.le_add_right _ _), Nat.add_sub_cancel_left,
    List.getElem?_toArray]

theorem toList_extend (b : Builder) (stmts : List Stmt) :
    (b.extend stmts).stmts.toList = b.stmts.toList ++ stmts := by
  unfold extend
  rw [Array.toList_append]

/-- A statement of a builder that grows was there before, or is one of the new ones. -/
theorem getElem?_extend_cases {b : Builder} {stmts : List Stmt} {n : Nat} {s : Stmt}
    (h : (b.extend stmts).stmts[n]? = some s) :
    b.stmts[n]? = some s ∨ ∃ i, n = b.stmts.size + i ∧ stmts[i]? = some s := by
  by_cases hn : n < b.stmts.size
  · exact .inl ((getElem?_extend_left hn stmts).symm.trans h)
  · obtain ⟨i, rfl⟩ := Nat.exists_eq_add_of_le (Nat.le_of_not_lt hn)
    exact .inr ⟨i, rfl, (getElem?_extend_right b stmts i).symm.trans h⟩

theorem run_push (s : Stmt) (b : Builder) :
    (push s).run b = (.ofIndex b.stmts.size, b.extend [s]) := rfl

/-- The ids that are given to so many statements from a position on. -/
def idsFrom (first n : Nat) : List StmtId :=
  (List.range' first n).map .ofIndex

/-- The arms of a statement get their blocks one after the other, and then come `more` others. -/
theorem run_mapM_block {α β : Type} (f : α → StmtId → β) (arms : List (α × List StmtId))
    (more : Nat) (b : Builder) :
    (arms.mapM fun (a, body) => do return f a (← block body)).run b =
      (arms.zipWith (fun arm id => f arm.1 id) (idsFrom b.stmts.size (arms.length + more)),
        b.extend (arms.map fun arm => .block arm.2)) := by
  induction arms generalizing b with
  | nil => rw [List.map_nil, extend_nil]; rfl
  | cons arm rest ih =>
      have hcons : ((arm :: rest).mapM fun (a, body) => do return f a (← block body)).run b =
          ((rest.mapM fun (a, body) => do return f a (← block body)).run
            (b.extend [.block arm.2])).map (f arm.1 (.ofIndex b.stmts.size) :: ·) id := by
        rw [List.mapM_cons]
        rfl
      rw [hcons, ih, List.length_cons, Nat.add_right_comm]
      simp [idsFrom, List.range'_succ]

theorem run_blockOption (body : Option (List StmtId)) (b : Builder) :
    (blockOption body).run b =
      (body.map fun _ => .ofIndex b.stmts.size, b.extend (body.toList.map .block)) := by
  cases body with
  | none => rw [Option.toList_none, List.map_nil, extend_nil]; rfl
  | some body => rfl

/-- A statement with arms and a default gets its blocks in this order, and stands behind them. -/
theorem run_arms {α β : Type} (f : α → StmtId → β) (s : List β → Option StmtId → Stmt)
    (arms : List (α × List StmtId)) (default : Option (List StmtId)) (b : Builder) :
    let ids := idsFrom b.stmts.size (arms.length + default.toList.length)
    (do
      let arms ← arms.mapM fun (a, body) => do return f a (← block body)
      let default ← blockOption default
      push (s arms default)).run b =
      (.ofIndex (b.stmts.size + (arms.length + default.toList.length)),
        b.extend (arms.map (fun arm => .block arm.2) ++ default.toList.map .block ++
          [s (arms.zipWith (fun arm id => f arm.1 id) ids)
            (default.bind fun _ => ids[arms.length]?)])) := by
  intro ids
  have hdefault : (default.bind fun _ => ids[arms.length]?) =
      default.map fun _ => .ofIndex (b.stmts.size + arms.length) := by
    cases default with
    | none => rfl
    | some body => simp [ids, idsFrom]
  rw [StateT.run_bind, run_mapM_block f arms default.toList.length, hdefault]
  show StateT.run (do let default ← blockOption default; push _) _ = _
  rw [StateT.run_bind, run_blockOption]
  show StateT.run (push _) _ = _
  rw [run_push]
  simp [ids]

end Builder

theorem index_ofIndex {n : Nat} (h : n < UInt32.size) : (StmtId.ofIndex n).index = n :=
  UInt32.toNat_ofNat_of_lt' h

namespace Request

open Builder

/-- The ids of the blocks of a request, where `first` statements are there before. -/
def blocks (request : Request) (first : Nat) : List StmtId :=
  idsFrom first request.bodies.length

/-- The id that it is answered with. -/
def answer (request : Request) (first : Nat) : StmtId :=
  .ofIndex (first + request.bodies.length)

/-- The statements that it adds. -/
def added (request : Request) (first : Nat) : List Stmt :=
  request.bodies.map .block ++ [request.stmt (request.blocks first)]

/-- **What a request does to a builder.** It adds the blocks of its bodies and then the statement
that it describes, and it is answered with the position of the latter. -/
theorem run_perform (request : Request) (b : Builder) : request.perform.run b =
    (request.answer b.stmts.size, b.extend (request.added b.stmts.size)) := by
  cases request with
  | ifElse branches default =>
      have harms := run_arms Branch.mk Stmt.ifElse branches default b
      simp only [answer, added, blocks, stmt, bodies, List.length_append, List.length_map,
        List.map_append, List.map_map]
      exact harms
  | switch value cases default =>
      have harms := run_arms SwitchCase.mk (Stmt.switch value) cases default b
      simp only [answer, added, blocks, stmt, bodies, List.length_append, List.length_map,
        List.map_append, List.map_map]
      exact harms
  | ifThen predicate body => exact run_arms Branch.mk Stmt.ifElse [(predicate, body)] none b
  | loop kind predicate body =>
      show (StmtId.ofIndex (b.extend [.block body]).stmts.size,
        (b.extend [.block body]).extend [.loop kind predicate (.ofIndex b.stmts.size)]) = _
      rw [size_extend, extend_extend]
      rfl
  | _ => rfl

section Added

variable {request : Request} {first : Nat}

@[simp] theorem length_blocks : (request.blocks first).length = request.bodies.length := by
  simp [blocks, idsFrom]

@[simp] theorem length_added : (request.added first).length = request.bodies.length + 1 := by
  simp [added]

theorem mem_blocks {id : StmtId} :
    id ∈ request.blocks first ↔ ∃ i, i < request.bodies.length ∧ id = .ofIndex (first + i) := by
  simp only [blocks, idsFrom, List.mem_map, List.mem_range', Nat.one_mul]
  constructor
  · rintro ⟨_, ⟨i, hi, rfl⟩, rfl⟩
    exact ⟨i, hi, rfl⟩
  · rintro ⟨i, hi, rfl⟩
    exact ⟨first + i, ⟨i, hi, rfl⟩, rfl⟩

theorem mem_added {s : Stmt} : s ∈ request.added first ↔
    (∃ body ∈ request.bodies, s = .block body) ∨ s = request.stmt (request.blocks first) := by
  simp [added, eq_comm]

/-- The bodies stand in front of their statement, in order. -/
theorem getElem?_added_of_lt {i : Nat} (hi : i < request.bodies.length) :
    (request.added first)[i]? = some (.block request.bodies[i]) := by
  simp [added, List.getElem?_append_left, hi]

theorem getElem?_added_length :
    (request.added first)[request.bodies.length]? =
      some (request.stmt (request.blocks first)) := by
  simp [added]

/-- The statements in those that are added are the ones that the call places, and its blocks. -/
theorem children_added :
    (request.added first).flatMap Stmt.children = request.placed ++ request.blocks first := by
  have hbodies : (request.bodies.map Stmt.block).flatMap Stmt.children =
      request.bodies.flatten := by
    rw [List.flatMap_map]
    exact List.flatMap_id'
  rw [added, List.flatMap_append, hbodies, List.flatMap_singleton,
    request.children_stmt length_blocks, placed, List.append_assoc]

/-- A statement in one that is added is one that the call places; or it is a block, and then the
other one is the statement that the call describes. -/
theorem child_of_added {i : Nat} {s : Stmt} {id : StmtId}
    (hs : (request.added first)[i]? = some s) (hid : id ∈ s.children) :
    id ∈ request.placed ∨ i = request.bodies.length ∧ id ∈ request.blocks first := by
  obtain ⟨hi, _⟩ := List.getElem?_eq_some_iff.mp hs
  rw [length_added] at hi
  rcases Nat.lt_or_eq_of_le (Nat.le_of_lt_succ hi) with hi | rfl
  · rw [getElem?_added_of_lt hi] at hs
    obtain rfl := Option.some.inj hs
    have hmem := List.mem_flatten.mpr ⟨_, List.getElem_mem hi, hid⟩
    exact .inl (List.mem_append_left _ hmem)
  · rw [getElem?_added_length] at hs
    obtain rfl := Option.some.inj hs
    rw [request.children_stmt length_blocks] at hid
    rcases List.mem_append.mp hid with hid | hid
    · exact .inl (List.mem_append_right _ hid)
    · exact .inr ⟨rfl, hid⟩

variable (hroom : first + request.bodies.length < UInt32.size)

include hroom

theorem index_answer : (request.answer first).index = first + request.bodies.length :=
  index_ofIndex hroom

/-- The blocks stand between the statements before and the statement itself. -/
theorem index_of_mem_blocks {id : StmtId} (hid : id ∈ request.blocks first) :
    first ≤ id.index ∧ id.index < (request.answer first).index := by
  obtain ⟨i, hi, rfl⟩ := mem_blocks.mp hid
  rw [index_answer hroom, index_ofIndex (by omega)]
  omega

theorem nodup_blocks : (request.blocks first).Nodup := by
  refine List.pairwise_map.mpr (List.Pairwise.imp_of_mem ?_ List.nodup_range')
  intro m n hm hn hne heq
  obtain ⟨i, hi, rfl⟩ := List.mem_range'.mp hm
  obtain ⟨j, hj, rfl⟩ := List.mem_range'.mp hn
  apply hne
  have hindex := congrArg StmtId.index heq
  rwa [index_ofIndex (by omega), index_ofIndex (by omega)] at hindex

end Added

end Request

end RoutineEmulator
