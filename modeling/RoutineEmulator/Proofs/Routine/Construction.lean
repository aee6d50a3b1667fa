import RoutineEmulator.Proofs.Routine.Requests
import RoutineEmulator.Proofs.Routine.Validity
/-!
Routines that are built in order.

A builder is called many times before its routine is checked. `Orderly` says what is asked of the
calls: they place only statements that were answered before, and none of them twice; they refer to
identifiers that were declared before; and they jump to labels. `Holds` is what this gives for the
arena after any number of calls, and the check accepts such an arena once its body is in place.
-/

namespace RoutineEmulator

namespace Builder

/-! ## Histories -/

/-- A call of a builder. -/
inductive Action where
  | declare (d : Declaration)
  | create (request : Request)

/-- A call, and the id that it was answered with. -/
inductive Step where
  | declared (d : Declaration) (id : IdentId)
  | created (request : Request) (id : StmtId)

def Action.perform : Action → StateM Builder Step
  | declare d => return .declared d (← d.perform)
  | create request => return .created request (← request.perform)

namespace Step

def identId? : Step → Option IdentId
  | declared _ id => some id
  | created .. => none

def stmtId? : Step → Option StmtId
  | declared .. => none
  | created _ id => some id

/-- The id of a label. -/
def labelId? : Step → Option StmtId
  | created (.label _) id => some id
  | _ => none

/-- The statements that get their place by the call. -/
def placed : Step → List StmtId
  | declared .. => []
  | created request _ => request.placed

def targets : Step → List StmtId
  | declared .. => []
  | created request _ => request.targets

def idents : Step → List IdentId
  | declared .. => []
  | created request _ => request.idents

end Step

/-- The identifiers that were answered. -/
def identIds (steps : List Step) : List IdentId :=
  steps.filterMap Step.identId?

/-- The statements that were answered. -/
def stmtIds (steps : List Step) : List StmtId :=
  steps.filterMap Step.stmtId?

def labelIds (steps : List Step) : List StmtId :=
  steps.filterMap Step.labelId?

/-- The statements that were put into others, in order. -/
def placedIds (steps : List Step) : List StmtId :=
  steps.flatMap Step.placed

/-- A call uses only what was answered before it. -/
structure Step.Follows (before : List Step) (step : Step) : Prop where
  placed : ∀ id ∈ step.placed, id ∈ stmtIds before
  idents : ∀ id ∈ step.idents, id ∈ identIds before

instance (before : List Step) (step : Step) : Decidable (step.Follows before) :=
  decidable_of_iff
    ((∀ id ∈ step.placed, id ∈ stmtIds before) ∧ ∀ id ∈ step.idents, id ∈ identIds before)
    ⟨fun ⟨hplaced, hidents⟩ => ⟨hplaced, hidents⟩, fun h => ⟨h.placed, h.idents⟩⟩

/-- The calls use what was answered before them, and place nothing twice. A jump may come before
its label. -/
structure Orderly (steps : List Step) (body : List StmtId) : Prop where
  follows : ∀ n (h : n < steps.length), steps[n].Follows (steps.take n)
  targets : ∀ step ∈ steps, ∀ id ∈ step.targets, id ∈ labelIds steps
  body_before : ∀ id ∈ body, id ∈ stmtIds steps
  once : (placedIds steps ++ body).Nodup

instance (steps : List Step) (body : List StmtId) : Decidable (Orderly steps body) :=
  decidable_of_iff
    ((∀ n (h : n < steps.length), steps[n].Follows (steps.take n)) ∧
      (∀ step ∈ steps, ∀ id ∈ step.targets, id ∈ labelIds steps) ∧
      (∀ id ∈ body, id ∈ stmtIds steps) ∧ (placedIds steps ++ body).Nodup)
    ⟨fun ⟨hfollows, htargets, hbody, honce⟩ => ⟨hfollows, htargets, hbody, honce⟩,
      fun h => ⟨h.follows, h.targets, h.body_before, h.once⟩⟩

/-- Ids tell the statements of the routine apart, its body included, and its identifiers. They are
words of 32 bits, and come again past that. -/
structure HasRoom (b : Builder) : Prop where
  stmts : b.stmts.size < UInt32.size
  idents : b.idents.size ≤ UInt32.size

end Builder

/-! ## What the arena holds -/

/-- A block with these members that no call was answered with. -/
structure Wraps (stmts : Array Stmt) (answered : List StmtId) (block : StmtId)
    (body : List StmtId) : Prop where
  members : stmts[block.index]? = some (.block body)
  fresh : block ∉ answered

/-- The statement that a request describes stands under an id, and its bodies in blocks of their
own. -/
def Request.StoredIn (request : Request) (stmts : Array Stmt) (answered : List StmtId)
    (id : StmtId) : Prop :=
  ∃ blocks, blocks.length = request.bodies.length ∧
    stmts[id.index]? = some (request.stmt blocks) ∧
    ∀ entry ∈ blocks.zip request.bodies, Wraps stmts answered entry.1 entry.2

namespace Builder

/-- What a builder holds after calls so far. -/
structure Holds (steps : List Step) (b : Builder) : Prop where
  created_lt : ∀ id ∈ stmtIds steps, id.index < b.stmts.size
  stored : ∀ request id, .created request id ∈ steps →
    request.StoredIn b.stmts (stmtIds steps) id
  declared : ∀ d id, .declared d id ∈ steps → b.idents[id.index]? = some d.identifier
  children_lt : ∀ (n : Nat) (s : Stmt), b.stmts[n]? = some s → ∀ id ∈ s.children, id.index < n
  /-- No statement has two places. -/
  once : (b.stmts.toList.flatMap Stmt.children).Nodup
  /-- A statement that was answered has a place only where a call gave it one. -/
  placed : ∀ id ∈ b.stmts.toList.flatMap Stmt.children, id ∈ stmtIds steps → id ∈ placedIds steps
  bodies : ∀ s ∈ b.stmts.toList, ∀ id ∈ s.bodies, (b.stmts[id.index]?).any (·.isBlock) = true
  targets : ∀ s ∈ b.stmts.toList, ∀ id ∈ s.jumpTargets, id ∈ steps.flatMap Step.targets
  idents : ∀ s ∈ b.stmts.toList, ∀ id ∈ Draft.identsOf s, id.index < b.idents.size

theorem Holds.empty (name : String) (address : UInt64) : Holds [] { name, address } where
  created_lt := by simp [stmtIds]
  stored := by simp
  declared := by simp
  children_lt := by simp
  once := by simp
  placed := by simp
  bodies := by simp
  targets := by simp
  idents := by simp

end Builder

/-- A block stays as it is where the arena and the calls grow. -/
theorem Wraps.extend {stmts : Array Stmt} {answered : List StmtId} {block : StmtId}
    {body : List StmtId} (h : Wraps stmts answered block body) (more : Array Stmt)
    {new : List StmtId} (hnew : ∀ id ∈ new, stmts.size ≤ id.index) :
    Wraps (stmts ++ more) (answered ++ new) block body := by
  obtain ⟨hlt, _⟩ := Array.getElem?_eq_some_iff.mp h.members
  constructor
  case members => rw [Array.getElem?_append_left hlt]; exact h.members
  case fresh =>
    rw [List.mem_append]
    rintro (hold | hmem)
    · exact h.fresh hold
    · exact Nat.not_lt_of_le (hnew block hmem) hlt

theorem Request.StoredIn.extend {request : Request} {stmts : Array Stmt} {answered : List StmtId}
    {id : StmtId} (h : request.StoredIn stmts answered id) (more : Array Stmt)
    {new : List StmtId} (hnew : ∀ id ∈ new, stmts.size ≤ id.index) :
    request.StoredIn (stmts ++ more) (answered ++ new) id := by
  obtain ⟨blocks, hlength, hstmt, hblocks⟩ := h
  obtain ⟨hlt, _⟩ := Array.getElem?_eq_some_iff.mp hstmt
  refine ⟨blocks, hlength, ?_, fun entry hentry => (hblocks entry hentry).extend more hnew⟩
  rw [Array.getElem?_append_left hlt]
  exact hstmt

namespace Builder

section Create

variable {steps : List Step} {b : Builder} {request : Request}

@[simp] theorem stmtIds_created (id : StmtId) :
    stmtIds (steps ++ [.created request id]) = stmtIds steps ++ [id] := by
  simp [stmtIds, Step.stmtId?]

@[simp] theorem placedIds_created (id : StmtId) :
    placedIds (steps ++ [.created request id]) = placedIds steps ++ request.placed := by
  simp [placedIds, Step.placed]

/-- No statement is in one in front of it, so the last one is in none. -/
theorem Holds.succ_index_lt_of_child (h : Holds steps b) {id : StmtId}
    (hid : id ∈ b.stmts.toList.flatMap Stmt.children) : id.index + 1 < b.stmts.size := by
  obtain ⟨s, hs, hchild⟩ := List.mem_flatMap.mp hid
  obtain ⟨n, hn, rfl⟩ := List.mem_iff_getElem.mp hs
  rw [Array.length_toList] at hn
  have hlt := h.children_lt n _ (Array.getElem?_eq_getElem hn) id hchild
  omega

theorem children_extend_added :
    (b.extend (request.added b.stmts.size)).stmts.toList.flatMap Stmt.children =
      b.stmts.toList.flatMap Stmt.children ++ (request.placed ++ request.blocks b.stmts.size) := by
  rw [toList_extend, List.flatMap_append, Request.children_added]

variable (h : Holds steps b) (hroom : b.stmts.size + request.bodies.length < UInt32.size)

include h hroom

/-- A request stores the statement that it describes, and its bodies in blocks of its own. -/
theorem Holds.storedIn_added :
    request.StoredIn (b.extend (request.added b.stmts.size)).stmts
      (stmtIds steps ++ [request.answer b.stmts.size]) (request.answer b.stmts.size) := by
  refine ⟨request.blocks b.stmts.size, Request.length_blocks, ?_, ?_⟩
  · rw [Request.index_answer hroom, getElem?_extend_right, Request.getElem?_added_length]
  · intro entry hentry
    obtain ⟨hblock, _⟩ := List.of_mem_zip hentry
    obtain ⟨i, hi, rfl⟩ := List.mem_iff_getElem.mp hentry
    rw [List.length_zip, Request.length_blocks, Nat.min_self] at hi
    rw [List.getElem_zip] at hblock ⊢
    obtain ⟨hge, hlt⟩ := Request.index_of_mem_blocks hroom hblock
    constructor
    case members =>
      have hindex : (StmtId.ofIndex (b.stmts.size + i)).index = b.stmts.size + i :=
        index_ofIndex (by omega)
      simp only [Request.blocks, idsFrom, List.getElem_map, List.getElem_range', Nat.one_mul]
      rw [hindex, getElem?_extend_right, Request.getElem?_added_of_lt hi]
    case fresh =>
      rw [List.mem_append, List.mem_singleton]
      rintro (hold | hself)
      · have hbefore := h.created_lt _ hold
        omega
      · rw [hself] at hlt
        omega

/-- The statements that it places have no place yet, and its blocks are new. -/
theorem Holds.once_create (hplaced : ∀ id ∈ request.placed, id ∈ stmtIds steps)
    (honce : (placedIds steps ++ request.placed).Nodup) :
    ((b.extend (request.added b.stmts.size)).stmts.toList.flatMap Stmt.children).Nodup := by
  obtain ⟨_, hnodup, hapart⟩ := List.nodup_append.mp honce
  rw [children_extend_added]
  refine List.nodup_append.mpr ⟨h.once, List.nodup_append.mpr
    ⟨hnodup, Request.nodup_blocks hroom, ?_⟩, ?_⟩
  · rintro id hid _ hblock rfl
    have hlt := h.created_lt id (hplaced id hid)
    have hge := (Request.index_of_mem_blocks hroom hblock).1
    omega
  · rintro id hid _ hnew rfl
    rcases List.mem_append.mp hnew with hnew | hblock
    · exact hapart id (h.placed id hid (hplaced id hnew)) id hnew rfl
    · have hlt := h.succ_index_lt_of_child hid
      have hge := (Request.index_of_mem_blocks hroom hblock).1
      omega

/-- The answer has no place yet, and the blocks are no answers. -/
theorem Holds.placed_create {id : StmtId}
    (hid : id ∈ (b.extend (request.added b.stmts.size)).stmts.toList.flatMap Stmt.children)
    (hanswered : id ∈ stmtIds steps ++ [request.answer b.stmts.size]) :
    id ∈ placedIds steps ++ request.placed := by
  have hanswer := Request.index_answer hroom
  rw [children_extend_added, List.mem_append, List.mem_append] at hid
  rw [List.mem_append, List.mem_singleton] at hanswered
  rw [List.mem_append]
  rcases hid with hold | hplaced | hblock
  · have hlt := h.succ_index_lt_of_child hold
    rcases hanswered with hanswered | rfl
    · exact .inl (h.placed id hold hanswered)
    · omega
  · exact .inr hplaced
  · have hindex := Request.index_of_mem_blocks hroom hblock
    rcases hanswered with hanswered | rfl
    · have hlt := h.created_lt id hanswered
      omega
    · omega

theorem Holds.bodies_create {s : Stmt}
    (hs : s ∈ (b.extend (request.added b.stmts.size)).stmts.toList) {id : StmtId}
    (hid : id ∈ s.bodies) :
    ((b.extend (request.added b.stmts.size)).stmts[id.index]?).any (·.isBlock) = true := by
  rw [toList_extend, List.mem_append, Request.mem_added] at hs
  rcases hs with hs | ⟨body, _, rfl⟩ | rfl
  · have hblock := h.bodies s hs id hid
    cases hsome : b.stmts[id.index]? with
    | none => rw [hsome] at hblock; cases hblock
    | some _ => rwa [getElem?_extend_left (Array.getElem?_eq_some_iff.mp hsome).1]
  · cases hid
  · rw [request.bodies_stmt Request.length_blocks] at hid
    obtain ⟨i, hi, rfl⟩ := Request.mem_blocks.mp hid
    rw [index_ofIndex (by omega), getElem?_extend_right, Request.getElem?_added_of_lt hi]
    rfl

/-- **What a request keeps.** It may place statements that were answered and have no place yet, and
refer to identifiers that are declared. -/
theorem Holds.create (hplaced : ∀ id ∈ request.placed, id ∈ stmtIds steps)
    (honce : (placedIds steps ++ request.placed).Nodup)
    (hidents : ∀ id ∈ request.idents, id.index < b.idents.size) :
    Holds (steps ++ [.created request (request.answer b.stmts.size)])
      (b.extend (request.added b.stmts.size)) := by
  have hanswer := Request.index_answer hroom
  constructor
  case created_lt =>
    intro id hid
    rw [stmtIds_created, List.mem_append, List.mem_singleton] at hid
    rw [size_extend, Request.length_added]
    rcases hid with hid | rfl
    · have hlt := h.created_lt id hid
      omega
    · omega
  case stored =>
    intro other id hid
    rw [stmtIds_created]
    rcases List.mem_append.mp hid with hid | hid
    · apply (h.stored other id hid).extend
      intro new hnew
      rw [List.mem_singleton.mp hnew]
      omega
    · cases List.mem_singleton.mp hid
      exact h.storedIn_added hroom
  case declared =>
    intro d id hid
    rcases List.mem_append.mp hid with hid | hid
    · exact h.declared d id hid
    · cases List.mem_singleton.mp hid
  case children_lt =>
    intro n s hs id hid
    rcases getElem?_extend_cases hs with hs | ⟨i, rfl, hi⟩
    · exact h.children_lt n s hs id hid
    · rcases Request.child_of_added hi hid with hid | ⟨rfl, hid⟩
      · have hlt := h.created_lt id (hplaced id hid)
        omega
      · have hlt := (Request.index_of_mem_blocks hroom hid).2
        omega
  case once => exact h.once_create hroom hplaced honce
  case placed =>
    intro id hid hanswered
    rw [stmtIds_created] at hanswered
    rw [placedIds_created]
    exact h.placed_create hroom hid hanswered
  case bodies => exact fun s hs id hid => h.bodies_create hroom hs hid
  case targets =>
    intro s hs id hid
    rw [toList_extend, List.mem_append, Request.mem_added] at hs
    rw [List.flatMap_append, List.mem_append]
    rcases hs with hs | ⟨body, _, rfl⟩ | rfl
    · exact .inl (h.targets s hs id hid)
    · cases hid
    · rw [request.jumpTargets_stmt] at hid
      exact .inr (List.mem_flatMap.mpr ⟨_, List.mem_singleton_self _, hid⟩)
  case idents =>
    intro s hs id hid
    rw [toList_extend, List.mem_append, Request.mem_added] at hs
    rcases hs with hs | ⟨body, _, rfl⟩ | rfl
    · exact h.idents s hs id hid
    · cases hid
    · rw [request.identsOf_stmt Request.length_blocks] at hid
      exact hidents id hid

end Create

section Declare

variable {steps : List Step} {b : Builder}

@[simp] theorem stmtIds_declared (d : Declaration) (id : IdentId) :
    stmtIds (steps ++ [.declared d id]) = stmtIds steps := by
  simp [stmtIds, Step.stmtId?]

@[simp] theorem placedIds_declared (d : Declaration) (id : IdentId) :
    placedIds (steps ++ [.declared d id]) = placedIds steps := by
  simp [placedIds, Step.placed]

/-- A declaration keeps it all, and the identifier is there from then on. -/
theorem Holds.declare (h : Holds steps b) (d : Declaration)
    (hroom : b.idents.size < UInt32.size) :
    Holds (steps ++ [.declared d ⟨UInt32.ofNat b.idents.size⟩])
      { b with idents := b.idents.push d.identifier } := by
  constructor
  case created_lt => rw [stmtIds_declared]; exact h.created_lt
  case stored =>
    intro request id hid
    rw [stmtIds_declared]
    rcases List.mem_append.mp hid with hid | hid
    · exact h.stored request id hid
    · cases List.mem_singleton.mp hid
  case declared =>
    intro other id hid
    rcases List.mem_append.mp hid with hid | hid
    · have hold := h.declared other id hid
      obtain ⟨hlt, _⟩ := Array.getElem?_eq_some_iff.mp hold
      exact (Array.getElem?_push_lt hlt).trans ((Array.getElem?_eq_getElem hlt).symm.trans hold)
    · cases List.mem_singleton.mp hid
      have hindex : (IdentId.mk (UInt32.ofNat b.idents.size)).index = b.idents.size :=
        UInt32.toNat_ofNat_of_lt' hroom
      rw [hindex]
      exact Array.getElem?_push_size
  case children_lt => exact h.children_lt
  case once => exact h.once
  case placed => rw [stmtIds_declared, placedIds_declared]; exact h.placed
  case bodies => exact h.bodies
  case targets =>
    intro s hs id hid
    rw [List.flatMap_append]
    exact List.mem_append_left _ (h.targets s hs id hid)
  case idents =>
    intro s hs id hid
    have hlt := h.idents s hs id hid
    rw [Array.size_push]
    exact Nat.lt_succ_of_lt hlt

end Declare

/-! ## Many calls -/

/-- Does one call after the other. -/
def performAll (actions : List Action) : StateM Builder (List Step) :=
  actions.mapM Action.perform

section Run

variable {actions : List Action} {steps : List Step} {b : Builder} {body : List StmtId}

theorem run_performAll_cons (action : Action) (rest : List Action) (b : Builder) :
    (performAll (action :: rest)).run b =
      ((action.perform.run b).1 :: ((performAll rest).run (action.perform.run b).2).1,
        ((performAll rest).run (action.perform.run b).2).2) := by
  rw [performAll, List.mapM_cons]
  rfl

theorem run_declare (d : Declaration) (b : Builder) : (Action.declare d).perform.run b =
    (.declared d ⟨UInt32.ofNat b.idents.size⟩,
      { b with idents := b.idents.push d.identifier }) := by
  rw [Action.perform, StateT.run_bind, d.run_perform]
  rfl

theorem run_create (request : Request) (b : Builder) : (Action.create request).perform.run b =
    (.created request (request.answer b.stmts.size), b.extend (request.added b.stmts.size)) := by
  rw [Action.perform, StateT.run_bind, request.run_perform]
  rfl

/-- The builder is for the same routine, and nothing was taken out of it. -/
structure Grows (b b' : Builder) : Prop where
  name : b'.name = b.name
  address : b'.address = b.address
  stmts : b.stmts.size ≤ b'.stmts.size
  idents : b.idents.size ≤ b'.idents.size

theorem grows_perform (action : Action) (b : Builder) : b.Grows (action.perform.run b).2 := by
  cases action with
  | declare d =>
      rw [run_declare]
      exact ⟨rfl, rfl, Nat.le_refl _, by simp⟩
  | create request =>
      rw [run_create]
      exact ⟨rfl, rfl, by simp, Nat.le_refl _⟩

theorem grows_performAll (actions : List Action) (b : Builder) :
    b.Grows ((performAll actions).run b).2 := by
  induction actions generalizing b with
  | nil => exact ⟨rfl, rfl, Nat.le_refl _, Nat.le_refl _⟩
  | cons action rest ih =>
      have hone := grows_perform action b
      have hrest := ih (action.perform.run b).2
      rw [run_performAll_cons]
      exact ⟨hrest.name.trans hone.name, hrest.address.trans hone.address,
        Nat.le_trans hone.stmts hrest.stmts, Nat.le_trans hone.idents hrest.idents⟩

theorem HasRoom.of_run (h : ((performAll actions).run b).2.HasRoom) : b.HasRoom := by
  have hgrows := grows_performAll actions b
  exact ⟨Nat.lt_of_le_of_lt hgrows.stmts h.stmts, Nat.le_trans hgrows.idents h.idents⟩

/-- The call behind those before follows them. -/
theorem Orderly.follows_next {step : Step} {rest : List Step}
    (h : Orderly (steps ++ step :: rest) body) : step.Follows steps := by
  have hfollows := h.follows steps.length (by simp)
  rw [List.take_left] at hfollows
  simpa using hfollows

theorem Holds.index_lt_of_declared (h : Holds steps b) {id : IdentId} (hid : id ∈ identIds steps) :
    id.index < b.idents.size := by
  obtain ⟨step, hstep, hstepId⟩ := List.mem_filterMap.mp hid
  cases step with
  | created request id => cases hstepId
  | declared d id =>
      cases hstepId
      exact (Array.getElem?_eq_some_iff.mp (h.declared d id hstep)).1

/-- What one call keeps. -/
theorem Holds.perform {action : Action} (h : Holds steps b)
    (hfollows : (action.perform.run b).1.Follows steps)
    (honce : (placedIds (steps ++ [(action.perform.run b).1])).Nodup)
    (hroom : (action.perform.run b).2.HasRoom) :
    Holds (steps ++ [(action.perform.run b).1]) (action.perform.run b).2 := by
  cases action with
  | declare d =>
      rw [run_declare] at hroom ⊢
      have hsize := hroom.idents
      dsimp only at hsize
      rw [Array.size_push] at hsize
      exact h.declare d hsize
  | create request =>
      rw [run_create] at hfollows honce hroom ⊢
      have hsize := hroom.stmts
      rw [size_extend, Request.length_added] at hsize
      rw [placedIds_created] at honce
      apply h.create (by omega) hfollows.placed honce
      exact fun id hid => h.index_lt_of_declared (hfollows.idents id hid)

/-- **Orderly calls keep the arena in order.** -/
theorem Holds.performAll (h : Holds steps b)
    (horderly : Orderly (steps ++ ((performAll actions).run b).1) body)
    (hroom : ((Builder.performAll actions).run b).2.HasRoom) :
    Holds (steps ++ ((Builder.performAll actions).run b).1)
      ((Builder.performAll actions).run b).2 := by
  induction actions generalizing steps b with
  | nil => rwa [show (Builder.performAll []).run b = ([], b) from rfl, List.append_nil]
  | cons action rest ih =>
      rw [run_performAll_cons] at horderly hroom ⊢
      dsimp only at horderly hroom ⊢
      have hfollows := horderly.follows_next
      rw [List.append_cons] at horderly ⊢
      have honce : (placedIds (steps ++ [(action.perform.run b).1])).Nodup := by
        have hwhole := (List.nodup_append.mp horderly.once).1
        rw [placedIds, List.flatMap_append] at hwhole
        exact (List.nodup_append.mp hwhole).1
      exact ih (h.perform hfollows honce (.of_run hroom)) horderly hroom

end Run

/-! ## Finishing -/

/-- A routine that is what the calls asked for. -/
structure Built (steps : List Step) (body : List StmtId) (r : Draft) : Prop where
  stored : ∀ request id, .created request id ∈ steps →
    request.StoredIn r.stmts (stmtIds steps) id
  declared : ∀ d id, .declared d id ∈ steps → r.ident? id = some d.identifier
  /-- Statements stand behind what is in them. -/
  children_lt : ∀ (parent : StmtId) (s : Stmt), r.stmt? parent = some s →
    ∀ child ∈ s.children, child.index < parent.index
  bodyBlock : Wraps r.stmts (stmtIds steps) r.body body
  entry : r.entry? = body.head?

/-- The draft that is checked at the end. -/
def finished (b : Builder) (body : List StmtId) : Draft where
  name := b.name
  address := b.address
  stmts := (b.extend ((Request.block body).added b.stmts.size)).stmts
  idents := b.idents
  body := .ofIndex b.stmts.size

theorem finish_eq_ofDraft (b : Builder) (body : List StmtId) :
    b.finish body = Routine.ofDraft (b.finished body) := rfl

section Finish

variable {steps : List Step} {b : Builder} {body : List StmtId}

theorem Holds.isLabel (h : Holds steps b) {id : StmtId} (hid : id ∈ labelIds steps) :
    ∃ name, b.stmts[id.index]? = some (.label name) := by
  obtain ⟨step, hstep, hlabel⟩ := List.mem_filterMap.mp hid
  unfold Step.labelId? at hlabel
  split at hlabel
  · cases hlabel
    obtain ⟨_, _, hstmt, _⟩ := h.stored _ _ hstep
    exact ⟨_, hstmt⟩
  · cases hlabel

/-- The body is one more request for a block. -/
theorem Holds.finish (h : Holds steps b) (horderly : Orderly steps body) (hroom : b.HasRoom) :
    Holds (steps ++ [.created (.block body) (.ofIndex b.stmts.size)])
      (b.extend ((Request.block body).added b.stmts.size)) := by
  have hfits : b.stmts.size + (Request.block body).bodies.length < UInt32.size := hroom.stmts
  apply h.create hfits horderly.body_before horderly.once
  intro id hid
  cases hid

theorem index_body_finished (hroom : b.HasRoom) (body : List StmtId) :
    (b.finished body).body.index = b.stmts.size :=
  index_ofIndex hroom.stmts

theorem stmt?_body_finished (hroom : b.HasRoom) (body : List StmtId) :
    (b.finished body).stmt? (b.finished body).body = some (.block body) := by
  rw [Draft.stmt?, index_body_finished hroom]
  exact getElem?_extend_right b _ 0

theorem Holds.wellFormed_finished (h : Holds steps b) (horderly : Orderly steps body)
    (hroom : b.HasRoom) : (b.finished body).WellFormed := by
  have hafter := h.finish horderly hroom
  constructor
  case body =>
    rw [stmt?_body_finished hroom]
    rfl
  case contained =>
    intro s hs id hid
    have hlt := hafter.succ_index_lt_of_child (List.mem_flatMap.mpr ⟨s, hs, hid⟩)
    apply decide_eq_true
    show id.index < (b.extend _).stmts.size
    omega
  case once =>
    apply List.nodup_cons.mpr
    refine ⟨fun hmem => ?_, hafter.once⟩
    have hlt := hafter.succ_index_lt_of_child hmem
    have hlast := index_body_finished hroom body
    rw [size_extend, Request.length_added] at hlt
    simp only [Request.bodies, List.length_nil] at hlt
    omega
  case references =>
    intro s hs
    constructor
    case bodies => exact hafter.bodies s hs
    case idents => exact hafter.idents s hs
    case targets =>
      intro id hid
      have hmem := hafter.targets s hs id hid
      rw [List.flatMap_append] at hmem
      -- a block jumps nowhere, so the target is one of a call
      obtain ⟨step, hstep, htarget⟩ := List.mem_flatMap.mp
        ((List.mem_append.mp hmem).resolve_right (by simp [Step.targets, Request.targets]))
      obtain ⟨name, hlabel⟩ := h.isLabel (horderly.targets step hstep id htarget)
      have hkept : (b.finished body).stmt? id = some (.label name) :=
        (getElem?_extend_left (Array.getElem?_eq_some_iff.mp hlabel).1 _).trans hlabel
      rw [hkept]
      rfl

/-- What a builder holds is there in the draft that it finishes. -/
theorem Holds.built (h : Holds steps b) (horderly : Orderly steps body) (hroom : b.HasRoom) :
    Built steps body (b.finished body) := by
  have hafter := h.finish horderly hroom
  have hbody := stmt?_body_finished hroom body
  constructor
  case stored =>
    intro request id hid
    have hnone : ∀ other ∈ ([] : List StmtId), b.stmts.size ≤ other.index := by simp
    have hstored := (h.stored request id hid).extend
      ((Request.block body).added b.stmts.size).toArray hnone
    rwa [List.append_nil] at hstored
  case declared => exact h.declared
  case children_lt => exact fun parent s hs => hafter.children_lt parent.index s hs
  case bodyBlock =>
    refine ⟨hbody, fun hanswered => ?_⟩
    have hlt := h.created_lt _ hanswered
    have hlast := index_body_finished hroom body
    omega
  case entry =>
    have hstmts : (b.finished body).bodyStmts = body := by
      unfold Draft.bodyStmts
      rw [hbody]
    rw [Draft.entry?, hstmts]

end Finish

/-- **Orderly calls build a routine.** Where the calls of a builder place only statements that were
answered before, none of them twice, jump to labels, and refer to identifiers that were declared
before, the check accepts the routine. It holds the statement that each call describes under the id
that the call was answered with, each body in a block of its own; every statement stands behind
those in it; and the routine starts with the first statement that it is finished with. -/
theorem finish_accepts_orderly_calls {name : String} {address : UInt64} {actions : List Action}
    {steps : List Step} {b : Builder} {body : List StmtId}
    (hcalls : (performAll actions).run { name, address } = (steps, b))
    (horderly : Orderly steps body) (hroom : b.HasRoom) :
    ∃ routine, b.finish body = .ok routine ∧ routine.name = name ∧ routine.address = address ∧
      Built steps body routine.toDraft := by
  have hgrows := grows_performAll actions { name, address }
  have hperformed : Orderly ((performAll actions).run { name, address }).1 body →
      ((performAll actions).run { name, address }).2.HasRoom →
      Holds ((performAll actions).run { name, address }).1
        ((performAll actions).run { name, address }).2 := (Holds.empty name address).performAll
  rw [hcalls] at hgrows hperformed
  have hholds := hperformed horderly hroom
  let routine : Routine :=
    { b.finished body with
      valid := Draft.check_eq_ok_iff.mpr (hholds.wellFormed_finished horderly hroom) }
  refine ⟨routine, ?_, hgrows.name, hgrows.address, hholds.built horderly hroom⟩
  rw [finish_eq_ofDraft]
  exact routine.ofDraft_toDraft

/-- An `if` with two bodies, behind the label that one of them jumps to. -/
theorem finish_accepts_orderly_calls_if :
    let request : Request := .ifElse [(.ident ⟨0⟩, [⟨2⟩])] (some [⟨1⟩])
    let actions : List Action := [
      .declare (.localVar "x" "int" (-4)), .create (.label "again"),
      .create (.assign (.ident ⟨0⟩) (.int 1)), .create (.goto ⟨0⟩), .create request]
    ∃ routine, ((performAll actions).run { name := "f", address := 0x1000 }).2.finish
        [⟨0⟩, ⟨5⟩] = .ok routine ∧
      request.StoredIn routine.stmts [⟨0⟩, ⟨1⟩, ⟨2⟩, ⟨5⟩] ⟨5⟩ ∧ routine.entry? = some ⟨0⟩ := by
  intro request actions
  have horderly : Orderly ((performAll actions).run { name := "f", address := 0x1000 }).1
      [⟨0⟩, ⟨5⟩] := by decide
  obtain ⟨routine, hfinish, _, _, hbuilt⟩ :=
    finish_accepts_orderly_calls rfl horderly ⟨by decide, by decide⟩
  have hasked : Step.created request ⟨5⟩ ∈
      ((performAll actions).run { name := "f", address := 0x1000 }).1 :=
    List.mem_of_getElem? (i := 4) rfl
  exact ⟨routine, hfinish, hbuilt.stored _ _ hasked, hbuilt.entry⟩

end Builder

end RoutineEmulator
