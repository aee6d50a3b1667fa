import RoutineEmulator.Proofs.Simulation.Answering
import RoutineEmulator.Proofs.StackMachine.Handlers
/-!
The stack machine refines a stack of 32-bit numbers.

`StackCall` is an operation on an abstract stack: `StackCall.apply` is what it does to the stack,
`StackCall.Answers` what it answers, and `StackCall.Allowed` when it may be made. `Mirrors` says
that handler calls, made one after the other on a session, mirror the operations they mean: each of
them succeeds with the right answer, and at every point the list in memory spells the stack.
-/

namespace RoutineEmulator.StackMachine

open Memory

/-! ## The abstract stack -/

/-- An operation on a stack, with the numbers that a call passes behind the stack cell. -/
inductive StackCall where
  | push (value : Int64)
  | pop
  | get (index : Int64)
  | set (index value : Int64)

namespace StackCall

/-- The handler that carries the operation out. -/
def handler : StackCall → Handler
  | push _ => .push
  | pop => .pop
  | get _ => .get
  | set _ _ => .set

/-- The arguments behind the stack cell. -/
def operands : StackCall → List Int64
  | push value => [value]
  | pop => []
  | get index => [index]
  | set index value => [index, value]

def isPush : StackCall → Bool
  | push _ => true
  | _ => false

/-- What the operation does to a stack, whose newest value stands first. The oldest value has index
0, and values are taken modulo 2^32. -/
def apply (stack : List UInt32) : StackCall → List UInt32
  | push value => value.toUInt64.toUInt32 :: stack
  | pop => stack.tail
  | get _ => stack
  | set index value => (stack.reverse.set index.toInt.toNat value.toUInt64.toUInt32).reverse

/-- What the operation answers on a stack. A `set` may answer anything. -/
def Answers (stack : List UInt32) : StackCall → Int64 → Prop
  | push _, answer => answer = 0
  | pop, answer => ∃ value, stack.head? = some value ∧ answer = value.toUInt64.toInt64
  | get index, answer =>
    ∃ value, stack.reverse[index.toInt.toNat]? = some value ∧ answer = value.toUInt64.toInt64
  | set _ _, _ => True

/-- The operation may be made: no pop of an empty stack, no index outside of it, and fewer than
2^20 - 1 values after a push. -/
def Allowed (stack : List UInt32) : StackCall → Prop
  | push _ => stack.length + 1 < 0xFFFFF
  | pop => stack ≠ []
  | get index | set index _ => 0 ≤ index.toInt ∧ index.toInt < stack.length

/-- Every operation of a sequence may be made when its turn comes. -/
def AllAllowed : List UInt32 → List StackCall → Prop
  | _, [] => True
  | stack, call :: rest => call.Allowed stack ∧ AllAllowed (call.apply stack) rest

/-- Only a push may come first. -/
theorem isPush_of_allowed_nil {c : StackCall} (h : c.Allowed []) : c.isPush = true := by
  cases c with
  | push value => rfl
  | pop => exact absurd rfl h
  | get index | set index value =>
      obtain ⟨hlow, hhigh⟩ := h
      rw [List.length_nil] at hhigh
      omega

/-- The chunks that an operation takes. -/
def chunks (c : StackCall) : Nat :=
  if c.isPush then 1 else 0

/-- No operation that may be made lets the stack grow too long. -/
theorem length_apply_lt {c : StackCall} {stack : List UInt32} (hallowed : c.Allowed stack)
    (hlen : stack.length < 0xFFFFF) : (c.apply stack).length < 0xFFFFF := by
  cases c with
  | push value => exact hallowed
  | pop =>
      have htail : stack.tail.length = stack.length - 1 := List.length_tail
      exact Nat.lt_of_le_of_lt (by rw [apply, htail]; exact Nat.sub_le _ _) hlen
  | get index => exact hlen
  | set index value => simpa [apply] using hlen

end StackCall

/-! ## Calls as routines write them -/

/-- A resolved call in a routine, and the operation that it means. -/
structure HandlerCall where
  callee : Callee
  args : List Expr
  meaning : StackCall

/-- The value of an expression that is a constant. -/
def constant? : Expr → Option Int64
  | .int value => some value
  | .ptr address => some address.toInt64
  | _ => none

theorem eval_of_constant? (r : Draft) {e : Expr} {value : Int64} (h : constant? e = some value)
    (session : Session) : (Evaluation.eval r e).runOn session = (.ok value, session) := by
  cases e with
  | int v =>
      obtain rfl : v = value := Option.some.inj h
      rw [Evaluation.eval]
      rfl
  | ptr a =>
      obtain rfl : a.toInt64 = value := Option.some.inj h
      rw [Evaluation.eval]
      rfl
  | ident _ | op _ _ | predicate _ | call _ _ _ => cases h

/-- Constant arguments are evaluated to their values. -/
theorem evalArgs_of_constants (r : Draft) (name : String) {args : List Expr} {values : List Int64}
    (h : args.map constant? = values.map some) (index : Nat) (session : Session) :
    (Evaluation.evalArgs r name args index values.length).runOn session =
      (.ok values, session) := by
  induction values generalizing args index with
  | nil =>
      rw [List.length_nil, Evaluation.evalArgs]
      rfl
  | cons value values ih =>
      cases args with
      | nil => cases h
      | cons e rest =>
          obtain ⟨hvalue, hrest⟩ := List.cons.inj h
          rw [List.length_cons, Evaluation.evalArgs,
            Work.runOn_bind_of_ok (eval_of_constant? r hvalue session),
            Work.runOn_bind_of_ok (ih hrest (index + 1))]
          rfl

/-- The call goes to the handler of its operation, with the stack cell and the operands written as
constants. -/
structure HandlerCall.WellMeant (layout : StackLayout) (cell : Int64) (c : HandlerCall) : Prop where
  handler : named? layout (normalizeName c.callee.name) = some c.meaning.handler
  args : c.args.map constant? = (cell :: c.meaning.operands).map some

theorem demand?_stackMachine {own : StackMachine} {callee : String} {h : Handler}
    (hname : named? own.layout callee = some h) :
    (Simulator.stackMachine own).demand? callee = some (.first h.arity) := by
  simp only [Simulator.demand?, hname, Option.map_some]

/-- A stack machine at the head of a chain runs the handler that the call names. -/
theorem respondFirst_stackMachine {own : StackMachine} {callee : String} {h : Handler}
    (hname : named? own.layout callee = some h) (args : List Expr) (values : List Int64)
    (rest : List Simulator) (s : Machine) (log : OutputLog) :
    Simulator.respondFirst callee args values (.stackMachine own :: rest) s log =
      let (result, bench) := (h.run args values).runOn ⟨own, s, log⟩
      (result.map some, ⟨.stackMachine bench.own :: rest, bench.machine, bench.log⟩) := by
  simp only [Simulator.respondFirst, Simulator.respond?, hname, Option.map_some, Simulator.workAs]

/-- A call that the first simulator of the chain takes is run by its handler. -/
theorem simulate_of_first (r : Draft) {callee : Callee} {args : List Expr} {values : List Int64}
    {h : Handler} {own own' : StackMachine} {rest : List Simulator} {s s' : Machine}
    {log log' : OutputLog} {answer : Int64}
    (hname : named? own.layout (normalizeName callee.name) = some h)
    (hargs : args.map constant? = values.map some) (harity : values.length = h.arity)
    (hrun : (h.run args values).runOn ⟨own, s, log⟩ = (.ok answer, ⟨own', s', log'⟩)) :
    (Evaluation.simulate r callee args).runOn ⟨.stackMachine own :: rest, s, log⟩ =
      (.ok (some answer), ⟨.stackMachine own' :: rest, s', log'⟩) := by
  have hdemand : (Simulator.stackMachine own :: rest).findSome?
      (·.demand? (normalizeName callee.name)) = some (.first h.arity) := by
    rw [List.findSome?_cons, demand?_stackMachine hname]
  have hvalues := evalArgs_of_constants r callee.name hargs 0
    ⟨.stackMachine own :: rest, s, log⟩
  rw [harity] at hvalues
  unfold Evaluation.simulate
  rw [Evaluation.runOn_simulateWith hdemand, Demand.count, hvalues]
  dsimp only
  rw [respondFirst_stackMachine hname, hrun]
  rfl

/-! ## One call -/

/-- Replacing from the far end. -/
theorem reverse_set_reverse {α : Type} {l : List α} {k : Nat} (hk : k < l.length) (a : α) :
    (l.reverse.set k a).reverse = l.set (l.length - 1 - k) a := by
  apply List.ext_getElem?
  intro j
  by_cases hj : j < l.length
  · rw [List.getElem?_reverse (by simpa using hj), List.length_set, List.length_reverse,
      List.getElem?_set, List.getElem?_set, List.length_reverse,
      List.getElem?_reverse (by omega)]
    have hback : l.length - 1 - (l.length - 1 - j) = j := by omega
    rw [hback]
    by_cases hkj : k = l.length - 1 - j
    · rw [if_pos hkj, if_pos hk, if_pos (by omega), if_pos (by omega)]
    · rw [if_neg hkj, if_neg (by omega)]
  · rw [List.getElem?_eq_none (by simpa using hj), List.getElem?_eq_none (by simpa using hj)]

section Calls

variable {layout : StackLayout} {cell : Int64} {total used : Nat} {nodes : List (Nat × UInt32)}
  {own : StackMachine} {s : Machine} {log : OutputLog}

/-- Every handler does to the nodes what its operation does to the stack. -/
theorem handler_runOn (h : Carries layout cell.toUInt64 total used nodes own s)
    (hlen : nodes.length < maxLinks) (c : StackCall) (hallowed : c.Allowed (nodes.map Prod.snd))
    (hroom : used + c.chunks ≤ total) (args : List Expr) :
    ∃ answer own' s' log' nodes',
      (c.handler.run args (cell :: c.operands)).runOn ⟨own, s, log⟩ =
        (.ok answer, ⟨own', s', log'⟩) ∧
      c.Answers (nodes.map Prod.snd) answer ∧ nodes'.map Prod.snd = c.apply (nodes.map Prod.snd) ∧
      Carries layout cell.toUInt64 total (used + c.chunks) nodes' own' s' := by
  cases c with
  | push value =>
      obtain ⟨own', s', log', hrun, hnext⟩ := push_runOn h hroom value args[1]?
      exact ⟨0, own', s', log', _, hrun, rfl, rfl, hnext⟩
  | pop =>
      cases nodes with
      | nil => exact absurd rfl hallowed
      | cons node nodes =>
          obtain ⟨own', s', log', hrun, hnext⟩ := pop_runOn h
          exact ⟨_, own', s', log', nodes, hrun, ⟨node.2, rfl, rfl⟩, rfl, hnext⟩
  | get index =>
      obtain ⟨hlow, hhigh⟩ := hallowed
      rw [List.length_map] at hhigh
      obtain ⟨node, log', hnode, hrun⟩ := get_runOn h hlen hlow hhigh
      refine ⟨_, own, s, log', nodes, hrun, ⟨node.2, ?_, rfl⟩, rfl, h⟩
      rw [List.getElem?_reverse (by rw [List.length_map]; omega), List.length_map,
        List.getElem?_map, hnode, Option.map_some]
  | set index value =>
      obtain ⟨hlow, hhigh⟩ := hallowed
      rw [List.length_map] at hhigh
      obtain ⟨node, answer, s', log', hnode, hrun, hnext⟩ := set_runOn h hlen hlow hhigh value
      refine ⟨answer, own, s', log', _, hrun, trivial, ?_, hnext⟩
      rw [StackCall.apply, reverse_set_reverse (by rw [List.length_map]; omega), List.length_map,
        List.map_set]

/-- A call on a session whose first simulator is the stack machine. -/
theorem HandlerCall.simulate_runOn (r : Draft) (rest : List Simulator) (log : OutputLog)
    (h : Carries layout cell.toUInt64 total used nodes own s) (hlen : nodes.length < maxLinks)
    {c : HandlerCall} (hcall : c.WellMeant layout cell)
    (hallowed : c.meaning.Allowed (nodes.map Prod.snd))
    (hroom : used + c.meaning.chunks ≤ total) :
    ∃ answer own' s' log' nodes',
      (Evaluation.simulate r c.callee c.args).runOn ⟨.stackMachine own :: rest, s, log⟩ =
        (.ok (some answer), ⟨.stackMachine own' :: rest, s', log'⟩) ∧
      c.meaning.Answers (nodes.map Prod.snd) answer ∧
      nodes'.map Prod.snd = c.meaning.apply (nodes.map Prod.snd) ∧
      Carries layout cell.toUInt64 total (used + c.meaning.chunks) nodes' own' s' := by
  obtain ⟨answer, own', s', log', nodes', hrun, hanswers, hnodes, hnext⟩ :=
    handler_runOn h hlen c.meaning hallowed hroom c.args
  have harity : (cell :: c.meaning.operands).length = c.meaning.handler.arity := by
    cases c.meaning <;> rfl
  have hname : named? own.layout (normalizeName c.callee.name) = some c.meaning.handler := by
    rw [h.layout_eq]
    exact hcall.handler
  exact ⟨answer, own', s', log', nodes', simulate_of_first r hname hcall.args harity hrun,
    hanswers, hnodes, hnext⟩

end Calls

/-! ## A sequence of calls -/

/-- The links from a cell lead through chunks that hold these values, and end in a null link. -/
def Spells (m : Memory) : UInt64 → List UInt32 → Prop
  | cell, [] => m.readWord cell 8 = .ok 0
  | cell, value :: rest =>
    ∃ chunk, chunk ≠ 0 ∧ m.readWord cell 8 = .ok chunk ∧
      m.readWord (chunk + valueOffset) 4 = .ok value.toUInt64 ∧ Spells m chunk rest

theorem Nodes.spells {layout : StackLayout} {used : Nat} {cell head : UInt64}
    {nodes : List (Nat × UInt32)} {m : Memory} (h : Nodes layout used head nodes m)
    (hhead : m.readWord cell 8 = .ok head) : Spells m cell (nodes.map Prod.snd) := by
  induction nodes generalizing cell head with
  | nil =>
      obtain rfl : head = 0 := h.links
      exact hhead
  | cons node nodes ih =>
      have hne := h.links.2.1
      obtain ⟨rfl, next, hlink, htail⟩ := h.tail
      exact ⟨_, hne, hhead, h.values 0 node rfl, ih htail hlink⟩

/-- Calls made one after the other on a session mirror the operations that they mean, from a stack
on: at every point the list spells the stack, and every call succeeds with the right answer. -/
def Mirrors (r : Draft) (cell : UInt64) : List HandlerCall → List UInt32 → Session → Prop
  | [], stack, session => Spells session.machine.memory cell stack
  | c :: calls, stack, session =>
    Spells session.machine.memory cell stack ∧
      ∃ answer session',
        (Evaluation.simulate r c.callee c.args).runOn session = (.ok (some answer), session') ∧
        c.meaning.Answers stack answer ∧ Mirrors r cell calls (c.meaning.apply stack) session'

/-- The chunks that a sequence of calls takes. -/
def pushes (calls : List HandlerCall) : Nat :=
  calls.countP (·.meaning.isPush)

theorem pushes_cons (c : HandlerCall) (calls : List HandlerCall) :
    pushes (c :: calls) = c.meaning.chunks + pushes calls := by
  rw [pushes, List.countP_cons, Nat.add_comm]
  rfl

theorem mirrors_of_carries (r : Draft) {layout : StackLayout} {cell : Int64} {total used : Nat}
    {nodes : List (Nat × UInt32)} {own : StackMachine} {rest : List Simulator} {s : Machine}
    {log : OutputLog} (calls : List HandlerCall)
    (h : Carries layout cell.toUInt64 total used nodes own s)
    (hcalls : ∀ c ∈ calls, c.WellMeant layout cell)
    (hallowed : StackCall.AllAllowed (nodes.map Prod.snd) (calls.map (·.meaning)))
    (hlen : nodes.length < 0xFFFFF) (hroom : used + pushes calls ≤ total) :
    Mirrors r cell.toUInt64 calls (nodes.map Prod.snd) ⟨.stackMachine own :: rest, s, log⟩ := by
  induction calls generalizing used nodes own s log with
  | nil =>
      obtain ⟨head, hhead, hnodes⟩ := h.list
      exact hnodes.spells hhead
  | cons c calls ih =>
      obtain ⟨head, hhead, hnodes⟩ := h.list
      obtain ⟨hfirst, hlater⟩ := hallowed
      rw [pushes_cons] at hroom
      obtain ⟨answer, own', s', log', nodes', hrun, hanswers, hnodes', hnext⟩ :=
        c.simulate_runOn r rest log h (Nat.lt_of_lt_of_le hlen (by decide))
          (hcalls c List.mem_cons_self) hfirst (by omega)
      refine ⟨hnodes.spells hhead, answer, _, hrun, hanswers, ?_⟩
      -- the nodes that the call leaves spell the stack that its operation leaves
      rw [← hnodes'] at hlater ⊢
      refine ih hnext (fun c' hc' => hcalls c' (List.mem_cons_of_mem c hc')) hlater ?_ (by omega)
      have hgrowth := StackCall.length_apply_lt hfirst (by simpa using hlen)
      rw [← hnodes', List.length_map] at hgrowth
      exact hgrowth

/-- A memory whose stack cell is empty and that maps no byte of the room for the chunks is fit for
the list. -/
theorem ground_of_unmapped {layout : StackLayout} {cell : UInt64} {total : Nat} {m : Memory}
    (hbase : layout.chunkBase ≠ 0) (hsize : 12 ≤ layout.chunkSize.toNat) (hcell : cell ≠ 0)
    (hempty : m.readWord cell 8 = .ok 0) (hwritable : m.Covers (·.write) cell 8)
    (hspace : slotStart layout total ≤ m.spaceSize)
    (hfree : ∀ x, slotStart layout 0 ≤ x → x < slotStart layout total → m.accessAt? x = none) :
    Ground layout cell total 0 m where
  cell_ne := hcell
  base_ne := hbase
  size_ge := hsize
  space := hspace
  apart := by
    intro slot hslot
    refine Classical.or_iff_not_imp_left.mpr fun hbelow => Nat.not_lt.mp fun habove => ?_
    -- the first address that the chunk and the cell share is mapped
    have hfirst : slotStart layout 0 ≤ slotStart layout slot := by
      unfold slotStart
      omega
    have hlast := slotStart_add_le layout hslot
    rcases hwritable with hzero | ⟨_, _, hbytes⟩
    · cases hzero
    · obtain ⟨access, haccess, _⟩ :=
        hbytes (max cell.toNat (slotStart layout slot)) (by omega) (by omega)
      rw [hfree _ (by omega) (by omega)] at haccess
      cases haccess
  used_le := Nat.zero_le total
  readable := covers_of_readWord isWordWidth_eight hempty
  writable := hwritable
  room x hle hlt := Or.inl (hfree x hle hlt)
  taken slot hslot := absurd hslot (Nat.not_lt_zero slot)

/-- **The linked list refines a stack of 32-bit numbers.** Any sequence of calls with constant
arguments that the stack allows, made on a fresh stack machine whose cell is empty, mirrors the
operations on a stack that is empty at first, as long as no byte of the chunks that it will take is
mapped. What a call means is decided by the handler that its name leads to, so names that hide one
another need no condition of their own. -/
theorem handlerCalls_mirror_stack (r : Draft) (layout : StackLayout) (cell : Int64)
    {rest : List Simulator} {s : Machine} {log : OutputLog} {calls : List HandlerCall}
    (hbase : layout.chunkBase ≠ 0) (hsize : 12 ≤ layout.chunkSize.toNat) (hcell : cell ≠ 0)
    (hempty : s.memory.readWord cell.toUInt64 8 = .ok 0)
    (hwritable : s.memory.Covers (·.write) cell.toUInt64 8)
    (hcalls : ∀ c ∈ calls, c.WellMeant layout cell)
    (hallowed : StackCall.AllAllowed [] (calls.map (·.meaning)))
    (hroom : ∀ x, slotStart layout 0 ≤ x → x < slotStart layout (pushes calls) →
      x < s.memory.spaceSize ∧ s.memory.accessAt? x = none) :
    Mirrors r cell.toUInt64 calls [] ⟨.stackMachine { layout } :: rest, s, log⟩ := by
  cases calls with
  | nil => exact hempty
  | cons c calls =>
      -- the first call pushes, so there is at least one chunk, and its last byte is in the space
      have hpos : 0 < pushes (c :: calls) := by
        rw [pushes_cons, StackCall.chunks, if_pos (StackCall.isPush_of_allowed_nil hallowed.1)]
        omega
      have hlast := slotStart_add_le layout hpos
      have hspace := (hroom (slotStart layout (pushes (c :: calls)) - 1) (by omega) (by omega)).1
      have hcell' : cell.toUInt64 ≠ 0 := by
        intro hzero
        rw [← Int64.toInt64_toUInt64 cell, hzero] at hcell
        exact hcell rfl
      have hground := ground_of_unmapped hbase hsize hcell' hempty hwritable (by omega)
        fun x hle hlt => (hroom x hle hlt).2
      have hnodes : Nodes layout 0 0 [] s.memory := ⟨by simp, by simp, rfl, by simp⟩
      have hcarries : Carries layout cell.toUInt64 (pushes (c :: calls)) 0 [] { layout } s :=
        ⟨rfl, (chunkAt_zero layout).symm, hground, 0, hempty, hnodes⟩
      exact mirrors_of_carries r (c :: calls) hcarries hcalls hallowed (by decide) (by omega)

/-! ## Calls on a machine with one page -/

/-- A big-endian machine of 32 bits that maps one page, for its stack cell. -/
def onePageMachine : Machine :=
  .new {} ((Memory.new .big 32).mapPages .readWrite [2])

theorem accessAt?_onePageMachine (x : Nat) :
    onePageMachine.memory.accessAt? x = if x / pageSize = 2 then some .readWrite else none := by
  show ((Memory.new .big 32).mapPages .readWrite [2]).accessAt? x = _
  rw [accessAt?_eq, getElem?_pages_mapPages]
  by_cases hx : x / pageSize = 2
  · rw [if_pos (List.mem_singleton.mpr hx), if_pos hx]
    rfl
  · rw [if_neg (fun h => hx (List.mem_singleton.mp h)), if_neg hx]
    rfl

/-- The call of an operation under the names of the default layout. -/
def StackCall.written (cell : Int64) (c : StackCall) : HandlerCall where
  callee := match c with
    | push _ => { name := "sub_400AAE" }
    | pop => { name := "→__sub_4009D7" }
    | get _ => { name := "sub_400D08" }
    | set _ _ => { name := "sub_400D55" }
  args := .ptr cell.toUInt64 :: c.operands.map .int
  meaning := c

theorem StackCall.written_wellMeant (cell : Int64) (c : StackCall) :
    (c.written cell).WellMeant {} cell := by
  have hpush : named? {} (normalizeName "sub_400AAE") = some .push := by decide
  have hpop : named? {} (normalizeName "→__sub_4009D7") = some .pop := by decide
  have hget : named? {} (normalizeName "sub_400D08") = some .get := by decide
  have hset : named? {} (normalizeName "sub_400D55") = some .set := by decide
  cases c with
  | push value => exact ⟨hpush, rfl⟩
  | pop => exact ⟨hpop, rfl⟩
  | get index => exact ⟨hget, rfl⟩
  | set index value => exact ⟨hset, rfl⟩

/-- A pop between pushes: the chunk of the popped value is not taken again. -/
theorem handlerCalls_mirror_stack_onePage :
    Mirrors { name := "f", address := 0, stmts := #[], body := ⟨0⟩ } 0x2000
      ([StackCall.push 5, .push (-1), .set 0 7, .pop, .push 9, .get 1, .pop, .pop].map
        (·.written 0x2000)) [] ⟨[.stackMachine {}], onePageMachine, {}⟩ := by
  refine handlerCalls_mirror_stack _ {} 0x2000 (by decide) (by decide) (by decide) rfl ?_ ?_ ?_ ?_
  · refine Or.inr ⟨by decide, by decide, fun x hle hlt => ⟨.readWrite, ?_, rfl⟩⟩
    have hle : 0x2000 ≤ x := hle
    have hlt : x < 0x2000 + 8 := hlt
    rw [accessAt?_onePageMachine, if_pos (by unfold pageSize; omega)]
  · intro c hc
    obtain ⟨meaning, _, rfl⟩ := List.mem_map.mp hc
    exact meaning.written_wellMeant _
  · simp [StackCall.AllAllowed, StackCall.written, StackCall.Allowed, StackCall.apply]
  · intro x hle hlt
    have hle : 0x1000000 + 0 * 16 ≤ x := hle
    have hlt : x < 0x1000000 + 3 * 16 := hlt
    have hspace : onePageMachine.memory.spaceSize = 0x100000000 := rfl
    rw [accessAt?_onePageMachine, if_neg (by unfold pageSize; omega), hspace]
    exact ⟨by omega, rfl⟩

end RoutineEmulator.StackMachine
