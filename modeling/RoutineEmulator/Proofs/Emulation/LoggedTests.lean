import RoutineEmulator.Proofs.Emulation.ExactValues
import RoutineEmulator.Proofs.Emulation.Reachability
import RoutineEmulator.Proofs.Emulation.TestLogging
import RoutineEmulator.Proofs.Emulation.Walking
/-!
The test that is logged is the test that is taken.

A stack machine looks at the first predicate of a two-way branch through at most one wrapper, and it
evaluates it before the branch does. What it logs is a test that holds: the one that is written, if
the branch is about to enter its first block, and else the complement of that one.
-/

namespace RoutineEmulator

open Work Evaluation Simulator

/-! ## Complements -/

namespace Operator

variable {o n : Operator}

/-- Two operators with the same number of operands, exactly one of which gives zero for the same
values. -/
inductive Complementary (o n : Operator) : Prop
  | unary (f g : Int64 → Int64) : o.unary? = some f → n.unary? = some g →
      (∀ a, g a = 0 ↔ f a ≠ 0) → Complementary o n
  | binary (f g : Int64 → Int64 → Int64) : o.binary? = some (fun a b => some (f a b)) →
      n.binary? = some (fun a b => some (g a b)) → (∀ a b, g a b = 0 ↔ f a b ≠ 0) →
      Complementary o n

theorem ofTruth_eq_zero_iff {p : Bool} : ofTruth p = 0 ↔ p = false := by
  cases p <;> decide

/-- Comparisons are complementary where one is true exactly when the other is false. -/
theorem complementary_of_truth {p q : Int64 → Int64 → Bool}
    (ho : o.binary? = some fun a b => some (ofTruth (p a b)))
    (hn : n.binary? = some fun a b => some (ofTruth (q a b))) (hpq : ∀ a b, q a b = !p a b) :
    Complementary o n := by
  refine .binary _ _ ho hn fun a b => ?_
  rw [Ne, ofTruth_eq_zero_iff, ofTruth_eq_zero_iff, hpq]
  cases p a b <;> decide

theorem complementary_of_negated? (h : o.negated? = some n) : Complementary o n := by
  cases o <;> cases h
  case eq | ne => exact complementary_of_truth rfl rfl fun a b => by simp [bne]
  case lt | gt => exact complementary_of_truth rfl rfl fun a b => by simp [← Int64.not_lt]
  case le | ge => exact complementary_of_truth rfl rfl fun a b => by simp [← Int64.not_le]
  case logNot =>
    refine .unary _ _ rfl rfl fun a => ?_
    rw [Ne, ofTruth_eq_zero_iff]
    simp
  case logIdent =>
    refine .unary _ _ rfl rfl fun a => ?_
    rw [ofTruth_eq_zero_iff]
    simp

/-- A complement is spelled differently. -/
theorem symbol_ne_of_negated? (h : o.negated? = some n) : n.symbol ≠ o.symbol := by
  cases o <;> cases h <;> decide

end Operator

namespace Evaluation

open Operator

variable {r : Draft} {o n : Operator} {operands : List Expr} {session after : Session}
  {value : Int64}

/-- The spelling of a test tells whether it holds. -/
theorem testSymbol_eq_symbol_iff {holds : Bool} :
    testSymbol o holds = o.symbol ↔ holds = true := by
  refine ⟨fun hsymbol => ?_, fun hholds => if_pos hholds⟩
  cases holds with
  | true => rfl
  | false =>
      rw [testSymbol, if_neg Bool.false_ne_true] at hsymbol
      split at hsymbol
      · rename_i n hn
        exact absurd hsymbol (symbol_ne_of_negated? hn)
      · -- an exclamation mark in front makes a spelling longer
        have hlength := congrArg String.length hsymbol
        simp at hlength

/-- An operator with a complement has a value for the right number of operands only. -/
theorem exists_operands (h : o.negated? = some n)
    (heval : (eval r (.op o operands)).runOn session = (.ok value, after)) :
    (∃ a, operands = [a] ∧ o.binary? = none) ∨ ∃ a b, operands = [a, b] ∧ o.unary? = none := by
  match operands with
  | [a] =>
      refine .inl ⟨a, rfl, ?_⟩
      cases o <;> cases h
      all_goals first | rfl | cases heval
  | [a, b] =>
      refine .inr ⟨a, b, rfl, ?_⟩
      cases o <;> cases h
      all_goals first | rfl | cases heval
  | [] => cases o <;> cases h <;> cases heval
  | _ :: _ :: _ :: _ => cases o <;> cases h <;> cases heval

/-- Where an operation has a value, its complement has one, and one of the two is zero. -/
theorem exists_eval_negated (h : o.negated? = some n)
    (heval : (eval r (.op o operands)).runOn session = (.ok value, after)) :
    ∃ value', (eval r (.op n operands)).runOn session = (.ok value', after) ∧
      (value' = 0 ↔ value ≠ 0) := by
  cases complementary_of_negated? h with
  | unary f g ho hn hfg =>
      obtain ⟨a, rfl⟩ : ∃ a, operands = [a] := by
        rcases exists_operands h heval with ⟨a, ha, -⟩ | ⟨_, _, -, hnone⟩
        · exact ⟨a, ha⟩
        · exact absurd (ho.symm.trans hnone) (Option.some_ne_none f)
      rw [eval_unary r ho] at heval
      obtain ⟨x, between, hx, heval⟩ := exists_of_runOn_bind_eq_ok heval
      cases heval
      exact ⟨g x, by rw [eval_unary r hn, runOn_bind_of_ok hx]; rfl, hfg x⟩
  | binary f g ho hn hfg =>
      obtain ⟨a, b, rfl⟩ : ∃ a b, operands = [a, b] := by
        rcases exists_operands h heval with ⟨_, -, hnone⟩ | ⟨a, b, hab, -⟩
        · exact absurd (ho.symm.trans hnone) (Option.some_ne_none _)
        · exact ⟨a, b, hab⟩
      rw [eval_binary r ho] at heval
      obtain ⟨x, between, hx, heval⟩ := exists_of_runOn_bind_eq_ok heval
      obtain ⟨y, between', hy, heval⟩ := exists_of_runOn_bind_eq_ok heval
      cases heval
      exact ⟨g x y, by rw [eval_binary r hn, runOn_bind_of_ok hx, runOn_bind_of_ok hy]; rfl,
        hfg x y⟩

/-- The test inside a wrapper holds where the predicate does. -/
theorem exists_eval_testOf {predicate : Expr}
    (heval : (eval r predicate).runOn session = (.ok value, after)) :
    ∃ tested, (eval r (testOf predicate)).runOn session = (.ok tested, after) ∧
      (tested = 0 ↔ value = 0) := by
  cases predicate with
  | predicate inner =>
      unfold eval at heval
      obtain ⟨tested, between, hinner, heval⟩ := exists_of_runOn_bind_eq_ok heval
      cases heval
      refine ⟨tested, hinner, ?_⟩
      rw [ofTruth_eq_zero_iff]
      simp
  | int | ptr | ident | call | op => exact ⟨value, heval, .rfl⟩

end Evaluation

/-! ## The first block of a branch -/

namespace Emulator

open Operator Structured RoutineEmulator.Graph

section

variable {r : Draft} {session after : Session} {first : Branch} {rest : List Branch}
  {value : Int64} (heval : (eval r first.predicate).runOn session = (.ok value, after))
include heval

/-- The first arm is taken where its predicate is not zero. -/
theorem chooseBranch_eq_first_iff :
    ((chooseBranch r (first :: rest) 0).runOn session).1 = .ok (some 0) ↔ value ≠ 0 := by
  rw [chooseBranch, runOn_bind_of_ok heval]
  by_cases hvalue : value = 0
  · rw [if_neg (not_not.mpr hvalue)]
    refine iff_of_false ?_ (not_not.mpr hvalue)
    intro hfirst
    have hlt := lt_of_chooseBranch (Prod.ext hfirst rfl)
    exact absurd hlt.1 (by decide)
  · rw [if_pos hvalue]
    exact iff_of_true rfl hvalue

/-- A branch of the body goes to its first block where the first predicate is not zero. -/
theorem execute_eq_first_iff (hr : r.WellFormed) {g : Graph} (hbuild : build r = .ok g)
    {id : StmtId} {path : List StmtId} (hpath : r.Ancestors id path) {default : Option StmtId}
    (hs : r.stmt? id = some (.ifElse (first :: rest) default)) :
    (∃ step, ((execute r g id (.ifElse (first :: rest) default)).runOn session).1 = .ok step ∧
      step.next = some first.block) ↔ value ≠ 0 := by
  rw [execute_branch hr hbuild hpath hs, chooseBlock, bind_assoc, runOn_bind_of_ok heval]
  by_cases hvalue : value = 0
  · rw [if_neg (not_not.mpr hvalue)]
    refine iff_of_false ?_ (not_not.mpr hvalue)
    rintro ⟨step, hstep, hnext⟩
    obtain ⟨chosen, between, hchosen, hpure⟩ := exists_of_runOn_bind_eq_ok (Prod.ext hstep rfl)
    obtain rfl := Except.ok.inj (Prod.mk.inj hpure).1
    cases chosen with
    | some block =>
        -- another arm, or the default, has a block of its own
        obtain rfl := Option.some.inj hnext
        have hother := mem_of_canAnswer_chooseBlock ⟨_, _, hchosen⟩
        exact (List.nodup_cons.mp (hr.nodup_children hs)).1 hother
    | none => exact follow_ne_of_mem_bodies hr hpath hs List.mem_cons_self hnext
  · rw [if_pos hvalue]
    exact iff_of_true ⟨_, rfl, rfl⟩ hvalue

end

/-- **The logged test is the test taken.** A stack machine with pending pops comes to a branch with
at most two blocks whose first predicate has no calls and a value, and is an operation inside at
most one wrapper. It logs one line and settles its pops, and no more is changed. The line shows the
operator as written exactly where the branch, executed on the same machine next, takes its first
arm, and where that has its block in the body control goes there. Otherwise it shows the
complement, or the operator with an exclamation mark where there is none, and on the same operands
the complement has a value that is not zero. -/
theorem logged_test_is_taken (r : Routine) {id : StmtId} {place : Nat} {session : Session}
    {m : StackMachine} {first : Branch} {rest : List Branch} {default : Option StmtId}
    {o : Operator} {operands : List Expr} {value : Int64}
    (hm : session.own[place]? = some (.stackMachine m)) (hpops : m.pops ≠ 0)
    (hs : r.stmt? id = some (.ifElse (first :: rest) default))
    (htwo : (first :: rest).length + default.toList.length ≤ 2)
    (hfree : first.predicate.CallFree) (htest : testOf first.predicate = .op o operands)
    (heval : ((eval r.toDraft first.predicate).runOn session).1 = .ok value) :
    ∃ symbol, (beforeStatementAt r.toDraft id place).runOn session =
        (.ok (), ⟨session.own.set place (.stackMachine { m with pops := 0 }), session.machine,
          session.log.push (testLine symbol operands)⟩) ∧
      ∀ chain log,
        let next : Session := ⟨chain, session.machine, log⟩
        (symbol = o.symbol ↔
          ((chooseBranch r.toDraft (first :: rest) 0).runOn next).1 = .ok (some 0)) ∧
        (∀ g path, build r.toDraft = .ok g → r.Ancestors id path →
          (symbol = o.symbol ↔ ∃ step,
            ((execute r.toDraft g id (.ifElse (first :: rest) default)).runOn next).1 = .ok step ∧
            step.next = some first.block)) ∧
        (symbol ≠ o.symbol →
          symbol = (o.negated?.elim ("!" ++ o.symbol) Operator.symbol) ∧
          ∀ n, o.negated? = some n →
            ∃ value', value' ≠ 0 ∧
              (eval r.toDraft (.op n operands)).runOn next = (.ok value', next)) := by
  -- the predicate has this value whatever the chain and the log are
  obtain ⟨result, hall⟩ := inspects_reads.eval r.toDraft first.predicate (.inl hfree)
    session.machine
  obtain rfl : result = .ok value := by rw [← heval, hall session.own session.log]
  obtain ⟨tested, htested, hzero⟩ := exists_eval_testOf (hall session.own session.log)
  have hsymbol : testSymbol o (tested != 0) = o.symbol ↔ value ≠ 0 := by
    rw [testSymbol_eq_symbol_iff, bne_iff_ne, Ne, hzero]
  refine ⟨testSymbol o (tested != 0), ?_, fun chain log => ⟨?_, ?_, ?_⟩⟩
  · have htwoWay : (r.stmt? id).bind twoWayTest? = some (some first.predicate) := by
      rw [hs, Option.bind_some, twoWayTest?, if_pos htwo]
      rfl
    have hsettled : session.own.modify place settlePops =
        session.own.set place (.stackMachine { m with pops := 0 }) := by
      rw [List.modify_eq_set_getElem?, hm]
      rfl
    rw [runOn_beforeStatementAt hm hpops htwoWay (by rw [htest]; rfl), htested, ← hsettled]
  · rw [hsymbol, chooseBranch_eq_first_iff (hall chain log)]
  · intro g path hbuild hpath
    rw [hsymbol, execute_eq_first_iff (hall chain log) r.wellFormed hbuild hpath hs]
  · intro hne
    have hvalue : value = 0 := not_not.mp (mt hsymbol.mpr hne)
    have hfalse : (tested != 0) = false := by simpa using hzero.mpr hvalue
    refine ⟨?_, fun n hn => ?_⟩
    · rw [hfalse, testSymbol, if_neg Bool.false_ne_true]
      cases o.negated? <;> rfl
    · obtain ⟨tested', htested', hzero'⟩ := exists_eval_testOf (hall chain log)
      rw [htest] at htested'
      obtain ⟨value', hvalue', hcomplement⟩ := exists_eval_negated hn htested'
      exact ⟨value', mt hcomplement.mp (not_not.mpr (hzero'.mpr hvalue)), hvalue'⟩

/-- A branch on a comparison that fails. -/
def comparingDraft : Draft where
  name := "comparing"
  address := 0x1000
  body := ⟨0⟩
  stmts := #[.block [⟨1⟩], .ifElse [⟨.predicate (.op .gt [.int 9, .int 20]), ⟨2⟩⟩] (some ⟨3⟩),
    .block [], .block []]

def comparingRoutine : Routine where
  toDraft := comparingDraft
  valid := Draft.check_eq_ok_iff.mpr ⟨by decide, by decide, by decide, by decide⟩

/-- Behind a library a stack machine logs `<=`, the branch passes its first arm by, and `9 <= 20` has
a value that is not zero. -/
theorem logged_test_is_taken_complement :
    let m : StackMachine := { pops := 1 }
    let s : Machine := .new {} (.new .big 32)
    let session : Session := ⟨[.libc {}, .stackMachine m], s, {}⟩
    (beforeStatementAt comparingDraft ⟨1⟩ 1).runOn session =
        (.ok (), ⟨[.libc {}, .stackMachine { m with pops := 0 }], s,
          session.log.push "S: TEST (<=,cte=20)"⟩) ∧
      ∃ value', value' ≠ 0 ∧
        (eval comparingDraft (.op .le [.int 9, .int 20])).runOn session = (.ok value', session) := by
  intro m s session
  obtain ⟨symbol, hrun, hnext⟩ := @logged_test_is_taken comparingRoutine ⟨1⟩ 1 session m _ [] _ _ _
    0 rfl (by decide) rfl (by decide) (by decide) rfl rfl
  obtain ⟨hfirst, -, hcomplement⟩ := hnext session.own session.log
  have hpassed : symbol ≠ Operator.symbol .gt := by
    rw [Ne, hfirst]
    exact fun hchosen => nomatch Except.ok.inj hchosen
  obtain ⟨rfl, hvalue⟩ := hcomplement hpassed
  exact ⟨hrun, hvalue .le rfl⟩

end Emulator

end RoutineEmulator
