import RoutineEmulator.Emulation.Evaluation
/-!
Parentheses around wrapped operands.

A predicate and the identity on truth values print as what is inside them. Whether an operand needs
parentheses is asked of the operand as it stands, though, and not of what its wrappers print. So the
text of an expression is the text without its wrappers but for pairs of parentheses: they are
missing where wrappers hide an operand that binds looser, and superfluous where a wrapper makes the
target of a call look like an operation.
-/

namespace RoutineEmulator

/-! ## Texts that differ by parentheses -/

/-- The second text has so many pairs of parentheses that the first one lacks, and the first one has
so many that the second one lacks. -/
inductive Reparenthesised : Nat → Nat → String → String → Prop
  | same (s : String) : Reparenthesised 0 0 s s
  | append {m m' n n' : Nat} {s s' t t' : String} : Reparenthesised m n s t →
      Reparenthesised m' n' s' t' → Reparenthesised (m + m') (n + n') (s ++ s') (t ++ t')
  | putIn {m n : Nat} {s t : String} : Reparenthesised m n s t →
      Reparenthesised (m + 1) n s ("(" ++ t ++ ")")
  | takeOut {m n : Nat} {s t : String} : Reparenthesised m n s t →
      Reparenthesised m (n + 1) ("(" ++ s ++ ")") t

namespace Reparenthesised

variable {m n : Nat} {s t : String}

/-- A pair of parentheses takes two characters. -/
theorem length_add (h : Reparenthesised m n s t) : t.length + 2 * n = s.length + 2 * m := by
  induction h with
  | same => rfl
  | append _ _ ih ih' =>
      rw [String.length_append, String.length_append]
      omega
  | putIn _ ih | takeOut _ ih =>
      have hopening : "(".length = 1 := rfl
      have hclosing : ")".length = 1 := rfl
      rw [String.length_append, String.length_append]
      omega

theorem eq_of_zero (h : Reparenthesised m n s t) (hm : m = 0) (hn : n = 0) : s = t := by
  induction h with
  | same => rfl
  | append _ _ ih ih' => rw [ih (by omega) (by omega), ih' (by omega) (by omega)]
  | putIn | takeOut => omega

/-- Where no parentheses are superfluous, the texts are the same exactly if none are missing. -/
theorem eq_iff (h : Reparenthesised m 0 s t) : s = t ↔ m = 0 := by
  constructor
  · rintro rfl
    have hlength := h.length_add
    omega
  · rintro rfl
    exact h.eq_of_zero rfl rfl

end Reparenthesised

namespace Expr

/-! ## Wrappers -/

/-- What is inside the wrappers around an expression: predicates, and identities on one operand. -/
def core : Expr → Expr
  | predicate inner => core inner
  | op .logIdent [inner] => core inner
  | e => e

mutual

/-- The expression without its wrappers, wherever they occur. -/
def unwrap : Expr → Expr
  | predicate inner => unwrap inner
  | op .logIdent [inner] => unwrap inner
  | op o operands => op o (unwrapAll operands)
  | call callee callsite args => call callee (unwrap callsite) (unwrapAll args)
  | e => e

def unwrapAll : List Expr → List Expr
  | [] => []
  | e :: rest => unwrap e :: unwrapAll rest

end

/-! ## Places for parentheses -/

/-- An operand that is put in parentheses where the test says so. -/
structure Place where
  operand : Expr
  test : Expr → Bool

namespace Place

/-- The operand needs parentheses, but its wrappers hide that. -/
def lacks (p : Place) : Bool :=
  !p.test p.operand && p.test p.operand.core

/-- The operand needs no parentheses, but it has a wrapper that gets them. -/
def exceeds (p : Place) : Bool :=
  p.test p.operand && !p.test p.operand.core

end Place

/-- The test of operands that never get parentheses. -/
def never (_ : Expr) : Bool :=
  false

/-- How a text is put together from those of operands. A separator may depend on how many operands
come after it, and an operand is put in parentheses where the test says so. -/
structure Layout where
  opening : String := ""
  separator : Nat → String := fun _ => ", "
  closing : String := ""
  test : Expr → Bool := never

/-- Operands in one pair of parentheses behind this text. -/
def Layout.applied (symbol : String) : Layout where
  opening := symbol ++ "("
  closing := ")"

/-- The layout of an operation with so many operands. -/
def layout : Operator → Nat → Layout
  | .custom symbol, 0 => { opening := symbol }
  | .custom symbol, _ => .applied symbol
  | .logIdent, 1 => {}
  | .sizeOf, 1 => .applied "sizeof"
  | .cast type, 1 => { opening := "(" ++ type ++ ")", test := isSpread }
  | o, 1 => if o.isUnary then { opening := o.symbol, test := isSpread } else .applied o.symbol
  | o, 2 => { separator := fun _ => " " ++ o.symbol ++ " ", test := bindsLooser o }
  | .cond, 3 =>
    { separator := fun after => if after = 2 then " ? " else " : ", test := bindsLooser .cond }
  | o, _ => .applied o.symbol

mutual

/-- The places for parentheses in the text of an expression, in order. The call site of a known
callee is not written. -/
def places : Expr → List Place
  | predicate inner => places inner
  | call (some _) _ args => placesOfAll never args
  | call none callsite args => ⟨callsite, isOperation⟩ :: (places callsite ++ placesOfAll never args)
  | op o operands => placesOfAll (layout o operands.length).test operands
  | _ => []

/-- The places in the texts of several operands with the same test. -/
def placesOfAll (test : Expr → Bool) : List Expr → List Place
  | [] => []
  | e :: rest => ⟨e, test⟩ :: (places e ++ placesOfAll test rest)

end

/-- The number of pairs of parentheses that wrappers keep out of the text. -/
def missing (e : Expr) : Nat :=
  e.places.countP Place.lacks

/-- The number of pairs of parentheses that wrappers bring into the text. -/
def superfluous (e : Expr) : Nat :=
  e.places.countP Place.exceeds

/-! ## Without wrappers -/

/-- The tests look at the operator of an operation only, and unwrapping keeps that. -/
theorem op?_unwrap (e : Expr) : e.unwrap.op?.map Prod.fst = e.core.op?.map Prod.fst := by
  fun_induction core e with
  | case1 inner ih => rw [unwrap, ih]
  | case2 inner ih => rw [unwrap, ih]
  | case3 e hpredicate hident =>
      cases e with
      | op o operands =>
          rw [unwrap]
          · rfl
          · rintro inner rfl rfl
            exact hident inner rfl
      | predicate inner => exact absurd rfl (hpredicate inner)
      | int | ptr | ident | call => rfl

/-- What a test says without wrappers is what it says of the inside, if it looks at the operator of
an operation only. -/
theorem test_unwrap {test : Expr → Bool} (f : Operator → Bool)
    (h : ∀ e, test e = (e.op?.map Prod.fst).any f) (e : Expr) : test e.unwrap = test e.core := by
  rw [h, h, op?_unwrap]

theorem bindsLooser_unwrap (parent : Operator) (e : Expr) :
    e.unwrap.bindsLooser parent = e.core.bindsLooser parent :=
  test_unwrap (fun o => decide (o.precedence ≤ parent.precedence) && !o.isUnary)
    (fun e => by cases e <;> rfl) e

theorem isSpread_unwrap (e : Expr) : e.unwrap.isSpread = e.core.isSpread :=
  test_unwrap (fun o => !o.isUnary) (fun e => by cases e <;> rfl) e

theorem isOperation_unwrap (e : Expr) : e.unwrap.isOperation = e.core.isOperation :=
  test_unwrap (fun _ => true) (fun e => by cases e <;> rfl) e

/-- Texts that differ by the parentheses at these places. -/
def Differs (ps : List Place) (s t : String) : Prop :=
  Reparenthesised (ps.countP Place.lacks) (ps.countP Place.exceeds) s t

namespace Differs

variable {ps qs : List Place} {s s' t t' : String}

theorem same (s : String) : Differs [] s s :=
  Reparenthesised.same s

theorem append (h : Differs ps s t) (h' : Differs qs s' t') :
    Differs (ps ++ qs) (s ++ s') (t ++ t') := by
  unfold Differs
  rw [List.countP_append, List.countP_append]
  exact Reparenthesised.append h h'

theorem behind (h : Differs ps s t) (fixed : String) : Differs ps (s ++ fixed) (t ++ fixed) := by
  simpa using h.append (same fixed)

theorem before (fixed : String) (h : Differs ps s t) : Differs ps (fixed ++ s) (fixed ++ t) :=
  (same fixed).append h

/-- An operand in parentheses where a test says so, with its wrappers and without. -/
theorem place (h : Differs ps s t) {e : Expr} {test : Expr → Bool}
    (htest : test e.unwrap = test e.core) :
    Differs (⟨e, test⟩ :: ps) (parenthesised (test e) s) (parenthesised (test e.unwrap) t) := by
  have hboth : Differs ps ("(" ++ s ++ ")") ("(" ++ t ++ ")") := (h.before "(").behind ")"
  unfold Differs at h hboth ⊢
  rw [htest, List.countP_cons, List.countP_cons, Place.lacks, Place.exceeds]
  dsimp only
  by_cases hwrapped : test e <;> by_cases hinside : test e.core <;>
    simp only [hwrapped, hinside]
  · exact hboth
  · exact h.takeOut
  · exact h.putIn
  · exact h

end Differs

theorem layout_test_unwrap (o : Operator) (count : Nat) (e : Expr) :
    (layout o count).test e.unwrap = (layout o count).test e.core := by
  unfold layout
  split
  · rfl
  · rfl
  · rfl
  · rfl
  · exact isSpread_unwrap e
  · split
    · exact isSpread_unwrap e
    · rfl
  · exact bindsLooser_unwrap _ e
  · exact bindsLooser_unwrap _ e
  · rfl

theorem never_unwrap (e : Expr) : never e.unwrap = never e.core := rfl

theorem unwrap_op {o : Operator} {operands : List Expr}
    (h : ∀ inner, o = .logIdent → operands = [inner] → False) :
    (op o operands).unwrap = op o (unwrapAll operands) := by
  rw [unwrap]
  exact h

theorem unwrapAll_eq_map (es : List Expr) : unwrapAll es = es.map unwrap := by
  induction es with
  | nil => rfl
  | cons e rest ih => rw [unwrapAll, List.map_cons, ih]

/-! ## Texts of operations -/

/-- The texts of operands with separators between them. -/
def weave (separator : Nat → String) : List String → String
  | [] => ""
  | [text] => text
  | text :: rest => text ++ separator rest.length ++ weave separator rest

/-- The text of operands in a layout. -/
def Layout.write (l : Layout) (name : IdentId → String) (operands : List Expr) : String :=
  l.opening ++ weave l.separator (operands.map fun e => parenthesised (l.test e) (e.render name))
    ++ l.closing

variable (name : IdentId → String)

theorem renderAll_eq_weave (es : List Expr) :
    renderAll name es = weave (fun _ => ", ") (es.map (render name)) := by
  cases es with
  | nil => rfl
  | cons e rest =>
      rw [renderAll]
      induction rest generalizing e with
      | nil => exact String.append_empty
      | cons e' rest ih =>
          rw [List.map_cons, weave, ← ih e', renderRest, String.append_assoc, String.append_assoc]
          exact List.cons_ne_nil _ _

theorem write_applied (symbol : String) (operands : List Expr) :
    (Layout.applied symbol).write name operands =
      symbol ++ "(" ++ renderAll name operands ++ ")" := by
  rw [renderAll_eq_weave]
  rfl

theorem write_applied_one (symbol : String) (e : Expr) :
    (Layout.applied symbol).write name [e] = symbol ++ "(" ++ render name e ++ ")" := by
  rw [write_applied, renderAll, renderRest, String.append_empty]

theorem write_before (opening : String) (test : Expr → Bool) (e : Expr) :
    Layout.write { opening, test } name [e] = opening ++ parenthesised (test e) (render name e) :=
  String.append_empty

theorem write_between (symbol : String) (test : Expr → Bool) (a b : Expr) :
    Layout.write { separator := fun _ => " " ++ symbol ++ " ", test } name [a, b] =
      parenthesised (test a) (render name a) ++ " " ++ symbol ++ " "
        ++ parenthesised (test b) (render name b) := by
  simp [Layout.write, weave, String.append_assoc]

/-- The text of an operation is written in its layout. -/
theorem render_op (o : Operator) (operands : List Expr) :
    render name (op o operands) = (layout o operands.length).write name operands := by
  match operands with
  | [] =>
      cases o
      case custom symbol => simp [render, layout, Layout.write, weave]
      all_goals rfl
  | [e] =>
      cases o
      case logIdent => simp [render, layout, Layout.write, weave, parenthesised, never]
      case neg | not | logNot | cast | ptr | ref => exact (write_before name _ _ _).symm
      case custom => exact (write_applied name _ _).symm
      case sizeOf => exact (write_applied_one name "sizeof" e).symm
      all_goals exact (write_applied_one name _ _).symm
  | [a, b] =>
      cases o
      case custom => exact (write_applied name _ _).symm
      all_goals exact (write_between name _ _ _ _).symm
  | [c, a, b] =>
      cases o
      case cond => simp [render, layout, Layout.write, weave, String.append_assoc]
      all_goals exact (write_applied name _ _).symm
  | a :: b :: c :: d :: rest =>
      cases o
      all_goals exact (write_applied name _ _).symm

/-! ## Texts without wrappers -/

section

variable {name} {test : Expr → Bool} {es : List Expr}
  (hes : ∀ e ∈ es, Differs e.places (e.render name) (e.unwrap.render name))
include hes

/-- Operands with separators between them differ where the operands do. -/
theorem differs_weave (htest : ∀ e : Expr, test e.unwrap = test e.core)
    (separator : Nat → String) :
    Differs (placesOfAll test es)
      (weave separator (es.map fun e => parenthesised (test e) (e.render name)))
      (weave separator ((es.map unwrap).map fun e => parenthesised (test e) (e.render name))) := by
  induction es with
  | nil => exact .same ""
  | cons e rest ih =>
      obtain ⟨he, hrest⟩ := List.forall_mem_cons.mp hes
      have hplace := he.place (htest e)
      cases rest with
      | nil =>
          rw [placesOfAll, placesOfAll, List.append_nil]
          exact hplace
      | cons e' rest =>
          have hnext := (hplace.behind (separator (rest.length + 1))).append (ih hrest)
          simpa [weave, placesOfAll] using hnext

theorem differs_write (o : Operator) :
    Differs (placesOfAll (layout o es.length).test es) ((layout o es.length).write name es)
      ((layout o es.length).write name (es.map unwrap)) :=
  ((differs_weave hes (layout_test_unwrap o es.length) _).before _).behind _

theorem differs_renderAll :
    Differs (placesOfAll never es) (renderAll name es) (renderAll name (unwrapAll es)) := by
  rw [renderAll_eq_weave, renderAll_eq_weave, unwrapAll_eq_map]
  exact differs_weave hes never_unwrap _

end

/-- The text of an expression differs from the text without wrappers by the parentheses at its
places. -/
theorem differs_render (e : Expr) : Differs e.places (e.render name) (e.unwrap.render name) := by
  match e with
  | int value => exact .same (renderInt value)
  | ptr _ => exact .same _
  | ident id => exact .same (name id)
  | predicate inner => exact differs_render inner
  | call callee callsite args =>
      have hargs : Differs (placesOfAll never args) (renderAll name args)
          (renderAll name (unwrapAll args)) := differs_renderAll fun e _ => differs_render e
      cases callee with
      | some callee => exact (((Differs.same callee.name).behind "(").append hargs).behind ")"
      | none =>
          have hsite := (differs_render callsite).place (isOperation_unwrap callsite)
          exact ((hsite.behind "(").append hargs).behind ")"
  | op o operands =>
      have hoperands : ∀ e ∈ operands, Differs e.places (e.render name) (e.unwrap.render name) :=
        fun e _ => differs_render e
      by_cases hwrapper : o = .logIdent ∧ ∃ inner, operands = [inner]
      · obtain ⟨rfl, inner, rfl⟩ := hwrapper
        have hinner := (hoperands inner List.mem_cons_self).place (never_unwrap inner)
        have hplaces : (op .logIdent [inner]).places = ⟨inner, never⟩ :: inner.places := by
          simp [places, placesOfAll, layout]
        rw [hplaces]
        exact hinner
      · rw [unwrap_op fun inner ho hinner => hwrapper ⟨ho, inner, hinner⟩, render_op, render_op,
          unwrapAll_eq_map, List.length_map]
        exact differs_write hoperands o

end Expr

namespace Draft

/-- **Parentheses are not seen through wrappers.** The text of an expression is the text without its
wrappers but for the pairs of parentheses that wrappers keep out and bring in, exactly so many of
either kind. Where they bring none in, the two texts are the same exactly if they keep none out, and
they are the same where no operand that is tested for parentheses is a wrapper. -/
theorem renderExpr_unwrap (r : Draft) (e : Expr) :
    Reparenthesised e.missing e.superfluous (r.renderExpr e) (r.renderExpr e.unwrap) ∧
      (e.superfluous = 0 → (r.renderExpr e = r.renderExpr e.unwrap ↔ e.missing = 0)) ∧
      ((∀ p ∈ e.places, p.operand.core = p.operand) → r.renderExpr e = r.renderExpr e.unwrap) := by
  have hdiffers : Reparenthesised e.missing e.superfluous (r.renderExpr e)
      (r.renderExpr e.unwrap) := Expr.differs_render r.identName e
  refine ⟨hdiffers, fun hnone => ?_, fun hplain => ?_⟩
  · rw [hnone] at hdiffers
    exact hdiffers.eq_iff
  · refine hdiffers.eq_of_zero (List.countP_eq_zero.mpr fun p hp => ?_)
      (List.countP_eq_zero.mpr fun p hp => ?_)
    · simp [Expr.Place.lacks, hplain p hp]
    · simp [Expr.Place.exceeds, hplain p hp]

/-- An identity around the target of a computed call gets parentheses, the address in it would not. -/
example : Expr.superfluous (.call none (.op .logIdent [.ptr 0x1000]) []) = 1 := by decide

/-- A comparison and a sum as factors. The product of their values is 3, but the text reads as a
comparison with a sum, since both factors are wrapped. -/
theorem renderExpr_unwrap_product :
    let r : Draft := { name := "probe", address := 0x401000, stmts := #[.block []], body := ⟨0⟩ }
    let e : Expr := .op .mul [.predicate (.op .lt [.int 1, .int 2]),
      .op .logIdent [.op .add [.int 1, .int 2]]]
    r.renderExpr e = "1 < 2 * 1 + 2" ∧ r.renderExpr e.unwrap = "(1 < 2) * (1 + 2)" ∧
      r.renderExpr e ≠ r.renderExpr e.unwrap ∧
      ∀ session, ((Evaluation.eval r e).runOn session).1 = .ok 3 := by
  intro r e
  have htext : r.renderExpr e = "1 < 2 * 1 + 2" := rfl
  have hunwrapped : r.renderExpr e.unwrap = "(1 < 2) * (1 + 2)" := rfl
  refine ⟨htext, hunwrapped, ?_, fun _ => rfl⟩
  rw [htext, hunwrapped]
  decide

end Draft

end RoutineEmulator
