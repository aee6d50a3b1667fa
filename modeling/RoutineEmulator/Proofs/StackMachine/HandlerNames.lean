import RoutineEmulator.Proofs.Emulation.Dispatch
/-!
The names of the handlers.

A callee is known by its name without the marks in front of it, and so is a routine that starts. A
layout names its handlers as they are. So a handler answers to its own name exactly where that has
no marks in front; otherwise a call of it goes to another handler, or to another simulator.
-/

namespace RoutineEmulator

/-! ## Names without marks -/

/-- The name starts neither with the arrow of an import nor with an underscore. -/
def IsPlain (name : String) : Prop :=
  ∀ c ∈ name.toList.head?, c ≠ '→' ∧ c ≠ '_'

instance (name : String) : Decidable (IsPlain name) :=
  decidable_of_iff (name.toList.head?.all (fun c => decide (c ≠ '→' ∧ c ≠ '_')) = true)
    (by simp [IsPlain, Option.all_eq_true])

/-- What a character in front is dropped for does not stand in front of what is left. -/
theorem head?_dropWhile_ne (mark : Char) (text : List Char) :
    ∀ c ∈ (text.dropWhile (· = mark)).head?, c ≠ mark := by
  intro c hc
  have hhead := List.head?_dropWhile_not (fun c : Char => decide (c = mark)) text
  rw [Option.mem_def.mp hc] at hhead
  simpa using hhead

theorem length_dropWhile_lt (mark : Char) (rest : List Char) :
    ((mark :: rest).dropWhile (· = mark)).length < (mark :: rest).length := by
  rw [List.dropWhile_cons_of_pos (by simp), List.length_cons]
  exact Nat.lt_succ_of_le (List.dropWhile_suffix _).length_le

/-- Plain names are kept, and they are the only ones that are. -/
theorem normalizeName_eq_self_iff {name : String} : normalizeName name = name ↔ IsPlain name := by
  unfold normalizeName IsPlain
  rw [← String.toList_inj, String.toList_ofList]
  cases name.toList with
  | nil => simp
  | cons first rest =>
      simp only [List.head?_cons, Option.mem_some_iff, forall_eq']
      constructor
      · intro hkept
        have hlength := congrArg List.length hkept
        have hshorter (text : List Char) : (text.dropWhile (· = '_')).length ≤ text.length :=
          (List.dropWhile_suffix _).length_le
        constructor
        · rintro rfl
          have hdropped := length_dropWhile_lt '→' rest
          have hle := hshorter (('→' :: rest).dropWhile (· = '→'))
          omega
        · rintro rfl
          have hdropped := length_dropWhile_lt '_' rest
          rw [List.dropWhile_cons_of_neg (by decide)] at hlength
          omega
      · rintro ⟨harrow, hunderscore⟩
        rw [List.dropWhile_cons_of_neg (by simpa using harrow),
          List.dropWhile_cons_of_neg (by simpa using hunderscore)]

/-- No underscore is left in front of a name. -/
theorem head?_normalizeName_ne (name : String) :
    ∀ c ∈ (normalizeName name).toList.head?, c ≠ '_' := by
  unfold normalizeName
  rw [String.toList_ofList]
  exact head?_dropWhile_ne '_' _

namespace StackMachine

/-! ## Layouts -/

/-- The name that a handler has. Input and output have theirs in every layout. -/
def nameOf (layout : StackLayout) : Handler → String
  | .getchar => "getchar"
  | .putchar => "putchar"
  | .push => layout.push
  | .pop => layout.pop
  | .get => layout.get
  | .set => layout.set
  | .swap => layout.swap

/-- No two handlers have the same name. -/
def NamesApart (layout : StackLayout) : Prop :=
  ∀ h h', nameOf layout h = nameOf layout h' → h = h'

theorem nameOf_of_named? {layout : StackLayout} {name : String} {h : Handler}
    (hnamed : named? layout name = some h) : name = nameOf layout h := by
  unfold named? at hnamed
  repeat' split at hnamed
  all_goals first
    | cases hnamed
      assumption
    | cases hnamed

theorem nameOf_mem_names (m : StackMachine) (h : Handler) :
    nameOf m.layout h ∈ (Simulator.stackMachine m).names := by
  cases h <;> simp [nameOf, Simulator.names]

/-- Where the names are apart, a name belongs to one handler. -/
theorem named?_eq_some_iff {layout : StackLayout} (hapart : NamesApart layout) {name : String}
    {h : Handler} : named? layout name = some h ↔ name = nameOf layout h := by
  refine ⟨nameOf_of_named?, ?_⟩
  rintro rfl
  cases hnamed : named? layout (nameOf layout h) with
  | some other => rw [hapart _ _ (nameOf_of_named? hnamed)]
  | none =>
      have hdemand : (Simulator.stackMachine { layout }).demand? (nameOf layout h) = none := by
        rw [Simulator.demand?, hnamed]
        rfl
      exact absurd (nameOf_mem_names { layout } h) (Simulator.demand?_eq_none_iff.mp hdemand)

end StackMachine

/-! ## Calls -/

namespace Simulator

/-- The layout of a stack machine. -/
def layout? : Simulator → Option StackLayout
  | stackMachine m => some m.layout
  | _ => none

theorem exists_stackMachine_of_layout? {s : Simulator} {layout : StackLayout}
    (h : s.layout? = some layout) : ∃ m, s = stackMachine m ∧ m.layout = layout := by
  cases s with
  | stackMachine m => exact ⟨m, rfl, Option.some.inj h⟩
  | libc | scripted => cases h

/-- Answering changes no layout. -/
theorem layout?_of_respond? {s : Simulator} {callee : String} {args : List Expr}
    {values : List Int64} {machine : Machine} {log : OutputLog}
    {result : Except EmulationError Int64} {bench : Bench Simulator}
    (h : s.respond? callee args values machine log = some (result, bench)) :
    bench.own.layout? = s.layout? := by
  cases s with
  | libc state =>
      obtain ⟨f, _, h⟩ := Option.map_eq_some_iff.mp h
      cases h
      rfl
  | stackMachine m =>
      obtain ⟨f, _, h⟩ := Option.map_eq_some_iff.mp h
      have hlayout := StackMachine.keepsLayout_run f args values ⟨m, machine, log⟩
      cases h
      exact congrArg some hlayout
  | scripted script =>
      unfold respond? at h
      dsimp only at h
      split at h
      · cases h
        rfl
      · obtain ⟨_, _, h⟩ := Option.map_eq_some_iff.mp h
        cases h
        rfl

theorem layout?_respondFirst (callee : String) (args : List Expr) (values : List Int64)
    (chain : List Simulator) (machine : Machine) (log : OutputLog) :
    (respondFirst callee args values chain machine log).2.own.map layout? = chain.map layout? := by
  induction chain with
  | nil => rfl
  | cons s rest ih =>
      rw [respondFirst]
      split
      · rename_i result bench hrespond
        show bench.own.layout? :: _ = s.layout? :: _
        rw [layout?_of_respond? hrespond]
      · exact congrArg (s.layout? :: ·) ih

end Simulator

namespace StackMachine

open Simulator Evaluation Emulator

/-- Stack machines keep their places and their layouts, whatever is evaluated. -/
theorem keepsLayouts_course : CallCourse fun before after : Session =>
    after.own.map layout? = before.own.map layout? where
  refl _ := rfl
  trans h h' := h'.trans h
  chain callee args values session := layout?_respondFirst callee args values session.own _ _
  result _ _ := rfl
  nextHandler _ _ := rfl

/-- How a call ends that this handler of a stack machine between these simulators answers.

The arguments that the handler looks at are evaluated first, and then it runs on their values, on
the state that the machine has by then. -/
inductive RunsHandler (r : Draft) (callee : Callee) (args : List Expr) (h : Handler)
    (before : List Simulator) (m : StackMachine) (session : Session) :
    Except EmulationError Int64 → Session → Prop
  /-- An argument fails, and the handler does not run. -/
  | argument {e : EmulationError} {left : Session} :
      (evalArgs r callee.name args 0 h.arity).runOn session = (.error e, left) →
      RunsHandler r callee args h before m session (.error e) left
  /-- The handler answers, or it fails. -/
  | handler {values : List Int64} {before' after' : List Simulator} {m' : StackMachine}
      {machine : Machine} {log : OutputLog} {result : Except EmulationError Int64}
      {bench : Bench StackMachine} :
      (evalArgs r callee.name args 0 h.arity).runOn session =
        (.ok values, ⟨before' ++ stackMachine m' :: after', machine, log⟩) →
      before'.length = before.length → m'.layout = m.layout →
      (h.run args values).runOn ⟨m', machine, log⟩ = (result, bench) →
      RunsHandler r callee args h before m session result
        ⟨before' ++ stackMachine bench.own :: after', bench.machine, bench.log⟩

/-- A call whose name leads to a handler runs that handler, where no simulator in front of the stack
machine has this name too. -/
theorem exists_runsHandler_of_named? {m : StackMachine} {h : Handler} (r : Draft) {callee : Callee}
    (args : List Expr) (hnamed : named? m.layout (normalizeName callee.name) = some h)
    {before after : List Simulator} {session : Session}
    (hcut : session.own = before ++ stackMachine m :: after)
    (hbefore : ∀ t ∈ before, normalizeName callee.name ∉ t.names) :
    ∃ result left, RunsHandler r callee args h before m session result left ∧
      (simulate r callee args).runOn session = (result.map some, left) := by
  have hmem : normalizeName callee.name ∈ (stackMachine m).names := by
    rw [nameOf_of_named? hnamed]
    exact nameOf_mem_names m h
  have hdemanded :
      (stackMachine m).demand? (normalizeName callee.name) = some (.first h.arity) := by
    rw [demand?, hnamed]
    rfl
  obtain ⟨result, left, hanswered, hsimulate⟩ := exists_answered r callee args hcut hbefore hmem
  refine ⟨result, left, ?_, hsimulate⟩
  cases hanswered with
  | argument hdemand hrun =>
      obtain rfl := Option.some.inj (hdemanded.symm.trans hdemand)
      exact .argument hrun
  | @answer demand values before' after' s' machine log result bench hdemand hrun hnames _ _
      hrespond =>
      obtain rfl := Option.some.inj (hdemanded.symm.trans hdemand)
      have hlength : before'.length = before.length := by
        simpa using congrArg List.length hnames
      -- the layouts tell that the simulator in this place is a stack machine still
      have hkept := (CallCourse.reads keepsLayouts_course.toCourse).evalArgs r callee.name args 0
        (Demand.count args.length (.first h.arity)) (fun _ _ => .inr keepsLayouts_course.answers)
        session
      have hlayout : s'.layout? = some m.layout := by
        rw [hrun, hcut, List.map_append, List.map_append] at hkept
        obtain ⟨_, hrest⟩ :=
          List.append_inj hkept (by rw [List.length_map, List.length_map, hlength])
        exact (List.cons_eq_cons.mp hrest).1
      obtain ⟨m', rfl, hm'⟩ := exists_stackMachine_of_layout? hlayout
      rw [respond?, hm', hnamed] at hrespond
      cases hrespond
      exact .handler hrun hlength hm' rfl

/-- A handler that fails on what the arguments left, and changes nothing, fails the call so. -/
theorem simulate_eq_error_of_run {m : StackMachine} {h : Handler} (r : Draft) {callee : Callee}
    {args : List Expr} (hnamed : named? m.layout (normalizeName callee.name) = some h)
    {before after : List Simulator} {session left : Session}
    (hcut : session.own = before ++ stackMachine m :: after)
    (hbefore : ∀ t ∈ before, normalizeName callee.name ∉ t.names) {values : List Int64}
    (hargs : (evalArgs r callee.name args 0 h.arity).runOn session = (.ok values, left))
    {e : EmulationError}
    (hrun : ∀ own, (h.run args values).runOn ⟨own, left.machine, left.log⟩ =
      (.error e, ⟨own, left.machine, left.log⟩)) :
    (simulate r callee args).runOn session = (.error e, left) := by
  obtain ⟨result, last, hruns, hsimulate⟩ :=
    exists_runsHandler_of_named? r args hnamed hcut hbefore
  rw [hsimulate]
  cases hruns with
  | argument hfails =>
      rw [hargs] at hfails
      cases hfails
  | handler hvalues _ _ hfails =>
      rw [hargs] at hvalues
      cases hvalues
      rw [hrun] at hfails
      cases hfails
      rfl

/-- Where the names are apart, a call under the normal form of the name of a handler runs it. -/
theorem exists_runsHandler {m : StackMachine} (hapart : NamesApart m.layout) {h : Handler}
    (r : Draft) {callee : Callee} (args : List Expr)
    (hname : normalizeName callee.name = nameOf m.layout h) {before after : List Simulator}
    {session : Session} (hcut : session.own = before ++ stackMachine m :: after)
    (hbefore : ∀ t ∈ before, normalizeName callee.name ∉ t.names) :
    ∃ result left, RunsHandler r callee args h before m session result left ∧
      (simulate r callee args).runOn session = (result.map some, left) :=
  exists_runsHandler_of_named? r args ((named?_eq_some_iff hapart).mpr hname) hcut hbefore

/-- **Handlers answer to their own names where these are plain.** In a layout whose names are apart,
a call that is spelled as the name of a handler goes to that handler exactly where the name is
plain: the stack machine then evaluates the arguments of the handler and runs it, where no simulator
in front of it has the name too. A handler whose name starts with an underscore answers to no name
at all. And a routine that is named as the swap handler logs a swap when it starts exactly where
that name is plain. -/
theorem handlers_answer_to_plain_names {m : StackMachine} (hapart : NamesApart m.layout) :
    (∀ h, named? m.layout (normalizeName (nameOf m.layout h)) = some h ↔
      IsPlain (nameOf m.layout h)) ∧
    (∀ h (r : Draft) (callee : Callee) (args : List Expr) before after (session : Session),
      IsPlain (nameOf m.layout h) → callee.name = nameOf m.layout h →
      session.own = before ++ stackMachine m :: after → (∀ t ∈ before, callee.name ∉ t.names) →
      ∃ result left, RunsHandler r callee args h before m session result left ∧
        (simulate r callee args).runOn session = (result.map some, left)) ∧
    (∀ h, (nameOf m.layout h).toList.head? = some '_' →
      ∀ name, named? m.layout (normalizeName name) ≠ some h) ∧
    (∀ log, (stackMachine m).beforeRoutine m.layout.swap log =
      (stackMachine { m with pops := 0 },
        if IsPlain m.layout.swap then log.push "S: SWAP" else log)) := by
  refine ⟨?_, ?_, ?_, ?_⟩
  · intro h
    rw [named?_eq_some_iff hapart, normalizeName_eq_self_iff]
  · intro h r callee args before after session hplain hname hcut hbefore
    have hkept : normalizeName callee.name = callee.name := by
      rw [hname]
      exact normalizeName_eq_self_iff.mpr hplain
    exact exists_runsHandler hapart r args (hkept.trans hname) hcut (by rwa [hkept])
  · intro h hunderscore name hnamed
    rw [← nameOf_of_named? hnamed] at hunderscore
    exact head?_normalizeName_ne name '_' hunderscore rfl
  · intro log
    simp only [beforeRoutine, normalizeName_eq_self_iff, swapLine]

/-- A push by its usual name. -/
theorem handlers_answer_to_plain_names_push :
    let m : StackMachine := {}
    let r : Draft := { name := "handler", address := 0x401000, stmts := #[.block []], body := ⟨0⟩ }
    let args : List Expr := [.ptr 0x600000, .int 5]
    let session : Session := ⟨[stackMachine m], .new {} (.new .little 64), {}⟩
    NamesApart m.layout ∧ IsPlain (nameOf m.layout .push) ∧
      ∃ result left, RunsHandler r ⟨"sub_400AAE", none⟩ args .push [] m session result left ∧
        (simulate r ⟨"sub_400AAE", none⟩ args).runOn session = (result.map some, left) := by
  intro m r args session
  have hapart : NamesApart m.layout := by
    intro h h'
    cases h <;> cases h' <;> decide
  have hplain : IsPlain (nameOf m.layout .push) := by decide
  exact ⟨hapart, hplain, (handlers_answer_to_plain_names hapart).2.1 .push r
    ⟨"sub_400AAE", none⟩ args [] [] session hplain rfl rfl (by simp)⟩

/-- A swap handler with a mark in its name: no call under that name is answered, and no swap is
logged when a routine with that name starts. -/
theorem swap_with_mark_unanswered :
    let m : StackMachine := { layout := { swap := "_swap" } }
    let r : Draft := { name := "_swap", address := 0x401000, stmts := #[.block []], body := ⟨0⟩ }
    let session : Session := ⟨[stackMachine m], .new {} (.new .little 64), {}⟩
    NamesApart m.layout ∧ m.layout.swap = "_swap" ∧
      (simulate r ⟨"_swap", none⟩ []).runOn session = (.ok none, session) ∧
      ((stackMachine m).beforeRoutine r.name {}).2 = {} := by
  intro m r session
  refine ⟨?_, rfl, ?_, by decide⟩
  · intro h h'
    cases h <;> cases h' <;> decide
  · refine runOn_simulateWith_of_unrecognised [] ?_ _
    intro t ht
    obtain rfl := List.mem_singleton.mp ht
    decide

end StackMachine

end RoutineEmulator
