import RoutineEmulator.Proofs.Emulation.Itinerary
import RoutineEmulator.Proofs.Emulation.Reachability
import RoutineEmulator.Proofs.Graph.Forward
/-!
Routines without loops and jumps end by themselves.

Without a loop and without a jump to a label every edge goes forward in the source. So an emulation
visits statements in source order, none of them twice, and it needs no step limit to end. The
position in the source order is what grows with every visit.
-/

namespace RoutineEmulator

open RoutineEmulator.Graph

namespace Draft

/-- The body contains no loop and no jump to a label. -/
def LoopFree (r : Draft) : Prop :=
  ∀ id s, r.Placed id → r.stmt? id = some s → s.isLoop = false ∧ s.jumpTargets = []

section LoopFree

variable {r : Draft} {g : Graph} {id target : StmtId}

/-- Without loops and jumps all edges go forward. -/
theorem LoopFree.precedes_of_leads (hfree : r.LoopFree) (hr : r.WellFormed)
    (hbuild : build r = .ok g) (hplaced : r.Placed id) (h : Leads g id (some target)) :
    r.Precedes id target := by
  obtain ⟨path, hpath⟩ := hplaced
  obtain ⟨s, hs⟩ := hpath.exists_stmt hr
  rcases forward_of_leads hr hbuild hpath hs (hfree id s ⟨path, hpath⟩ hs).2 h with
    hlater | ⟨hmem, t, ht, hloop⟩
  · exact hlater
  · obtain ⟨above, habove, _⟩ := hpath.exists_of_mem hmem
    rw [(hfree _ t ⟨above, habove⟩ ht).1] at hloop
    cases hloop

/-- The body contains at most so many statements, where their numbers are below. -/
theorem length_sourceOrder_le (hr : r.WellFormed) {n : Nat}
    (h : ∀ id, r.Placed id → id.index < n) : r.sourceOrder.length ≤ n := by
  have hindices : ((r.sourceOrder.map (·.1)).map StmtId.index).Nodup :=
    (nodup_map_sourceOrder hr).map fun _ _ => StmtId.eq_of_index
  have hrange : (r.sourceOrder.map (·.1)).map StmtId.index ⊆ List.range n := by
    intro index hindex
    obtain ⟨id, hid, rfl⟩ := List.mem_map.mp hindex
    obtain ⟨⟨_, path⟩, hentry, rfl⟩ := List.mem_map.mp hid
    exact List.mem_range.mpr (h _ ⟨path, (mem_sourceOrder_iff hr).mp hentry⟩)
  have hle := hindices.length_le_of_subset hrange
  rwa [List.length_map, List.length_map, List.length_range] at hle

end LoopFree

end Draft

namespace Emulator

/-- The settings without a limit on the visits of a routine. -/
def Settings.unbounded (settings : Settings) : Settings :=
  { settings with maxSteps := none }

/-- A walk that visits statements in source order and, with so many visits, comes to its end. -/
structure GoesForward (settings : Settings) (r : Draft) (g : Graph) (visits enough : Nat)
    (current : Option StmtId) (session : Session) : Prop where
  ordered : ((stops settings r g visits current session).map (·.id)).Pairwise r.Precedes
  ends : enough ≤ visits → ∀ trace,
    (walk settings r g visits current trace session).ending ≠ .cut

section Walks

variable {settings : Settings} {r : Draft} {g : Graph} {id : StmtId}

/-- What goes forward does not come back. -/
theorem GoesForward.nodup {visits enough : Nat} {current : Option StmtId} {session : Session}
    (h : GoesForward settings r g visits enough current session) :
    ((stops settings r g visits current session).map (·.id)).Nodup :=
  h.ordered.imp Draft.Precedes.ne

/-- A walk that ends by itself at its first stop goes forward. -/
theorem goesForward_of_last {visits enough : Nat} {current : Option StmtId} {session : Session}
    {stop : Stop} (hstops : stops settings r g visits current session = [stop])
    (hends : ∀ trace, (walk settings r g visits current trace session).ending ≠ .cut) :
    GoesForward settings r g visits enough current session where
  ordered := by
    rw [hstops]
    exact List.pairwise_singleton _ _
  ends _ := hends

/-- **A walk goes forward.** From a statement of the body on, a walk visits this statement and later
ones, and at most those that the source order has left. -/
theorem stops_forward (hfree : r.LoopFree) (hr : r.WellFormed) (hbuild : build r = .ok g)
    (visits : Nat) (hplaced : r.Placed id) (session : Session) :
    GoesForward settings r g visits (r.sourceOrder.length - r.position id) (some id) session ∧
      ∀ stop ∈ stops settings r g visits (some id) session,
        stop.id = id ∨ r.Precedes id stop.id := by
  induction visits generalizing id session with
  | zero =>
      refine ⟨⟨List.Pairwise.nil, fun henough => ?_⟩, by simp [stops]⟩
      have hlt := List.idxOf_lt_length_of_mem (Draft.mem_map_sourceOrder hr hplaced)
      rw [List.length_map] at hlt
      unfold Draft.position at henough
      omega
  | succ visits ih =>
      obtain ⟨stop, rfl, ⟨hstops, hends⟩ | ⟨step, target, after, hrun, hnext, hstops, hwalk⟩⟩ :=
        stops_step settings r g visits id session
      · exact ⟨goesForward_of_last hstops hends, by simp [hstops]⟩
      · have hforward : r.Precedes stop.id target :=
          hfree.precedes_of_leads hr hbuild hplaced (hnext ▸ leads_of_visit hbuild hrun)
        obtain ⟨hrest, hlater⟩ := ih hforward.placed after
        have hbehind : ∀ later ∈ stops settings r g visits (some target) after,
            r.Precedes stop.id later.id := by
          intro later hmem
          rcases hlater later hmem with heq | hprecedes
          · rw [heq]
            exact hforward
          · exact hforward.trans hprecedes
        refine ⟨⟨?_, fun henough trace => ?_⟩, ?_⟩
        · rw [hstops, List.map_cons, List.pairwise_cons]
          refine ⟨fun later hmem => ?_, hrest.ordered⟩
          obtain ⟨other, hother, rfl⟩ := List.mem_map.mp hmem
          exact hbehind other hother
        · obtain ⟨trace', hwalk⟩ := hwalk trace
          rw [hwalk]
          apply hrest.ends
          have := hforward.lt
          omega
        · intro later hmem
          rw [hstops] at hmem
          rcases List.mem_cons.mp hmem with rfl | hmem
          · exact .inl rfl
          · exact .inr (hbehind later hmem)

/-- Behind a statement that is detached from the body a walk ends at once. -/
theorem stops_detached (hr : r.WellFormed) (hbuild : build r = .ok g) (visits : Nat)
    (hcontains : r.contains id = true) (hdetached : ¬ r.Placed id) (session : Session) :
    GoesForward settings r g visits 1 (some id) session ∧
      (stops settings r g visits (some id) session).length ≤ 1 := by
  cases visits with
  | zero => exact ⟨⟨List.Pairwise.nil, by omega⟩, by simp [stops]⟩
  | succ visits =>
      obtain ⟨stop, rfl, ⟨hstops, hends⟩ | ⟨step, target, after, hrun, hnext, _⟩⟩ :=
        stops_step settings r g visits id session
      · exact ⟨goesForward_of_last hstops hends, by simp [hstops]⟩
      · have hleads := leads_of_visit hbuild hrun
        rw [eq_none_of_leads_of_detached hr hbuild hcontains hdetached hleads] at hnext
        cases hnext

/-- From anywhere in the arena a walk goes forward, and visits no more statements than the body
contains. -/
theorem goesForward (settings : Settings) (hfree : r.LoopFree) (hr : r.WellFormed)
    (hbuild : build r = .ok g) (visits : Nat) {current : Option StmtId}
    (hcurrent : ∀ id, current = some id → r.contains id = true) (session : Session) :
    GoesForward settings r g visits r.sourceOrder.length current session ∧
      (stops settings r g visits current session).length ≤ r.sourceOrder.length := by
  cases current with
  | none =>
      refine ⟨⟨by simp, fun _ trace => ?_⟩, by simp⟩
      rw [walk]
      exact Ending.noConfusion
  | some id =>
      by_cases hplaced : r.Placed id
      · obtain ⟨hforward, hlater⟩ := stops_forward hfree hr hbuild visits hplaced session
        refine ⟨⟨hforward.ordered, fun henough => hforward.ends (by omega)⟩, ?_⟩
        have hsubset : (stops settings r g visits (some id) session).map (·.id) ⊆
            r.sourceOrder.map (·.1) := by
          intro other hmem
          obtain ⟨stop, hstop, rfl⟩ := List.mem_map.mp hmem
          apply Draft.mem_map_sourceOrder hr
          rcases hlater stop hstop with heq | hprecedes
          · rw [heq]
            exact hplaced
          · exact hprecedes.placed
        have hle := hforward.nodup.length_le_of_subset hsubset
        rwa [List.length_map, List.length_map] at hle
      · have hbody := List.length_pos_of_mem (Draft.mem_map_sourceOrder hr ⟨[], .body⟩)
        rw [List.length_map] at hbody
        obtain ⟨hforward, hlength⟩ := stops_detached hr hbuild visits (hcurrent id rfl) hplaced
          session
        exact ⟨⟨hforward.ordered, fun henough => hforward.ends (by omega)⟩, by omega⟩

end Walks

/-! ## Enough visits -/

section Enough

variable {settings : Settings} {r : Draft} {g : Graph}

/-- A limit matters for walks that are cut only. -/
theorem outcome_of_ne_cut {w : Walk} (h : w.ending ≠ .cut) (settings settings' : Settings) :
    outcome settings w = outcome settings' w := by
  unfold outcome
  cases hending : w.ending with
  | left => rfl
  | failed e => rfl
  | cut => exact absurd hending h

/-- A walk that is not cut has an outcome of its own, and not that of a limit. -/
theorem outcome_of_extends {p : Point} {visits : Nat} {w : Walk} (h : p.Extends visits w)
    (hcut : w.ending ≠ .cut) :
    outcome settings w ≠ .unfinished ∧
      ∀ limit, outcome settings w ≠ .failed (.stepLimitExceeded limit) := by
  unfold outcome
  cases hending : w.ending with
  | left => exact ⟨Outcome.noConfusion, fun _ => Outcome.noConfusion⟩
  | failed e =>
      refine ⟨Outcome.noConfusion, fun limit hlimit => ?_⟩
      exact h.faults e hending limit (Outcome.failed.inj hlimit)
  | cut => exact absurd hending hcut

/-- Walks from one point that are not cut are the same, whatever visits they had left. -/
theorem walk_of_enough {p : Point} {enough n m : Nat}
    (h : ∀ visits, enough ≤ visits → ((p.withVisits visits).walk settings r g).ending ≠ .cut)
    (hn : enough ≤ n) (hm : enough ≤ m) :
    (p.withVisits n).walk settings r g = (p.withVisits m).walk settings r g := by
  rcases Nat.le_total n m with hle | hle
  · rcases Point.walk_of_fewer settings r g hle p with ⟨heq, _⟩ | ⟨q, _, _, _, hcut, _⟩
    · exact heq
    · exact absurd (by rw [hcut]) (h n hn)
  · rcases Point.walk_of_fewer settings r g hle p with ⟨heq, _⟩ | ⟨q, _, _, _, hcut, _⟩
    · exact heq.symm
    · exact absurd (by rw [hcut]) (h m hm)

/-- A run whose walk is not cut after enough visits ends by itself, and the same way under every
limit that lets it make them. -/
theorem run_of_enough (settings : Settings) (hbuild : build r = .ok g)
    {entry : Graph → Option StmtId} (session : Session) {enough : Nat}
    (h : ∀ visits, enough ≤ visits → ∀ trace session,
      (walk settings.unbounded r g visits (entry g) trace session).ending ≠ .cut)
    (hunlimited : enough ≤ unlimited) :
    ((run settings.unbounded r entry session).1 ≠ .unfinished ∧
        ∀ limit, (run settings.unbounded r entry session).1 ≠
          .failed (.stepLimitExceeded limit)) ∧
      ∀ limit, enough ≤ limit →
        run (settings.limited limit) r entry session = run settings.unbounded r entry session := by
  obtain ⟨start, hstart⟩ :
      ∃ p : Point, p = .first settings.unbounded r (entry g) session 0 := ⟨_, rfl⟩
  have huncut : ∀ visits, enough ≤ visits →
      ((start.withVisits visits).walk settings.unbounded r g).ending ≠ .cut := by
    intro visits henough
    subst hstart
    exact h visits henough _ _
  have hrun : run settings.unbounded r entry session =
      (outcome settings.unbounded ((start.withVisits unlimited).walk settings.unbounded r g),
        ((start.withVisits unlimited).walk settings.unbounded r g).session) := by
    subst hstart
    exact Point.run_eq_walk_of_reaches hbuild entry session .start
  refine ⟨?_, fun limit henough => ?_⟩
  · rw [hrun]
    exact outcome_of_extends (Point.walk_extends settings.unbounded r g unlimited start)
      (huncut unlimited hunlimited)
  · show run (settings.unbounded.limited limit) r entry session = _
    rw [(run_limited hbuild hstart limit).1, hrun, walk_of_enough huncut henough hunlimited,
      outcome_of_ne_cut (huncut unlimited hunlimited) _ settings.unbounded]

end Enough

/-! ## Runs -/

/-- A run that goes through its routine in source order, and ends by itself. What it comes to under
some settings is its result. -/
structure RunsForward (settings : Settings) (r : Draft) (entry : Graph → Option StmtId)
    (session : Session) (result : Settings → Outcome × Session) : Prop where
  ordered : ((itinerary settings r entry session).map (·.id)).Pairwise r.Precedes
  once : ((itinerary settings r entry session).map (·.id)).Nodup
  short : (visited settings r entry session).size ≤ r.size
  /-- Without a limit the run ends, and not for want of visits. -/
  ends : (result settings.unbounded).1 ≠ .unfinished ∧
    ∀ limit, (result settings.unbounded).1 ≠ .failed (.stepLimitExceeded limit)
  /-- A limit that lets the run visit as many statements as the routine has does not matter. -/
  limited : ∀ limit, r.size ≤ limit → result (settings.limited limit) = result settings.unbounded

section Runs

variable {r : Draft}

/-- A run without a graph visits nothing. -/
theorem runsForward_of_error (settings : Settings) (hr : r.WellFormed) {e : EmulationError}
    (hbuild : build r = .error e) (entry : Graph → Option StmtId) (session : Session) :
    RunsForward settings r entry session (run · r entry session) := by
  have hitinerary : itinerary settings r entry session = [] := by
    rw [itinerary, hbuild]
  refine ⟨?_, ?_, ?_, ?_, ?_⟩
  · rw [hitinerary]
    exact List.Pairwise.nil
  · rw [hitinerary]
    exact List.nodup_nil
  · rw [visited, hbuild]
    exact Nat.zero_le _
  · rw [(run_of_build_eq_error settings.unbounded entry session hbuild).1]
    refine ⟨Outcome.noConfusion, fun limit hlimit => ?_⟩
    exact spares_of_build hr hbuild limit (Outcome.failed.inj hlimit)
  · intro limit _
    unfold run
    rw [hbuild]

/-- A run in the arena of a routine without loops and jumps goes forward. -/
theorem runsForward (settings : Settings) (hfree : r.LoopFree) (hr : r.WellFormed)
    {entry : Graph → Option StmtId}
    (hentry : ∀ g, build r = .ok g → ∀ id, entry g = some id → r.contains id = true)
    (session : Session) : RunsForward settings r entry session (run · r entry session) := by
  cases hbuild : build r with
  | error e => exact runsForward_of_error settings hr hbuild entry session
  | ok g =>
      have hitinerary : itinerary settings r entry session = stops settings r g
          (settings.maxSteps.getD unlimited) (entry g) (Point.opened settings r session) := by
        rw [itinerary, hbuild]
      obtain ⟨hforward, hlength⟩ := goesForward settings hfree hr hbuild
        (settings.maxSteps.getD unlimited) (hentry g hbuild) (Point.opened settings r session)
      have hsize : r.sourceOrder.length ≤ r.size :=
        Draft.length_sourceOrder_le hr fun _ ⟨_, hpath⟩ => hpath.index_lt hr
      have hunlimited : r.sourceOrder.length ≤ unlimited :=
        Nat.le_trans (Draft.length_sourceOrder_le hr fun id _ => id.val.toNat_lt) (by decide)
      obtain ⟨hends, hlimited⟩ := run_of_enough settings hbuild session
        (fun visits henough trace session =>
          (goesForward settings.unbounded hfree hr hbuild visits (hentry g hbuild) session).1.ends
            henough trace) hunlimited
      refine ⟨?_, ?_, ?_, hends, fun limit hle => hlimited limit (Nat.le_trans hsize hle)⟩
      · rw [hitinerary]
        exact hforward.ordered
      · rw [hitinerary]
        exact hforward.nodup
      · rw [← Array.length_toList, toList_visited, List.length_map, hitinerary]
        exact Nat.le_trans hlength hsize

end Runs

/-- **Only loops and jumps go back.** An edge of a graph that leaves a statement of the body, and is
not the edge of a jump to a label, leads to a statement that stands later in the source, or to the
header of a loop around the statement that it leaves. So a routine without loops and jumps is
emulated in source order: whatever the session, no statement is visited twice, and the emulation
ends within as many visits as the routine has statements, under any such limit the same way as
without a limit. The same holds from any statement of the arena. -/
theorem emulate_goes_forward (r : Routine) :
    (∀ g, build r.toDraft = .ok g → ∀ id path s target, r.Ancestors id path →
      r.stmt? id = some s → s.jumpTargets = [] → Leads g id (some target) →
      r.Precedes id target ∨ Encloses r.toDraft target path) ∧
    (r.LoopFree → ∀ settings session,
      RunsForward settings r.toDraft (·.entry) session (emulate · r session) ∧
      ∀ start, r.contains start = true →
        RunsForward settings r.toDraft (fun _ => some start) session
          (emulateFrom · r start session)) := by
  have hr := r.wellFormed
  refine ⟨fun g hbuild id path s target hpath hs hjump h =>
    forward_of_leads hr hbuild hpath hs hjump h, fun hfree settings session => ⟨?_, ?_⟩⟩
  · refine runsForward settings hfree hr (fun g hbuild id hid => ?_) session
    exact (canArrive_of_entry hr hbuild hid).contains hr
  · intro start hstart
    have hrun : (emulateFrom · r start session) = (run · r.toDraft (fun _ => some start) session) := by
      funext settings
      unfold emulateFrom
      rw [if_pos hstart]
    rw [hrun]
    refine runsForward settings hfree hr (fun _ _ id hid => ?_) session
    obtain rfl := Option.some.inj hid
    exact hstart

/-- An `if` with an empty arm and a default, and a `return` behind it. -/
def forkDraft : Draft where
  name := "fork"
  address := 0x1000
  body := ⟨0⟩
  stmts := #[.block [⟨1⟩, ⟨5⟩], .ifElse [⟨.int 0, ⟨2⟩⟩] (some ⟨3⟩), .block [], .block [⟨4⟩],
    .block [], .ret (some (.int 7))]

def forkRoutine : Routine where
  toDraft := forkDraft
  valid := Draft.check_eq_ok_iff.mpr ⟨by decide, by decide, by decide, by decide⟩

/-- The `if` is emulated in source order. In a loop the `continue` goes back to the header, and the
`break` goes on behind the loop. -/
theorem emulate_goes_forward_fork :
    RunsForward {} forkDraft (·.entry) ⟨[], .new {} (.new .little 64), {}⟩
        (emulate · forkRoutine ⟨[], .new {} (.new .little 64), {}⟩) ∧
      RunsForward {} forkDraft (fun _ => some ⟨3⟩) ⟨[], .new {} (.new .little 64), {}⟩
        (emulateFrom · forkRoutine ⟨3⟩ ⟨[], .new {} (.new .little 64), {}⟩) ∧
      (nestedDraft.Precedes ⟨7⟩ ⟨9⟩ ∨ Encloses nestedDraft ⟨9⟩ [⟨5⟩, ⟨3⟩, ⟨2⟩, ⟨1⟩, ⟨0⟩]) ∧
      (nestedDraft.Precedes ⟨8⟩ ⟨1⟩ ∨ Encloses nestedDraft ⟨1⟩ [⟨2⟩, ⟨1⟩, ⟨0⟩]) := by
  have hfree : forkDraft.LoopFree := by
    have hall : ∀ s ∈ forkDraft.stmts.toList, s.isLoop = false ∧ s.jumpTargets = [] := by decide
    intro id s _ hs
    exact hall s (Draft.mem_of_stmt? hs)
  have hbody : nestedDraft.Ancestors ⟨2⟩ [⟨1⟩, ⟨0⟩] :=
    .child (.child .body rfl (by decide)) rfl (by decide)
  have harm : nestedDraft.Ancestors ⟨5⟩ [⟨3⟩, ⟨2⟩, ⟨1⟩, ⟨0⟩] :=
    .child (.child hbody rfl (by decide)) rfl (by decide)
  obtain ⟨hedges, _⟩ := emulate_goes_forward nestedRoutine
  obtain ⟨_, hruns⟩ := emulate_goes_forward forkRoutine
  obtain ⟨hfirst, hstart⟩ := hruns hfree {} ⟨[], .new {} (.new .little 64), {}⟩
  exact ⟨hfirst, hstart ⟨3⟩ (by decide),
    hedges _ rfl ⟨7⟩ _ _ _ (.child harm rfl (by decide)) rfl rfl .fallthrough,
    hedges _ rfl ⟨8⟩ _ _ _ (.child hbody rfl (by decide)) rfl rfl .fallthrough⟩

end Emulator

end RoutineEmulator
