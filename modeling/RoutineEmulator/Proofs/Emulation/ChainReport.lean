import RoutineEmulator.Proofs.Emulation.Points
import RoutineEmulator.Proofs.Emulation.Rounds
/-!
What the report of a chain says.

The rounds of a report are linked: the first one is at the first address, and every later one at
the next handler of the one before. Each is the run of the routine that the provider gives for its
address, on the session that the rounds before it left, and it hands on an address only where it
set the next-handler register itself. The reason for the stop and the error are those that the last
round gives.
-/

namespace RoutineEmulator.HandlerChain

open Emulator (Point)

/-! ## The next-handler register -/

/-- The run of a routine in a round sets the next-handler register: one of its visits finds the
register without a value and leaves it with one. -/
def SetsNextHandler (settings : Settings) (routine : Routine) (session : Session) : Prop :=
  ∃ g before after value, Graph.build routine.toDraft = .ok g ∧
    (Point.first settings.emulator routine.toDraft g.entry
        { session with machine := session.machine.clearRegister Register.nextHandler }
        (settings.emulator.maxSteps.getD Emulator.unlimited)).Reaches
      settings.emulator routine.toDraft g before ∧
    before.advance? settings.emulator routine.toDraft g = some after ∧
    before.session.machine.register? Register.nextHandler = none ∧
    after.session.machine.register? Register.nextHandler = some value

theorem ending_of_outcome {settings : Emulator.Settings} {w : Emulator.Walk}
    {trace : ExecutionTrace} (h : Emulator.outcome settings w = .finished trace) :
    w.ending = .left ∧ trace =
      { w.trace with nextHandler := w.session.machine.register? Register.nextHandler } := by
  obtain ⟨ending, walked, session⟩ := w
  cases ending with
  | left =>
      obtain rfl := Emulator.Outcome.finished.inj h
      exact ⟨rfl, rfl⟩
  | failed e => cases h
  | cut => cases hlimit : settings.maxSteps <;> simp [Emulator.outcome, hlimit] at h

/-- A finished emulation is a walk that left the routine. -/
theorem exists_walk_of_finished {settings : Emulator.Settings} {r : Draft}
    {entry : Graph → Option StmtId} {session after : Session} {trace : ExecutionTrace}
    (h : Emulator.run settings r entry session = (.finished trace, after)) :
    ∃ g q, Graph.build r = .ok g ∧
      (Point.first settings r (entry g) session (settings.maxSteps.getD Emulator.unlimited)).Reaches
        settings r g q ∧
      trace.nextHandler = q.session.machine.register? Register.nextHandler := by
  cases hbuild : Graph.build r with
  | error e =>
      unfold Emulator.run at h
      rw [hbuild] at h
      cases h
  | ok g =>
      rw [Point.run_eq_walk_of_reaches hbuild entry session .start] at h
      obtain ⟨hleft, rfl⟩ := ending_of_outcome (Prod.mk.inj h).1
      obtain ⟨q, hreaches, hwalk⟩ := Point.exists_reaches_of_left hleft
      exact ⟨g, q, rfl, hreaches, by rw [hwalk]⟩

/-- A round hands on an address only where it set the next-handler register. -/
theorem setsNextHandler_of_round {settings : Settings} {routine : Routine} {session after : Session}
    {trace : ExecutionTrace} {next : UInt64}
    (h : round settings routine session = (.finished trace, after))
    (hnext : trace.nextHandler = some next) : SetsNextHandler settings routine session := by
  obtain ⟨g, q, hbuild, hreaches, htrace⟩ := exists_walk_of_finished h
  have hcleared : ∀ s : Machine,
      (s.clearRegister Register.nextHandler).register? Register.nextHandler = none := by
    intro s
    simp [Machine.clearRegister, Machine.register?]
  -- the round starts without a value and ends with one, so a visit made the change
  obtain ⟨before, between, hbefore, hadvance, hnone, hsome⟩ :=
    hreaches.exists_change (fun p => p.session.machine.register? Register.nextHandler = none)
      (by
        unfold Point.first Point.opened
        dsimp only
        split <;> exact hcleared _)
      (by rw [← htrace, hnext]; simp)
  obtain ⟨value, hvalue⟩ := Option.ne_none_iff_exists'.mp hsome
  exact ⟨g, before, between, value, hbuild, hbefore, hadvance, hnone, hvalue⟩

/-! ## Links -/

/-- Why a chain stopped behind these rounds, with room for `left` of them. -/
inductive StopsBy (settings : Settings) (left : Nat) (rounds : Array Round) :
    Stop → Option EmulationError → Prop
  | failed {e : EmulationError} : StopsBy settings left rounds .failed (some e)
  | noNextHandler {last : Round} : rounds.back? = some last → last.trace.nextHandler = none →
      StopsBy settings left rounds .noNextHandler none
  | singleRound {only : Round} {next : UInt64} : settings.tracerMode = false → rounds = #[only] →
      only.trace.nextHandler = some next → StopsBy settings left rounds .singleRound none
  | emptyRoom : settings.maxRounds.isSome → left = 0 → rounds = #[] →
      StopsBy settings left rounds .maxRounds none
  | fullRoom {last : Round} {next : UInt64} : settings.maxRounds.isSome → rounds.size = left →
      settings.tracerMode = true → rounds.back? = some last → last.trace.nextHandler = some next →
      StopsBy settings left rounds .maxRounds none

/-- The rounds of a report, from a first address on a session, with room for `left` of them. -/
structure Linked (settings : Settings) (provider : Provider) (left : Nat) (first : UInt64)
    (session : Session) (file : Option LogFile) (report : Report) : Prop where
  head : ∀ round, report.rounds[0]? = some round → round.address = first
  /-- A round runs on the session that a chain leaves that has room for the rounds before it. -/
  runs : ∀ i round, report.rounds[i]? = some round →
    Runs settings provider (run (settings.limited i) provider first session file).session round
  next : ∀ i before after, report.rounds[i]? = some before → report.rounds[i + 1]? = some after →
    before.trace.nextHandler = some after.address
  size : report.rounds.size ≤ left
  stop : StopsBy settings left report.rounds report.stop report.error

section Links

variable {settings : Settings} {provider : Provider} {left : Nat} {round : Round} {next : UInt64}
  {session : Session} {file : Option LogFile}

/-- A round in front that hands on its next handler changes nothing about the stop. -/
theorem StopsBy.behind {rounds : Array Round} {stop : Stop} {error : Option EmulationError}
    (h : StopsBy settings left rounds stop error) (htracer : settings.tracerMode = true)
    (hnext : round.trace.nextHandler = some next) :
    StopsBy settings (left + 1) (#[round] ++ rounds) stop error := by
  have hback : ∀ last, rounds.back? = some last → (#[round] ++ rounds).back? = some last := by
    intro last hlast
    rw [Array.back?_append, hlast]
    rfl
  cases h with
  | failed => exact .failed
  | noNextHandler hlast hnone => exact .noNextHandler (hback _ hlast) hnone
  | singleRound hsingle => exact absurd (hsingle.symm.trans htracer) (by decide)
  | emptyRoom hlimit hleft hempty =>
      subst hleft hempty
      exact .fullRoom hlimit rfl htracer rfl hnext
  | fullRoom hlimit hsize _ hlast hsome =>
      exact .fullRoom hlimit (by simp [hsize, Nat.add_comm]) htracer (hback _ hlast) hsome

/-- The report of a turn that ends the chain. -/
theorem linked_of_ends {first : UInt64} {completed : Option Round} {stop : Stop}
    {error : Option EmulationError}
    (hrounds : ∀ round, completed = some round →
      round.address = first ∧ Runs settings provider session round)
    (hends : Ends settings completed stop error) :
    Linked settings provider (left + 1) first session file
      { rounds := #[] ++ completed.toArray, stop, error } := by
  rw [Array.empty_append]
  refine ⟨?_, ?_, ?_, ?_, ?_⟩
  · intro round hround
    cases completed with
    | none => cases hround
    | some only =>
        obtain rfl : only = round := Option.some.inj hround
        exact (hrounds only rfl).1
  · intro i round hround
    cases completed with
    | none => cases hround
    | some only =>
        cases i with
        | zero =>
            obtain rfl : only = round := Option.some.inj hround
            exact (hrounds only rfl).2
        | succ i => cases hround
  · intro i before after _ hafter
    cases completed with
    | none => cases hafter
    | some only => cases hafter
  · cases completed <;> simp
  · cases hends with
    | failed => exact .failed
    | noNextHandler hnone => exact .noNextHandler rfl hnone
    | singleRound hsingle hsome => exact .singleRound hsingle rfl hsome

/-- A round in front that hands on the first address. -/
theorem Linked.behind {report : Report} {session' : Session} {file' : Option LogFile}
    (h : Linked settings provider left next session' file' report)
    (hround : Runs settings provider session round) (htracer : settings.tracerMode = true)
    (hnext : round.trace.nextHandler = some next)
    (hturn : turn settings provider round.address session file =
      .goesOn round next session' file') :
    Linked settings provider (left + 1) round.address session file
      (report.continuing #[round]) := by
  have hzero : (#[round] ++ report.rounds)[0]? = some round := by
    rw [Array.getElem?_append_left (by simp)]
    rfl
  have hsucc : ∀ i, (#[round] ++ report.rounds)[i + 1]? = report.rounds[i]? := by
    intro i
    simp [Array.getElem?_append]
  refine ⟨?_, ?_, ?_, ?_, h.stop.behind htracer hnext⟩
  · intro other hother
    obtain rfl := Option.some.inj (hzero.symm.trans hother)
    rfl
  · intro i other hother
    cases i with
    | zero =>
        obtain rfl := Option.some.inj (hzero.symm.trans hother)
        exact hround
    | succ i =>
        rw [run_limited_succ, hturn]
        exact h.runs i other ((hsucc i).symm.trans hother)
  · intro i before after hbefore hafter
    have hafter' := (hsucc i).symm.trans hafter
    cases i with
    | zero =>
        obtain rfl := Option.some.inj (hzero.symm.trans hbefore)
        rw [hnext, h.head after hafter']
    | succ i => exact h.next i before after ((hsucc i).symm.trans hbefore) hafter'
  · have hsize := h.size
    simp only [Report.continuing, Array.size_append, List.size_toArray, List.length_singleton]
    omega

/-- **The rounds of a chain are linked.** -/
theorem linked_of_follow {first : UInt64} {report : Report}
    (h : (follow settings provider left first #[] session file).report = some report) :
    Linked settings provider left first session file report := by
  induction left generalizing first session file report with
  | zero =>
      rw [follow] at h
      obtain ⟨limit, hlimit, rfl⟩ := Option.map_eq_some_iff.mp h
      exact ⟨by simp, by simp, by simp, by simp, .emptyRoom (by simp [hlimit]) rfl rfl⟩
  | succ left ih =>
      rw [follow_turn] at h
      have hsound := turn_sound settings provider first session file
      cases hturn : turn settings provider first session file with
      | ends completed ending session' file' =>
          rw [hturn] at h hsound
          obtain ⟨⟨stop, error⟩, hending, rfl⟩ := Option.map_eq_some_iff.mp h
          exact linked_of_ends hsound.1 (hsound.2 _ _ hending)
      | goesOn round next session' file' =>
          rw [hturn] at h hsound
          obtain ⟨rfl, hround, hnext, htracer⟩ := hsound
          obtain ⟨later, hlater, rfl⟩ := Option.map_eq_some_iff.mp h
          exact (ih hlater).behind hround htracer hnext hturn

end Links

/-! ## Reports -/

/-- The rounds of a chain from an address on are linked. -/
structure Report.IsLinked (report : Report) (settings : Settings) (provider : Provider)
    (first : UInt64) (session : Session) (file : Option LogFile) : Prop where
  head : ∀ round, report.rounds[0]? = some round → round.address = first
  /-- A round runs the routine that the provider gives, where the rounds before it left off. -/
  runs : ∀ i round, report.rounds[i]? = some round →
    ∃ routine after, provider round.address = some routine ∧ round.routine = routine.name ∧
      HandlerChain.round settings routine
          (run (settings.limited i) provider first session file).session =
        (.finished round.trace, after)
  next : ∀ i before after, report.rounds[i]? = some before → report.rounds[i + 1]? = some after →
    before.trace.nextHandler = some after.address
  size : ∀ limit, settings.maxRounds = some limit → report.rounds.size ≤ limit
  /-- A round with a next handler set the register itself. -/
  sets : ∀ i round, report.rounds[i]? = some round → round.trace.nextHandler.isSome →
    ∃ routine, provider round.address = some routine ∧
      SetsNextHandler settings routine
        (run (settings.limited i) provider first session file).session

/-- The stop of a chain is the one that its rounds give. -/
structure Report.IsClassified (report : Report) (settings : Settings) : Prop where
  failed : report.error.isSome ↔ report.stop = .failed
  noNextHandler : report.error = none → (report.stop = .noNextHandler ↔
    ∃ last, report.rounds.back? = some last ∧ last.trace.nextHandler = none)
  singleRound : report.error = none → (report.stop = .singleRound ↔
    settings.tracerMode = false ∧
      ∃ only next, report.rounds = #[only] ∧ only.trace.nextHandler = some next)
  maxRounds : report.error = none → (report.stop = .maxRounds ↔
    settings.maxRounds = some report.rounds.size ∧
      (settings.maxRounds = some 0 ∨ settings.tracerMode = true ∧
        ∃ last next, report.rounds.back? = some last ∧ last.trace.nextHandler = some next))

theorem StopsBy.isClassified {settings : Settings} {report : Report}
    (h : StopsBy settings (settings.maxRounds.getD Emulator.unlimited) report.rounds report.stop
      report.error) : report.IsClassified settings := by
  obtain ⟨rounds, stop, error⟩ := report
  dsimp only at h
  -- a limit that is there is the room that the chain had
  have hroom : settings.maxRounds.isSome →
      settings.maxRounds = some (settings.maxRounds.getD Emulator.unlimited) := by
    intro hlimit
    obtain ⟨limit, hlimit⟩ := Option.isSome_iff_exists.mp hlimit
    rw [hlimit, Option.getD_some]
  cases h with
  | failed => exact ⟨by simp, by simp, by simp, by simp⟩
  | noNextHandler hlast hnone =>
      refine ⟨by simp, ?_, ?_, ?_⟩ <;> intro _ <;> dsimp only
      · exact iff_of_true rfl ⟨_, hlast, hnone⟩
      · refine iff_of_false (by simp) ?_
        rintro ⟨-, only, next, rfl, hnext⟩
        obtain rfl := Option.some.inj hlast
        exact Option.some_ne_none _ (hnext.symm.trans hnone)
      · refine iff_of_false (by simp) ?_
        rintro ⟨hsize, hzero | ⟨-, last, next, hlast', hnext⟩⟩
        · obtain rfl := Array.eq_empty_of_size_eq_zero (Option.some.inj (hsize.symm.trans hzero))
          cases hlast
        · obtain rfl := Option.some.inj (hlast'.symm.trans hlast)
          exact Option.some_ne_none _ (hnext.symm.trans hnone)
  | singleRound hsingle honly hnext =>
      subst honly
      refine ⟨by simp, ?_, ?_, ?_⟩ <;> intro _ <;> dsimp only
      · refine iff_of_false (by simp) ?_
        rintro ⟨last, hlast, hnone⟩
        obtain rfl := Option.some.inj hlast
        exact Option.some_ne_none _ (hnext.symm.trans hnone)
      · exact iff_of_true rfl ⟨hsingle, _, _, rfl, hnext⟩
      · refine iff_of_false (by simp) ?_
        rintro ⟨hsize, hzero | ⟨htracer, -⟩⟩
        · rw [hsize] at hzero
          cases hzero
        · rw [hsingle] at htracer
          cases htracer
  | emptyRoom hlimit hleft hempty =>
      subst hempty
      refine ⟨by simp, by simp, by simp, ?_⟩
      intro _
      have hzero : settings.maxRounds = some 0 := (hroom hlimit).trans (congrArg some hleft)
      exact iff_of_true rfl ⟨hzero, .inl hzero⟩
  | fullRoom hlimit hsize htracer hlast hnext =>
      refine ⟨by simp, ?_, ?_, ?_⟩ <;> intro _ <;> dsimp only
      · refine iff_of_false (by simp) ?_
        rintro ⟨last, hlast', hnone⟩
        obtain rfl := Option.some.inj (hlast'.symm.trans hlast)
        exact Option.some_ne_none _ (hnext.symm.trans hnone)
      · refine iff_of_false (by simp) ?_
        rintro ⟨hsingle, -⟩
        rw [htracer] at hsingle
        cases hsingle
      · exact iff_of_true rfl
          ⟨(hroom hlimit).trans (congrArg some hsize.symm), .inr ⟨htracer, _, _, hlast, hnext⟩⟩

/-- **A chain reports linked rounds and the right stop.** -/
theorem run_reports (settings : Settings) (provider : Provider) (first : UInt64)
    (session : Session) (file : Option LogFile) {report : Report}
    (h : (run settings provider first session file).report = some report) :
    report.IsLinked settings provider first session file ∧ report.IsClassified settings := by
  have hlinked := linked_of_follow h
  refine ⟨⟨hlinked.head, fun i round hround => (hlinked.runs i round hround).run, hlinked.next, ?_,
    ?_⟩, hlinked.stop.isClassified⟩
  · intro limit hlimit
    have hsize := hlinked.size
    rw [hlimit] at hsize
    exact hsize
  · intro i round hround hsome
    obtain ⟨next, hnext⟩ := Option.isSome_iff_exists.mp hsome
    obtain ⟨routine, after, hroutine, _, hrun⟩ := (hlinked.runs i round hround).run
    exact ⟨routine, hroutine, setsNextHandler_of_round hrun hnext⟩

/-- A handler that hands on to the one at `0x2000`. -/
def dispatchingDraft : Draft where
  name := "dispatching"
  address := 0x1000
  body := ⟨0⟩
  stmts := #[.block [⟨1⟩], .jumpFar (.ptr 0x2000)]

/-- A handler that ends its chain. -/
def returningDraft : Draft where
  name := "returning"
  address := 0x2000
  body := ⟨0⟩
  stmts := #[.block [⟨1⟩], .ret none]

def dispatchingRoutine : Routine where
  toDraft := dispatchingDraft
  valid := Draft.check_eq_ok_iff.mpr ⟨by decide, by decide, by decide, by decide⟩

def returningRoutine : Routine where
  toDraft := returningDraft
  valid := Draft.check_eq_ok_iff.mpr ⟨by decide, by decide, by decide, by decide⟩

/-- With room for three rounds, two handlers end their chain after two. -/
theorem run_reports_two_handlers :
    let settings : Settings := { emulator := { maxSteps := some 4 }, maxRounds := some 3 }
    let provider := Provider.ofList [dispatchingRoutine, returningRoutine]
    let session : Session := ⟨[.libc {}], .new {} (.new .little 64), {}⟩
    ∃ report, (run settings provider 0x1000 session none).report = some report ∧
      report.addresses = [0x1000, 0x2000] ∧ report.stop = .noNextHandler ∧
      report.IsLinked settings provider 0x1000 session none ∧ report.IsClassified settings := by
  intro settings provider session
  exact ⟨_, rfl, rfl, rfl, run_reports settings provider 0x1000 session none rfl⟩

end RoutineEmulator.HandlerChain
