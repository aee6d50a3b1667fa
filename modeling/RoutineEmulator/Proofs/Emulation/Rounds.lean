import RoutineEmulator.Emulation.HandlerChain
import RoutineEmulator.Proofs.Routine.Validity
/-!
The rounds of a chain, one after the other.

`turn` is what a chain does with one address: it completes a round and goes on, or it ends.
`follow_succ` says that following a chain is a turn and then following it with one round less, so
that every law of a chain is an induction over turns. `run_limited_add` is the first such law: a
chain with room for more rounds goes on from where the shorter one stopped.
-/

namespace RoutineEmulator.HandlerChain

/-- The settings with a limit on the rounds. -/
def Settings.limited (settings : Settings) (limit : Nat) : Settings :=
  { settings with maxRounds := some limit }

/-- The report of a chain that goes on where one with these rounds was stopped. -/
def Report.continuing (rounds : Array Round) (report : Report) : Report :=
  { report with rounds := rounds ++ report.rounds }

/-- The result of a chain that goes on where one with these rounds was stopped. -/
def Result.continuing (rounds : Array Round) (result : Result) : Result :=
  { result with report := result.report.map (·.continuing rounds) }

@[simp] theorem Result.continuing_empty (result : Result) : result.continuing #[] = result := by
  obtain ⟨report, session, file⟩ := result
  cases report <;> simp [continuing, Report.continuing]

@[simp] theorem Result.continuing_continuing (first more : Array Round) (result : Result) :
    (result.continuing more).continuing first = result.continuing (first ++ more) := by
  obtain ⟨report, session, file⟩ := result
  cases report <;> simp [continuing, Report.continuing]

/-! ## One turn -/

/-- What a chain does with an address. -/
inductive Turn where
  /-- It completes a round and goes on with the next address. -/
  | goesOn (round : Round) (next : UInt64) (session : Session) (file : Option LogFile)
  /-- It ends, perhaps behind a round; without a report where the round did not end. -/
  | ends (completed : Option Round) (ending : Option (Stop × Option EmulationError))
      (session : Session) (file : Option LogFile)

section

variable (settings : Settings) (provider : Provider)

/-- How a chain ends after a failing round. -/
def givesUp (cause : EmulationError) (session : Session) (file : Option LogFile) : Turn :=
  match flush session file with
  | .ok (session, file) => .ends none (some (.failed, some cause)) session file
  | .error _ => .ends none (some (.failed, some cause)) session file

/-- How a chain goes on behind a round. -/
def goesOnAfter (round : Round) (session : Session) (file : Option LogFile) : Turn :=
  match flush session file with
  | .error e => .ends (some round) (some (.failed, some e)) session file
  | .ok (session, file) =>
    match round.trace.nextHandler with
    | none => .ends (some round) (some (.noNextHandler, none)) session file
    | some next =>
      if settings.tracerMode then .goesOn round next session file
      else .ends (some round) (some (.singleRound, none)) session file

/-- The turn of a chain at an address. -/
def turn (address : UInt64) (session : Session) (file : Option LogFile) : Turn :=
  match provider address with
  | none =>
    givesUp (.missingEntryPoint ("no routine at " ++ Text.hexAddress address.toNat)) session file
  | some routine =>
    match round settings routine session with
    | (.unfinished, session) => .ends none none session file
    | (.failed e, session) => givesUp e session file
    | (.finished trace, session) =>
      goesOnAfter settings { address, routine := routine.name, trace } session file

end

variable {settings : Settings} {provider : Provider}

/-- The round is that of the routine at its address, run on this session. -/
structure Runs (settings : Settings) (provider : Provider) (session : Session) (round : Round) :
    Prop where
  run : ∃ routine after, provider round.address = some routine ∧ round.routine = routine.name ∧
    HandlerChain.round settings routine session = (.finished round.trace, after)

/-- How a turn may end a chain, behind which round. -/
inductive Ends (settings : Settings) : Option Round → Stop → Option EmulationError → Prop
  | failed {completed : Option Round} {e : EmulationError} :
      Ends settings completed .failed (some e)
  | noNextHandler {round : Round} : round.trace.nextHandler = none →
      Ends settings (some round) .noNextHandler none
  | singleRound {round : Round} {next : UInt64} : settings.tracerMode = false →
      round.trace.nextHandler = some next → Ends settings (some round) .singleRound none

/-- What a turn promises: the round that it completes is run at the address; the chain goes on with
the next handler of the round, in tracer mode only; and it ends for one of the reasons there are. -/
def Turn.Sound (settings : Settings) (provider : Provider) (address : UInt64) (session : Session) :
    Turn → Prop
  | .goesOn round next _ _ => round.address = address ∧ Runs settings provider session round ∧
      round.trace.nextHandler = some next ∧ settings.tracerMode = true
  | .ends completed ending _ _ =>
      (∀ round, completed = some round →
        round.address = address ∧ Runs settings provider session round) ∧
      ∀ stop error, ending = some (stop, error) → Ends settings completed stop error

theorem givesUp_sound (address : UInt64) (start : Session) (cause : EmulationError)
    (session : Session) (file : Option LogFile) :
    (givesUp cause session file).Sound settings provider address start := by
  have hends : ∀ stop error, some (Stop.failed, some cause) = some (stop, error) →
      Ends settings none stop error := by
    rintro _ _ ⟨⟩
    exact .failed
  unfold givesUp
  cases flush session file with
  | ok flushed => exact ⟨by simp, hends⟩
  | error e => exact ⟨by simp, hends⟩

theorem turn_sound (settings : Settings) (provider : Provider) (address : UInt64)
    (session : Session) (file : Option LogFile) :
    (turn settings provider address session file).Sound settings provider address session := by
  unfold turn
  cases hroutine : provider address with
  | none => exact givesUp_sound _ _ _ _ _
  | some routine =>
      dsimp only
      cases hround : HandlerChain.round settings routine session with
      | mk outcome after =>
          cases outcome with
          | unfinished => exact ⟨by simp, by simp⟩
          | failed e => exact givesUp_sound _ _ _ _ _
          | finished trace =>
              have hruns : Runs settings provider session ⟨address, routine.name, trace⟩ :=
                ⟨routine, after, hroutine, rfl, hround⟩
              have hcompleted : ∀ round : Round, some ⟨address, routine.name, trace⟩ = some round →
                  round.address = address ∧ Runs settings provider session round := by
                rintro _ ⟨⟩
                exact ⟨rfl, hruns⟩
              dsimp only
              unfold goesOnAfter
              cases flush after file with
              | error e =>
                  refine ⟨hcompleted, ?_⟩
                  rintro _ _ ⟨⟩
                  exact .failed
              | ok flushed =>
                  dsimp only
                  cases hnext : trace.nextHandler with
                  | none =>
                      refine ⟨hcompleted, ?_⟩
                      rintro _ _ ⟨⟩
                      exact .noNextHandler hnext
                  | some next =>
                      dsimp only
                      by_cases htracer : settings.tracerMode = true
                      · rw [if_pos htracer]
                        exact ⟨rfl, hruns, hnext, htracer⟩
                      · rw [if_neg htracer]
                        refine ⟨hcompleted, ?_⟩
                        rintro _ _ ⟨⟩
                        exact .singleRound (by simpa using htracer) hnext

/-! ## Following turns -/

/-- A turn that ends the chain, with the rounds before it. -/
def Turn.result (rounds : Array Round) (goOn : Round → UInt64 → Session → Option LogFile → Result) :
    Turn → Result
  | .goesOn round next session file => goOn round next session file
  | .ends completed ending session file =>
    ⟨ending.map fun (stop, error) =>
      { rounds := rounds ++ completed.toArray, stop, error }, session, file⟩

theorem abandon_eq_givesUp (rounds : Array Round) (cause : EmulationError) (session : Session)
    (file : Option LogFile) (goOn : Round → UInt64 → Session → Option LogFile → Result) :
    abandon rounds cause session file = (givesUp cause session file).result rounds goOn := by
  unfold abandon givesUp
  cases flush session file with
  | ok flushed => simp [Turn.result]
  | error e => simp [Turn.result]

/-- **Following a chain is a turn, and then following it with one round less.** -/
theorem follow_succ (left : Nat) (address : UInt64) (rounds : Array Round) (session : Session)
    (file : Option LogFile) :
    follow settings provider (left + 1) address rounds session file =
      (turn settings provider address session file).result rounds fun round next session file =>
        follow settings provider left next (rounds.push round) session file := by
  rw [follow, turn]
  cases provider address with
  | none => exact abandon_eq_givesUp _ _ _ _ _
  | some routine =>
      dsimp only
      cases round settings routine session with
      | mk outcome session =>
          cases outcome with
          | unfinished => rfl
          | failed e => exact abandon_eq_givesUp _ _ _ _ _
          | finished trace =>
              dsimp only
              unfold goesOnAfter
              cases flush session file with
              | error e => simp [Turn.result]
              | ok flushed =>
                  dsimp only
                  cases trace.nextHandler with
                  | none => simp [Turn.result]
                  | some next =>
                      by_cases htracer : settings.tracerMode <;> simp [Turn.result, htracer]

/-- The rounds before are only carried along. -/
theorem follow_continuing (left : Nat) (address : UInt64) (rounds : Array Round)
    (session : Session) (file : Option LogFile) :
    follow settings provider left address rounds session file =
      (follow settings provider left address #[] session file).continuing rounds := by
  induction left generalizing address rounds session file with
  | zero => cases hlimit : settings.maxRounds <;>
      simp [follow, Result.continuing, Report.continuing, hlimit]
  | succ left ih =>
      rw [follow_succ, follow_succ]
      cases turn settings provider address session file with
      | ends completed ending session file =>
          cases ending <;> simp [Turn.result, Result.continuing, Report.continuing]
      | goesOn round next session file =>
          show follow _ _ _ _ _ _ _ = (follow _ _ _ _ _ _ _).continuing rounds
          rw [ih next (rounds.push round), ih next (#[].push round), Result.continuing_continuing]
          simp

/-- Only whether there is a limit on the rounds matters to a chain that may run so many more. -/
theorem follow_limited (limit other left : Nat) (address : UInt64) (rounds : Array Round)
    (session : Session) (file : Option LogFile) :
    follow (settings.limited limit) provider left address rounds session file =
      follow (settings.limited other) provider left address rounds session file := by
  induction left generalizing address rounds session file with
  | zero => rfl
  | succ left ih =>
      have hturn :
          turn (settings.limited limit) provider = turn (settings.limited other) provider := rfl
      rw [follow_succ, follow_succ, hturn]
      simp only [ih]

theorem follow_turn (left : Nat) (address : UInt64) (session : Session) (file : Option LogFile) :
    follow settings provider (left + 1) address #[] session file =
      (turn settings provider address session file).result #[] fun round next session file =>
        (follow settings provider left next #[] session file).continuing #[round] := by
  have hrest : ∀ (round : Round) (next : UInt64) (session : Session) (file : Option LogFile),
      follow settings provider left next (#[].push round) session file =
        (follow settings provider left next #[] session file).continuing #[round] :=
    fun _ _ _ _ => follow_continuing _ _ _ _ _
  rw [follow_succ]
  simp only [hrest]

theorem run_limited_zero (address : UInt64) (session : Session) (file : Option LogFile) :
    run (settings.limited 0) provider address session file =
      ⟨some { rounds := #[], stop := .maxRounds }, session, file⟩ := rfl

theorem run_limited_succ (limit : Nat) (address : UInt64) (session : Session)
    (file : Option LogFile) :
    run (settings.limited (limit + 1)) provider address session file =
      (turn settings provider address session file).result #[] fun round next session file =>
        (run (settings.limited limit) provider next session file).continuing #[round] := by
  show follow (settings.limited (limit + 1)) provider (limit + 1) address #[] session file = _
  rw [follow_turn]
  simp only [follow_limited (limit + 1) limit]
  rfl

/-- **A chain with room for more rounds goes on where the shorter one stopped.** Either the shorter
chain ended for another reason than its limit, and then the longer one is the same; or it ran as
many rounds as it might, and the longer one goes on with its last next handler. -/
theorem run_limited_add (settings : Settings) (provider : Provider) (n m : Nat)
    (address : UInt64) (session : Session) (file : Option LogFile) :
    ((∀ report, (run (settings.limited n) provider address session file).report = some report →
        report.stop ≠ .maxRounds) ∧
      run (settings.limited (n + m)) provider address session file =
        run (settings.limited n) provider address session file) ∨
    ∃ report next, (run (settings.limited n) provider address session file).report = some report ∧
      report.stop = .maxRounds ∧ report.error = none ∧ report.rounds.size = n ∧
      (if n = 0 then next = address else report.lastNextHandler = some next) ∧
      run (settings.limited (n + m)) provider address session file =
        (run (settings.limited m) provider next
          (run (settings.limited n) provider address session file).session
          (run (settings.limited n) provider address session file).file).continuing
            report.rounds := by
  induction n generalizing address session file with
  | zero =>
      right
      refine ⟨_, address, rfl, rfl, rfl, rfl, rfl, ?_⟩
      rw [Nat.zero_add]
      simp [run_limited_zero]
  | succ n ih =>
      rw [Nat.add_right_comm, run_limited_succ, run_limited_succ]
      have hsound := turn_sound settings provider address session file
      cases hturn : turn settings provider address session file with
      | ends completed ending session' file' =>
          rw [hturn] at hsound
          refine .inl ⟨?_, rfl⟩
          intro report hreport
          obtain ⟨⟨stop, error⟩, hending, rfl⟩ := Option.map_eq_some_iff.mp hreport
          cases hsound.2 _ _ hending <;> simp
      | goesOn round next session' file' =>
          rw [hturn] at hsound
          obtain ⟨_, _, hnext, _⟩ := hsound
          simp only [Turn.result]
          rcases ih next session' file' with
            ⟨hends, heq⟩ | ⟨report, after, hreport, hstop, herror, hsize, hafter, heq⟩
          · left
            rw [heq]
            refine ⟨?_, rfl⟩
            intro report hreport
            obtain ⟨later, hlater, rfl⟩ := Option.map_eq_some_iff.mp hreport
            exact hends later hlater
          · right
            refine ⟨report.continuing #[round], after, ?_, hstop, herror, ?_, ?_, ?_⟩
            · simp [Result.continuing, hreport]
            · simp [Report.continuing, hsize, Nat.add_comm]
            · rw [if_neg (Nat.succ_ne_zero n)]
              show (#[round] ++ report.rounds).back?.bind _ = some after
              rw [Array.back?_append]
              by_cases hn : n = 0
              · rw [if_pos hn] at hafter
                have hempty : report.rounds = #[] := Array.size_eq_zero_iff.mp (hsize.trans hn)
                rw [hempty, hafter]
                exact hnext
              · rw [if_neg hn] at hafter
                obtain ⟨last, hlast, hlastNext⟩ := Option.bind_eq_some_iff.mp hafter
                rw [hlast]
                exact hlastNext
            · rw [heq, Result.continuing_continuing]
              rfl

/-! ## Chains without a log file -/

theorem turn_without_file (settings : Settings) (provider : Provider) (address : UInt64)
    (session : Session) :
    match turn settings provider address session none with
    | .goesOn _ _ _ file | .ends _ _ _ file => file = none := by
  unfold turn
  cases provider address with
  | none => rfl
  | some routine =>
      dsimp only
      cases round settings routine session with
      | mk outcome after =>
          cases outcome with
          | unfinished => rfl
          | failed e => rfl
          | finished trace =>
              unfold goesOnAfter flush
              dsimp only
              cases trace.nextHandler with
              | none => rfl
              | some next =>
                  by_cases htracer : settings.tracerMode <;> simp [htracer]

theorem run_without_file (limit : Nat) (address : UInt64) (session : Session) :
    (run (settings.limited limit) provider address session none).file = none := by
  induction limit generalizing address session with
  | zero => rfl
  | succ limit ih =>
      have hfile := turn_without_file settings provider address session
      rw [run_limited_succ]
      cases hturn : turn settings provider address session none with
      | ends completed ending session file =>
          rw [hturn] at hfile
          exact hfile
      | goesOn round next session file =>
          rw [hturn] at hfile
          obtain rfl : file = none := hfile
          exact ih next session

/-- **Chains can be resumed.** Running a chain with room for `n + m` rounds is running it with room
for `n`, and then, if it stopped for want of room, running it with room for `m` from its last next
handler, on the simulators, machine and log it left: the rounds of both stand one after the other,
and the second run tells why the chain stopped. If the first run ended otherwise, it is the whole
run. -/
theorem run_resumes (settings : Settings) (provider : Provider) (first : UInt64)
    (session : Session) {n : Nat} (hn : 1 ≤ n) (m : Nat) :
    let front := run (settings.limited n) provider first session none
    let whole := run (settings.limited (n + m)) provider first session none
    (∀ report, front.report = some report → report.stop = .maxRounds →
      ∃ next, report.lastNextHandler = some next ∧
        let back := run (settings.limited m) provider next front.session none
        whole.session = back.session ∧
          whole.report = back.report.map fun rest =>
            { rounds := report.rounds ++ rest.rounds, stop := rest.stop, error := rest.error }) ∧
      ((∀ report, front.report = some report → report.stop ≠ .maxRounds) → whole = front) := by
  intro front whole
  rcases run_limited_add settings provider n m first session none with
    ⟨hends, heq⟩ | ⟨report, next, hreport, hstop, _, _, hnext, heq⟩
  · exact ⟨fun report hreport hstop => absurd hstop (hends report hreport), fun _ => heq⟩
  · refine ⟨?_, fun hends => absurd hstop (hends report hreport)⟩
    intro report' hreport' _
    obtain rfl : report = report' := Option.some.inj (hreport.symm.trans hreport')
    rw [if_neg (Nat.one_le_iff_ne_zero.mp hn)] at hnext
    rw [run_without_file] at heq
    have hsession := congrArg Result.session heq
    have hwhole := congrArg Result.report heq
    exact ⟨next, hnext, hsession, hwhole⟩

/-- A handler that hands on to itself. -/
def loopingDraft : Draft where
  name := "looping"
  address := 0x1000
  body := ⟨0⟩
  stmts := #[.block [⟨1⟩], .jumpFar (.ptr 0x1000)]

def loopingRoutine : Routine where
  toDraft := loopingDraft
  valid := Draft.check_eq_ok_iff.mpr ⟨by decide, by decide, by decide, by decide⟩

/-- Two rounds and then three more are five rounds. -/
theorem run_resumes_looping :
    let settings : Settings := { emulator := { maxSteps := some 4 } }
    let provider := Provider.ofList [loopingRoutine]
    let session : Session := ⟨[.libc {}], .new {} (.new .little 64), {}⟩
    let front := run (settings.limited 2) provider 0x1000 session none
    let whole := run (settings.limited (2 + 3)) provider 0x1000 session none
    ∃ report next, front.report = some report ∧ report.rounds.size = 2 ∧
      report.lastNextHandler = some next ∧
      whole.session = (run (settings.limited 3) provider next front.session none).session := by
  intro settings provider session front whole
  obtain ⟨hresumes, _⟩ := run_resumes settings provider 0x1000 session (show 1 ≤ 2 by decide) 3
  obtain ⟨next, hnext, hsession, _⟩ := hresumes _ rfl rfl
  exact ⟨_, next, rfl, rfl, hnext, hsession⟩

end RoutineEmulator.HandlerChain
