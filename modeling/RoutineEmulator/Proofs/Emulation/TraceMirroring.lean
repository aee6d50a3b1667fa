import RoutineEmulator.Proofs.Emulation.Itinerary
/-!
Logging the trace does not interfere.

A visit goes the same way whatever the log holds, so the lines that mirror the trace change nothing
but the log. `walk_mirrored` says this of walks: one itinerary, and one end, for all settings and
all logs. The log of a run is then made of what the simulators log before it, the header, and for
each stop the text of its statement and the lines that the stop logs itself.
-/

namespace RoutineEmulator.Emulator

/-- The settings with the trace logged or not. -/
def Settings.logging (settings : Settings) (logTrace : Bool) : Settings :=
  { settings with logTrace }

/-- The line that mirrors a visited statement. -/
def mirrorLine (r : Draft) (id : StmtId) : String :=
  " " ++ r.renderStmt id

/-- What a stop leaves in the log: the line that mirrors its statement, if the trace is logged, and
behind it the lines of its own. -/
def mirrored (settings : Settings) (r : Draft) (stop : Stop) : List String :=
  (if settings.logTrace then [mirrorLine r stop.id] else []) ++ stop.lines

/-- The lines that simulators log before a routine. -/
def preparation (r : Draft) (simulators : List Simulator) : List String :=
  (Simulator.beforeRoutineAll r.name simulators {}).2.lines.toList

/-- The header of a trace, which only a routine with a graph has. -/
def header (r : Draft) : List String :=
  match Graph.build r with
  | .error _ => []
  | .ok _ => [traceHeader]

section Mirroring

variable {r : Draft}

/-! ## Walks -/

theorem announce_eq_extend (settings : Settings) (id : StmtId) (simulators : List Simulator)
    (machine : Machine) (log : OutputLog) :
    announce settings (r.renderStmt id) ⟨simulators, machine, log⟩ =
      ⟨simulators, machine, log.extend (mirrored settings r ⟨id, []⟩)⟩ := by
  unfold announce mirrored
  split <;> rfl

/-- A visit goes the same way whatever its log held before and whether or not it is mirrored there.
Behind the line that mirrors it, it appends the same lines. -/
theorem visit_mirrored (r : Draft) (g : Graph) (id : StmtId) (simulators : List Simulator)
    (machine : Machine) :
    ∃ result simulators' machine' lines, ∀ settings (log : OutputLog),
      (visit r g id).runOn (announce settings (r.renderStmt id) ⟨simulators, machine, log⟩) =
          (result, ⟨simulators', machine', log.extend (mirrored settings r ⟨id, lines⟩)⟩) ∧
        (log.extend (mirrored settings r ⟨id, lines⟩)).since
          (announce settings (r.renderStmt id) ⟨simulators, machine, log⟩).log = lines := by
  obtain ⟨result, simulators', machine', lines, _, hrun⟩ := steady_visit r g id simulators machine
  refine ⟨result, simulators', machine', lines, fun settings log => ?_⟩
  have hmirrored : mirrored settings r ⟨id, lines⟩ = mirrored settings r ⟨id, []⟩ ++ lines := by
    unfold mirrored
    rw [List.append_nil]
  rw [announce_eq_extend, hrun, hmirrored, ← OutputLog.extend_extend]
  exact ⟨rfl, OutputLog.since_extend _ _⟩

/-- **One walk for all logs.** A walk comes to the same end over the same stops, whatever its log
held before and whether or not it mirrors the trace there. -/
theorem walk_mirrored (r : Draft) (g : Graph) (visits : Nat) (current : Option StmtId)
    (trace : ExecutionTrace) (simulators : List Simulator) (machine : Machine) :
    ∃ ending trace' simulators' machine' route, ∀ settings (log : OutputLog),
      walk settings r g visits current trace ⟨simulators, machine, log⟩ =
          ⟨ending, trace', simulators', machine',
            log.extend (route.flatMap (mirrored settings r))⟩ ∧
        stops settings r g visits current ⟨simulators, machine, log⟩ = route := by
  induction visits generalizing current trace simulators machine with
  | zero =>
      cases current with
      | none => exact ⟨.left, trace, simulators, machine, [], fun _ _ => ⟨rfl, rfl⟩⟩
      | some id => exact ⟨.cut, trace, simulators, machine, [], fun _ _ => ⟨rfl, rfl⟩⟩
  | succ visits ih =>
      cases current with
      | none => exact ⟨.left, trace, simulators, machine, [], fun _ _ => ⟨rfl, rfl⟩⟩
      | some id =>
          obtain ⟨result, between, machine₁, lines, hvisit⟩ :=
            visit_mirrored r g id simulators machine
          let trace₁ := { trace with statements := trace.statements.push (r.renderStmt id) }
          cases result with
          | error e =>
              refine ⟨.failed e, trace₁, between, machine₁, [⟨id, lines⟩], fun settings log => ?_⟩
              obtain ⟨hrun, hlines⟩ := hvisit settings log
              constructor
              · unfold walk
                simp only [hrun, List.flatMap_cons, List.flatMap_nil, List.append_nil]
                rfl
              · unfold stops
                simp only [hrun, hlines]
          | ok step =>
              obtain ⟨ending, trace', simulators', machine', route, hrest⟩ :=
                ih step.next (record trace₁ step) between machine₁
              refine ⟨ending, trace', simulators', machine', ⟨id, lines⟩ :: route,
                fun settings log => ?_⟩
              obtain ⟨hrun, hlines⟩ := hvisit settings log
              obtain ⟨hwalk, hstops⟩ :=
                hrest settings (log.extend (mirrored settings r ⟨id, lines⟩))
              constructor
              · unfold walk
                simp only [hrun, List.flatMap_cons]
                rw [hwalk, OutputLog.extend_extend]
              · unfold stops
                simp only [hrun, hlines, hstops]

/-! ## Runs -/

/-- What simulators do before a routine does not depend on the log. -/
theorem beforeRoutineAll_eq_extend (r : Draft) (simulators : List Simulator) (log : OutputLog) :
    Simulator.beforeRoutineAll r.name simulators log =
      ((Simulator.beforeRoutineAll r.name simulators {}).1,
        log.extend (preparation r simulators)) := by
  obtain ⟨prepared, lines, hbefore⟩ := Simulator.beforeRoutineAll_steady r.name simulators
  have hpreparation : preparation r simulators = lines := by
    unfold preparation
    rw [hbefore, OutputLog.toList_lines_extend]
    rfl
  rw [hpreparation, hbefore, hbefore]

/-- **One run for all logs.** A run has the same outcome, over the same stops, and leaves the same
simulators and the same machine, whatever its log held before and whether or not it mirrors the
trace there. -/
theorem run_mirrored (settings : Settings) (r : Draft) (entry : Graph → Option StmtId)
    (simulators : List Simulator) (machine : Machine) :
    ∃ result simulators' machine' route, ∀ logTrace (log : OutputLog),
      run (settings.logging logTrace) r entry ⟨simulators, machine, log⟩ =
          (result, ⟨simulators', machine', log.extend (preparation r simulators ++
            ((if logTrace then header r else []) ++
              route.flatMap (mirrored (settings.logging logTrace) r)))⟩) ∧
        itinerary (settings.logging logTrace) r entry ⟨simulators, machine, log⟩ = route := by
  cases hbuild : Graph.build r with
  | error e =>
      refine ⟨.failed e, (Simulator.beforeRoutineAll r.name simulators {}).1, machine, [],
        fun logTrace log => ?_⟩
      unfold run itinerary header
      simp [hbuild, beforeRoutineAll_eq_extend r simulators log]
  | ok g =>
      obtain ⟨ending, trace, simulators', machine', route, hwalk⟩ :=
        walk_mirrored r g (settings.maxSteps.getD unlimited) (entry g) {}
          (Simulator.beforeRoutineAll r.name simulators {}).1 machine
      refine ⟨outcome settings ⟨ending, trace, simulators', machine', {}⟩, simulators', machine',
        route, fun logTrace log => ?_⟩
      have hopened : Point.opened (settings.logging logTrace) r ⟨simulators, machine, log⟩ =
          ⟨(Simulator.beforeRoutineAll r.name simulators {}).1, machine,
            log.extend (preparation r simulators ++ if logTrace then header r else [])⟩ := by
        unfold Point.opened header
        rw [beforeRoutineAll_eq_extend r simulators log, hbuild]
        cases logTrace
        · simp [Settings.logging]
        · simp [Settings.logging, ← OutputLog.extend_extend]
      obtain ⟨hwalk, hstops⟩ := hwalk (settings.logging logTrace)
        (log.extend (preparation r simulators ++ if logTrace then header r else []))
      constructor
      · rw [Point.run_eq_walk_of_reaches hbuild entry _ .start]
        unfold Point.walk Point.first
        rw [hopened]
        dsimp only
        rw [show (settings.logging logTrace).maxSteps = settings.maxSteps from rfl, hwalk,
          OutputLog.extend_extend, List.append_assoc]
        rfl
      · unfold itinerary
        rw [hbuild, hopened]
        exact hstops

/-- The run `loud` from a session mirrors its trace in the log. The run `quiet` does not; it starts
with another log, and is the same but for that. -/
structure MirrorsTrace (settings : Settings) (r : Draft) (entry : Graph → Option StmtId)
    (session : Session) (log : OutputLog) (loud quiet : Outcome × Session) : Prop where
  /-- The results or the faults are the same. -/
  outcome : loud.1 = quiet.1
  own : loud.2.own = quiet.2.own
  machine : loud.2.machine = quiet.2.machine
  /-- The traces are the same, also those of runs that fail. -/
  visited : visited (settings.logging true) r entry session =
    visited (settings.logging false) r entry { session with log }
  itinerary : itinerary (settings.logging true) r entry session =
    itinerary (settings.logging false) r entry { session with log }
  /-- The line of a statement stands before all lines that its visit appends. -/
  loudLog : loud.2.log = session.log.extend (preparation r session.own ++ (header r ++
    (Emulator.itinerary (settings.logging true) r entry session).flatMap
      fun stop => mirrorLine r stop.id :: stop.lines))
  quietLog : quiet.2.log = log.extend (preparation r session.own ++
    (Emulator.itinerary (settings.logging true) r entry session).flatMap (·.lines))

theorem mirrorsTrace_run (settings : Settings) (r : Draft) (entry : Graph → Option StmtId)
    (session : Session) (log : OutputLog) :
    MirrorsTrace settings r entry session log (run (settings.logging true) r entry session)
      (run (settings.logging false) r entry { session with log }) := by
  obtain ⟨result, simulators', machine', route, hrun⟩ :=
    run_mirrored settings r entry session.own session.machine
  obtain ⟨hloud, hloudStops⟩ := hrun true session.log
  obtain ⟨hquiet, hquietStops⟩ := hrun false log
  have hitinerary := hloudStops.trans hquietStops.symm
  refine ⟨?_, ?_, ?_, ?_, hitinerary, ?_, ?_⟩
  · rw [hloud, hquiet]
  · rw [hloud, hquiet]
  · rw [hloud, hquiet]
  · apply Array.toList_inj.mp
    rw [toList_visited, toList_visited]
    exact congrArg (List.map (r.renderStmt ·.id)) hitinerary
  · rw [hloud, hloudStops]
    rfl
  · rw [hquiet, hloudStops]
    rfl

end Mirroring

/-- **Logging the trace does not interfere.** An emulation that mirrors its trace and one that does
not, from the same state and over any two logs, have the same outcome, the same trace and the same
stops, and leave the same simulators and the same machine. Their logs are the same but for the
header, which only a routine with a graph has, and for one line in front of the lines of every
stop, which is a blank and the text of the statement. So it is from every statement of the arena,
and a run from any other statement does nothing but fail. -/
theorem emulate_mirrors (settings : Settings) (r : Routine) (session : Session) (log : OutputLog) :
    MirrorsTrace settings r.toDraft (·.entry) session log
        (emulate (settings.logging true) r session)
        (emulate (settings.logging false) r { session with log }) ∧
      ∀ start, if r.contains start then
          MirrorsTrace settings r.toDraft (fun _ => some start) session log
            (emulateFrom (settings.logging true) r start session)
            (emulateFrom (settings.logging false) r start { session with log })
        else ∀ logTrace session, emulateFrom (settings.logging logTrace) r start session =
          (.failed (.missingEntryPoint ("#" ++ toString start.index ++ " in " ++ r.name)),
            session) := by
  refine ⟨mirrorsTrace_run settings r.toDraft _ session log, fun start => ?_⟩
  unfold emulateFrom
  split
  · exact mirrorsTrace_run settings r.toDraft _ session log
  · exact fun _ _ => rfl

-- the lines of a hook stand behind the line that mirrors its statement
example : (emulate ((Settings.limited {} 2).logging true) Graph.nestedRoutine
      ⟨[.scripted { name := "probe", hooks := true }], .new {} (.new .little 64), {}⟩).2.log.lines =
    #["probe: routine nested", "> emulator trace:", " while(1)", "probe: stmt 1", " {...}",
      "probe: stmt 2"] := by
  decide

end RoutineEmulator.Emulator
