import RoutineEmulator.Proofs.Emulation.ChainReport
import RoutineEmulator.Proofs.Emulation.TraceMirroring
import RoutineEmulator.Proofs.Log.Flushing
/-!
The log file of a chain.

A turn of a chain appends lines to the log and then flushes it, whichever way the turn ends. So the
log of a chain that started with an empty one has a history of lines and flushes, and the file holds
what the history says that a sink took last. The last flush of a chain tells whether that is all.
-/

namespace RoutineEmulator

namespace OutputLog

theorem Faithful.exists_extend {entries : List Entry} {log : OutputLog} (h : Faithful entries log)
    (lines : List String) :
    ∃ entries', Faithful entries' (log.extend lines) ∧
      lastTaken? entries' = lastTaken? entries := by
  induction lines generalizing entries log with
  | nil => exact ⟨entries, h, rfl⟩
  | cons line rest ih =>
      obtain ⟨entries', hfaithful, htaken⟩ := ih (h.push line)
      exact ⟨entries', hfaithful, htaken.trans (lastTaken?_concat rfl)⟩

end OutputLog

open OutputLog

namespace LogFile

/-- The log has a history over which the file is what was last written. -/
def Holds (file : LogFile) (log : OutputLog) : Prop :=
  ∃ entries, Faithful entries log ∧
    ∀ text, lastTaken? entries = some text → file.content = some text

namespace Holds

variable {file file' : LogFile} {log log' : OutputLog}

theorem fresh (file : LogFile) : file.Holds {} :=
  ⟨[], .fresh, fun _ h => by cases h⟩

theorem extend (h : file.Holds log) (lines : List String) : file.Holds (log.extend lines) := by
  obtain ⟨entries, hfaithful, hcontent⟩ := h
  obtain ⟨entries', hfaithful', htaken⟩ := hfaithful.exists_extend lines
  exact ⟨entries', hfaithful', fun text htext => hcontent text (htaken.symm.trans htext)⟩

/-- A flush that does not fail leaves a log that has not grown since, and the file holds it. -/
theorem flush {called : Bool} (h : file.Holds log)
    (hflush : log.flush LogFile.write file = .ok (called, log', file')) :
    file'.Holds log' ∧ log'.hasUnflushed = false := by
  obtain ⟨entries, hfaithful, hcontent⟩ := h
  unfold OutputLog.flush at hflush
  by_cases hgrown : log.hasUnflushed = true
  · rw [if_pos hgrown] at hflush
    obtain ⟨written, hwrite, hrest⟩ := bind_eq_ok_iff.mp hflush
    cases hrest
    have hstep := hfaithful.flush fun _ => true
    rw [act_flush, if_pos hgrown, if_pos rfl] at hstep
    refine ⟨⟨_, hstep, fun text htext => ?_⟩, hasUnflushed_eq_false_iff.mpr rfl⟩
    have hcontent' : file'.content = some log.text := by
      unfold write at hwrite
      split at hwrite
      · cases hwrite
      · cases hwrite
        rfl
    rw [lastTaken?, List.filterMap_append] at htext
    obtain rfl : log.text = text := Option.some.inj (List.getLast?_concat.symm.trans htext)
    exact hcontent'
  · rw [if_neg hgrown] at hflush
    cases hflush
    exact ⟨⟨entries, hfaithful, hcontent⟩, by simpa using hgrown⟩

end Holds

/-- A flush fails only where the log has grown. -/
theorem hasUnflushed_of_flush {file : LogFile} {log : OutputLog} {e : EmulationError}
    (h : log.flush LogFile.write file = .error e) : log.hasUnflushed = true := by
  by_cases hgrown : log.hasUnflushed = true
  · exact hgrown
  · unfold OutputLog.flush at h
    rw [if_neg hgrown] at h
    cases h

/-- Where the log has not grown since a flush, the file holds all of it, if there is any. -/
theorem Holds.content_or_isEmpty {file : LogFile} {log : OutputLog} (h : file.Holds log)
    (hgrown : log.hasUnflushed = false) : file.content = some log.text ∨ log.isEmpty = true := by
  obtain ⟨entries, hfaithful, hcontent⟩ := h
  by_cases htext : log.text = ""
  · right
    have hnil := textOf_eq_empty_iff.mp htext
    unfold OutputLog.isEmpty
    rw [Array.isEmpty_iff]
    exact Array.toList_eq_nil_iff.mp hnil
  · exact .inl (hcontent _ (hfaithful.lastTaken?_eq hgrown htext))

end LogFile

namespace HandlerChain

/-- The session at the end of a turn, before the log is flushed; none where the round of the turn
does not end. -/
def turnEnd (settings : Settings) (provider : Provider) (address : UInt64) (session : Session) :
    Option Session :=
  match provider address with
  | none => some session
  | some routine =>
    match round settings routine session with
    | (.unfinished, _) => none
    | (.failed _, after) | (.finished _, after) => some after

/-- The flushes of a chain that may run so many rounds, in order: what each of them leaves, or how
it fails. -/
def flushes (settings : Settings) (provider : Provider) :
    Nat → UInt64 → Session → Option LogFile →
      List (Except EmulationError (Session × Option LogFile))
  | 0, _, _, _ => []
  | left + 1, address, session, file =>
    ((turnEnd settings provider address session).map (flush · file)).toList ++
      match turn settings provider address session file with
      | .goesOn _ next session file => flushes settings provider left next session file
      | .ends .. => []

section

variable {settings : Settings} {provider : Provider} {session session' : Session}
  {file : LogFile} {file' : Option LogFile}

/-- A flush of a chain that does not fail leaves a log that the file holds. -/
theorem holds_of_flush (h : file.Holds session.log)
    (hflush : flush session (some file) = .ok (session', file')) :
    ∃ written, file' = some written ∧ written.Holds session'.log ∧
      session'.log.hasUnflushed = false := by
  unfold flush at hflush
  dsimp only at hflush
  split at hflush
  · rename_i called log written hwritten
    cases hflush
    exact ⟨written, rfl, h.flush hwritten⟩
  · cases hflush

theorem hasUnflushed_of_flush {e : EmulationError} (hflush : flush session (some file) = .error e) :
    session.log.hasUnflushed = true := by
  unfold flush at hflush
  dsimp only at hflush
  split at hflush
  · cases hflush
  · rename_i e' hfailed
    exact LogFile.hasUnflushed_of_flush hfailed

/-- A round appends lines to the log and does not flush it. -/
theorem exists_log_round (settings : Settings) (routine : Routine) (session : Session) :
    ∃ lines, (round settings routine session).2.log = session.log.extend lines := by
  obtain ⟨result, own, machine, route, hrun⟩ := Emulator.run_mirrored settings.emulator
    routine.toDraft (·.entry) session.own (session.machine.clearRegister Register.nextHandler)
  have hround := (hrun settings.emulator.logTrace session.log).1
  exact ⟨_, congrArg (·.2.log) hround⟩

theorem exists_log_turnEnd {after : Session} {address : UInt64}
    (h : turnEnd settings provider address session = some after) :
    ∃ lines, after.log = session.log.extend lines := by
  unfold turnEnd at h
  split at h
  · cases h
    exact ⟨[], rfl⟩
  · rename_i routine _
    have hround := exists_log_round settings routine session
    split at h
    · cases h
    all_goals
      rename_i hrun
      rw [hrun] at hround
      cases h
      exact hround

/-- How a turn flushes the log at its end. -/
inductive Turn.FlushesAt (after : Session) (file : Option LogFile) : Turn → Prop
  | goesOn {round : Round} {next : UInt64} {session : Session} {file' : Option LogFile} :
      flush after file = .ok (session, file') →
        FlushesAt after file (.goesOn round next session file')
  | ends {completed : Option Round} {ending : Option (Stop × Option EmulationError)}
      {session : Session} {file' : Option LogFile} : flush after file = .ok (session, file') →
      FlushesAt after file (.ends completed ending session file')
  /-- The flush fails. The log and the file stay as they are. -/
  | fails {completed : Option Round} {ending : Option (Stop × Option EmulationError)}
      {e : EmulationError} : flush after file = .error e →
      FlushesAt after file (.ends completed ending after file)

theorem givesUp_flushesAt (cause : EmulationError) (after : Session) (file : Option LogFile) :
    (givesUp cause after file).FlushesAt after file := by
  unfold givesUp
  cases hflush : flush after file with
  | ok flushed => exact .ends hflush
  | error e => exact .fails hflush

theorem goesOnAfter_flushesAt (settings : Settings) (round : Round) (after : Session)
    (file : Option LogFile) : (goesOnAfter settings round after file).FlushesAt after file := by
  unfold goesOnAfter
  cases hflush : flush after file with
  | error e => exact .fails hflush
  | ok flushed =>
      dsimp only
      split
      · exact .ends hflush
      · split
        · exact .goesOn hflush
        · exact .ends hflush

/-- A turn whose round ends flushes the log at its end; one whose round does not end makes no
report. -/
theorem turn_flushesAt (settings : Settings) (provider : Provider) (address : UInt64)
    (session : Session) (file : Option LogFile) :
    match turnEnd settings provider address session with
    | some after => (turn settings provider address session file).FlushesAt after file
    | none =>
      ∃ after, turn settings provider address session file = .ends none none after file := by
  unfold turnEnd turn
  cases provider address with
  | none => exact givesUp_flushesAt _ _ _
  | some routine =>
      dsimp only
      cases round settings routine session with
      | mk outcome after =>
          cases outcome with
          | unfinished => exact ⟨after, rfl⟩
          | failed e => exact givesUp_flushesAt _ _ _
          | finished trace => exact goesOnAfter_flushesAt _ _ _ _

/-- The last flush of some does not fail, or there is none. -/
def EndsWell (outcomes : List (Except EmulationError (Session × Option LogFile))) : Prop :=
  ∀ e, outcomes.getLast? ≠ some (.error e)

theorem endsWell_cons_ok {flushed : Session × Option LogFile}
    {rest : List (Except EmulationError (Session × Option LogFile))} :
    EndsWell (.ok flushed :: rest) ↔ EndsWell rest := by
  unfold EndsWell
  cases rest with
  | nil => simp
  | cons outcome rest => simp only [List.getLast?_cons_cons]

/-- A chain's last flush tells whether the file holds all of the log at its end: a flush that fails
is the last one, since the chain ends there, whether or not it reports the failure. -/
theorem holds_of_follow {settings : Settings} {provider : Provider} {left : Nat} {address : UInt64}
    {session : Session} {file : LogFile} {report : Report} (h : file.Holds session.log)
    (hflushed : session.log.hasUnflushed = false)
    (hreport : (follow settings provider left address #[] session (some file)).report =
      some report) :
    ∃ written,
      (follow settings provider left address #[] session (some file)).file = some written ∧
      written.Holds (follow settings provider left address #[] session (some file)).session.log ∧
      ((follow settings provider left address #[] session (some file)).session.log.hasUnflushed =
          false ↔
        EndsWell (flushes settings provider left address session (some file))) := by
  induction left generalizing address session file report with
  | zero => exact ⟨file, rfl, h, iff_of_true hflushed fun e => by simp [flushes]⟩
  | succ left ih =>
      have hturn := turn_flushesAt settings provider address session (some file)
      rw [follow_turn] at hreport ⊢
      rw [flushes]
      cases hend : turnEnd settings provider address session with
      | none =>
          rw [hend] at hturn
          obtain ⟨after, hturn⟩ := hturn
          rw [hturn] at hreport
          cases hreport
      | some after =>
          rw [hend] at hturn
          obtain ⟨lines, hlines⟩ := exists_log_turnEnd hend
          have hafter : file.Holds after.log := hlines ▸ h.extend lines
          dsimp only at hturn
          generalize turn settings provider address session (some file) = turn at hturn hreport ⊢
          cases hturn with
          | goesOn hflush =>
              obtain ⟨written, rfl, hholds, hwritten⟩ := holds_of_flush hafter hflush
              obtain ⟨later, hlater, rfl⟩ := Option.map_eq_some_iff.mp hreport
              obtain ⟨last, hfile, hlast, hends⟩ := ih hholds hwritten hlater
              refine ⟨last, hfile, hlast, hends.trans ?_⟩
              simp only [Option.map_some, Option.toList_some, hflush]
              exact endsWell_cons_ok.symm
          | ends hflush =>
              obtain ⟨written, rfl, hholds, hwritten⟩ := holds_of_flush hafter hflush
              exact ⟨written, rfl, hholds, iff_of_true hwritten fun e => by simp [hflush]⟩
          | fails hflush =>
              refine ⟨file, rfl, hafter, iff_of_false ?_ fun hwell => ?_⟩
              · rw [Turn.result, hasUnflushed_of_flush hflush]
                exact Bool.noConfusion
              · exact hwell _ (by simp [hflush]; rfl)

end

/-- **No line is lost on its way to a sink, and none comes twice.** Over any history of lines and
flushes, the text is what was pushed, in order; a flush calls its sink exactly where a line was
pushed since a flush last succeeded, and always with the whole text; and a text that has not grown
since is the one that a sink took last. So the log of a chain that starts with an empty one is in
its file at the end, unless nothing was logged, provided that the last flush did not fail. -/
theorem log_reaches_its_sinks :
    (∀ (events : List Event) (entries : List Entry) (log : OutputLog),
      OutputLog.play {} events = (entries, log) →
        log.text = textOf (events.filterMap Event.line?) ∧
        (∀ (takes : String → Bool) (text : String),
          (log.act (.flush takes)).1.offered? = some text ↔
            GrownSince entries ∧ log.text = text) ∧
        (log.hasUnflushed = true ↔
          log.byteLength ≠ ((lastTaken? entries).getD "").utf8ByteSize) ∧
        (log.hasUnflushed = false → log.text ≠ "" → lastTaken? entries = some log.text)) ∧
    ∀ (settings : Settings) (provider : Provider) (first : UInt64) (session : Session)
      (file : LogFile) (report : Report),
      session.log = {} →
      (run settings provider first session (some file)).report = some report →
      EndsWell (flushes settings provider (settings.maxRounds.getD Emulator.unlimited) first session
        (some file)) →
      ∃ written, (run settings provider first session (some file)).file = some written ∧
        (written.content = some (run settings provider first session (some file)).session.log.text ∨
          (run settings provider first session (some file)).session.log.isEmpty = true) := by
  refine ⟨fun events entries log hplay => ?_, ?_⟩
  · have hfaithful : Faithful entries log := by
      have hplayed := Faithful.fresh.play events
      rw [hplay, List.nil_append] at hplayed
      exact hplayed
    have hlines : entries.filterMap Entry.line? = events.filterMap Event.line? := by
      have hplayed := filterMap_line?_play {} events
      rwa [hplay] at hplayed
    refine ⟨?_, fun takes text => ?_, hfaithful.hasUnflushed_iff_byteLength,
      hfaithful.lastTaken?_eq⟩
    · rw [OutputLog.text, hfaithful.lines, hlines]
    · rw [offered?_act_flush, hfaithful.grown]
  · intro settings provider first session file report hfresh hreport hwell
    have hholds : file.Holds session.log := hfresh ▸ LogFile.Holds.fresh file
    have hflushed : session.log.hasUnflushed = false := by rw [hfresh]; rfl
    obtain ⟨written, hfile, hwritten, hends⟩ := holds_of_follow hholds hflushed hreport
    exact ⟨written, hfile, hwritten.content_or_isEmpty (hends.mpr hwell)⟩

/-- A refused text is offered again behind its next line; and two handlers that trace their
statements leave the lines of both in the file. -/
theorem log_reaches_its_sinks_two_handlers :
    let events : List Event :=
      [.push "S: PUSH 1", .flush fun _ => false, .push "S: POP (1)", .flush fun _ => true,
        .flush fun _ => true]
    let settings : Settings := { emulator := { maxSteps := some 4, logTrace := true } }
    let provider := Provider.ofList [dispatchingRoutine, returningRoutine]
    let session : Session := ⟨[.libc {}], .new {} (.new .little 64), {}⟩
    let result := run { settings with maxRounds := some 3 } provider 0x1000 session
      (some { path := "emu.log" })
    lastTaken? (OutputLog.play {} events).1 = some "S: PUSH 1\nS: POP (1)\n" ∧
      ∃ written, result.file = some written ∧ written.content = some result.session.log.text ∧
        result.session.log.lines.size = 4 := by
  intro events settings provider session result
  obtain ⟨hhistory, hchain⟩ := log_reaches_its_sinks
  obtain ⟨-, -, -, htaken⟩ := hhistory events _ _ rfl
  have hwell : EndsWell (flushes { settings with maxRounds := some 3 } provider 3 0x1000 session
      (some { path := "emu.log" })) := by
    intro e hlast
    cases hlast
  obtain ⟨written, hfile, hcontent⟩ := hchain { settings with maxRounds := some 3 } provider 0x1000
    session { path := "emu.log" } _ rfl rfl hwell
  refine ⟨htaken rfl (by decide), written, hfile, hcontent.resolve_right ?_, rfl⟩
  decide

end HandlerChain

end RoutineEmulator
