import RoutineEmulator.Proofs.Simulation.Steady
/-!
What the sinks of a log receive.

A log only counts the lines that a sink has taken. `Faithful` says what this count means along any
history of lines and flushes: the sink that took the text last took exactly the lines that are
counted, and the log has more of them exactly where one was pushed since a flush last succeeded.
-/

namespace RoutineEmulator.OutputLog

/-! ## Histories -/

/-- Something that is done to a log. -/
inductive Event where
  | push (line : String)
  /-- The text is offered to a sink, which takes some texts and refuses others. -/
  | flush (takes : String → Bool)

/-- What came of it. -/
inductive Entry where
  | pushed (line : String)
  /-- The sink was not called. -/
  | skipped
  | taken (text : String)
  | refused (text : String)
  deriving Repr, DecidableEq

namespace Entry

def line? : Entry → Option String
  | pushed line => some line
  | _ => none

/-- The text that a sink took. -/
def taken? : Entry → Option String
  | taken text => some text
  | _ => none

/-- The text that a sink was called with, whether or not it took it. -/
def offered? : Entry → Option String
  | taken text | refused text => some text
  | _ => none

/-- A flush that did not fail, whether or not its sink was called. -/
def isSuccess : Entry → Bool
  | skipped | taken _ => true
  | pushed _ | refused _ => false

end Entry

/-- A sink that tells the text it was called with, also where it refuses it. -/
def probe (takes : String → Bool) (text : String) (_ : Option String) :
    Except String (Option String) :=
  if takes text then .ok (some text) else .error text

/-- Does something to a log, and tells what came of it. -/
def act (log : OutputLog) : Event → Entry × OutputLog
  | .push line => (.pushed line, log.push line)
  | .flush takes =>
    match log.flush (probe takes) none with
    | .ok (_, log, some text) => (.taken text, log)
    | .ok (_, log, none) => (.skipped, log)
    | .error text => (.refused text, log)

/-- Does one thing after the other, and tells what came of each. -/
def play (log : OutputLog) : List Event → List Entry × OutputLog
  | [] => ([], log)
  | event :: rest =>
    let (entry, log) := log.act event
    let (entries, log) := log.play rest
    (entry :: entries, log)

/-- A flush calls its sink where the log has more lines than were taken, and then with the whole
text. -/
theorem act_flush (log : OutputLog) (takes : String → Bool) :
    log.act (.flush takes) =
      if log.hasUnflushed then
        if takes log.text then (.taken log.text, { log with flushed := log.lines.size })
        else (.refused log.text, log)
      else (.skipped, log) := by
  unfold act flush probe
  by_cases hgrown : log.hasUnflushed = true
  · by_cases htakes : takes log.text = true
    · simp [hgrown, htakes, bind, Except.bind, pure, Except.pure]
    · simp [hgrown, htakes, bind, Except.bind]
  · simp [hgrown, pure, Except.pure]

/-- A sink is offered a text exactly where the log has grown, and then the whole text. -/
theorem offered?_act_flush {log : OutputLog} {takes : String → Bool} {text : String} :
    (log.act (.flush takes)).1.offered? = some text ↔
      log.hasUnflushed = true ∧ log.text = text := by
  rw [act_flush]
  by_cases hgrown : log.hasUnflushed = true
  · by_cases htakes : takes log.text = true <;> simp [hgrown, htakes, Entry.offered?]
  · simp [hgrown, Entry.offered?]

/-! ## What the count of taken lines means -/

/-- A line was pushed since a flush last succeeded. -/
def GrownSince (entries : List Entry) : Prop :=
  ∃ front line back, entries = front ++ .pushed line :: back ∧
    ∀ entry ∈ back, entry.isSuccess = false

/-- The text that a sink took last. -/
def lastTaken? (entries : List Entry) : Option String :=
  (entries.filterMap Entry.taken?).getLast?

/-- With one entry more a log has grown since it was flushed if the entry is a line, or if it had
grown before and the entry is no flush that succeeded. -/
theorem grownSince_concat {entries : List Entry} {entry : Entry} :
    GrownSince (entries ++ [entry]) ↔
      (∃ line, entry = .pushed line) ∨ entry.isSuccess = false ∧ GrownSince entries := by
  constructor
  · rintro ⟨front, line, back, heq, hback⟩
    rcases List.eq_nil_or_concat back with rfl | ⟨between, last, rfl⟩
    · obtain ⟨_, hlast⟩ := List.append_inj' heq rfl
      exact .inl ⟨line, List.head_eq_of_cons_eq hlast⟩
    · rw [List.concat_eq_append] at heq hback
      rw [← List.cons_append, ← List.append_assoc] at heq
      obtain ⟨hentries, hlast⟩ := List.append_inj' heq rfl
      obtain rfl := List.head_eq_of_cons_eq hlast
      refine .inr ⟨hback _ (by simp), front, line, between, hentries, fun other hother => ?_⟩
      exact hback other (List.mem_append_left _ hother)
  · rintro (⟨line, rfl⟩ | ⟨hfailed, front, line, back, rfl, hback⟩)
    · exact ⟨entries, line, [], rfl, by simp⟩
    · refine ⟨front, line, back ++ [entry], by simp, fun other hother => ?_⟩
      rcases List.mem_append.mp hother with hother | hother
      · exact hback other hother
      · rw [List.mem_singleton.mp hother, hfailed]

theorem lastTaken?_concat {entries : List Entry} {entry : Entry} (h : entry.taken? = none) :
    lastTaken? (entries ++ [entry]) = lastTaken? entries := by
  rw [lastTaken?, lastTaken?, List.filterMap_append]
  simp [h]

/-- A log that such a history leads to. -/
structure Faithful (entries : List Entry) (log : OutputLog) : Prop where
  lines : log.lines.toList = entries.filterMap Entry.line?
  flushed_le : log.flushed ≤ log.lines.size
  grown : log.hasUnflushed = true ↔ GrownSince entries
  /-- The lines that are counted were taken, none of them twice and none of them left out. -/
  taken : lastTaken? entries =
    if log.flushed = 0 then none else some (textOf (log.lines.toList.take log.flushed))

theorem hasUnflushed_eq_true_iff {log : OutputLog} :
    log.hasUnflushed = true ↔ log.lines.size ≠ log.flushed := by
  rw [hasUnflushed, bne_iff_ne]

/-- Nothing is unflushed exactly where all lines were taken. -/
theorem hasUnflushed_eq_false_iff {log : OutputLog} :
    log.hasUnflushed = false ↔ log.lines.size = log.flushed := by
  rw [hasUnflushed, bne_eq_false_iff_eq]

theorem Faithful.fresh : Faithful [] {} where
  lines := rfl
  flushed_le := Nat.le_refl _
  grown := by
    refine iff_of_false (by decide) ?_
    rintro ⟨front, line, back, heq, _⟩
    cases front <;> cases heq
  taken := rfl

/-- Pushing a line keeps a log faithful. -/
theorem Faithful.push {entries : List Entry} {log : OutputLog} (h : Faithful entries log)
    (line : String) : Faithful (entries ++ [.pushed line]) (log.push line) := by
  have hle := h.flushed_le
  have hsize : (log.push line).lines.size = log.lines.size + 1 := Array.size_push line
  have hflushed : (log.push line).flushed = log.flushed := rfl
  have hlines : (log.push line).lines.toList = log.lines.toList ++ [line] := Array.toList_push
  constructor
  case lines => rw [hlines, h.lines, List.filterMap_append]; rfl
  case flushed_le => omega
  case grown =>
    rw [hasUnflushed_eq_true_iff, grownSince_concat]
    exact iff_of_true (by omega) (.inl ⟨line, rfl⟩)
  case taken =>
    rw [lastTaken?_concat rfl, h.taken, hflushed, hlines,
      List.take_append_of_le_length (by simpa using hle)]

/-- A flush that leaves the log as it is: its sink is not called, or refuses the text. -/
theorem Faithful.pass {entries : List Entry} {log : OutputLog} (h : Faithful entries log)
    {entry : Entry} (hline : entry.line? = none) (htaken : entry.taken? = none)
    (hsuccess : entry.isSuccess = !log.hasUnflushed) : Faithful (entries ++ [entry]) log := by
  have hpushed : ¬∃ line, entry = .pushed line := by
    rintro ⟨line, rfl⟩
    cases hline
  constructor
  case lines => simp [h.lines, hline]
  case flushed_le => exact h.flushed_le
  case grown =>
    rw [grownSince_concat, ← h.grown, hsuccess]
    cases log.hasUnflushed <;> simp [hpushed]
  case taken => rw [lastTaken?_concat htaken, h.taken]

/-- A flush keeps a log faithful, whatever its sink does. -/
theorem Faithful.flush {entries : List Entry} {log : OutputLog} (h : Faithful entries log)
    (takes : String → Bool) :
    Faithful (entries ++ [(log.act (.flush takes)).1]) (log.act (.flush takes)).2 := by
  rw [act_flush]
  by_cases hgrown : log.hasUnflushed = true
  · rw [if_pos hgrown]
    by_cases htakes : takes log.text = true
    · rw [if_pos htakes]
      have hmore := hasUnflushed_eq_true_iff.mp hgrown
      have hle := h.flushed_le
      constructor
      case lines => simp [h.lines, Entry.line?]
      case flushed_le => exact Nat.le_refl _
      case grown =>
        rw [hasUnflushed_eq_true_iff, grownSince_concat]
        exact iff_of_false (fun hne => hne rfl) (by simp [Entry.isSuccess])
      case taken =>
        dsimp only
        rw [lastTaken?, List.filterMap_append, if_neg (by omega), ← Array.length_toList,
          List.take_length]
        exact List.getLast?_concat
    · rw [if_neg htakes]
      exact h.pass rfl rfl (by simp [Entry.isSuccess, hgrown])
  · rw [if_neg hgrown]
    exact h.pass rfl rfl (by simp [Entry.isSuccess, hgrown])

theorem Faithful.act {entries : List Entry} {log : OutputLog} (h : Faithful entries log)
    (event : Event) : Faithful (entries ++ [(log.act event).1]) (log.act event).2 := by
  cases event with
  | push line => exact h.push line
  | flush takes => exact h.flush takes

/-- Every history keeps a log faithful. -/
theorem Faithful.play {entries : List Entry} {log : OutputLog} (h : Faithful entries log)
    (events : List Event) : Faithful (entries ++ (log.play events).1) (log.play events).2 := by
  induction events generalizing entries log with
  | nil => rwa [OutputLog.play, List.append_nil]
  | cons event rest ih =>
      have hrest := ih (h.act event)
      rw [List.append_assoc] at hrest
      exact hrest

/-! ## Texts -/

theorem textOf_append (first more : List String) :
    textOf (first ++ more) = textOf first ++ textOf more := by
  unfold textOf
  rw [List.map_append, String.join_append]

/-- A line is never empty as text, since a line break stands behind it. -/
theorem textOf_eq_empty_iff {lines : List String} : textOf lines = "" ↔ lines = [] := by
  cases lines with
  | nil => exact iff_of_true rfl rfl
  | cons line rest =>
      refine iff_of_false ?_ (List.cons_ne_nil _ _)
      unfold textOf
      rw [List.map_cons, String.join_cons, ← String.utf8ByteSize_eq_zero_iff,
        String.utf8ByteSize_append, String.utf8ByteSize_append]
      have hbreak : "\n".utf8ByteSize = 1 := rfl
      omega

namespace Faithful

variable {entries : List Entry} {log : OutputLog}

/-- The lengths of the text and of what was taken last tell whether the log has grown. -/
theorem hasUnflushed_iff_byteLength (h : Faithful entries log) : log.hasUnflushed = true ↔
    log.byteLength ≠ ((lastTaken? entries).getD "").utf8ByteSize := by
  have htaken : (lastTaken? entries).getD "" = textOf (log.lines.toList.take log.flushed) := by
    rw [h.taken]
    split
    · rename_i hzero
      rw [hzero]
      rfl
    · rfl
  have hlength : log.byteLength = (textOf (log.lines.toList.take log.flushed)).utf8ByteSize +
      (textOf (log.lines.toList.drop log.flushed)).utf8ByteSize := by
    rw [← String.utf8ByteSize_append, ← textOf_append, List.take_append_drop]
    rfl
  have hmore : (textOf (log.lines.toList.drop log.flushed)).utf8ByteSize = 0 ↔
      log.lines.size ≤ log.flushed := by
    rw [String.utf8ByteSize_eq_zero_iff, textOf_eq_empty_iff, List.drop_eq_nil_iff,
      Array.length_toList]
  have hle := h.flushed_le
  rw [htaken, hasUnflushed_eq_true_iff]
  omega

/-- A log that has not grown, and has a text, is what a sink took last. -/
theorem lastTaken?_eq (h : Faithful entries log) (hgrown : log.hasUnflushed = false)
    (htext : log.text ≠ "") : lastTaken? entries = some log.text := by
  have hall := hasUnflushed_eq_false_iff.mp hgrown
  have hnonempty : log.lines.toList ≠ [] := fun hnil => htext (textOf_eq_empty_iff.mpr hnil)
  have hflushed : log.flushed ≠ 0 := by
    rw [← hall, ← Array.length_toList]
    exact mt List.length_eq_zero_iff.mp hnonempty
  rw [h.taken, if_neg hflushed, ← hall, ← Array.length_toList, List.take_length]
  rfl

end Faithful

/-! ## Lines of a history -/

/-- The line that is pushed. -/
def Event.line? : Event → Option String
  | push line => some line
  | flush _ => none

theorem line?_act (log : OutputLog) (event : Event) : (log.act event).1.line? = event.line? := by
  cases event with
  | push line => rfl
  | flush takes =>
      rw [act_flush]
      repeat' split
      all_goals rfl

/-- The lines in the history of a log are those that were pushed, in their order. -/
theorem filterMap_line?_play (log : OutputLog) (events : List Event) :
    (log.play events).1.filterMap Entry.line? = events.filterMap Event.line? := by
  induction events generalizing log with
  | nil => rfl
  | cons event rest ih =>
      rw [play]
      dsimp only
      rw [List.filterMap_cons, List.filterMap_cons, line?_act, ih]

end RoutineEmulator.OutputLog
