import RobotShell.Console
import RobotShell.Proofs.Lossy
import RobotShell.Proofs.Sessions
/-!
# What a session writes

A session is its lines one after the other. For each the prompt is written, if it is shown, and then what a
step writes: all that the acts of the line have queued, whether or not a `quit` is among them. `transcript` is
what is written for lines without a look at the quit flag; the session writes the transcript up to the first
line behind which the flag is set, and what stands behind that line makes no difference.
-/

namespace RobotShell

open Utf8

namespace Interpreter

/-- The instructions that stand in a queue behind a change. -/
def Effect.queue (q : List Instruction) : Effect → List Instruction
  | instruct c => q ++ [c]
  | stop => [.stop]
  | _ => q

theorem replay_queue_instructions (fs : List Effect) (i : Interpreter) :
    (replay fs i).instructions.toList = fs.foldl Effect.queue i.instructions.toList := by
  induction fs generalizing i with
  | nil => rfl
  | cons f fs ih =>
    refine (ih (f.apply i)).trans (congrArg (fs.foldl Effect.queue) ?_)
    cases f <;> simp [Effect.apply, Effect.queue, report, tell, instruct, bind]

/-- The state with nothing in its queues. -/
def drained (i : Interpreter) : Interpreter := { i with faults := #[], status := #[], instructions := #[] }

end Interpreter

/-- Texts, one to a line. -/
def rows (ss : List String) : String := String.join (ss.map (· ++ "\n"))

/-- What is written for errors, status texts and instructions, the errors with their label. -/
def Settings.printed (settings : Settings) (faults : List Fault) (status : List String)
    (instructions : List Instruction) : String :=
  rows (faults.map fun f => settings.errorLabel ++ f.message) ++ rows status ++
    rows (instructions.map Instruction.text)

/-- What is written for what stands in the queues. -/
def Interpreter.printed (i : Interpreter) (settings : Settings) : String :=
  settings.printed i.faults.toList i.status.toList i.instructions.toList

namespace Console

open Interpreter

/-- What a step writes for a line, and the console it leaves. -/
def answer (c : Console) (line : List UInt8) : String × Console := c.step (decode line) ""

/-- The console behind lines. -/
def after (c : Console) : List (List UInt8) → Console
  | [] => c
  | line :: rest => (c.answer line).2.after rest

/-- The quit flag is not set, neither before the lines nor behind any of them. -/
def GoesOn (c : Console) (ls : List (List UInt8)) : Prop :=
  ∀ ls', ls' <+: ls → (c.after ls').interpreter.quit = false

/-- What is written for lines, where `shown` is written before each: that and the answer to the line. -/
def transcript (shown : String) (c : Console) : List (List UInt8) → String
  | [] => ""
  | line :: rest => shown ++ (c.answer line).1 ++ (c.answer line).2.transcript shown rest

/-- A step on a line runs all of its statements, writes what they have queued and leaves the queues empty.
What it writes is what all the acts of the line come to, and these do not depend on the quit flag. -/
structure Answers (settings : Settings) (c : Console) (line : List UInt8) : Prop where
  keeps : (c.answer line).2.settings = settings
  leaves : (c.answer line).2.interpreter = ((lineStatements (decode line)).foldl runStatement c.interpreter).drained
  writes : (c.answer line).1 = ((lineStatements (decode line)).foldl runStatement c.interpreter).printed settings
  flushed : (c.answer line).2.flush "" = ("", (c.answer line).2)
  acts : ∃ as, (∀ b, { c.interpreter with quit := b }.Does (lineStatements (decode line)) as) ∧
    (c.answer line).2.interpreter.quit = (c.interpreter.quit || (effects as).any Effect.isQuit) ∧
    (c.answer line).1 = settings.printed ((effects as).filterMap Effect.fault?) ((effects as).filterMap Effect.told?)
      ((effects as).foldl Effect.queue [])

variable {c : Console} {settings : Settings} {shown : String} {line : List UInt8} {ls pre : List (List UInt8)}

/-! ## One step -/

theorem foldl_rows {α : Type} {write : String → α → String} {text : α → String}
    (h : ∀ out x, write out x = out ++ (text x ++ "\n")) (xs : Array α) (out : String) :
    xs.foldl write out = out ++ rows (xs.toList.map text) := by
  rw [← Array.foldl_toList]
  induction xs.toList generalizing out with
  | nil => simp [rows]
  | cons x xs ih =>
    rw [List.foldl_cons, ih, h]
    simp [rows, String.append_assoc]

theorem render_eq (c : Console) (out : String) : c.render out = out ++ c.interpreter.printed c.settings := by
  have hfaults : ∀ (q : Array Fault) out,
      q.foldl (fun out f => out ++ c.settings.errorLabel ++ f.message ++ "\n") out =
        out ++ rows (q.toList.map fun f => c.settings.errorLabel ++ f.message) :=
    foldl_rows (by simp [String.append_assoc])
  have hstatus : ∀ (q : Array String) out,
      q.foldl (fun out s => out ++ s ++ "\n") out = out ++ rows (q.toList.map id) :=
    foldl_rows (by simp [String.append_assoc])
  have hinstructions : ∀ (q : Array Instruction) out,
      q.foldl (fun out i => out ++ i.text ++ "\n") out = out ++ rows (q.toList.map Instruction.text) :=
    foldl_rows (by simp [String.append_assoc])
  simp only [render, Interpreter.printed, Settings.printed]
  rw [hinstructions, hstatus, hfaults, List.map_id]
  simp only [String.append_assoc]

theorem step_eq (c : Console) (text out : String) :
    c.step text out = (out ++ (c.interpreter.runLine text).printed c.settings,
      ⟨(c.interpreter.runLine text).drained, c.settings⟩) :=
  congrArg (·, _) (render_eq _ out)

theorem answer_eq (c : Console) (line : List UInt8) :
    c.answer line = ((c.interpreter.runLine (decode line)).printed c.settings,
      ⟨(c.interpreter.runLine (decode line)).drained, c.settings⟩) := by
  rw [answer, step_eq, String.empty_append]

/-- What the acts of a line leave in empty queues; a `quit` among them takes nothing away. -/
theorem printed_of_does {i : Interpreter} {text : String} {as : List Act} (hi : i.drained = i)
    (h : i.Does (lineStatements text) as) (settings : Settings) :
    (i.runLine text).printed settings = settings.printed ((effects as).filterMap Effect.fault?)
      ((effects as).filterMap Effect.told?) ((effects as).foldl Effect.queue []) := by
  have hend := runLine_settled h
  have hfaults : (i.runLine text).faults.toList = _ :=
    (congrArg (·.faults.toList) hend).trans (replay_faults _ _)
  have hstatus : (i.runLine text).status.toList = _ :=
    (congrArg (·.status.toList) hend).trans (replay_status _ _)
  have hinstructions : (i.runLine text).instructions.toList = _ :=
    (congrArg (·.instructions.toList) hend).trans (replay_queue_instructions _ _)
  have hempty : i.settled.faults = #[] ∧ i.settled.status = #[] ∧ i.settled.instructions = #[] := by
    rw [← hi]
    exact ⟨rfl, rfl, rfl⟩
  rw [Interpreter.printed, hfaults, hstatus, hinstructions, hempty.1, hempty.2.1, hempty.2.2]
  rfl

theorem answers (hc : c.interpreter.drained = c.interpreter) (hs : c.settings = settings) (line : List UInt8) :
    Answers settings c line := by
  obtain ⟨as, has⟩ := exists_does c.interpreter (lineStatements (decode line))
  have hanswer := answer_eq c line
  rw [hs] at hanswer
  refine ⟨?_, ?_, ?_, ?_, as, fun b => ?_, ?_, ?_⟩
  · rw [hanswer]
  · rw [hanswer, runLine_eq]
  · rw [hanswer, runLine_eq]
  · rw [hanswer]
    rfl
  · have htwins : Twins c.interpreter { c.interpreter with quit := b } := ⟨rfl, rfl, fun _ => rfl⟩
    exact (has.twins htwins).1
  · rw [hanswer]
    exact (runLine_adds has).quit
  · rw [hanswer]
    exact printed_of_does hc has settings

/-! ## Lines -/

theorem after_kept (hc : c.interpreter.drained = c.interpreter) (hs : c.settings = settings) (ls : List (List UInt8)) :
    (c.after ls).interpreter.drained = (c.after ls).interpreter ∧ (c.after ls).settings = settings := by
  induction ls generalizing c with
  | nil => exact ⟨hc, hs⟩
  | cons line ls ih =>
    refine ih ?_ ?_ <;> rw [answer_eq]
    · rfl
    · exact hs

theorem prompt_answer (c : Console) (line : List UInt8) : (c.answer line).2.prompt = c.prompt := by
  rw [answer_eq, prompt, prompt]

theorem runLines_cons (c : Console) (out : String) (line : List UInt8) (rest : List (List UInt8)) :
    c.runLines out (line :: rest) =
      if (c.answer line).2.interpreter.quit then (out ++ c.prompt ++ (c.answer line).1, .quit)
      else (c.answer line).2.runLines (out ++ c.prompt ++ (c.answer line).1) rest := by
  rw [runLines, step_eq, answer_eq]

theorem goesOn_nil : c.GoesOn [] ↔ c.interpreter.quit = false := by
  constructor
  · exact fun h => h [] List.nil_prefix
  · intro h ls' hls'
    rwa [List.prefix_nil.1 hls']

theorem goesOn_cons : c.GoesOn (line :: ls) ↔ c.interpreter.quit = false ∧ (c.answer line).2.GoesOn ls := by
  constructor
  · intro h
    refine ⟨h [] List.nil_prefix, fun ls' hls' => ?_⟩
    exact h (line :: ls') (List.cons_prefix_cons.2 ⟨rfl, hls'⟩)
  · rintro ⟨hc, h⟩ ls' hls'
    rcases List.prefix_cons_iff.1 hls' with rfl | ⟨ls'', rfl, hls''⟩
    · exact hc
    · exact h ls'' hls''

theorem GoesOn.quit (h : c.GoesOn ls) : c.interpreter.quit = false := h [] List.nil_prefix

/-- Up to a line behind which the flag is set for the first time, a session writes the transcript. -/
theorem runLines_quit (hshown : c.prompt = shown) (hpre : c.GoesOn pre)
    (hquit : (c.after (pre ++ [line])).interpreter.quit = true) (out : String) (post : List (List UInt8)) :
    c.runLines out (pre ++ line :: post) = (out ++ c.transcript shown (pre ++ [line]), .quit) := by
  induction pre generalizing c out with
  | nil =>
    have hline : (c.answer line).2.interpreter.quit = true := hquit
    rw [List.nil_append, runLines_cons, if_pos hline, hshown]
    simp [transcript, String.append_assoc]
  | cons l pre ih =>
    obtain ⟨-, hrest⟩ := goesOn_cons.1 hpre
    have hstill : (c.answer l).2.prompt = shown := (prompt_answer c l).trans hshown
    rw [List.cons_append, runLines_cons, hrest.quit, if_neg Bool.false_ne_true, ih hstill hrest hquit, hshown]
    simp [transcript, String.append_assoc]

/-- Where the flag is never set, a session writes the transcript of all lines, and goes on to ask for one more. -/
theorem runLines_endOfInput (hshown : c.prompt = shown) (h : c.GoesOn ls) (out : String) :
    c.runLines out ls = (out ++ c.transcript shown ls ++ shown, .endOfInput) := by
  induction ls generalizing c out with
  | nil => simp [runLines, transcript, hshown]
  | cons line ls ih =>
    obtain ⟨-, hrest⟩ := goesOn_cons.1 h
    have hstill : (c.answer line).2.prompt = shown := (prompt_answer c line).trans hshown
    rw [runLines_cons, hrest.quit, if_neg Bool.false_ne_true, ih hstill hrest, hshown]
    simp [transcript, String.append_assoc]

/-- There is a first line behind which the flag is set, or none. -/
theorem quits_or_goesOn (hc : c.interpreter.quit = false) (ls : List (List UInt8)) :
    (∃ pre line post, ls = pre ++ line :: post ∧ c.GoesOn pre ∧ (c.after (pre ++ [line])).interpreter.quit = true) ∨
      c.GoesOn ls := by
  induction ls generalizing c with
  | nil => exact .inr (goesOn_nil.2 hc)
  | cons line ls ih =>
    cases hline : (c.answer line).2.interpreter.quit with
    | true => exact .inl ⟨[], line, ls, rfl, goesOn_nil.2 hc, hline⟩
    | false =>
      rcases ih hline with ⟨pre, l, post, rfl, hpre, hquit⟩ | hnone
      · exact .inl ⟨line :: pre, l, post, rfl, goesOn_cons.2 ⟨hc, hpre⟩, hquit⟩
      · exact .inr (goesOn_cons.2 ⟨hc, hnone⟩)

/-- What a session writes, for any settings and bytes. The lines are the one way to split the bytes, and what
each of them is read as is said by `Lossy`. A step on any line writes what the whole line queues and leaves
nothing queued. Up to the first line that sets the quit flag the session writes the prompt, if the settings say
that it is shown, and the answer to each line, and the bytes behind that line make no difference; if there is
none, it writes them for every line, and the prompt once more. -/
theorem run_transcript (settings : Settings) (input : List UInt8) :
    let shown := if settings.showPrompt then settings.prompt else ""
    let fresh : Console := ⟨.new settings.limits, settings⟩
    (∀ bs cs, Lossy bs cs ↔ cs = (decode bs).toList) ∧
    (∀ ls, Splits input ls ↔ ls = Utf8.lines input) ∧
    (∀ ls line, Answers settings (fresh.after ls) line) ∧
    ((∃ pre line post, Utf8.lines input = pre ++ line :: post ∧ fresh.GoesOn pre ∧
        (fresh.after (pre ++ [line])).interpreter.quit = true ∧
        run settings input = (fresh.transcript shown (pre ++ [line]), .quit) ∧
        ∀ rest, lineFeed ∈ line ∨ rest = [] →
          run settings ((pre ++ [line]).flatten ++ rest) = run settings input) ∨
      fresh.GoesOn (Utf8.lines input) ∧
        run settings input = (fresh.transcript shown (Utf8.lines input) ++ shown, .endOfInput)) := by
  intro shown fresh
  have hshown : fresh.prompt = shown := rfl
  have hrun : ∀ bs, run settings bs = fresh.runLines "" (Utf8.lines bs) := fun _ => rfl
  refine ⟨fun bs cs => lossy_iff, fun ls => splits_iff, fun ls line => ?_, ?_⟩
  · obtain ⟨hdrained, hsettings⟩ := after_kept (c := fresh) rfl rfl ls
    exact answers hdrained hsettings line
  · obtain ⟨pre, line, post, hlines, hpre, hquit⟩ | hnone := quits_or_goesOn (c := fresh) rfl (Utf8.lines input)
    · have hwritten : run settings input = (fresh.transcript shown (pre ++ [line]), .quit) := by
        rw [hrun, hlines, runLines_quit hshown hpre hquit, String.empty_append]
      -- the lines up to `line` stay the same whatever stands behind them
      refine .inl ⟨pre, line, post, hlines, hpre, hquit, hwritten, fun rest hrest => ?_⟩
      have hsplits := (splits_iff.2 hlines.symm).replace hrest
      rw [hwritten, hrun, ← splits_iff.1 hsplits, runLines_quit hshown hpre hquit, String.empty_append]
    · refine .inr ⟨hnone, ?_⟩
      rw [hrun, runLines_endOfInput hshown hnone, String.empty_append]

/-- The prompt is shown before each of two lines and once more before the end. The second line has no line feed,
and a byte in it is no text. -/
theorem run_transcript_shown :
    let settings := { Settings.default with prompt := "robot> " }
    let ls := [encode "nope && move 1\n", encode "move 2 " ++ [0xFF]]
    run settings ls.flatten = ((new settings).transcript "robot> " ls ++ "robot> ", .endOfInput) ∧
      (new settings).transcript "robot> " ls ++ "robot> " =
        "robot> error: unknown variable 'nope'\nmove 1\nrobot> error: unexpected '\uFFFD'\nrobot> " := by
  intro settings ls
  have hlines : Utf8.lines ls.flatten = ls := by decide +kernel
  have hend : (run settings ls.flatten).2 = .endOfInput := by decide +kernel
  obtain ⟨-, -, -, ⟨pre, line, -, -, -, -, hrun, -⟩ | ⟨-, hrun⟩⟩ := run_transcript settings ls.flatten
  · rw [hrun] at hend
    cases hend
  · rw [hlines] at hrun
    exact ⟨hrun, by decide +kernel⟩

/-- The rest of a line that quits is run, and the next line is not. -/
example : run { Settings.default with showPrompt := false }
    (encode "let q = (quit && move 1)\nnope && q && move 2\nmove 3\n") =
    ("error: unknown variable 'nope'\nmove 1\nmove 2\n", .quit) := by decide +kernel

end Console

end RobotShell
