import RobotShell.Proofs.Twins
/-!
# Taking from the queues

Between lines a caller may take what is queued, or leave it. Neither makes a difference to what later
lines do: a line adds the same to whatever stands in the queues. Only a `stop` looks at a queue, and it
drops the instructions that nobody has taken yet.
-/

namespace RobotShell

open Machine

namespace Interpreter

/-- What a caller does with an interpreter: it gives it something to run, or takes from its queues. -/
inductive Call where
  | line (text : String)
  | evaluate (e : Expr)
  | nextFault
  | nextStatus
  | nextInstruction
  | drainFaults
  | drainStatus
  | drainInstructions

/-- What a caller has taken from the queues, the oldest first. -/
structure Taken where
  faults : List Fault := []
  status : List String := []
  instructions : List Instruction := []

/-- What was taken first, and what was taken later. -/
def Taken.append (t u : Taken) : Taken :=
  ⟨t.faults ++ u.faults, t.status ++ u.status, t.instructions ++ u.instructions⟩

/-- Whether the call only takes from a queue. -/
def Call.takes : Call → Bool
  | line _ | evaluate _ => false
  | _ => true

/-- What the call takes, and the state it leaves. -/
def Call.run : Call → Interpreter → Taken × Interpreter
  | line text, i => ({}, i.runLine text)
  | evaluate e, i => ({}, (i.evaluate e).2)
  | nextFault, i => ({ faults := i.nextFault.1.toList }, i.nextFault.2)
  | nextStatus, i => ({ status := i.nextStatus.1.toList }, i.nextStatus.2)
  | nextInstruction, i => ({ instructions := i.nextInstruction.1.toList }, i.nextInstruction.2)
  | drainFaults, i => ({ faults := i.drainFaults.1.toList }, i.drainFaults.2)
  | drainStatus, i => ({ status := i.drainStatus.1.toList }, i.drainStatus.2)
  | drainInstructions, i => ({ instructions := i.drainInstructions.1.toList }, i.drainInstructions.2)

/-- What calls take one after the other, and the state they leave. -/
def session : List Call → Interpreter → Taken × Interpreter
  | [], i => ({}, i)
  | c :: cs, i => ((c.run i).1.append (session cs (c.run i).2).1, (session cs (c.run i).2).2)

/-- A `stop` is run in the call. -/
def Call.Stops (i : Interpreter) : Call → Prop
  | line text => ∃ as, i.Does (lineStatements text) as ∧ Effect.stop ∈ effects as
  | _ => False

/-- A `stop` is run in one of the calls. -/
def StopIn : List Call → Interpreter → Prop
  | [], _ => False
  | c :: cs, i => c.Stops i ∨ StopIn cs (c.run i).2

open Classical in
/-- The instructions that calls take and that no later `stop` would have dropped. -/
noncomputable def keptOf : List Call → Interpreter → List Instruction
  | [], _ => []
  | c :: cs, i => (if StopIn cs (c.run i).2 then [] else (c.run i).1.instructions) ++ keptOf cs (c.run i).2

variable {i j : Interpreter} {text : String} {as : List Act} {t : Taken} {c : Call}

/-! ## A line -/

/-- `k` is what `i` becomes by acts: their faults and texts stand behind those that are queued, and a
`quit` among them has set the flag. -/
structure Adds (as : List Act) (i k : Interpreter) : Prop where
  faults : k.faults.toList = i.faults.toList ++ (effects as).filterMap Effect.fault?
  status : k.status.toList = i.status.toList ++ (effects as).filterMap Effect.told?
  quit : k.quit = (i.quit || (effects as).any Effect.isQuit)

theorem runLine_settled (h : i.Does (lineStatements text) as) :
    (i.runLine text).settled = replay (effects as) i.settled := by
  rw [runLine_eq]
  exact h.settled

theorem runLine_adds (h : i.Does (lineStatements text) as) : Adds as i (i.runLine text) := by
  have hend := runLine_settled h
  refine ⟨?_, ?_, ?_⟩
  · exact (congrArg (·.faults.toList) hend).trans (replay_faults _ _)
  · exact (congrArg (·.status.toList) hend).trans (replay_status _ _)
  · exact (congrArg (·.quit) hend).trans (replay_quit _ _)

/-- Two states in which a line has the same acts: without a `stop` it queues the same instructions behind
those that are there, and with one it leaves the same instructions. -/
theorem runLine_instructions (hi : i.Does (lineStatements text) as) (hj : j.Does (lineStatements text) as) :
    Effect.stop ∉ effects as ∧
        (i.runLine text).instructions.toList = i.instructions.toList ++ (effects as).filterMap Effect.instruction? ∧
        (j.runLine text).instructions.toList = j.instructions.toList ++ (effects as).filterMap Effect.instruction? ∨
      Effect.stop ∈ effects as ∧ ∃ before after, effects as = before ++ .stop :: after ∧ Effect.stop ∉ after ∧
        (i.runLine text).instructions.toList = .stop :: after.filterMap Effect.instruction? ∧
        (j.runLine text).instructions.toList = .stop :: after.filterMap Effect.instruction? := by
  have hend : ∀ k : Interpreter, k.Does (lineStatements text) as →
      (k.runLine text).instructions.toList = (replay (effects as) k.settled).instructions.toList :=
    fun k hk => congrArg (·.instructions.toList) (runLine_settled hk)
  rw [hend i hi, hend j hj]
  by_cases hstop : Effect.stop ∈ effects as
  · obtain ⟨before, after, hsplit, hafter, hqueue⟩ := replay_stop hstop
    exact .inr ⟨hstop, before, after, hsplit, hafter, hqueue _, hqueue _⟩
  · exact .inl ⟨hstop, replay_instructions hstop _, replay_instructions hstop _⟩

theorem Twins.runLine (h : Twins i j) (text : String) :
    ∃ as, i.Does (lineStatements text) as ∧ j.Does (lineStatements text) as ∧
      Twins (i.runLine text) (j.runLine text) := by
  obtain ⟨as, hi⟩ := exists_does i (lineStatements text)
  obtain ⟨hj, hend⟩ := hi.twins h
  rw [← runLine_eq, ← runLine_eq] at hend
  exact ⟨as, hi, hj, hend⟩

theorem stops_iff (h : i.Does (lineStatements text) as) :
    (Call.line text).Stops i ↔ Effect.stop ∈ effects as := by
  constructor
  · rintro ⟨bs, hbs, hstop⟩
    rwa [h.unique hbs]
  · exact fun hstop => ⟨as, h, hstop⟩

/-! ## Calls -/

/-- `j` is `i` with what was taken still in its queues. -/
structure Untaken (t : Taken) (i j : Interpreter) : Prop where
  twins : Twins i j
  quit : j.quit = i.quit
  faults : j.faults.toList = t.faults ++ i.faults.toList
  status : j.status.toList = t.status ++ i.status.toList
  instructions : j.instructions.toList = t.instructions ++ i.instructions.toList

/-- A queue is what is popped from it and the rest. -/
theorem pop_append {α : Type} (q : Array α) : (pop q).1.toList ++ (pop q).2.toList = q.toList := by
  obtain ⟨l⟩ := q
  cases l <;> simp [pop]

/-- Taking moves from the front of a queue to what was taken. -/
theorem Untaken.take (h : Untaken t i j) (hc : c.takes = true) : Untaken (t.append (c.run i).1) (c.run i).2 j := by
  obtain ⟨⟨hlimits, hexpanding, hbinding⟩, hquit, hfaults, hstatus, hinstructions⟩ := h
  cases c with
  | line | evaluate => cases hc
  | nextFault | nextStatus | nextInstruction =>
    refine ⟨⟨hlimits, hexpanding, hbinding⟩, hquit, ?_, ?_, ?_⟩ <;>
      simpa [Call.run, Taken.append, nextFault, nextStatus, nextInstruction, pop_append]
  | drainFaults | drainStatus | drainInstructions =>
    refine ⟨⟨hlimits, hexpanding, hbinding⟩, hquit, ?_, ?_, ?_⟩ <;>
      simpa [Call.run, Taken.append, drainFaults, drainStatus, drainInstructions]

open Classical in
/-- A line adds the same to the queues whether or not something was taken from them, and a `stop` in it
drops what instructions there are. -/
theorem Untaken.runLine (h : Untaken t i j) (text : String) :
    Untaken { t with instructions := if (Call.line text).Stops i then [] else t.instructions }
      (i.runLine text) (j.runLine text) := by
  obtain ⟨as, hi, hj, htwins⟩ := h.twins.runLine text
  have hai := runLine_adds hi
  have haj := runLine_adds hj
  refine ⟨htwins, ?_, ?_, ?_, ?_⟩
  · rw [haj.quit, hai.quit, h.quit]
  · rw [haj.faults, hai.faults, h.faults, List.append_assoc]
  · rw [haj.status, hai.status, h.status, List.append_assoc]
  · simp only [stops_iff hi]
    rcases runLine_instructions hi hj with ⟨hstop, hi', hj'⟩ | ⟨hstop, before, after, -, -, hi', hj'⟩
    · rw [if_neg hstop, hj', hi', h.instructions, List.append_assoc]
    · rw [if_pos hstop, hj', hi', List.nil_append]

theorem Untaken.evaluate (h : Untaken t i j) (e : Expr) : Untaken t (i.evaluate e).2 (j.evaluate e).2 := by
  have hvalue : value j.bindings j.limits.depth j.limits.depth [] e =
      value i.bindings i.limits.depth i.limits.depth [] e := by
    rw [h.twins.limits, value_congr h.twins.binding?]
  unfold Interpreter.evaluate
  rw [hvalue]
  cases value i.bindings i.limits.depth i.limits.depth [] e with
  | ok n => exact h
  | error f =>
    refine ⟨h.twins.apply (.fault f), h.quit, ?_, h.status, h.instructions⟩
    simp [report, h.faults]

open Classical in
/-- A call that runs something does the same with and without what was taken, and takes nothing. -/
theorem Untaken.run (h : Untaken t i j) (hc : c.takes = false) :
    (c.run i).1 = {} ∧ Untaken { t with instructions := if c.Stops i then [] else t.instructions }
      (c.run i).2 (c.run j).2 := by
  cases c with
  | line text => exact ⟨rfl, h.runLine text⟩
  | evaluate e =>
    refine ⟨rfl, ?_⟩
    rw [if_neg (show ¬(Call.evaluate e).Stops i from id)]
    exact h.evaluate e
  | _ => cases hc

theorem not_stops_of_takes (hc : c.takes = true) : ¬c.Stops i := by
  cases c with
  | line => cases hc
  | _ => exact id

open Classical in
/-- A session does the same whatever is taken from the queues in between. -/
theorem Untaken.session (h : Untaken t i j) (calls : List Call) :
    Untaken { t.append (session calls i).1 with
        instructions := (if StopIn calls i then [] else t.instructions) ++ keptOf calls i }
      (session calls i).2 (session (calls.filter (!·.takes)) j).2 := by
  induction calls generalizing t i j with
  | nil => simpa [Interpreter.session, Taken.append, StopIn, keptOf] using h
  | cons c calls ih =>
    cases hc : c.takes with
    | true =>
      have hrest := ih (h.take hc)
      rw [List.filter_cons_of_neg (by simp [hc])]
      by_cases hlater : StopIn calls (c.run i).2 <;>
        simpa [Interpreter.session, Taken.append, StopIn, keptOf, not_stops_of_takes hc, hlater] using hrest
    | false =>
      obtain ⟨hnone, hnext⟩ := h.run hc
      have hrest := ih hnext
      rw [List.filter_cons_of_pos (by simp [hc])]
      by_cases hlater : StopIn calls (c.run i).2 <;>
        simpa [Interpreter.session, Taken.append, StopIn, keptOf, hnone, hlater] using hrest

/-! ## Queues are inert -/

/-- What stands in the queues does not influence what is run. A line does the same in two states that
differ only in their queues and quit flags, but for the instructions that a `stop` drops. And a caller
that takes from the queues between lines changes nothing by it: had it taken nothing, all that it took
would still stand in front of the queues, but for instructions that a later `stop` would have dropped. -/
theorem queues_inert (h : Twins i j) (text : String) (calls : List Call) :
    (∃ as, i.Does (lineStatements text) as ∧ j.Does (lineStatements text) as ∧
      Twins (i.runLine text) (j.runLine text) ∧ Adds as i (i.runLine text) ∧ Adds as j (j.runLine text) ∧
      (Effect.stop ∉ effects as ∧
          (i.runLine text).instructions.toList = i.instructions.toList ++ (effects as).filterMap Effect.instruction? ∧
          (j.runLine text).instructions.toList = j.instructions.toList ++ (effects as).filterMap Effect.instruction? ∨
        Effect.stop ∈ effects as ∧ ∃ before after, effects as = before ++ .stop :: after ∧ Effect.stop ∉ after ∧
          (i.runLine text).instructions.toList = .stop :: after.filterMap Effect.instruction? ∧
          (j.runLine text).instructions.toList = .stop :: after.filterMap Effect.instruction?)) ∧
    Untaken { (session calls i).1 with instructions := keptOf calls i } (session calls i).2
      (session (calls.filter (!·.takes)) i).2 := by
  obtain ⟨as, hi, hj, hend⟩ := h.runLine text
  refine ⟨⟨as, hi, hj, hend, runLine_adds hi, runLine_adds hj, runLine_instructions hi hj⟩, ?_⟩
  have hnone : Untaken {} i i := ⟨⟨rfl, rfl, fun _ => rfl⟩, rfl, rfl, rfl, rfl⟩
  simpa [Taken.append] using hnone.session calls

/-- A queued instruction is dropped by the `stop` that a name stands for, in the same way as one that was
taken before it. -/
theorem queues_inert_go :
    ∃ i j : Interpreter, Twins i j ∧ i.instructions = #[] ∧ j.instructions = #[.move 7] ∧
      (∃ as, i.Does (lineStatements "go") as ∧ j.Does (lineStatements "go") as ∧ Effect.stop ∈ effects as) ∧
      (session [.line "go", .nextInstruction, .line "go"] i).1.instructions = [.stop] ∧
      keptOf [.line "go", .nextInstruction, .line "go"] i = [] := by
  let i := (new .default).runLine "let go = (move 1 && stop && rotate 4)"
  let j : Interpreter := { i with instructions := #[.move 7], faults := #[.unrecognized], quit := true }
  have hij : Twins i j := ⟨rfl, rfl, fun _ => rfl⟩
  obtain ⟨⟨as, hi, hj, -, -, -, hinstructions⟩, htaken⟩ :=
    queues_inert hij "go" [.line "go", .nextInstruction, .line "go"]
  refine ⟨i, j, hij, by decide +kernel, rfl, ⟨as, hi, hj, ?_⟩, by decide +kernel, ?_⟩
  · have hqueue : (j.runLine "go").instructions = #[.stop, .rotate 4] := by decide +kernel
    rcases hinstructions with ⟨-, -, hkept⟩ | ⟨hstop, -⟩
    · rw [hqueue] at hkept
      cases hkept
    · exact hstop
  · have hqueues : (session [.line "go", .line "go"] i).2.instructions =
        (session [.line "go", .nextInstruction, .line "go"] i).2.instructions := by decide +kernel
    have hkept := htaken.instructions
    rw [List.filter_cons_of_pos rfl, List.filter_cons_of_neg (by decide), List.filter_cons_of_pos rfl,
      List.filter_nil, hqueues] at hkept
    exact List.self_eq_append_left.1 hkept

end Interpreter

end RobotShell
