import RobotShell.Proofs.Machine
/-!
# What a guard cuts off

A guard that trips on a statement ends its whole run there. A guard that trips on an operand does not:
the statement does nothing, but the run goes on behind it and may trip again.
-/

namespace RobotShell

open Interpreter Relation

namespace Interpreter

/-- The change adds to a queue, binds a name to another tree or sets the quit flag. -/
def Effect.Shows (i : Interpreter) : Effect → Prop
  | bind x e => i.binding? x.text ≠ some e
  | quit => i.quit = false
  | _ => True

/-- The statement itself does something that is seen from outside. -/
def Act.Shows (i : Interpreter) : Act → Prop
  | effect f => f.Shows i
  | cut _ => True
  | enter .. => False

/-- What is seen from outside of two states is the same. -/
def Same (i k : Interpreter) : Prop :=
  k.faults = i.faults ∧ k.status = i.status ∧ k.instructions = i.instructions ∧ k.quit = i.quit ∧
    ∀ x, k.binding? x = i.binding? x

end Interpreter

namespace Machine

/-- What holds of the next statement. -/
def Next (P : Nat → Statement → Interpreter → Prop) : Machine → Prop
  | ⟨i, ⟨levels, s :: _⟩ :: _⟩ => P levels s i
  | _ => False

/-- Nothing that is left to run is seen from outside. -/
def Idle (m : Machine) : Prop :=
  ∀ m', Steps m m' → ¬m'.Next fun levels s i => (act levels s i).Shows i

/-- In the run of a statement of a line guards report one fault at most, and behind it the run is idle. -/
def CutOffOnce (i : Interpreter) (s : Statement) : Prop :=
  (i.runStatement s).trips ≤ i.trips + 1 ∧
    ∀ m m', Steps (start i s) m → Step m m' → m.state.trips < m'.state.trips → m'.Idle

variable {i : Interpreter} {s : Statement} {m m' : Machine}

theorem idle_of_nil (h : m.frames = []) : m.Idle := by
  obtain ⟨i, fs⟩ := m
  obtain rfl : fs = [] := h
  intro m' hm
  rcases ReflTransGen.cases_head hm with rfl | ⟨m'', hstep, -⟩
  · exact id
  · exact absurd hstep not_step_of_nil

theorem Idle.later (h : m.Idle) (hm : Steps m m') : m'.Idle := by
  intro m'' hm''
  exact h m'' (hm.trans hm'')

/-! ## One step -/

/-- A step of an idle run changes nothing that is seen from outside. -/
theorem Idle.step (h : m.Idle) (hstep : Step m m') : Same m.state m'.state := by
  have hnext := h m .refl
  cases hstep with
  | @effect i f levels s ss fs hact =>
    have hquiet : ¬f.Shows i := by
      intro hf
      apply hnext
      show (act levels s i).Shows i
      rwa [hact]
    cases f with
    | bind x e =>
      have hx : i.binding? x.text = some e := Decidable.not_not.1 hquiet
      refine ⟨rfl, rfl, rfl, rfl, fun y => (bind_binding? i.counted x e y).trans ?_⟩
      by_cases hy : x.text = y
      · rw [if_pos hy, ← hy, hx]
      · rw [if_neg hy]
        rfl
    | quit =>
      have hq : i.quit = true := by simpa [Effect.Shows] using hquiet
      exact ⟨rfl, rfl, rfl, hq.symm, fun x => rfl⟩
    | _ => exact absurd trivial hquiet
  | @cut i f levels s ss fs hact =>
    refine absurd ?_ hnext
    show (act levels s i).Shows i
    rw [hact]
    trivial
  | enter | leave => exact ⟨rfl, rfl, rfl, rfl, fun x => rfl⟩

/-- A step reports a guard's fault if that is of an operand or if it is the last. -/
theorem Step.trips (h : Step m m') :
    m'.state.trips = m.state.trips ∧ ¬m.Next OperandTrips ∨
      m'.state.trips = m.state.trips + 1 ∧ (m.Next OperandTrips ∨ m'.frames = []) := by
  cases h with
  | @effect i f levels s ss fs hact =>
    have hadd : (f.apply i.counted).trips = i.trips + f.isTrip.toNat := apply_trips f i.counted
    have hnext : Next OperandTrips ⟨i, ⟨levels, s :: ss⟩ :: fs⟩ ↔ _ := operandTrips_iff
    rw [hnext]
    cases hf : f.isTrip with
    | false =>
      rw [hf] at hadd
      refine .inl ⟨hadd, ?_⟩
      rintro ⟨g, hg, hguard⟩
      obtain rfl : f = .fault g := Act.effect.inj (hact.symm.trans hg)
      exact Bool.false_ne_true (hf.symm.trans hguard)
    | true =>
      rw [hf] at hadd
      refine .inr ⟨hadd, .inl ?_⟩
      cases f with
      | fault g => exact ⟨g, hact, hf⟩
      | _ => cases hf
  | @cut i f levels s ss fs hact =>
    refine .inr ⟨?_, .inr rfl⟩
    rw [report_trips, act_cut hact]
    rfl
  | @enter i x e levels s ss fs hact =>
    refine .inl ⟨rfl, ?_⟩
    intro htrips
    obtain ⟨f, hf, -⟩ := operandTrips_iff.1 htrips
    cases hact.symm.trans hf
  | leave => exact .inl ⟨rfl, id⟩

/-! ## Whole runs -/

/-- If a run is idle behind each fault of a guard, there is one such fault at most. -/
theorem trips_of_idle (h : ∀ m m', Steps (start i s) m → Step m m' → m.state.trips < m'.state.trips → m'.Idle)
    (hm : Steps (start i s) m) :
    m.state.trips = i.trips ∨ m.state.trips = i.trips + 1 ∧ m.Idle := by
  induction hm with
  | refl => exact .inl rfl
  | tail hm hstep ih =>
    rcases ih with hnone | ⟨hone, hidle⟩
    · rcases hstep.trips with ⟨hsame, -⟩ | ⟨hmore, -⟩
      · exact .inl (hsame.trans hnone)
      · exact .inr ⟨by omega, h _ _ hm hstep (by omega)⟩
    -- idle runs report nothing, so the one fault stays the only one
    · have hsame := congrArg (Array.countP Fault.isGuard) (hidle.step hstep).1
      exact .inr ⟨hsame.trans hone, hidle.later (.single hstep)⟩

/-- A statement is cut off once, and for good, exactly if its run is idle behind every operand that a
guard trips on. -/
theorem cutOffOnce_iff (i : Interpreter) (s : Statement) :
    CutOffOnce i s ↔ ∀ m m', Steps (start i s) m → m.Next OperandTrips → Step m m' → m'.Idle := by
  constructor
  · rintro ⟨-, h⟩ m m' hm hoperand hstep
    rcases hstep.trips with ⟨-, hnot⟩ | ⟨hmore, -⟩
    · exact absurd hoperand hnot
    · exact h m m' hm hstep (by omega)
  · intro h
    have hidle : ∀ m m', Steps (start i s) m → Step m m' → m.state.trips < m'.state.trips → m'.Idle := by
      intro m m' hm hstep hless
      -- a guard reports on an operand, or it cuts the statement off and nothing is left to run
      rcases hstep.trips with ⟨hsame, -⟩ | ⟨-, hoperand | hend⟩
      · omega
      · exact h m m' hm hoperand hstep
      · exact idle_of_nil hend
    refine ⟨?_, hidle⟩
    obtain ⟨j, hj, hend⟩ := start_reaches i s
    have htrips : (i.runStatement s).trips = j.trips := hend ▸ rfl
    rcases trips_of_idle hidle hj with hnone | ⟨hone, -⟩
    · exact Nat.le_succ_of_le (Nat.le_of_eq (htrips.trans hnone))
    · exact Nat.le_of_eq (htrips.trans hone)

/-- Two operands of one statement can each trip a guard. -/
theorem not_cutOffOnce_operands :
    ¬CutOffOnce (((new .default).runLine "let x = x").runLine "let go = (move x && move x)") (.run ⟨"go"⟩) := by
  rintro ⟨h, -⟩
  exact absurd h (by decide +kernel)

end Machine

end RobotShell
