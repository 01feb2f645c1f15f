import RobotShell.Proofs.Budget
import RobotShell.Proofs.Limits
import RobotShell.Proofs.Naming
/-!
# A used up budget cuts cleanly

Two runs of a statement that differ only in their step budgets do the same until the smaller budget is used
up. There one of them is abandoned, with the report of it as its last act, and the other one goes on. So
what the first has reported before, and told, is the beginning of what the second reports and tells.
-/

namespace RobotShell

open Interpreter Relation

namespace Interpreter

/-- The texts that a later state has in its status queue behind those of an earlier one. -/
def statusSince (i k : Interpreter) : List String := k.status.toList.drop i.status.size

/-- The texts that acts tell, in order. -/
def told (as : List Act) : List String := (effects as).filterMap Effect.told?

variable {levels : Nat} {s : Statement} {i : Interpreter} {l : Limits}

theorem told_append (as bs : List Act) : told (as ++ bs) = told as ++ told bs := by
  rw [told, effects_append, List.filterMap_append, told, told]

/-- A statement that is not refused comes to the same under a larger budget. -/
theorem act_roomier (hdepth : l.depth = i.limits.depth) (hsteps : i.limits.steps ≤ l.steps)
    (h : (act levels s i).refuses = false) : act levels s (i.limited l) = act levels s i := by
  rcases act_refuses levels s i with ⟨-, hcut⟩ | ⟨hleft, -⟩
  · rw [hcut] at h
    cases h
  · have hbudget : ¬i.limits.steps < i.steps + 1 := by omega
    have hbudget' : ¬(i.limited l).limits.steps < (i.limited l).steps + 1 := by
      simp only [limited]
      omega
    unfold act
    rw [if_neg hbudget, if_neg hbudget']
    cases s with
    | run x => simp only [actOfName, limited, binding?, hdepth]
    | rotate e | move e | buy x e | sell x e => simp only [instruction, limited, hdepth]
    | _ => rfl

end Interpreter

namespace Machine

/-- `n` is `m` under limits that allow more steps, and no other depth. -/
structure Roomier (l : Limits) (m n : Machine) : Prop where
  state : n.state = m.state.limited l
  depth : l.depth = m.state.limits.depth
  steps : m.state.limits.steps ≤ l.steps
  frames : n.frames = m.frames

variable {l : Limits} {m m' m'' n : Machine} {as bs : List Act} {i j : Interpreter} {s : Statement}

/-! ## Parts of a run -/

/-- A step that refuses nothing is made under the larger budget as well. -/
theorem Step.roomier (hstep : Step m m') (h : Roomier l m n) (hact : ∀ a ∈ m.act?, a.refuses = false) :
    n.act? = m.act? ∧ ∃ n', Step n n' ∧ Roomier l m' n' := by
  obtain ⟨hstate, hdepth, hsteps, hframes⟩ := h
  obtain ⟨j, gs⟩ := n
  obtain rfl : j = _ := hstate
  obtain rfl : gs = _ := hframes
  cases hstep with
  | @effect i f levels s ss fs hf =>
    have hsame : act levels s (i.limited l) = act levels s i := act_roomier hdepth hsteps (hact _ rfl)
    refine ⟨congrArg some hsame, _, .effect (hsame.trans hf), ?_, ?_, ?_, rfl⟩
    · exact apply_limited f i.counted l
    · rwa [apply_limits]
    · rwa [apply_limits]
  | @cut i f levels s ss fs hf =>
    have hsame : act levels s (i.limited l) = act levels s i := act_roomier hdepth hsteps (hact _ rfl)
    exact ⟨congrArg some hsame, _, .cut (hsame.trans hf), rfl, hdepth, hsteps, rfl⟩
  | @enter i x e levels s ss fs hf =>
    have hsame : act levels s (i.limited l) = act levels s i := act_roomier hdepth hsteps (hact _ rfl)
    exact ⟨congrArg some hsame, _, .enter (hsame.trans hf), rfl, hdepth, hsteps, rfl⟩
  | leave => exact ⟨rfl, _, .leave, rfl, hdepth, hsteps, rfl⟩

/-- The acts of a run up to its end, or up to the refusal at its end, are made under the larger budget. -/
theorem Trace.roomier (htrace : Trace m as m') (h : Roomier l m n) :
    ∃ bs n', Trace n bs n' ∧ (∀ a ∈ bs, a.refuses = false) ∧
      (as = bs ∨ as = bs ++ [.cut (.stepsExceeded m.state.limits.steps)]) := by
  induction htrace generalizing n with
  | refl => exact ⟨[], n, .refl, nofun, .inl rfl⟩
  | @head m m' _ as hstep htrace ih =>
    by_cases hact : ∀ a ∈ m.act?, a.refuses = false
    · obtain ⟨hsame, n', hstep', h'⟩ := hstep.roomier h hact
      obtain ⟨bs, n'', htrace', hbs, hend⟩ := ih h'
      refine ⟨m.act?.toList ++ bs, n'', hsame ▸ .head hstep' htrace', fun a ha => ?_, ?_⟩
      · rcases List.mem_append.1 ha with ha | ha
        · exact hact a (Option.mem_toList.1 ha)
        · exact hbs a ha
      · rw [hstep.limits] at hend
        simpa using hend
    -- nothing is run behind a refusal
    · obtain ⟨a, ha, hrefuses⟩ : ∃ a ∈ m.act?, a.refuses = true := by simpa using hact
      rcases act?_cases m with hnone | ⟨levels, s, ss, fs, -, hsome⟩
      · cases hnone.symm.trans ha
      · obtain rfl : act levels s m.state = a := Option.some.inj (hsome.symm.trans ha)
        rcases act_refuses levels s m.state with ⟨-, hcut⟩ | ⟨-, hfine⟩
        · rw [hcut] at hsome
          rw [trace_of_nil htrace (hstep.refuses hsome), hsome]
          exact ⟨[], n, .refl, nofun, .inr rfl⟩
        · cases hfine.symm.trans hrefuses

theorem Trace.append (h : Trace m as m') (h' : Trace m' bs m'') : Trace m (as ++ bs) m'' := by
  induction h with
  | refl => exact h'
  | head hstep _ ih =>
    rw [List.append_assoc]
    exact .head hstep (ih h')

/-! ## Statements of a line -/

/-- What a run queues is what its acts report and tell. -/
theorem Trace.since (h : Trace (start i s) as ⟨j, []⟩) :
    i.faultsSince (i.runStatement s) = Interpreter.reported as ∧ i.statusSince (i.runStatement s) = told as := by
  have hend : (i.runStatement s).settled = replay (effects as) i.settled := by
    rw [runStatement_of_steps h.steps]
    exact h.settled
  have hfaults := (congrArg (·.faults.toList) hend).trans (replay_faults ..)
  have hstatus := (congrArg (·.status.toList) hend).trans (replay_status ..)
  refine ⟨faultsSince_eq hfaults, ?_⟩
  have hdrop : (i.status.toList ++ told as).drop i.status.size = told as := by
    rw [← Array.length_toList, List.drop_left]
  exact (congrArg (List.drop i.status.size) hstatus).trans hdrop

/-- A run that is refused a step has the same acts under a larger budget, up to the refusal. -/
theorem exists_acts_of_refused (hdepth : l.depth = i.limits.depth) (hsteps : i.limits.steps ≤ l.steps)
    (hcut : ∃ f ∈ i.faultsSince (i.runStatement s), f.isStepLimit = true) :
    ∃ bs cs j k, Trace (start i s) (bs ++ [.cut (.stepsExceeded i.limits.steps)]) ⟨j, []⟩ ∧
      Trace (start (i.limited l) s) (bs ++ cs) ⟨k, []⟩ := by
  obtain ⟨as, j, has, -⟩ := exists_trace i s
  have hstart : Roomier l (start i s) (start (i.limited l) s) :=
    ⟨rfl, hdepth, hsteps, congrArg (fun depth => [Frame.mk depth [s]]) hdepth⟩
  obtain ⟨bs, n, hbs, hnone, hend⟩ := has.roomier hstart
  have has' : as = bs ++ [.cut (.stepsExceeded i.limits.steps)] := by
    refine hend.resolve_left ?_
    rintro rfl
    obtain ⟨f, hf, hlimit⟩ := hcut
    rw [has.since.1] at hf
    cases (has.reported (List.Subset.refl _) hnone f hf).symm.trans hlimit
  -- under the larger budget the run goes on from where the other one was abandoned
  obtain ⟨k, hk, -⟩ := start_reaches (i.limited l) s
  obtain ⟨cs, hcs⟩ := (Steps.to_end hk hbs.steps).trace
  exact ⟨bs, cs, j, k, has' ▸ has, hbs.append hcs⟩

/-- A statement that uses up its step budget, and is cut off with the report of it, has reported and told
before what it reports and tells first under a larger budget. -/
theorem runStatement_prefix (i : Interpreter) (s : Statement) (depth : Nat) {steps steps' : Nat}
    (hle : steps ≤ steps')
    (hcut : ∃ n, .stepsExceeded n ∈ i.faultsSince ((i.limited ⟨depth, steps⟩).runStatement s)) :
    ∃ fs, i.faultsSince ((i.limited ⟨depth, steps⟩).runStatement s) = fs ++ [.stepsExceeded steps] ∧
      fs <+: i.faultsSince ((i.limited ⟨depth, steps'⟩).runStatement s) ∧
      i.statusSince ((i.limited ⟨depth, steps⟩).runStatement s) <+:
        i.statusSince ((i.limited ⟨depth, steps'⟩).runStatement s) := by
  obtain ⟨n, hn⟩ := hcut
  obtain ⟨bs, cs, j, k, hsmall, hlarge⟩ :=
    exists_acts_of_refused (i := i.limited ⟨depth, steps⟩) (l := ⟨depth, steps'⟩) rfl hle ⟨_, hn, rfl⟩
  obtain ⟨hfaults, hstatus⟩ : i.faultsSince ((i.limited ⟨depth, steps⟩).runStatement s) = _ ∧
      i.statusSince ((i.limited ⟨depth, steps⟩).runStatement s) = _ := hsmall.since
  obtain ⟨hfaults', hstatus'⟩ : i.faultsSince ((i.limited ⟨depth, steps'⟩).runStatement s) = _ ∧
      i.statusSince ((i.limited ⟨depth, steps'⟩).runStatement s) = _ := hlarge.since
  have hrefusal : reported (bs ++ [.cut (.stepsExceeded steps)]) = reported bs ++ [.stepsExceeded steps] :=
    reported_append ..
  have hsilent : told (bs ++ [.cut (.stepsExceeded steps)]) = told bs := (told_append ..).trans (List.append_nil _)
  refine ⟨reported bs, hfaults.trans hrefusal, ?_, ?_⟩
  · rw [hfaults', reported_append]
    exact List.prefix_append ..
  · rw [hstatus', hstatus.trans hsilent, told_append]
    exact List.prefix_append ..

/-- The larger budget ends inside of the next name, which the smaller one does not reach. -/
theorem runStatement_prefix_go :
    ∃ i : Interpreter,
      i.faultsSince ((i.limited ⟨64, 4⟩).runStatement (.run ⟨"go"⟩)) = [.unknownVariable ⟨"x"⟩, .stepsExceeded 4] ∧
      i.faultsSince ((i.limited ⟨64, 6⟩).runStatement (.run ⟨"go"⟩)) =
        [.unknownVariable ⟨"x"⟩, .unknownVariable ⟨"y"⟩, .stepsExceeded 6] ∧
      i.statusSince ((i.limited ⟨64, 4⟩).runStatement (.run ⟨"go"⟩)) <+:
        i.statusSince ((i.limited ⟨64, 6⟩).runStatement (.run ⟨"go"⟩)) := by
  let i := ["let turn = (rotate y && help)", "let go = (echo turn && x && help && turn)"].foldl runLine (new .default)
  have hsmall : i.faultsSince ((i.limited ⟨64, 4⟩).runStatement (.run ⟨"go"⟩)) =
      [.unknownVariable ⟨"x"⟩, .stepsExceeded 4] := by decide +kernel
  have hcut : .stepsExceeded 4 ∈ i.faultsSince ((i.limited ⟨64, 4⟩).runStatement (.run ⟨"go"⟩)) := by
    rw [hsmall]
    exact List.mem_cons_of_mem _ List.mem_cons_self
  obtain ⟨fs, -, -, hstatus⟩ := runStatement_prefix i (.run ⟨"go"⟩) 64 (show 4 ≤ 6 by decide) ⟨4, hcut⟩
  exact ⟨i, hsmall, by decide +kernel, hstatus⟩

end Machine

end RobotShell
