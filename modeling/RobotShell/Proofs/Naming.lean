import RobotShell.Proofs.Effects
/-!
# Naming a statement changes nothing

Running a name does what running the tree bound to it does, as long as no guard trips. The run under
the name has gone one level further down, has entered one name more and shares its steps among all
statements of the tree, so it is the one that meets its guards first. Up to there the two runs do the
same.
-/

namespace RobotShell.Interpreter

/-- The faults that a later state has in its queue behind those of an earlier one. -/
def faultsSince (i k : Interpreter) : List Fault := k.faults.toList.drop i.faults.size

/-- `j` is `i` but for steps that were not taken and names that were not entered. -/
def Covers (i j : Interpreter) : Prop :=
  ∃ n es, n ≤ i.steps ∧ es ⊆ i.expanding ∧ j = { i with steps := n, expanding := es }

/-- Two runs that are not abandoned, and end in states of which one covers the other. -/
def Alike (p q : Interpreter × Flow) : Prop :=
  p.2 = .goOn ∧ q.2 = .goOn ∧ Covers p.1 q.1

variable {levels levels' : Nat} {s : Statement} {ss : List Statement} {x : Name} {e : Expr}
  {i j k : Interpreter}

theorem Covers.settled (h : Covers i j) : j.settled = i.settled := by
  obtain ⟨n, es, -, -, rfl⟩ := h
  rfl

/-! ## One statement -/

theorem instruction_mono {build : Int64 → Instruction} (hle : levels ≤ levels')
    (h : (i.instruction levels e build).isTrip = false) :
    i.instruction levels' e build = i.instruction levels e build := by
  unfold instruction at h ⊢
  rw [value_mono hle]
  intro f hf
  rw [hf] at h
  exact Fault.isLimit_of_not_isGuard h

theorem actOfName_covered (h : Covers i j) (hle : levels ≤ levels')
    (hcalm : (actOfName levels x i).isTrip = false) : actOfName levels' x j = actOfName levels x i := by
  obtain ⟨n, es, -, hes, rfl⟩ := h
  have hb : Interpreter.binding? { i with steps := n, expanding := es } x.text = i.binding? x.text := rfl
  rcases actOfName_cases levels x i with ⟨hnone, hact⟩ | ⟨f, -, hact⟩ | ⟨e, hsome, hx, hl, hact⟩
  · rw [hact, actOfName, hb, hnone]
  · cases (congrArg Act.isTrip hact).symm.trans hcalm
  · have hx' : x ∉ es := fun hmem => hx (hes hmem)
    have hl' : levels' ≠ 0 := by omega
    rw [hact, actOfName, hb, hsome]
    simp only [if_neg hx', if_neg hl']

/-- Where no guard trips, a statement comes to the same in a state that is covered. -/
theorem act_covered (h : Covers i j) (hle : levels ≤ levels') (hcalm : (act levels s i).isTrip = false) :
    act levels' s j = act levels s i := by
  -- only the guards look at steps, levels and names entered, and none of them trips
  have hname := fun x => actOfName_covered (x := x) h hle
  obtain ⟨n, es, hn, hes, rfl⟩ := h
  unfold act at hcalm ⊢
  by_cases hsteps : i.limits.steps < i.steps + 1
  · rw [if_pos hsteps] at hcalm
    cases hcalm
  · have hsteps' : ¬i.limits.steps < n + 1 := by omega
    simp only [if_neg hsteps, if_neg hsteps'] at hcalm ⊢
    cases s with
    | run x => exact hname x hcalm
    | rotate e | move e | buy x e | sell x e => exact congrArg Act.effect (instruction_mono hle hcalm)
    | _ => rfl

theorem Covers.apply (h : Covers i j) (f : Effect) : Covers (f.apply i.counted) (f.apply j.counted) := by
  obtain ⟨n, es, hn, hes, rfl⟩ := h
  refine ⟨n + 1, es, ?_, by rwa [apply_expanding], ?_⟩
  · rw [apply_steps]
    exact Nat.succ_le_succ hn
  · cases f <;> rfl

theorem Covers.entered (h : Covers i j) (x : Name) : Covers (i.counted.entered x) (j.counted.entered x) := by
  obtain ⟨n, es, hn, hes, rfl⟩ := h
  exact ⟨n + 1, x :: es, Nat.succ_le_succ hn, List.cons_subset_cons x hes, rfl⟩

/-- Leaving a name, the two states are back to the names they had entered before. -/
theorem Covers.left {i' j' : Interpreter} (h : Covers i j) (h' : Covers i' j')
    (hi : i'.expanding = (i.counted.entered x).expanding) (hj : j'.expanding = (j.counted.entered x).expanding) :
    Covers i'.left j'.left := by
  obtain ⟨n, es, hn, hes, rfl⟩ := h
  obtain ⟨n', es', hn', -, rfl⟩ := h'
  obtain rfl : es' = x :: es := hj
  refine ⟨n', es, hn', ?_, rfl⟩
  show es ⊆ i'.expanding.tail
  rw [hi]
  exact hes

/-- No guard has tripped on the way to a state with as many of their faults as before. -/
theorem act_calm (h : (dispatch (follow levels) levels s i).1.trips = i.trips) :
    (act levels s i).isTrip = false := by
  rw [dispatch_eq] at h
  cases hact : act levels s i with
  | effect f =>
    rw [hact] at h
    have hadd : i.trips + f.isTrip.toNat = i.trips := (apply_trips f i.counted).symm.trans h
    cases hf : f.isTrip with
    | false => exact hf
    | true => simp [hf] at hadd
  | cut f =>
    rw [hact] at h
    have hadd : i.trips + f.isGuard.toNat = i.trips := (report_trips i.counted f).symm.trans h
    simp [act_cut hact] at hadd
  | enter x e => rfl

/-! ## Runs -/

theorem runBody_alike {run : Statement → Interpreter → Interpreter × Flow} {l : Limits}
    (hrun : ∀ s i j, i.limits = l → Covers i j → (dispatch (follow levels) levels s i).1.trips = i.trips →
      Alike (dispatch (follow levels) levels s i) (run s j))
    (hl : i.limits = l) (h : Covers i j) (hcalm : (runBody levels ss i).1.trips = i.trips) :
    Alike (runBody levels ss i) (runAll run ss j) := by
  induction ss generalizing i j with
  | nil => exact ⟨rfl, rfl, h⟩
  | cons s ss ih =>
    -- no fault is ever lost, so if none is added over all, none is by the first statement or the others
    have hfirst := trips_le_of_prefix (preserves_faults.dispatch levels s i)
    have hrest := trips_le_of_prefix (preserves_faults.runBody levels ss (dispatch (follow levels) levels s i).1)
    unfold runBody at hcalm hrest ⊢
    cases hflow : (dispatch (follow levels) levels s i).2 with
    | goOn =>
      rw [runAll_goOn hflow] at hcalm ⊢
      obtain ⟨-, hflow', hcov⟩ := hrun s i j hl h (by omega)
      rw [runAll_goOn hflow']
      exact ih ((preserves_limits.dispatch levels s i).trans hl) hcov (by unfold runBody; omega)
    | halt =>
      rw [runAll_halt hflow] at hcalm
      have hgo := (hrun s i j hl h hcalm).1
      rw [hflow] at hgo
      cases hgo

/-- Where no guard trips, a statement run with more levels left, from a state that is covered, does
the same. -/
theorem dispatch_alike (hle : levels ≤ levels') (h : Covers i j)
    (hcalm : (dispatch (follow levels) levels s i).1.trips = i.trips) :
    Alike (dispatch (follow levels) levels s i) (dispatch (follow levels') levels' s j) := by
  induction levels using Nat.strongRecOn generalizing levels' s i j with
  | ind levels ih =>
    have htrip := act_calm hcalm
    have hact' := act_covered h hle htrip
    rw [dispatch_eq] at hcalm
    rw [dispatch_eq, dispatch_eq, hact']
    cases hact : act levels s i with
    | effect f => exact ⟨rfl, rfl, h.apply f⟩
    | cut f =>
      rw [hact] at htrip
      cases htrip
    | enter x e =>
      rw [hact] at hcalm
      have hlevels := (act_enter hact).2.2.2
      obtain ⟨hflow, hflow', hcov⟩ : Alike (runBody (levels - 1) e.statements (i.counted.entered x))
          (runBody (levels' - 1) e.statements (j.counted.entered x)) :=
        runBody_alike (fun s i j _ => ih (levels - 1) (by omega) (by omega)) rfl (h.entered x) hcalm
      exact ⟨hflow, hflow', h.left hcov (preserves_expanding.runBody ..) (preserves_expanding.runBody ..)⟩

/-! ## Statements of a line -/

theorem runTree_eq (i : Interpreter) (e : Expr) :
    i.runTree e = (runAll (fun s i => (i.runStatement s).goOn) e.statements i).1 := by
  unfold runTree
  induction e.statements generalizing i with
  | nil => rfl
  | cons s ss ih => exact ih (i.runStatement s)

/-- The steps taken so far do not matter to a tree, as each of its statements starts from none. -/
theorem runTree_settled (i : Interpreter) (e : Expr) :
    ({ i with steps := 0 }.runTree e).settled = (i.runTree e).settled := by
  unfold runTree
  cases e.statements <;> rfl

/-- A statement inside a body does what it would do on a line of its own, with more levels left. -/
theorem runStatement_alike (hle : levels ≤ i.limits.depth) (h : Covers i j)
    (hcalm : (dispatch (follow levels) levels s i).1.trips = i.trips) :
    Alike (dispatch (follow levels) levels s i) (j.runStatement s).goOn := by
  obtain ⟨n, es, -, hes, rfl⟩ := h
  have hcov : Covers i { i with steps := 0, expanding := es } := ⟨0, es, Nat.zero_le _, hes, rfl⟩
  obtain ⟨hflow, -, n', es', hn', -, hend⟩ := dispatch_alike (s := s) hle hcov hcalm
  refine ⟨hflow, rfl, n', [], hn', List.nil_subset _, ?_⟩
  rw [goOn, runStatement_eq, hend]
  rfl

theorem faultsSince_eq {fs : List Fault} (h : k.faults.toList = i.faults.toList ++ fs) : i.faultsSince k = fs := by
  rw [faultsSince, h, ← Array.length_toList, List.drop_left]

theorem trips_of_faultsSince (hpre : i.faults.toList <+: k.faults.toList)
    (h : ∀ f ∈ i.faultsSince k, f.isGuard = false) : k.trips = i.trips := by
  obtain ⟨fs, hfs⟩ := hpre
  have hsince : i.faultsSince k = fs := faultsSince_eq hfs.symm
  have hnone : fs.countP Fault.isGuard = 0 := by
    rw [List.countP_eq_zero]
    intro f hf
    rw [h f (hsince ▸ hf)]
    exact Bool.false_ne_true
  rw [trips, trips, ← Array.countP_toList, ← Array.countP_toList, ← hfs, List.countP_append, hnone, Nat.add_zero]

/-- Where no guard trips, a bound name is entered. -/
theorem act_run (hx : i.binding? x.text = some e) (h : (act levels (.run x) i).isTrip = false) :
    act levels (.run x) i = .enter x e := by
  unfold act at h ⊢
  split at h
  · cases h
  · rw [if_neg ‹_›]
    rcases actOfName_cases levels x i with ⟨hnone, -⟩ | ⟨f, -, hcut⟩ | ⟨e', hsome, -, -, henter⟩
    · cases hnone.symm.trans hx
    · cases (congrArg Act.isTrip hcut).symm.trans h
    · obtain rfl : e' = e := Option.some.inj (hsome.symm.trans hx)
      exact henter

/-- Running a name leaves what running the tree bound to it would, unless a guard trips. -/
theorem runStatement_name (hx : i.binding? x.text = some e)
    (hcalm : ∀ f ∈ i.faultsSince (i.runStatement (.run x)), f.isGuard = false) :
    (i.runStatement (.run x)).settled = (i.runTree e).settled := by
  -- the run under the name comes down to that of the tree's statements, one level further down
  let i₀ : Interpreter := { i with steps := 0 }
  have htrips : (dispatch (follow i.limits.depth) i.limits.depth (.run x) i₀).1.trips = i₀.trips :=
    trips_of_faultsSince (preserves_faults.dispatch i.limits.depth (.run x) i₀) hcalm
  have hact : act i.limits.depth (.run x) i₀ = .enter x e := act_run hx (act_calm htrips)
  rw [← runTree_settled, runStatement_eq, runTree_eq]
  rw [dispatch_eq, hact] at htrips ⊢
  have hcov : Covers (i₀.counted.entered x) i₀ :=
    ⟨0, i.expanding, Nat.zero_le _, List.subset_cons_self x i.expanding, rfl⟩
  have hrun : ∀ s k j, k.limits = i.limits → Covers k j →
      (dispatch (follow (i.limits.depth - 1)) (i.limits.depth - 1) s k).1.trips = k.trips →
      Alike (dispatch (follow (i.limits.depth - 1)) (i.limits.depth - 1) s k) (j.runStatement s).goOn := by
    intro s k j hl
    exact runStatement_alike (by rw [hl]; omega)
  obtain ⟨-, -, hend⟩ := runBody_alike hrun (i := i₀.counted.entered x) rfl hcov htrips
  exact hend.settled.symm

/-- A tree that rebinds what it uses, and drops what it has queued, under a name and without one. -/
theorem runStatement_name_stop :
    ∃ i : Interpreter, ∃ e, i.binding? "go" = some e ∧
      (i.runStatement (.run ⟨"go"⟩)).instructions = #[.stop, .rotate 4] ∧
      (i.runStatement (.run ⟨"go"⟩)).settled = (i.runTree e).settled := by
  let i := ((new .default).runLine "let d = 3").runLine "let go = (move d && let d = 4 && stop && rotate d)"
  obtain ⟨e, he⟩ : ∃ e, i.binding? "go" = some e := Option.isSome_iff_exists.1 (by decide +kernel)
  exact ⟨i, e, he, by decide +kernel, runStatement_name he (by decide +kernel)⟩

end RobotShell.Interpreter
