import RobotShell.Interpreter.Run
/-!
# What a statement does

Running a statement is one of three things. It has an effect of its own, it is cut off by a guard, or
it enters a name and runs what is bound there. `act` says which, from the state and the number of
names that may still be followed. Everything about runs is proved from it.
-/

namespace RobotShell

/-- Whether a guard reports the fault. -/
def Fault.isGuard : Fault → Bool
  | .depthExceeded .. | .selfReference _ | .stepsExceeded _ => true
  | _ => false

/-- Whether the fault tells of a limit that was reached. -/
def Fault.isLimit : Fault → Bool
  | .depthExceeded .. | .stepsExceeded _ => true
  | _ => false

theorem Fault.isLimit_of_not_isGuard {f : Fault} (h : f.isGuard = false) : f.isLimit = false := by
  cases f <;> simp_all [isGuard, isLimit]

/-- The operand of a statement that needs a number. -/
def Statement.operand? : Statement → Option Expr
  | .rotate e | .move e | .buy _ e | .sell _ e => some e
  | _ => none

namespace Interpreter

/-- A change that one statement makes to what is seen from outside. -/
inductive Effect where
  | fault (f : Fault)
  | tell (text : String)
  | instruct (c : Instruction)
  | stop
  | bind (x : Name) (e : Expr)
  | quit

def Effect.apply : Effect → Interpreter → Interpreter
  | fault f, i => i.report f
  | tell text, i => i.tell text
  | instruct c, i => i.instruct c
  | stop, i => { i with instructions := #[.stop] }
  | bind x e, i => i.bind x e
  | quit, i => { i with quit := true }

/-- What running a statement comes to. -/
inductive Act where
  | effect (f : Effect)
  /-- A guard trips, and nothing more of the whole statement is run. -/
  | cut (f : Fault)
  /-- The statements of a tree are run under a name. -/
  | enter (x : Name) (e : Expr)

/-- The instruction made of an operand's number, or the reason why it has none. -/
def instruction (i : Interpreter) (levels : Nat) (e : Expr) (build : Int64 → Instruction) : Effect :=
  match value i.bindings i.limits.depth levels [] e with
  | .ok n => .instruct (build n)
  | .error f => .fault f

/-- The text of what is bound to a name, or the fault that nothing is. -/
def text (i : Interpreter) (x : Name) : Effect :=
  match i.binding? x.text with
  | some e => .tell e.display
  | none => .fault (.unknownVariable x)

def actOfName (levels : Nat) (x : Name) (i : Interpreter) : Act :=
  match i.binding? x.text with
  | none => .effect (.fault (.unknownVariable x))
  | some e =>
    if x ∈ i.expanding then .cut (.selfReference x)
    else if levels = 0 then .cut (.depthExceeded x i.limits.depth)
    else .enter x e

/-- What a statement comes to, from where so many names may still be followed. -/
def act (levels : Nat) (s : Statement) (i : Interpreter) : Act :=
  if i.limits.steps < i.steps + 1 then .cut (.stepsExceeded i.limits.steps)
  else
    match s with
    | .malformed message col => .effect (.fault (.malformed message col))
    | .unrecognized _ => .effect (.fault .unrecognized)
    | .quit => .effect .quit
    | .stop => .effect .stop
    | .assign x e => .effect (.bind x e)
    | .run x => actOfName levels x i
    | .help => .effect (.tell helpText)
    | .echo x => .effect (i.text x)
    | .rotate e => .effect (i.instruction levels e .rotate)
    | .move e => .effect (i.instruction levels e .move)
    | .buy x e => .effect (i.instruction levels e (.buy x))
    | .sell x e => .effect (i.instruction levels e (.sell x))
    | .inventory => .effect (.instruct .inventory)
    | .marketPrices => .effect (.instruct .marketPrices)
    | .cityPrices => .effect (.instruct .cityPrices)

/-! What happens to the count and to the names around an act. -/

def counted (i : Interpreter) : Interpreter := { i with steps := i.steps + 1 }

def entered (i : Interpreter) (x : Name) : Interpreter := { i with expanding := x :: i.expanding }

def left (i : Interpreter) : Interpreter := { i with expanding := i.expanding.tail }

def unwound (i : Interpreter) : Interpreter := { i with expanding := [] }

/-- The state without what is forgotten between statements. -/
def settled (i : Interpreter) : Interpreter := { i with steps := 0, expanding := [] }

/-- Runs the statements of a tree, from where so many names may still be followed. -/
def runBody (levels : Nat) : List Statement → Interpreter → Interpreter × Flow :=
  runAll (dispatch (follow levels) levels)

variable {levels : Nat} {s : Statement} {x : Name} {e : Expr} {i : Interpreter}

/-! ## The number of an operand -/

/-- More levels, and another limit to blame, change a value only where the levels have run out. -/
theorem value_mono {bindings : Bindings} {limit limit' levels' : Nat} {seen : List Name} (hle : levels ≤ levels')
    (h : ∀ f, value bindings limit levels seen e = .error f → f.isLimit = false) :
    value bindings limit' levels' seen e = value bindings limit levels seen e := by
  fun_induction value bindings limit levels seen e generalizing levels' with
  | case1 levels seen n => unfold value; rfl
  | case2 levels seen x hseen => simp only [value, if_pos hseen]
  | case3 levels seen x hseen hnone => simp only [value, if_neg hseen, hnone]
  | case4 seen x hseen e hsome => cases h _ rfl
  | case5 seen x hseen e hsome levels ih =>
    obtain ⟨levels', rfl⟩ : ∃ l, levels' = l + 1 := Nat.exists_eq_add_one.2 (by omega)
    simp only [value, if_neg hseen, hsome]
    exact ih (by omega) h
  | case6 levels seen e hint hname =>
    unfold value
    split <;> simp_all

/-! ## Running a statement -/

theorem instructWith_eq (i : Interpreter) (levels : Nat) (e : Expr) (build : Int64 → Instruction) :
    i.instructWith levels e build = (i.instruction levels e build).apply i := by
  unfold instructWith instruction
  cases value i.bindings i.limits.depth levels [] e <;> rfl

/-- What an act comes to, where entering a name takes one of the levels. -/
def Act.perform (levels : Nat) (i : Interpreter) : Act → Interpreter × Flow
  | effect f => (f.apply i, .goOn)
  | cut f => (i.report f, .halt)
  | enter x e =>
    ((runBody (levels - 1) e.statements (i.entered x)).1.left,
      (runBody (levels - 1) e.statements (i.entered x)).2)

theorem follow_eq (levels : Nat) (x : Name) (i : Interpreter) :
    follow levels x i = (actOfName levels x i).perform levels i := by
  unfold follow actOfName
  cases i.binding? x.text with
  | none => rfl
  | some e =>
    by_cases hx : x ∈ i.expanding
    · simp only [if_pos hx]
      rfl
    · simp only [if_neg hx]
      cases levels <;> rfl

/-- A statement does what `act` says. -/
theorem dispatch_eq (levels : Nat) (s : Statement) (i : Interpreter) :
    dispatch (follow levels) levels s i = (act levels s i).perform levels i.counted := by
  unfold dispatch act
  by_cases hsteps : i.limits.steps < i.steps + 1
  · simp only [if_pos hsteps]
    rfl
  · simp only [if_neg hsteps]
    cases s with
    | run x => exact follow_eq levels x i.counted
    | rotate e | move e | buy x e | sell x e => exact congrArg (·, Flow.goOn) (instructWith_eq ..)
    | echo x =>
      simp only [perform, text, binding?]
      cases i.bindings[x.text]? <;> rfl
    | _ => rfl

theorem runAll_goOn {run : Statement → Interpreter → Interpreter × Flow} {ss : List Statement}
    (h : (run s i).2 = .goOn) : runAll run (s :: ss) i = runAll run ss (run s i).1 := by
  rw [runAll]
  rcases hrun : run s i with ⟨k, flow⟩
  rw [hrun] at h
  obtain rfl : flow = .goOn := h
  rfl

theorem runAll_halt {run : Statement → Interpreter → Interpreter × Flow} {ss : List Statement}
    (h : (run s i).2 = .halt) : runAll run (s :: ss) i = run s i := by
  rw [runAll]
  rcases hrun : run s i with ⟨k, flow⟩
  rw [hrun] at h
  obtain rfl : flow = .halt := h
  rfl

/-! ## Names and guards -/

theorem actOfName_cases (levels : Nat) (x : Name) (i : Interpreter) :
    i.binding? x.text = none ∧ actOfName levels x i = .effect (.fault (.unknownVariable x)) ∨
      (∃ f, f.isGuard = true ∧ actOfName levels x i = .cut f) ∨
      ∃ e, i.binding? x.text = some e ∧ x ∉ i.expanding ∧ 0 < levels ∧ actOfName levels x i = .enter x e := by
  unfold actOfName
  cases i.binding? x.text with
  | none => exact .inl ⟨rfl, rfl⟩
  | some e =>
    by_cases hx : x ∈ i.expanding
    · exact .inr (.inl ⟨_, rfl, if_pos hx⟩)
    · by_cases hl : levels = 0
      · exact .inr (.inl ⟨.depthExceeded x i.limits.depth, rfl, by simp [hx, hl]⟩)
      · exact .inr (.inr ⟨e, rfl, hx, Nat.pos_of_ne_zero hl, by simp [hx, hl]⟩)

/-- A statement that enters a name runs it, and the name is bound and not yet entered. -/
theorem act_enter (h : act levels s i = .enter x e) :
    s = .run x ∧ i.binding? x.text = some e ∧ x ∉ i.expanding ∧ 0 < levels := by
  unfold act at h
  split at h
  · cases h
  · cases s with
    | run y =>
      rcases actOfName_cases levels y i with ⟨-, hact⟩ | ⟨f, -, hact⟩ | ⟨e', hb, hx, hl, hact⟩ <;>
        cases hact.symm.trans h
      exact ⟨rfl, hb, hx, hl⟩
    | _ => cases h

/-- Only guards cut a statement off. -/
theorem act_cut {f : Fault} (h : act levels s i = .cut f) : f.isGuard = true := by
  unfold act at h
  split at h
  · cases h
    rfl
  · cases s with
    | run y =>
      rcases actOfName_cases levels y i with ⟨-, hact⟩ | ⟨g, hg, hact⟩ | ⟨e', -, -, -, hact⟩ <;>
        cases hact.symm.trans h
      exact hg
    | _ => cases h

/-- The operand that a statement needs a number from has none, as following its names trips a guard. -/
def OperandTrips (levels : Nat) (s : Statement) (i : Interpreter) : Prop :=
  i.steps < i.limits.steps ∧ ∃ e f, s.operand? = some e ∧
    value i.bindings i.limits.depth levels [] e = .error f ∧ f.isGuard = true

theorem instruction_fault {build : Int64 → Instruction} {f : Fault} :
    i.instruction levels e build = .fault f ↔ value i.bindings i.limits.depth levels [] e = .error f := by
  unfold instruction
  cases value i.bindings i.limits.depth levels [] e <;> simp

/-- A statement that is not cut off reports a guard's fault only for its operand. -/
theorem operandTrips_iff :
    OperandTrips levels s i ↔ ∃ f, act levels s i = .effect (.fault f) ∧ f.isGuard = true := by
  unfold OperandTrips act
  by_cases hsteps : i.limits.steps < i.steps + 1
  · have hlt : ¬i.steps < i.limits.steps := by omega
    rw [if_pos hsteps]
    simp [hlt]
  · have hlt : i.steps < i.limits.steps := by omega
    rw [if_neg hsteps]
    cases s with
    | rotate e | move e | buy x e | sell x e => simp [Statement.operand?, hlt, instruction_fault]
    | run x =>
      simp only [Statement.operand?, reduceCtorEq, false_and, exists_false, and_false, false_iff]
      rintro ⟨f, hf, hguard⟩
      rcases actOfName_cases levels x i with ⟨-, hact⟩ | ⟨g, -, hact⟩ | ⟨e, -, -, -, hact⟩ <;>
        cases hact.symm.trans hf
      cases hguard
    | echo x => cases hx : i.binding? x.text <;> simp [Statement.operand?, text, Fault.isGuard, hx]
    | _ => simp [Statement.operand?, Fault.isGuard]

/-! ## Counting the faults of guards -/

/-- How many of the queued faults come from guards. -/
def trips (i : Interpreter) : Nat := i.faults.countP Fault.isGuard

/-- Whether the change reports a guard's fault. -/
def Effect.isTrip : Effect → Bool
  | fault f => f.isGuard
  | _ => false

/-- Whether a guard trips. -/
def Act.isTrip : Act → Bool
  | effect f => f.isTrip
  | cut _ => true
  | enter .. => false

theorem report_trips (i : Interpreter) (f : Fault) : (i.report f).trips = i.trips + f.isGuard.toNat := by
  unfold trips report
  cases hf : f.isGuard <;> simp [hf]

theorem apply_trips (f : Effect) (i : Interpreter) : (f.apply i).trips = i.trips + f.isTrip.toNat := by
  cases f with
  | fault f => exact report_trips i f
  | _ => rfl

/-! ## What every run preserves -/

theorem bind_binding? (i : Interpreter) (x : Name) (e : Expr) (y : String) :
    (i.bind x e).binding? y = if x.text = y then some e else i.binding? y := by
  simp [bind, binding?, Std.TreeMap.getElem?_insert]

/-- A relation between the states before and after that every act preserves. -/
structure Preserves (R : Interpreter → Interpreter → Prop) : Prop where
  refl : ∀ i, R i i
  trans : ∀ {i j k}, R i j → R j k → R i k
  effect : ∀ {levels s i f}, act levels s i = .effect f → R i (f.apply i.counted)
  cut : ∀ {levels s i f}, act levels s i = .cut f → R i (i.counted.report f)
  enter : ∀ {levels s i x e k}, act levels s i = .enter x e → R (i.counted.entered x) k → R i k.left

theorem Preserves.runAll {R : Interpreter → Interpreter → Prop} (hR : Preserves R)
    {run : Statement → Interpreter → Interpreter × Flow} (hrun : ∀ s i, R i (run s i).1)
    (ss : List Statement) (i : Interpreter) : R i (runAll run ss i).1 := by
  induction ss generalizing i with
  | nil => exact hR.refl i
  | cons s ss ih =>
    cases hflow : (run s i).2 with
    | goOn =>
      rw [runAll_goOn hflow]
      exact hR.trans (hrun s i) (ih _)
    | halt =>
      rw [runAll_halt hflow]
      exact hrun s i

theorem Preserves.dispatch {R : Interpreter → Interpreter → Prop} (hR : Preserves R) (levels : Nat)
    (s : Statement) (i : Interpreter) : R i (dispatch (follow levels) levels s i).1 := by
  induction levels using Nat.strongRecOn generalizing s i with
  | ind levels ih =>
    rw [dispatch_eq]
    cases hact : act levels s i with
    | effect f => exact hR.effect hact
    | cut f => exact hR.cut hact
    | enter x e =>
      have hlevels := (act_enter hact).2.2.2
      exact hR.enter hact (hR.runAll (ih (levels - 1) (by omega)) e.statements _)

theorem Preserves.runBody {R : Interpreter → Interpreter → Prop} (hR : Preserves R) (levels : Nat)
    (ss : List Statement) (i : Interpreter) : R i (runBody levels ss i).1 :=
  hR.runAll (hR.dispatch levels) ss i

@[simp]
theorem apply_limits (f : Effect) (i : Interpreter) : (f.apply i).limits = i.limits := by
  cases f <;> rfl

@[simp]
theorem apply_expanding (f : Effect) (i : Interpreter) : (f.apply i).expanding = i.expanding := by
  cases f <;> rfl

@[simp]
theorem apply_steps (f : Effect) (i : Interpreter) : (f.apply i).steps = i.steps := by
  cases f <;> rfl

theorem preserves_limits : Preserves fun i k => k.limits = i.limits where
  refl _ := rfl
  trans hij hjk := hjk.trans hij
  effect _ := apply_limits ..
  cut _ := rfl
  enter _ hk := hk

/-- A statement leaves the names entered as it found them. -/
theorem preserves_expanding : Preserves fun i k => k.expanding = i.expanding where
  refl _ := rfl
  trans hij hjk := hjk.trans hij
  effect _ := apply_expanding ..
  cut _ := rfl
  enter _ hk := congrArg List.tail hk

/-- No queued fault is lost. -/
theorem preserves_faults : Preserves fun i k => i.faults.toList <+: k.faults.toList where
  refl _ := List.prefix_rfl
  trans hij hjk := hij.trans hjk
  effect {levels s i f} _ := by
    cases f with
    | fault f => simp [Effect.apply, report, counted]
    | _ => exact List.prefix_rfl
  cut _ := by simp [report, counted]
  enter _ hk := hk

theorem trips_le_of_prefix {i k : Interpreter} (h : i.faults.toList <+: k.faults.toList) : i.trips ≤ k.trips := by
  rw [trips, trips, ← Array.countP_toList, ← Array.countP_toList]
  exact h.sublist.countP_le

/-! ## Statements of a line -/

/-- A statement of a line is dispatched with no steps taken, and with all levels. -/
theorem runStatement_eq (i : Interpreter) (s : Statement) :
    i.runStatement s = (dispatch (follow i.limits.depth) i.limits.depth s { i with steps := 0 }).1.unwound :=
  rfl

end Interpreter

end RobotShell
