import RobotShell.Proofs.Formed
import RobotShell.Proofs.Sessions
/-!
# What every session keeps

An interpreter is changed by the effects of statements and by the faults of guards, and by nothing else.
`Yields` says which effects a statement can have and what they are made of. A property of states that no
effect breaks holds at every moment of a run, and so it holds behind every line. What is known of the
trees that are read is known of those that are bound, at whatever depth they were bound.
-/

namespace RobotShell

open Interpreter Relation

/-- The tree that a statement was made from. -/
def Statement.expr : Statement → Expr
  | malformed message col => .error message col
  | unrecognized e => e
  | quit => .quit
  | stop => .stop
  | assign x e => .assign x e
  | run x => .name x
  | help => .help
  | echo x => .echo x
  | rotate e => .rotate e
  | move e => .move e
  | buy x e => .buy x e
  | sell x e => .sell x e
  | inventory => .inventory
  | marketPrices => .marketPrices
  | cityPrices => .cityPrices

/-- The ware that a statement trades in. -/
def Statement.ware? : Statement → Option Name
  | buy x _ | sell x _ => some x
  | _ => none

/-- The ware that an instruction names. -/
def Instruction.ware? : Instruction → Option Name
  | buy x _ | sell x _ => some x
  | _ => none

variable {T : Expr → Prop} {I : Interpreter → Prop} {levels : Nat} {s : Statement} {e : Expr} {f : Effect}
  {i k : Interpreter} {m m' : Machine}

namespace Interpreter

/-- The effect that a statement has, told by what the effect is made of. -/
inductive Yields (levels : Nat) (i : Interpreter) : Statement → Effect → Prop
  | malformed (message : String) (col : Nat) : Yields levels i (.malformed message col) (.fault (.malformed message col))
  | unrecognized (e : Expr) : Yields levels i (.unrecognized e) (.fault .unrecognized)
  | unbound {s : Statement} {x : Name} (hs : s = .run x ∨ s = .echo x) : Yields levels i s (.fault (.unknownVariable x))
  | noNumber {s : Statement} {e : Expr} {f : Fault} (hs : s.operand? = some e)
    (hf : value i.bindings i.limits.depth levels [] e = .error f) : Yields levels i s (.fault f)
  | help : Yields levels i .help (.tell helpText)
  | echo {x : Name} {e : Expr} (hx : i.binding? x.text = some e) : Yields levels i (.echo x) (.tell e.display)
  | instruct {s : Statement} {c : Instruction} (hware : c.ware? = s.ware?) (hc : c ≠ .stop) :
    Yields levels i s (.instruct c)
  | stop : Yields levels i .stop .stop
  | bind (x : Name) (e : Expr) : Yields levels i (.assign x e) (.bind x e)
  | quit : Yields levels i .quit .quit

/-! ## Where effects come from -/

theorem instruction_yields {build : Int64 → Instruction} (hs : s.operand? = some e)
    (hware : ∀ n, (build n).ware? = s.ware?) (hstop : ∀ n, build n ≠ .stop) :
    Yields levels i s (i.instruction levels e build) := by
  unfold instruction
  cases hvalue : value i.bindings i.limits.depth levels [] e with
  | ok n => exact .instruct (hware n) (hstop n)
  | error f => exact .noNumber hs hvalue

theorem act_yields (h : act levels s i = .effect f) : Yields levels i s f := by
  unfold act at h
  split at h
  · cases h
  · cases s with
    | run x =>
      rcases actOfName_cases levels x i with ⟨-, hact⟩ | ⟨g, -, hact⟩ | ⟨e, -, -, -, hact⟩ <;>
        cases hact.symm.trans h
      exact .unbound (.inl rfl)
    | echo x =>
      obtain rfl := Act.effect.inj h
      unfold text
      cases hx : i.binding? x.text with
      | some e => exact .echo hx
      | none => exact .unbound (.inr rfl)
    | rotate e | move e | buy x e | sell x e =>
      obtain rfl := Act.effect.inj h
      exact instruction_yields rfl (fun _ => rfl) nofun
    | inventory | marketPrices | cityPrices =>
      cases h
      exact .instruct rfl nofun
    | malformed | unrecognized | quit | stop | assign | help =>
      cases h
      constructor

/-- Only a step that is refused and a name that is run cut a statement off. -/
theorem act_cut_of {g : Fault} (h : act levels s i = .cut g) :
    g = .stepsExceeded i.limits.steps ∨
      ∃ x, s = .run x ∧ (g = .selfReference x ∨ g = .depthExceeded x i.limits.depth) := by
  unfold act at h
  split at h
  · cases h
    exact .inl rfl
  · cases s with
    | run x =>
      refine .inr ⟨x, rfl, ?_⟩
      simp only [actOfName] at h
      split at h
      · cases h
      · split_ifs at h
        · cases h
          exact .inl rfl
        · cases h
          exact .inr rfl
    | _ => cases h

end Interpreter

/-- A property of trees that passes to the parts of a chain passes to the statements of a tree. -/
theorem Expr.of_mem_statements (hT : ∀ {a b}, T (.seq a b) → T a ∧ T b) (he : T e) :
    ∀ s ∈ e.statements, T s.expr := by
  induction e with
  | seq left right ihl ihr =>
    obtain ⟨hl, hr⟩ := hT he
    intro s hs
    rw [statements_seq, List.mem_append] at hs
    exact hs.elim (ihl hl s) (ihr hr s)
  | _ => simpa [statements, flatten, Statement.expr] using he

/-! ## Runs -/

/-- No effect of a statement breaks `I`, as long as `T` holds of the trees that are run. `T` passes to the
parts of a chain and holds of what is bound, so it holds of all that is run by way of a name. `I` does not
look at the steps taken, nor at the names entered. -/
structure Maintains (T : Expr → Prop) (I : Interpreter → Prop) : Prop where
  parts : ∀ {a b}, T (.seq a b) → T a ∧ T b
  settled : ∀ {i}, I i.settled ↔ I i
  bound : ∀ {i x e}, I i → i.binding? x = some e → T e
  effect : ∀ {levels s i f}, I i → T s.expr → Yields levels i s f → I (f.apply i)
  cut : ∀ {levels s i g}, I i → T s.expr → act levels s i = .cut g → I (i.report g)

/-- What `I` and `T` say of a moment of a run. -/
def Machine.Holds (T : Expr → Prop) (I : Interpreter → Prop) (m : Machine) : Prop :=
  I m.state ∧ ∀ f ∈ m.frames, ∀ s ∈ f.todo, T s.expr

namespace Maintains

theorem congr (h : Maintains T I) (hi : I i) (hik : i.settled = k.settled) : I k := by
  rw [← h.settled, ← hik]
  exact h.settled.2 hi

theorem step (h : Maintains T I) (hm : m.Holds T I) (hstep : Machine.Step m m') : m'.Holds T I := by
  obtain ⟨hi, hframes⟩ := hm
  cases hstep with
  | @effect i f levels s ss fs hact =>
    obtain ⟨⟨hs, hss⟩, hfs⟩ := by simpa using hframes
    refine ⟨h.congr (h.effect hi hs (act_yields hact)) ?_, by simpa using ⟨hss, hfs⟩⟩
    rw [apply_settled, apply_settled]
    rfl
  | @cut i g levels s ss fs hact =>
    obtain ⟨⟨hs, -⟩, -⟩ := by simpa using hframes
    exact ⟨h.congr (h.cut hi hs hact) rfl, nofun⟩
  | @enter i x e levels s ss fs hact =>
    obtain ⟨⟨-, hss⟩, hfs⟩ := by simpa using hframes
    -- what is run now was bound, so `T` holds of it
    have he : T e := h.bound hi (act_enter hact).2.1
    exact ⟨h.congr hi rfl, by simpa using ⟨Expr.of_mem_statements h.parts he, hss, hfs⟩⟩
  | leave => exact ⟨h.congr hi rfl, fun f hf => hframes f (List.mem_cons_of_mem _ hf)⟩

theorem steps (h : Maintains T I) (hm : m.Holds T I) (hsteps : Machine.Steps m m') : m'.Holds T I := by
  induction hsteps with
  | refl => exact hm
  | tail _ hstep ih => exact h.step ih hstep

theorem runStatement (h : Maintains T I) (hi : I i) (hs : T s.expr) : I (i.runStatement s) := by
  obtain ⟨j, hj, hend⟩ := Machine.start_reaches i s
  have hstart : (Machine.start i s).Holds T I := ⟨h.congr hi rfl, by simpa [Machine.start] using hs⟩
  rw [← hend]
  exact h.congr (h.steps hstart hj).1 rfl

/-- What holds of a state and of the tree of a line holds behind the line. -/
theorem runLine (h : Maintains T I) {text : String} (hi : I i) (he : ∀ e, Expr.ofString? text = some e → T e) :
    I (i.runLine text) := by
  have hstatements : ∀ s ∈ lineStatements text, T s.expr := by
    unfold lineStatements
    cases htree : Expr.ofString? text with
    | none => nofun
    | some e => exact Expr.of_mem_statements h.parts (he e htree)
  rw [runLine_eq]
  generalize lineStatements text = ss at hstatements ⊢
  induction ss generalizing i with
  | nil => exact hi
  | cons s ss ih =>
    obtain ⟨hs, hss⟩ := List.forall_mem_cons.1 hstatements
    exact ih (h.runStatement hi hs) hss

end Maintains

/-! ## Calls -/

namespace Interpreter

/-- A `stop` stands in front of all other instructions, and what is bound has been read from a line. -/
structure Orderly (i : Interpreter) : Prop where
  stop : ∀ n, i.instructions[n]? = some .stop → n = 0
  bound : ∀ x e, i.binding? x = some e → Name.IsFree ⟨x⟩ ∧ e.Formed ∧ e.isError = false

/-- What is never forgotten: `k` is a later state than `i`. -/
structure Extends (i k : Interpreter) : Prop where
  limits : k.limits = i.limits
  bound : ∀ x, (i.binding? x).isSome → (k.binding? x).isSome
  quit : i.quit = true → k.quit = true

variable {calls : List Call} {c : Call}

/-- What every call keeps is kept by a session. -/
theorem session_induction (h : ∀ c ∈ calls, ∀ i, I i → I (c.run i).2) (hi : I i) : I (session calls i).2 := by
  induction calls generalizing i with
  | nil => exact hi
  | cons c calls ih =>
    obtain ⟨hc, hcalls⟩ := List.forall_mem_cons.1 h
    exact ih hcalls (hc i hi)

/-- A call moves elements out of the queues, if any, or it runs a line, or it queues the reason why a tree
has no number. -/
theorem run_cases (c : Call) (i : Interpreter) :
    Untaken (c.run i).1 (c.run i).2 i ∨ (∃ text, c = .line text) ∨
      ∃ e g, c = .evaluate e ∧ value i.bindings i.limits.depth i.limits.depth [] e = .error g ∧
        c.run i = ({}, i.report g) := by
  have hnone : Untaken {} i i := ⟨⟨rfl, rfl, fun _ => rfl⟩, rfl, rfl, rfl, rfl⟩
  cases htakes : c.takes with
  | true => exact .inl (by simpa [Taken.append] using hnone.take htakes)
  | false =>
    cases c with
    | line text => exact .inr (.inl ⟨text, rfl⟩)
    | evaluate e =>
      -- where there is a number, nothing changes, as if nothing was taken
      cases hvalue : value i.bindings i.limits.depth i.limits.depth [] e with
      | ok n => exact .inl (by simpa [Call.run, evaluate, hvalue] using hnone)
      | error g => exact .inr (.inr ⟨e, g, rfl, hvalue, by simp [Call.run, evaluate, hvalue]⟩)
    | _ => cases htakes

/-- What is bound behind a binding was bound before, or is what it has bound. -/
theorem binding?_of_bind {x : Name} {y : String} {e' : Expr} (h : (i.bind x e).binding? y = some e') :
    x.text = y ∧ e = e' ∨ i.binding? y = some e' := by
  rw [bind_binding?] at h
  split at h
  · exact .inl ⟨‹_›, Option.some.inj h⟩
  · exact .inr h

theorem maintains_orderly : Maintains Expr.Formed Orderly where
  parts h := by
    cases h with
    | seq hl hr => exact ⟨hl, hr⟩
  settled := ⟨fun h => ⟨h.stop, h.bound⟩, fun h => ⟨h.stop, h.bound⟩⟩
  bound h hx := (h.bound _ _ hx).2.1
  effect {levels s i f} h hs hf := by
    cases hf with
    | malformed | unrecognized | unbound | noNumber | help | echo | quit => exact ⟨h.stop, h.bound⟩
    | @instruct s c hware hc =>
      refine ⟨fun n hn => ?_, h.bound⟩
      have hpush : (i.instructions.push c)[n]? = some .stop := hn
      rw [Array.getElem?_push] at hpush
      split at hpush
      · exact absurd (Option.some.inj hpush) hc
      · exact h.stop n hpush
    | stop =>
      refine ⟨fun n hn => ?_, h.bound⟩
      obtain ⟨hlt, -⟩ := Array.getElem?_eq_some_iff.1 hn
      exact Nat.lt_one_iff.1 hlt
    | bind x e =>
      refine ⟨h.stop, fun y e' hy => ?_⟩
      rcases binding?_of_bind hy with ⟨rfl, rfl⟩ | hold
      · cases hs with
        | assign hx he hread => exact ⟨hx, he, hread⟩
      · exact h.bound y e' hold
  cut h _ _ := ⟨h.stop, h.bound⟩

theorem Orderly.run (h : Orderly i) (c : Call) : Orderly (c.run i).2 := by
  rcases run_cases c i with huntaken | ⟨text, rfl⟩ | ⟨e, g, -, -, hrun⟩
  · refine ⟨fun n hn => ?_, fun x e hx => h.bound x e (by rw [huntaken.twins.binding?, hx])⟩
    have hfirst : i.instructions[(c.run i).1.instructions.length + n]? = some .stop := by
      rw [← Array.getElem?_toList, huntaken.instructions, List.getElem?_append_right (by omega)]
      simpa using hn
    have hzero := h.stop _ hfirst
    omega
  · exact maintains_orderly.runLine h fun e he => Expr.ofString?_formed he
  · rw [hrun]
    exact ⟨h.stop, h.bound⟩

theorem preserves_extends : Preserves Extends where
  refl i := ⟨rfl, fun _ => id, id⟩
  trans hij hjk := ⟨hjk.limits.trans hij.limits, fun x hx => hjk.bound x (hij.bound x hx), hjk.quit ∘ hij.quit⟩
  effect {levels s i f} _ := by
    refine ⟨apply_limits .., fun x hx => ?_, fun hq => ?_⟩
    · cases f with
      | bind y e =>
        rw [Effect.apply, bind_binding?]
        split
        · rfl
        · exact hx
      | _ => exact hx
    · cases f with
      | quit => rfl
      | _ => exact hq
  cut _ := ⟨rfl, fun _ => id, id⟩
  enter _ h := ⟨h.limits, h.bound, h.quit⟩

theorem foldl_extends (i : Interpreter) (ss : List Statement) : Extends i (ss.foldl runStatement i) := by
  induction ss generalizing i with
  | nil => exact preserves_extends.refl i
  | cons s ss ih =>
    have hs := preserves_extends.dispatch i.limits.depth s { i with steps := 0 }
    have hfirst : Extends i (i.runStatement s) := ⟨hs.limits, hs.bound, hs.quit⟩
    exact preserves_extends.trans hfirst (ih _)

theorem Extends.run (h : Extends k i) (c : Call) : Extends k (c.run i).2 := by
  refine preserves_extends.trans h ?_
  rcases run_cases c i with huntaken | ⟨text, rfl⟩ | ⟨e, g, -, -, hrun⟩
  · exact ⟨huntaken.twins.limits.symm, fun x hx => by rwa [← huntaken.twins.binding?], fun hq => huntaken.quit ▸ hq⟩
  · rw [Call.run, runLine_eq]
    exact foldl_extends i _
  · rw [hrun]
    exact ⟨rfl, fun _ => id, id⟩

theorem foldl_expanding (h : i.expanding = []) (ss : List Statement) : (ss.foldl runStatement i).expanding = [] := by
  induction ss generalizing i with
  | nil => exact h
  | cons s ss ih => exact ih rfl

/-- No name is entered between calls. -/
theorem expanding_run (h : i.expanding = []) (c : Call) : (c.run i).2.expanding = [] := by
  rcases run_cases c i with huntaken | ⟨text, rfl⟩ | ⟨e, g, -, -, hrun⟩
  · rw [← huntaken.twins.expanding, h]
  · rw [Call.run, runLine_eq]
    exact foldl_expanding h _
  · rw [hrun]
    exact h

/-! ## Sessions -/

/-- What holds of an interpreter between calls, if `l` are the limits that it was made with. The names it is
inside of are none, even where a statement has been cut off and before anything is cleared. -/
structure Sound (l : Limits) (i : Interpreter) : Prop where
  limits : i.limits = l.clamp
  depth : 1 ≤ i.limits.depth ∧ i.limits.depth ≤ 512
  steps : 1 ≤ i.limits.steps
  expanding : i.expanding = []
  cutOff : ∀ levels s, (dispatch (follow levels) levels s i).1.expanding = []
  stop : ∀ n, i.instructions[n]? = some .stop → n = 0
  names : ∀ x e, i.binding? x = some e → Name.IsFree ⟨x⟩
  trees : ∀ x e, i.binding? x = some e → e.isError = false ∧ e.operandsRead = true

/-- What holds of every interpreter between any two calls, whatever limits it was made with and whatever is
done with it, and what of it lasts. -/
theorem session_sound (l : Limits) (calls later : List Call) :
    Sound l (session calls (new l)).2 ∧
      Extends (session calls (new l)).2 (session later (session calls (new l)).2).2 := by
  have hnew : Orderly (new l) := ⟨fun _ h => (by simp [new] at h), fun _ _ h => (by simp [new, binding?] at h)⟩
  have horderly : Orderly (session calls (new l)).2 := session_induction (fun c _ _ h => h.run c) hnew
  have hlimits : (session calls (new l)).2.limits = l.clamp :=
    (session_induction (I := Extends (new l)) (fun c _ _ h => h.run c) (preserves_extends.refl _)).limits
  have hexpanding : (session calls (new l)).2.expanding = [] :=
    session_induction (I := (·.expanding = [])) (fun c _ _ h => expanding_run h c) rfl
  obtain ⟨hlow, hhigh, hsteps⟩ := l.clamp_bounds
  refine ⟨⟨hlimits, ?_, ?_, hexpanding, fun levels s => ?_, horderly.stop, ?_, ?_⟩, ?_⟩
  · exact hlimits ▸ ⟨hlow, hhigh⟩
  · exact hlimits ▸ hsteps
  · rw [preserves_expanding.dispatch, hexpanding]
  · exact fun x e hx => (horderly.bound x e hx).1
  · intro x e hx
    obtain ⟨-, hformed, hread⟩ := horderly.bound x e hx
    exact ⟨hread, hformed.operandsRead⟩
  · exact session_induction (fun c _ _ h => h.run c) (preserves_extends.refl _)

end Interpreter

end RobotShell
