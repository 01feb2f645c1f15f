import RobotShell.Proofs.Invariants
import RobotShell.Proofs.Naming
/-!
# The names entered tell the depth

While a statement of a line is run, the statements bound to names are run inside of it, each by a call of
its own, one deeper than the call that enters the name. At every call the names entered are as many as the
call is deep, they are bound and no two of them are the same. Every call leaves them as it found them, those
that are abandoned among them.
-/

namespace RobotShell.Interpreter

open Machine Relation

/-- The states between calls: what is new, and what statements and callers leave. -/
inductive Reachable : Interpreter → Prop
  | new (l : Limits) : Reachable (new l)
  | statement {i : Interpreter} (h : Reachable i) (s : Statement) : Reachable (i.runStatement s)
  | call {i : Interpreter} (h : Reachable i) (c : Call) : Reachable (c.run i).2

/-- One statement is run, inside of `depth` names, from where `levels` names may still be followed. -/
structure Dispatch where
  depth : Nat
  levels : Nat
  statement : Statement
  state : Interpreter

namespace Dispatch

/-- The call that runs a statement of a line. -/
def top (i : Interpreter) (s : Statement) : Dispatch := ⟨0, i.limits.depth, s, { i with steps := 0 }⟩

/-- What the call leaves, and whether its caller goes on. -/
def result (c : Dispatch) : Interpreter × Flow := dispatch (follow c.levels) c.levels c.statement c.state

/-- The calls that a call makes itself: it enters a name, and of the statements bound there it runs one after
the other, as long as none is abandoned. -/
inductive Makes : Dispatch → Dispatch → Prop
  | mk {c : Dispatch} {x : Name} {e : Expr} {s : Statement} {k : Interpreter} (before after : List Statement)
    (henter : act c.levels c.statement c.state = .enter x e) (hbody : e.statements = before ++ s :: after)
    (hbefore : runBody (c.levels - 1) before (c.state.counted.entered x) = (k, .goOn)) :
    Makes c ⟨c.depth + 1, c.levels - 1, s, k⟩

/-- What the names entered are at a call, under the limits `l`. -/
structure Mirrors (l : Limits) (c : Dispatch) : Prop where
  limits : c.state.limits = l
  depth : c.depth + c.levels = l.depth
  length : c.state.expanding.length = c.depth
  distinct : c.state.expanding.Nodup
  bound : ∀ x ∈ c.state.expanding, (c.state.binding? x.text).isSome

variable {l : Limits} {c c' c₀ : Dispatch} {i k : Interpreter} {s : Statement} {ss ss' : List Statement}
  {fs : List Frame} {levels : Nat} {m m' : Machine}

/-! ## One call -/

/-- However a call ends, the names entered are those that it found. -/
theorem result_expanding (c : Dispatch) : c.result.1.expanding = c.state.expanding :=
  preserves_expanding.dispatch c.levels c.statement c.state

theorem Makes.mirrors (h : Makes c c') (hc : Mirrors l c) : Mirrors l c' := by
  obtain @⟨x, e, s, k, before, after, henter, hbody, hbefore⟩ := h
  obtain ⟨-, hx, hnew, hlevels⟩ := act_enter henter
  have hdepth := hc.depth
  -- the statements in front have kept the names entered, and what was bound still is
  have hexpanding : k.expanding = x :: c.state.expanding := by
    have hkept := preserves_expanding.runBody (c.levels - 1) before (c.state.counted.entered x)
    rwa [hbefore] at hkept
  have hextends : Extends (c.state.counted.entered x) k := by
    have hkept := preserves_extends.runBody (c.levels - 1) before (c.state.counted.entered x)
    rwa [hbefore] at hkept
  refine ⟨hextends.limits.trans hc.limits, ?depth, ?length, ?distinct, ?bound⟩
  case depth =>
    show c.depth + 1 + (c.levels - 1) = l.depth
    omega
  case length =>
    show k.expanding.length = c.depth + 1
    rw [hexpanding, List.length_cons, hc.length]
  case distinct =>
    show k.expanding.Nodup
    rw [hexpanding]
    exact List.nodup_cons.2 ⟨hnew, hc.distinct⟩
  case bound =>
    intro y hy
    refine hextends.bound y.text ?_
    rcases List.mem_cons.1 (hexpanding ▸ hy) with rfl | hy
    · exact Option.isSome_of_eq_some hx
    · exact hc.bound y hy

/-! ## All calls of a statement -/

theorem mirrors_of_makes (h : ReflTransGen Makes c c') (hc : Mirrors l c) : Mirrors l c' := by
  induction h with
  | refl => exact hc
  | tail _ hmakes ih => exact hmakes.mirrors ih

theorem mirrors_top (hi : i.expanding = []) (s : Statement) : Mirrors i.limits (top i s) := by
  have hnone : (top i s).state.expanding = [] := hi
  refine ⟨rfl, Nat.zero_add _, ?_, ?_, ?_⟩ <;> rw [hnone]
  · rfl
  · exact List.nodup_nil
  · exact nofun

/-! ## No call is missed

The frames of a run, one step at a time, are those of the calls that have not returned yet. -/

theorem runBody_append (h : runBody levels ss i = (k, .goOn)) :
    runBody levels (ss ++ ss') i = runBody levels ss' k := by
  induction ss generalizing i with
  | nil =>
    cases h
    rfl
  | cons s ss ih =>
    unfold runBody at h ih ⊢
    cases hflow : (dispatch (follow levels) levels s i).2 with
    | goOn =>
      rw [runAll_goOn hflow] at h
      rw [List.cons_append, runAll_goOn hflow]
      exact ih h
    | halt =>
      rw [runAll_halt hflow] at h
      cases (congrArg Prod.snd h).symm.trans hflow

/-- The frames of a moment of the run of `c₀`. That of a name belongs to the call that has entered it, which
goes on with the frames below when it returns. -/
inductive Stacked (c₀ : Dispatch) : Interpreter → List Frame → Prop
  | ended {k : Interpreter} : Stacked c₀ k []
  | done {k : Interpreter} : Stacked c₀ k [⟨c₀.levels, []⟩]
  | first (hdepth : c₀.depth = 0) : Stacked c₀ c₀.state [⟨c₀.levels, [c₀.statement]⟩]
  | inside {c : Dispatch} {x : Name} {e : Expr} {after ss : List Statement} {k : Interpreter} {fs : List Frame}
    (before : List Statement) (hc : ReflTransGen Makes c₀ c) (hdepth : c.depth = fs.length)
    (henter : act c.levels c.statement c.state = .enter x e) (hbody : e.statements = before ++ after)
    (hbefore : runBody (c.levels - 1) before (c.state.counted.entered x) = (k, .goOn))
    (hback : c.result.2 = .goOn → Stacked c₀ c.result.1 (⟨c.levels, ss⟩ :: fs)) :
    Stacked c₀ k (⟨c.levels - 1, after⟩ :: ⟨c.levels, ss⟩ :: fs)

/-- The statement that comes next is run by a call, behind which the frames stay. -/
theorem Stacked.next (h : Stacked c₀ k (⟨levels, s :: ss⟩ :: fs)) :
    ReflTransGen Makes c₀ ⟨fs.length, levels, s, k⟩ ∧
      ((dispatch (follow levels) levels s k).2 = .goOn →
        Stacked c₀ (dispatch (follow levels) levels s k).1 (⟨levels, ss⟩ :: fs)) := by
  cases h with
  | first hdepth =>
    have hc₀ : (⟨0, c₀.levels, c₀.statement, c₀.state⟩ : Dispatch) = c₀ := by rw [← hdepth]
    exact ⟨by rw [List.length_nil, hc₀], fun _ => .done⟩
  | @inside c x e _ ss' _ fs before hc hdepth henter hbody hbefore hback =>
    refine ⟨hc.tail ?_, fun hflow => ?_⟩
    · rw [List.length_cons, ← hdepth]
      exact .mk before ss henter hbody hbefore
    · refine .inside (before ++ [s]) hc hdepth henter (by simpa using hbody) ?_ hback
      rw [runBody_append hbefore, runBody, runAll_goOn hflow]
      rfl

theorem Stacked.step (h : Stacked c₀ m.state m.frames) (hstep : Step m m') : Stacked c₀ m'.state m'.frames := by
  cases hstep with
  | @effect i f levels s ss fs hact =>
    have hresult : dispatch (follow levels) levels s i = (f.apply i.counted, .goOn) := by rw [dispatch_eq, hact]; rfl
    have hnext := h.next.2
    rw [hresult] at hnext
    exact hnext rfl
  | cut => exact .ended
  | @enter i x e levels s ss fs hact =>
    obtain ⟨hmade, hback⟩ := h.next
    exact .inside (c := ⟨fs.length, levels, s, i⟩) [] hmade rfl hact rfl rfl hback
  | @leave k levels fs =>
    cases h with
    | done => exact .ended
    | @inside c x e _ ss _ fs before _ _ henter hbody hbefore hback =>
      -- the last statement of the name has been run, and so the call that has entered it returns
      rw [List.append_nil] at hbody
      have hresult : c.result = (k.left, .goOn) := by
        rw [result, dispatch_eq, henter, Act.perform, hbody, hbefore]
      rw [hresult] at hback
      exact hback rfl

theorem stacked_of_steps (h : Steps (start i s) m) : Stacked (top i s) m.state m.frames := by
  induction h with
  | refl => exact .first rfl
  | tail _ hstep ih => exact ih.step hstep

end Dispatch

open Dispatch

variable {i : Interpreter}

theorem Reachable.expanding (h : Reachable i) : i.expanding = [] := by
  induction h with
  | new | statement => rfl
  | call _ c ih => exact expanding_run ih c

/-- A statement of a line is run by a call, and whenever a statement comes next in that run, a call runs it. At
every call the names entered are as many as the call is deep, no two of them are the same, all of them are bound,
and there are no more than the limit admits. The call leaves them as it found them, whether or not it is
abandoned. -/
theorem runStatement_expanding (hi : Reachable i) (s : Statement) :
    i.runStatement s = (top i s).result.1.unwound ∧
      (∀ k levels s' ss fs, Steps (start i s) ⟨k, ⟨levels, s' :: ss⟩ :: fs⟩ →
        ReflTransGen Makes (top i s) ⟨fs.length, levels, s', k⟩) ∧
      ∀ c, ReflTransGen Makes (top i s) c →
        c.state.expanding.length = c.depth ∧ c.state.expanding.Nodup ∧
          (∀ x ∈ c.state.expanding, (c.state.binding? x.text).isSome) ∧ c.depth ≤ i.limits.depth ∧
          c.result.1.expanding = c.state.expanding := by
  refine ⟨runStatement_eq i s, fun k levels s' ss fs h => (stacked_of_steps h).next.1, fun c hc => ?_⟩
  have hmirrors := mirrors_of_makes hc (mirrors_top hi.expanding s)
  have hdepth := hmirrors.depth
  exact ⟨hmirrors.length, hmirrors.distinct, hmirrors.bound, by omega, result_expanding c⟩

/-- A name that is bound anew while it is run is still entered, and the call that meets it again is abandoned and
leaves the names as they are. -/
theorem runStatement_expanding_rebound :
    ∃ i c, Reachable i ∧ ReflTransGen Makes (top i (.run ⟨"a"⟩)) c ∧ c.statement = .run ⟨"a"⟩ ∧ c.depth = 2 ∧
      c.state.expanding = [⟨"b"⟩, ⟨"a"⟩] ∧ c.result.2 = .halt ∧ c.result.1.expanding = [⟨"b"⟩, ⟨"a"⟩] := by
  let a := Call.line "let a = (help && let a = 1 && b)"
  let b := Call.line "let b = (a && move 1)"
  let i := (b.run (a.run (new .default)).2).2
  have hi : Reachable i := .call (.call (.new .default) a) b
  -- `a` is run, and `b` in it
  have ha : i.binding? "a" = some (.seq .help (.seq (.assign ⟨"a"⟩ (.int 1)) (.name ⟨"b"⟩))) := by decide +kernel
  have hentera : act i.limits.depth (.run ⟨"a"⟩) (top i (.run ⟨"a"⟩)).state = .enter ⟨"a"⟩ _ :=
    act_run ha (by decide +kernel)
  let n := i.limits.depth - 1
  let k := (runBody n [.help, .assign ⟨"a"⟩ (.int 1)] ((top i (.run ⟨"a"⟩)).state.counted.entered ⟨"a"⟩)).1
  have hfirst : Makes (top i (.run ⟨"a"⟩)) ⟨1, n, .run ⟨"b"⟩, k⟩ :=
    .mk [.help, .assign ⟨"a"⟩ (.int 1)] [] hentera (by decide +kernel) (Prod.ext rfl (by decide +kernel))
  -- `b` runs `a` again
  have hb : k.binding? "b" = some (.seq (.name ⟨"a"⟩) (.move (.int 1))) := by decide +kernel
  have henterb : act n (.run ⟨"b"⟩) k = .enter ⟨"b"⟩ _ := act_run hb (by decide +kernel)
  have hsecond : Makes ⟨1, n, .run ⟨"b"⟩, k⟩ ⟨2, n - 1, .run ⟨"a"⟩, k.counted.entered ⟨"b"⟩⟩ :=
    .mk [] [.move (.int 1)] henterb (by decide +kernel) rfl
  have hc := (ReflTransGen.single hfirst).tail hsecond
  have hexpanding : (k.counted.entered ⟨"b"⟩).expanding = [⟨"b"⟩, ⟨"a"⟩] := by decide +kernel
  obtain ⟨-, -, -, -, hkept⟩ := (runStatement_expanding hi (.run ⟨"a"⟩)).2.2 _ hc
  exact ⟨i, _, hi, hc, rfl, rfl, hexpanding, by decide +kernel, hkept.trans hexpanding⟩

end RobotShell.Interpreter
