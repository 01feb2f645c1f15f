import RobotShell.Proofs.Invariants
import RobotShell.Proofs.Naming
/-!
# Self reference is never reported in error

A variable refers to those that occur in the tree bound to it. While a name is run, the names it is inside
of lie on a path of references, so a name that is met again closes a cycle of them. The names that an
operand is followed through lie on such a path too. What is bound could change on the way only by a `let`
inside of a bound tree, and where there is none, every self reference that is reported is one of the state
before.
-/

namespace RobotShell

open Relation

/-- The variables that occur in a tree. -/
def Expr.variables : Expr → List Name
  | .name x => [x]
  | .seq left right => left.variables ++ right.variables
  | .assign _ e | .rotate e | .move e | .buy _ e | .sell _ e => e.variables
  | _ => []

/-- Whether a `let` occurs in a tree. -/
def Expr.binds : Expr → Bool
  | .assign _ _ => true
  | .seq left right => left.binds || right.binds
  | .rotate e | .move e | .buy _ e | .sell _ e => e.binds
  | _ => false

namespace Interpreter

/-- The variable `y` occurs in the tree bound to `x`. -/
def RefersTo (i : Interpreter) (x y : Name) : Prop := ∃ e, i.binding? x.text = some e ∧ y ∈ e.variables

/-- What is bound in `k` is what is bound in `i`, and the self references reported since `i` are cycles of
references there. -/
structure Truthful (i k : Interpreter) : Prop where
  binding? : ∀ x, k.binding? x = i.binding? x
  faults : ∃ fs, k.faults.toList = i.faults.toList ++ fs ∧ ∀ x, .selfReference x ∈ fs → TransGen i.RefersTo x x

variable {levels : Nat} {s : Statement} {ss : List Statement} {x y : Name} {e : Expr} {i k : Interpreter} {f : Fault}

/-! ## Statements of a tree -/

theorem mem_variables_of_run (h : .run y ∈ e.statements) : y ∈ e.variables := by
  have hparts : ∀ {a b : Expr}, (a.seq b).variables ⊆ e.variables →
      a.variables ⊆ e.variables ∧ b.variables ⊆ e.variables :=
    List.append_subset.1
  exact Expr.of_mem_statements (T := fun a => a.variables ⊆ e.variables) hparts (List.Subset.refl _) _ h
    List.mem_cons_self

theorem ne_assign_of_binds (h : e.binds = false) (hs : s ∈ e.statements) (x : Name) (v : Expr) : s ≠ .assign x v := by
  rintro rfl
  have hparts : ∀ {a b : Expr}, (a.seq b).binds = false → a.binds = false ∧ b.binds = false := Bool.or_eq_false_iff.1
  cases Expr.of_mem_statements (T := fun a => a.binds = false) hparts h _ hs

/-! ## The names that an operand is followed through -/

/-- A name that following an operand comes back to refers to itself, if those followed so far refer to the
one that is followed next. -/
theorem value_selfReference {limit : Nat} {seen : List Name}
    (h : value i.bindings limit levels seen e = .error (.selfReference x))
    (hpath : ∀ y, e = .name y → ∀ z ∈ seen, TransGen i.RefersTo z y) : TransGen i.RefersTo x x := by
  fun_induction value i.bindings limit levels seen e with
  | case1 | case3 | case4 | case6 => cases h
  | case2 levels seen y hmem =>
    cases h
    exact hpath x rfl x hmem
  | case5 seen y hmem b hsome levels ih =>
    refine ih h fun z hz w hw => ?_
    have hyz : i.RefersTo y z := ⟨b, hsome, by rw [hz]; exact List.mem_cons_self⟩
    rcases List.mem_cons.1 hw with rfl | hw
    · exact .single hyz
    · exact (hpath y rfl w hw).tail hyz

/-! ## One statement -/

theorem Truthful.report (h : Truthful i k) (hf : ∀ x, f = .selfReference x → TransGen i.RefersTo x x) :
    Truthful i (k.report f) := by
  obtain ⟨hb, fs, hfs, hcycles⟩ := h
  refine ⟨hb, fs ++ [f], by simp [Interpreter.report, hfs], fun x hx => ?_⟩
  rcases List.mem_append.1 hx with hx | hx
  · exact hcycles x hx
  · exact hf x (List.mem_singleton.1 hx).symm

theorem Truthful.refersTo (h : Truthful i k) : k.RefersTo = i.RefersTo := by
  funext x y
  unfold RefersTo
  rw [h.binding?]

/-- Only a name that is being run is cut off for a self reference. -/
theorem act_cut_selfReference (h : act levels s k = .cut (.selfReference x)) : s = .run x ∧ x ∈ k.expanding := by
  unfold act at h
  split at h
  · cases h
  · cases s with
    | run y =>
      simp only [actOfName] at h
      split at h
      · cases h
      · split_ifs at h with hmem
        · cases h
          exact ⟨rfl, hmem⟩
        · cases h
    | _ => cases h

/-! ## Runs -/

theorem runBody_truthful {xs : List Name}
    (hrun : ∀ s ∈ ss, ∀ k, Truthful i k → k.expanding = xs → Truthful i (dispatch (follow levels) levels s k).1)
    (h : Truthful i k) (hk : k.expanding = xs) : Truthful i (runBody levels ss k).1 := by
  induction ss generalizing k with
  | nil => exact h
  | cons s ss ih =>
    obtain ⟨hs, hss⟩ := List.forall_mem_cons.1 hrun
    unfold runBody
    cases hflow : (dispatch (follow levels) levels s k).2 with
    | goOn =>
      rw [runAll_goOn hflow]
      exact ih hss (hs k h hk) ((preserves_expanding.dispatch levels s k).trans hk)
    | halt =>
      rw [runAll_halt hflow]
      exact hs k h hk

/-- A statement stays truthful if it binds nothing, and if the names it is inside of refer to the one that
it runs. -/
theorem dispatch_truthful (hlets : ∀ x e, i.binding? x = some e → e.binds = false) (h : Truthful i k)
    (hs : ∀ x v, s ≠ .assign x v) (hpath : ∀ y, s = .run y → ∀ z ∈ k.expanding, TransGen i.RefersTo z y) :
    Truthful i (dispatch (follow levels) levels s k).1 := by
  induction levels using Nat.strongRecOn generalizing s k with
  | ind levels ih =>
    have hk : Truthful i k.counted := ⟨h.binding?, h.faults⟩
    rw [dispatch_eq]
    cases hact : act levels s k with
    | effect f =>
      cases act_yields hact with
      | malformed | unrecognized | unbound => exact hk.report nofun
      | noNumber _ hf =>
        refine hk.report fun x hx => ?_
        rw [← h.refersTo]
        exact value_selfReference (hx ▸ hf) (by simp)
      | bind x v => exact absurd rfl (hs x v)
      | help | echo | instruct | stop | quit => exact ⟨hk.binding?, hk.faults⟩
    | cut g =>
      refine hk.report fun x hx => ?_
      obtain ⟨hrun, hmem⟩ := act_cut_selfReference (hx ▸ hact)
      exact hpath x hrun x hmem
    | enter x e =>
      obtain ⟨hrun, hx, -, hlevels⟩ := act_enter hact
      rw [h.binding?] at hx
      have hin : Truthful i (k.counted.entered x) := ⟨h.binding?, h.faults⟩
      have hbody : Truthful i (runBody (levels - 1) e.statements (k.counted.entered x)).1 := by
        refine runBody_truthful (fun s' hs' k' hk' hexp => ?_) hin rfl
        refine ih (levels - 1) (by omega) hk' (ne_assign_of_binds (hlets _ _ hx) hs') fun y hy z hz => ?_
        -- the tree bound to `x` runs `y`, and the names around `x` refer to `x`
        have hxy : i.RefersTo x y := ⟨e, hx, mem_variables_of_run (hy ▸ hs')⟩
        rw [hexp] at hz
        rcases List.mem_cons.1 hz with rfl | hz
        · exact .single hxy
        · exact (hpath x hrun z hz).tail hxy
      exact ⟨hbody.binding?, hbody.faults⟩

/-! ## Statements of a line -/

/-- A `let` reports nothing about its name. -/
theorem runStatement_assign (i : Interpreter) (x : Name) (v : Expr) :
    ∃ fs, (i.runStatement (.assign x v)).faults.toList = i.faults.toList ++ fs ∧ ∀ y, .selfReference y ∉ fs := by
  rw [runStatement_eq, dispatch_eq]
  unfold act
  split
  · exact ⟨[.stepsExceeded i.limits.steps], by simp [Act.perform, report, counted, unwound], by simp⟩
  · exact ⟨[], by simp [Act.perform, Effect.apply, bind, counted, unwound], by simp⟩

theorem runStatement_truthful (hi : i.expanding = []) (hlets : ∀ x e, i.binding? x = some e → e.binds = false)
    (s : Statement) : ∃ fs, (i.runStatement s).faults.toList = i.faults.toList ++ fs ∧
      ∀ x, .selfReference x ∈ fs → TransGen i.RefersTo x x := by
  by_cases hs : ∃ x v, s = .assign x v
  · obtain ⟨x, v, rfl⟩ := hs
    obtain ⟨fs, hfs, hnone⟩ := runStatement_assign i x v
    exact ⟨fs, hfs, fun y hy => absurd hy (hnone y)⟩
  · have hstart : Truthful i { i with steps := 0 } := ⟨fun _ => rfl, [], by simp, by simp⟩
    have hpath : ∀ y, s = .run y → ∀ z ∈ i.expanding, TransGen i.RefersTo z y := by simp [hi]
    exact (dispatch_truthful hlets hstart (fun x v hxv => hs ⟨x, v, hxv⟩) hpath).faults

/-- A variable that a statement reports to refer to itself does so: following references from it leads back to
it. This holds between calls, when no name is being run, and where no `let` occurs in what is bound. Without a
cycle of references no statement reports one, however often it uses a variable. -/
theorem runStatement_selfReference (hi : i.expanding = [])
    (hlets : ∀ x e, i.binding? x = some e → e.binds = false) (s : Statement) :
    (∀ x, .selfReference x ∈ i.faultsSince (i.runStatement s) → TransGen i.RefersTo x x) ∧
      ((∀ x, ¬TransGen i.RefersTo x x) → ∀ x, .selfReference x ∉ i.faultsSince (i.runStatement s)) := by
  obtain ⟨fs, hfs, hcycles⟩ := runStatement_truthful hi hlets s
  rw [faultsSince_eq hfs]
  exact ⟨hcycles, fun hacyclic x hx => hacyclic x (hcycles x hx)⟩

/-- The cycle that is met need not lead through the name that was run first. -/
theorem runStatement_selfReference_go :
    ∃ i : Interpreter, i.expanding = [] ∧ (∀ x e, i.binding? x = some e → e.binds = false) ∧
      i.faultsSince (i.runStatement (.run ⟨"go"⟩)) = [.selfReference ⟨"b"⟩] ∧ TransGen i.RefersTo ⟨"b"⟩ ⟨"b"⟩ := by
  let i := ["let a = (move 1 && b)", "let b = (help && a)", "let go = (b && move 2)"].foldl runLine (new .default)
  have hlets : ∀ x e, i.binding? x = some e → e.binds = false := by
    have hall : ∀ p ∈ i.bindings.toList, p.2.binds = false := by decide +kernel
    exact fun x e hx => hall (x, e) (Std.TreeMap.mem_toList_iff_getElem?_eq_some.2 hx)
  have hfaults : i.faultsSince (i.runStatement (.run ⟨"go"⟩)) = [.selfReference ⟨"b"⟩] := by decide +kernel
  have hi : i.expanding = [] := by decide +kernel
  refine ⟨i, hi, hlets, hfaults, (runStatement_selfReference hi hlets (.run ⟨"go"⟩)).1 ⟨"b"⟩ ?_⟩
  rw [hfaults]
  exact List.mem_cons_self

end Interpreter

end RobotShell
