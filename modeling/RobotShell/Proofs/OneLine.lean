import RobotShell.Proofs.Display
import RobotShell.Proofs.Invariants
import RobotShell.Proofs.Transcript
/-!
# One line for each output

What is read from a line has no line break in it: not its names, and not the characters that complaints
quote. So there is none in the text of a tree that is bound, in what `echo` shows of it, or in the errors
that quote it. Only the text of `help` is broken, by design. Everything else that is queued is one line
where it is written.
-/

namespace RobotShell

open Unicode Interpreter

/-- The text stays on one line. -/
def Unbroken (s : String) : Prop := '\n' ∉ s.toList ∧ '\r' ∉ s.toList

instance (s : String) : Decidable (Unbroken s) := inferInstanceAs (Decidable (_ ∧ _))

variable {s t : String} {e : Expr} {x : Name} {i : Interpreter}

@[simp]
theorem unbroken_append : Unbroken (s ++ t) ↔ Unbroken s ∧ Unbroken t := by
  simp only [Unbroken, String.toList_append, List.mem_append, not_or]
  exact and_and_and_comm

theorem unbroken_between {a b : String} (ha : Unbroken a) (hs : Unbroken s) (hb : Unbroken b) : Unbroken (a ++ s ++ b) :=
  unbroken_append.2 ⟨unbroken_append.2 ⟨ha, hs⟩, hb⟩

theorem unbroken_of_lineEnd (h : ∀ c ∈ s.toList, Source.isLineEnd c = false) : Unbroken s :=
  ⟨fun hc => absurd (h _ hc) (by decide), fun hc => absurd (h _ hc) (by decide)⟩

/-! ## Names, numbers and complaints -/

theorem unbroken_name (h : Name.ofString? x.text = some x) : Unbroken x.text := by
  obtain ⟨c, cs, hs, hc, hcs⟩ := Name.letters h
  have hall : ∀ d ∈ x.text.toList, isAlphanumeric d = true := by
    rw [hs]
    exact List.forall_mem_cons.2 ⟨isAlphanumeric_of_isAlphabetic hc, hcs⟩
  exact unbroken_of_lineEnd fun d hd => (plain_of_isAlphanumeric (hall d hd)).2

theorem unbroken_nat (n : Nat) : Unbroken (toString n) := by
  have hdigits : ∀ c ∈ n.repr.toList, c.isDigit = true := by
    obtain ⟨c, cs, hs, hc, hcs, -⟩ := Grammar.repr_digits n
    rw [hs]
    exact List.forall_mem_cons.2 ⟨hc, hcs⟩
  exact ⟨fun hc => absurd (hdigits _ hc) (by decide), fun hc => absurd (hdigits _ hc) (by decide)⟩

theorem unbroken_int (n : Int) : Unbroken (toString n) := by
  cases n with
  | ofNat n => exact unbroken_nat n
  | negSucc n => exact unbroken_append.2 ⟨by decide, unbroken_nat (n + 1)⟩

theorem unbroken_kind {k : Token.Kind} (h : k.Proper) : Unbroken k.text := by
  cases k with
  | keyword k => cases k <;> decide
  | symbol y => cases y <;> decide
  | integer n => exact unbroken_int _
  | outOfRange => decide
  | name x => exact unbroken_name h.1
  | stray c => exact unbroken_of_lineEnd (by simpa [Token.Kind.text, Token.Kind.Proper] using h)

theorem unbroken_complaint {c : Complaint} (h : c.Proper) : Unbroken c.text := by
  cases c with
  | unexpected k => exact unbroken_between (by decide) (unbroken_kind h) (by decide)
  | _ => decide

/-! ## Trees -/

@[simp]
theorem unbroken_form {head : String} {parts : List String} :
    Unbroken (Expr.form head parts) ↔ Unbroken head ∧ ∀ p ∈ parts, Unbroken p := by
  have hopen : Unbroken "(" := by decide
  have hclose : Unbroken ")" := by decide
  have hparts : Unbroken (String.join (parts.map (" " ++ ·))) ↔ ∀ p ∈ parts, Unbroken p := by
    induction parts with
    | nil => simp [Unbroken]
    | cons p parts ih =>
      have hblank : Unbroken " " := by decide
      simp [ih, hblank]
  simp [Expr.form, hopen, hclose, hparts]

/-- The text of a tree that was read from a line stays on one line. -/
theorem Expr.Formed.unbroken (h : e.Formed) : Unbroken e.display := by
  rw [Expr.display_eq]
  induction h with
  | error col hc => exact unbroken_form.2 ⟨by decide, by simpa using unbroken_complaint hc⟩
  | seq _ _ ihl ihr => exact unbroken_form.2 ⟨by decide, by simp [ihl, ihr]⟩
  | assign hx _ _ ih | buy hx _ _ ih | sell hx _ _ ih =>
    exact unbroken_form.2 ⟨by decide, by simp [unbroken_name hx.1, ih]⟩
  | rotate _ _ ih | move _ _ ih => exact unbroken_form.2 ⟨by decide, by simp [ih]⟩
  | echo hx => exact unbroken_form.2 ⟨by decide, by simp [unbroken_name hx.1]⟩
  | name hx => exact unbroken_name hx.1
  | int n => exact unbroken_int _
  | help | landmark | inventory | marketPrices | cityPrices | quit | stop => decide

/-- The text of a statement's tree holds the texts of the names and trees that it is made of. -/
theorem unbroken_parts {s : Statement} (h : Unbroken s.expr.display) :
    (∀ x, s = .run x ∨ s = .echo x → Unbroken x.text) ∧ (∀ e, s.operand? = some e → Unbroken e.display) ∧
      (∀ x, s.ware? = some x → Unbroken x.text) ∧ (∀ x e, s = .assign x e → Unbroken e.display) ∧
      (∀ message col, s = .malformed message col → Unbroken message) := by
  simp only [Expr.display_eq] at h ⊢
  cases s <;> simp_all [Statement.expr, Expr.canonical, Statement.operand?, Statement.ware?]

/-! ## Values -/

/-- What is said of an operand without a number quotes only the operand and what is bound. -/
theorem unbroken_value {bindings : Bindings} {limit levels : Nat} {seen : List Name} {f : Fault}
    (hbound : ∀ (x : String) e, bindings[x]? = some e → Unbroken e.display) (he : Unbroken e.display)
    (h : value bindings limit levels seen e = .error f) : Unbroken f.message := by
  have hname : ∀ x, Unbroken (Expr.name x).display → Unbroken x.text := fun x hx => by rwa [Expr.display_eq] at hx
  fun_induction value bindings limit levels seen e with
  | case1 levels seen n => cases h
  | case2 levels seen x hseen =>
    cases h
    exact unbroken_between (by decide) (hname x he) (by decide)
  | case3 levels seen x hseen hnone =>
    cases h
    exact unbroken_between (by decide) (hname x he) (by decide)
  | case4 seen x hseen e hsome =>
    cases h
    exact unbroken_append.2 ⟨unbroken_between (by decide) (hname x he) (by decide), unbroken_nat limit⟩
  | case5 seen x hseen e hsome levels ih => exact ih (hbound _ _ hsome) h
  | case6 levels seen e hint hname =>
    cases h
    exact unbroken_between (by decide) he (by decide)

/-! ## Queues -/

namespace Interpreter

/-- What stands in the queues. -/
def queues (i : Interpreter) : Taken := ⟨i.faults.toList, i.status.toList, i.instructions.toList⟩

/-- All that was queued stays on one line, but for the text of `help`. -/
structure Taken.Clean (t : Taken) : Prop where
  faults : ∀ f ∈ t.faults, Unbroken f.message
  status : ∀ text ∈ t.status, text = helpText ∨ Unbroken text
  instructions : ∀ c ∈ t.instructions, Unbroken c.text

/-- What is queued is clean, and what is bound will be when it is shown. -/
structure Clean (i : Interpreter) : Prop where
  queues : i.queues.Clean
  bound : ∀ x e, i.binding? x = some e → Unbroken e.display

theorem Taken.clean_empty : Taken.Clean {} where
  faults := by simp
  status := by simp
  instructions := by simp

theorem Taken.clean_append {t u : Taken} : (t.append u).Clean ↔ t.Clean ∧ u.Clean := by
  constructor
  · rintro ⟨hf, hs, hc⟩
    simp only [Taken.append, List.forall_mem_append] at hf hs hc
    exact ⟨⟨hf.1, hs.1, hc.1⟩, hf.2, hs.2, hc.2⟩
  · rintro ⟨⟨hf, hs, hc⟩, hf', hs', hc'⟩
    exact ⟨List.forall_mem_append.2 ⟨hf, hf'⟩, List.forall_mem_append.2 ⟨hs, hs'⟩,
      List.forall_mem_append.2 ⟨hc, hc'⟩⟩

/-- Something clean is added to the queues. -/
theorem Clean.push (h : Clean i) {k : Interpreter} {u : Taken} (hqueues : k.queues = i.queues.append u) (hu : u.Clean)
    (hbound : ∀ x, k.binding? x = i.binding? x) : Clean k :=
  ⟨hqueues ▸ Taken.clean_append.2 ⟨h.queues, hu⟩, fun x e hx => h.bound x e (hbound x ▸ hx)⟩

theorem Clean.report (h : Clean i) {f : Fault} (hf : Unbroken f.message) : Clean (i.report f) :=
  h.push (u := { faults := [f] }) (by simp [Interpreter.queues, Interpreter.report, Taken.append])
    ⟨by simpa using hf, by simp, by simp⟩ fun _ => rfl

theorem Clean.tell (h : Clean i) (ht : t = helpText ∨ Unbroken t) : Clean (i.tell t) :=
  h.push (u := { status := [t] }) (by simp [Interpreter.queues, Interpreter.tell, Taken.append])
    ⟨by simp, by simpa using ht, by simp⟩ fun _ => rfl

theorem Clean.instruct (h : Clean i) {c : Instruction} (hc : Unbroken c.text) : Clean (i.instruct c) :=
  h.push (u := { instructions := [c] }) (by simp [Interpreter.queues, Interpreter.instruct, Taken.append])
    ⟨by simp, by simp, by simpa using hc⟩ fun _ => rfl

theorem unbroken_instruction {c : Instruction} (h : ∀ x, c.ware? = some x → Unbroken x.text) : Unbroken c.text := by
  cases c with
  | stop | inventory | marketPrices | cityPrices => decide
  | rotate n | move n => exact unbroken_append.2 ⟨by decide, unbroken_int _⟩
  | buy x n | sell x n =>
    exact unbroken_append.2 ⟨unbroken_between (by decide) (h x rfl) (by decide), unbroken_int _⟩

theorem maintains_clean : Maintains (fun e => Unbroken e.display) Clean where
  parts {a b} h := by
    simp only [Expr.display_eq, Expr.canonical, unbroken_form] at h ⊢
    simpa using h.2
  settled := ⟨fun h => ⟨h.queues, h.bound⟩, fun h => ⟨h.queues, h.bound⟩⟩
  bound h := h.bound _ _
  effect {levels s i f} h hs hf := by
    obtain ⟨hname, hoperand, hware, hassign, hmalformed⟩ := unbroken_parts hs
    cases hf with
    | malformed message col => exact h.report (hmalformed message col rfl)
    | unrecognized e => exact h.report (by decide)
    | unbound hs => exact h.report (unbroken_between (by decide) (hname _ hs) (by decide))
    | noNumber hs hvalue => exact h.report (unbroken_value h.bound (hoperand _ hs) hvalue)
    | help => exact h.tell (.inl rfl)
    | echo hx => exact h.tell (.inr (h.bound _ _ hx))
    | instruct hsame hc => exact h.instruct (unbroken_instruction (hsame ▸ hware))
    | stop =>
      refine ⟨⟨h.queues.faults, h.queues.status, ?_⟩, h.bound⟩
      simp only [Effect.apply, queues, List.mem_singleton, forall_eq]
      decide
    | bind x e =>
      refine ⟨h.queues, fun y e' hy => ?_⟩
      rcases binding?_of_bind hy with ⟨-, rfl⟩ | hold
      · exact hassign x e rfl
      · exact h.bound y e' hold
    | quit => exact ⟨h.queues, h.bound⟩
  cut {levels s i g} h hs hact := by
    obtain ⟨hname, -⟩ := unbroken_parts hs
    rcases act_cut_of hact with rfl | ⟨x, hx, rfl | rfl⟩
    · exact h.report (unbroken_between (by decide) (unbroken_nat _) (by decide))
    · exact h.report (unbroken_between (by decide) (hname x (.inl hx)) (by decide))
    · exact h.report (unbroken_append.2 ⟨unbroken_between (by decide) (hname x (.inl hx)) (by decide), unbroken_nat _⟩)

/-! ## Sessions -/

theorem Clean.run (h : Clean i) (c : Call) (hc : ∀ e, c = .evaluate e → Unbroken e.display) :
    (c.run i).1.Clean ∧ Clean (c.run i).2 := by
  rcases run_cases c i with huntaken | ⟨text, rfl⟩ | ⟨e, g, rfl, hvalue, hrun⟩
  · have hqueues : i.queues = (c.run i).1.append (c.run i).2.queues := by
      simp [Interpreter.queues, Taken.append, huntaken.faults, huntaken.status, huntaken.instructions]
    obtain ⟨htaken, hleft⟩ := Taken.clean_append.1 (hqueues ▸ h.queues)
    exact ⟨htaken, hleft, fun x e hx => h.bound x e (by rw [huntaken.twins.binding?, hx])⟩
  · exact ⟨Taken.clean_empty, maintains_clean.runLine h fun e he => (Expr.ofString?_formed he).unbroken⟩
  · rw [hrun]
    exact ⟨Taken.clean_empty, h.report (unbroken_value h.bound (hc e rfl) hvalue)⟩

theorem Clean.session (h : Clean i) {calls : List Call} (hcalls : ∀ e, .evaluate e ∈ calls → Unbroken e.display) :
    (session calls i).1.Clean ∧ Clean (session calls i).2 := by
  induction calls generalizing i with
  | nil => exact ⟨Taken.clean_empty, h⟩
  | cons c calls ih =>
    obtain ⟨htaken, hnext⟩ := h.run c fun e he => hcalls e (he ▸ List.mem_cons_self)
    obtain ⟨hlater, hend⟩ := ih hnext fun e he => hcalls e (List.mem_cons_of_mem _ he)
    exact ⟨Taken.clean_append.2 ⟨htaken, hlater⟩, hend⟩

end Interpreter

/-! ## Lines of output -/

/-- The lines of the text of `help`. -/
def helpLines : List String :=
  ["help", " -> list available commands", "let name = expr", " -> save an expression", "move (name|number)",
    " -> move a certain distance", "rotate (name|number)", " -> rotate by a certain angle"]

/-- The lines of output for what was queued: one for each error, with its label, one for each status text
but that of `help`, and one for each instruction. -/
def Interpreter.Taken.lines (label : String) (t : Taken) : List String :=
  t.faults.map (fun f => label ++ f.message) ++ t.status.flatMap (fun s => if s = helpText then helpLines else [s]) ++
    t.instructions.map Instruction.text

theorem rows_append (a b : List String) : rows (a ++ b) = rows a ++ rows b := by
  simp [rows]

theorem rows_status (status : List String) :
    rows status = rows (status.flatMap fun s => if s = helpText then helpLines else [s]) := by
  induction status with
  | nil => rfl
  | cons s status ih =>
    rw [List.flatMap_cons, rows_append, ← ih, ← List.singleton_append, rows_append]
    congr 1
    split
    · next hs =>
      rw [hs]
      decide +kernel
    · rfl

theorem printed_eq_rows (i : Interpreter) (settings : Settings) :
    i.printed settings = rows (i.queues.lines settings.errorLabel) := by
  rw [Interpreter.printed, Settings.printed, rows_status i.status.toList, Taken.lines, rows_append, rows_append]
  rfl

/-- Unbroken texts, one to a line, are the lines of what is written. -/
theorem splitOn_rows {ss : List String} (h : ∀ s ∈ ss, Unbroken s) :
    (rows ss).toList.splitOn '\n' = ss.map String.toList ++ [[]] := by
  have hrows : (rows ss).toList = ['\n'].intercalate (ss.map String.toList ++ [[]]) := by
    induction ss with
    | nil => rfl
    | cons s ss ih =>
      obtain ⟨-, hss⟩ := List.forall_mem_cons.1 h
      rw [List.map_cons, List.cons_append, List.intercalate_cons_of_ne_nil (by simp), ← ih hss]
      simp [rows]
  rw [hrows]
  refine List.splitOn_intercalate _ ?_ (by simp)
  simp only [List.forall_mem_append, List.forall_mem_map]
  exact ⟨fun s hs => (h s hs).1, by simp⟩

theorem Interpreter.Taken.Clean.lines {q : Taken} (h : q.Clean) {label : String} (hlabel : Unbroken label) :
    ∀ s ∈ q.lines label, Unbroken s := by
  simp only [Taken.lines, List.forall_mem_append, List.forall_mem_map, List.forall_mem_flatMap]
  refine ⟨⟨fun f hf => unbroken_append.2 ⟨hlabel, h.faults f hf⟩, fun s hs => ?_⟩, h.instructions⟩
  split
  · decide
  · next hne => simpa using (h.status s hs).resolve_left hne

namespace Interpreter

/-- Whatever lines are given to an interpreter, no error, status text or instruction that comes of them has a
line break in it, but for the text of `help`. So each of them is one line of what is written. -/
theorem session_unbroken {l : Limits} {calls : List Call} {taken : Taken} (h : session calls (new l) = (taken, i))
    (hcalls : ∀ e, .evaluate e ∈ calls → Unbroken e.display) :
    (taken.append i.queues).Clean ∧
      ∀ (settings : Settings) (out : String), Unbroken settings.errorLabel →
        (∀ s ∈ i.queues.lines settings.errorLabel, Unbroken s) ∧
          ∃ written, (Console.flush ⟨i, settings⟩ out).1 = out ++ written ∧
            written.toList.splitOn '\n' = (i.queues.lines settings.errorLabel).map String.toList ++ [[]] := by
  have hnew : Clean (new l) := ⟨Taken.clean_empty, fun _ _ hx => (by simp [new, binding?] at hx)⟩
  obtain ⟨htaken, hend⟩ := hnew.session hcalls
  rw [h] at htaken hend
  refine ⟨Taken.clean_append.2 ⟨htaken, hend.queues⟩, fun settings out hlabel => ?_⟩
  have hlines := hend.queues.lines hlabel
  refine ⟨hlines, _, ?_, splitOn_rows hlines⟩
  exact (Console.render_eq ⟨i, settings⟩ out).trans (congrArg (out ++ ·) (printed_eq_rows i settings))

/-- The complaint about a stray character is shown with the tree that holds it, and quoted by an error. -/
theorem session_unbroken_stray :
    ∃ i : Interpreter, i = (session [.line "let x = (stop @ && 1)", .line "move x && echo x && help"] (new .default)).2 ∧
      ∃ written, (Console.flush ⟨i, .default⟩ "> ").1 = "> " ++ written ∧ written.toList.splitOn '\n' =
        ["error: could not evaluate (Continue (Error: unexpected '@') 1) to literal".toList,
          "(Continue (Error: unexpected '@') 1)".toList] ++ helpLines.map String.toList ++ [[]] := by
  refine ⟨_, rfl, ?_⟩
  obtain ⟨-, hwritten⟩ := session_unbroken (l := .default)
    (rfl : session [.line "let x = (stop @ && 1)", .line "move x && echo x && help"] (new .default) = (_, _)) (by simp)
  obtain ⟨-, written, hout, hsplit⟩ := hwritten .default "> " (by decide)
  refine ⟨written, hout, hsplit.trans ?_⟩
  decide +kernel

end Interpreter

end RobotShell
