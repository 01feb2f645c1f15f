import RobotShell.Proofs.Effects
/-!
# The number that a reference leads to

A tree refers to what is bound to it if it is a variable. Following references from a tree gives a chain,
which may end or come back to a variable that it has passed. `Stops` says where the chain does not lead on
to a number, and why. Evaluation finds the first of an integer and a stop, unless the depth runs out before,
and the depth cannot run out when there are no more variables than it allows.
-/

namespace RobotShell.Interpreter

/-- What a tree refers to. -/
def referent? (i : Interpreter) : Expr → Option Expr
  | .name x => i.binding? x.text
  | _ => none

/-- The tree that stands behind so many references from `e`. -/
def chain (i : Interpreter) (e : Expr) : Nat → Option Expr
  | 0 => some e
  | k + 1 => (i.chain e k).bind i.referent?

/-- Why the chain from `e` has no number behind its position `k`. -/
inductive Stops (i : Interpreter) (e : Expr) (k : Nat) : Fault → Prop
  | notALiteral {a : Expr} (h : i.chain e k = some a) (hname : ∀ x, a ≠ .name x) (hint : ∀ n, a ≠ .int n) :
    Stops i e k (.notALiteral a.display)
  | selfReference {x : Name} {j : Nat} (h : i.chain e k = some (.name x)) (hj : j < k)
    (hx : i.chain e j = some (.name x)) : Stops i e k (.selfReference x)
  | unknownVariable {x : Name} (h : i.chain e k = some (.name x)) (hx : i.binding? x.text = none) :
    Stops i e k (.unknownVariable x)

/-- The chain does not stop before its position `k`. -/
def RunsTo (i : Interpreter) (e : Expr) (k : Nat) : Prop := ∀ j < k, ∀ f, ¬i.Stops e j f

/-- What following the chain from `e` comes to: the integer in it, the first stop, or, if the depth runs out
before, the variable that it has come to. -/
def LeadsTo (i : Interpreter) (e : Expr) : Except Fault Int64 → Prop
  | .ok n => ∃ k ≤ i.limits.depth, i.chain e k = some (.int n)
  | .error f => (∃ k ≤ i.limits.depth, i.Stops e k f ∧ i.RunsTo e k) ∨
      i.RunsTo e (i.limits.depth + 1) ∧
        ∃ x, i.chain e i.limits.depth = some (.name x) ∧ f = .depthExceeded x i.limits.depth

variable {i : Interpreter} {e a : Expr} {x : Name} {f g : Fault} {j k levels : Nat} {seen : List Name} {n : Int64}

/-! ## The chain -/

theorem chain_succ (h : i.chain e k = some a) : i.chain e (k + 1) = i.referent? a := by
  simp [chain, h]

/-- Before every tree of the chain there are bound variables. -/
theorem chain_before (h : i.chain e k = some a) (hj : j < k) :
    ∃ x b, i.chain e j = some (.name x) ∧ i.binding? x.text = some b := by
  induction k generalizing a with
  | zero => omega
  | succ k ih =>
    obtain ⟨b, hb, hab⟩ := Option.bind_eq_some_iff.1 (h : (i.chain e k).bind i.referent? = some a)
    rcases Nat.lt_succ_iff_lt_or_eq.1 hj with hlt | rfl
    · exact ih hb hlt
    · cases b with
      | name x => exact ⟨x, a, hb, hab⟩
      | _ => cases hab

/-- An integer is the last tree of its chain. -/
theorem chain_le_of_int (hn : i.chain e k = some (.int n)) (ha : i.chain e j = some a) : j ≤ k := by
  refine Nat.le_of_not_lt fun hlt => ?_
  obtain ⟨x, -, hx, -⟩ := chain_before ha hlt
  cases hn.symm.trans hx

/-- Where the chain comes back to a tree, it goes round. -/
theorem chain_repeats (h : i.chain e k = i.chain e j) (m : Nat) : i.chain e (k + m) = i.chain e (j + m) := by
  induction m with
  | zero => exact h
  | succ m ih =>
    show (i.chain e (k + m)).bind i.referent? = (i.chain e (j + m)).bind i.referent?
    rw [ih]

/-- A chain that comes to an integer does not stop before. -/
theorem runsTo_of_int (h : i.chain e k = some (.int n)) : i.RunsTo e (k + 1) := by
  have hname : ∀ j < k, ∃ x b, i.chain e j = some (.name x) ∧ i.binding? x.text = some b := fun j => chain_before h
  intro j hj f hstop
  rcases Nat.lt_succ_iff_lt_or_eq.1 hj with hlt | rfl
  · obtain ⟨x, b, hx, hb⟩ := hname j hlt
    cases hstop with
    | notALiteral ha hne _ => exact hne x (Option.some.inj (ha.symm.trans hx))
    | @selfReference y l hy hl hy' =>
      -- the integer would stand in the chain once more, where there is a variable
      have hround := chain_repeats (hy.trans hy'.symm) (k - j)
      rw [Nat.add_sub_cancel' (Nat.le_of_lt hlt), h] at hround
      obtain ⟨z, -, hz, -⟩ := hname (l + (k - j)) (by omega)
      cases hround.trans hz
    | unknownVariable hy hnone =>
      cases hy.symm.trans hx
      cases hnone.symm.trans hb
  · cases hstop with
    | notALiteral ha _ hne => exact hne n (Option.some.inj (ha.symm.trans h))
    | selfReference hy | unknownVariable hy => cases hy.symm.trans h

/-- A bound variable that has not been passed before leads on. -/
theorem RunsTo.succ {b : Expr} (h : i.RunsTo e k) (hx : i.chain e k = some (.name x)) (hb : i.binding? x.text = some b)
    (hfirst : ∀ j < k, i.chain e j ≠ some (.name x)) : i.RunsTo e (k + 1) := by
  intro j hj f hstop
  rcases Nat.lt_succ_iff_lt_or_eq.1 hj with hlt | rfl
  · exact h j hlt f hstop
  · cases hstop with
    | notALiteral ha hname => exact hname x (Option.some.inj (ha.symm.trans hx))
    | selfReference hy hl hyl =>
      cases hy.symm.trans hx
      exact hfirst _ hl hyl
    | unknownVariable hy hnone =>
      cases hy.symm.trans hx
      cases hnone.symm.trans hb

/-- The fault that tells of a tree without a number. -/
def blame (i : Interpreter) : Expr → Fault
  | .name x => if (i.binding? x.text).isSome then .selfReference x else .unknownVariable x
  | a => .notALiteral a.display

theorem Stops.blame (h : i.Stops e k f) : ∃ a, i.chain e k = some a ∧ f = i.blame a := by
  cases h with
  | @notALiteral a ha hname _ =>
    refine ⟨a, ha, ?_⟩
    cases a with
    | name x => exact absurd rfl (hname x)
    | _ => rfl
  | @selfReference x j hx hj hxj =>
    obtain ⟨y, b, hy, hb⟩ := chain_before hx hj
    obtain rfl : x = y := Expr.name.inj (Option.some.inj (hxj.symm.trans hy))
    exact ⟨.name x, hx, by simp [Interpreter.blame, hb]⟩
  | @unknownVariable x hx hnone => exact ⟨.name x, hx, by simp [Interpreter.blame, hnone]⟩

/-- A chain stops for one reason. -/
theorem Stops.unique (h : i.Stops e k f) (h' : i.Stops e k g) : f = g := by
  obtain ⟨a, ha, rfl⟩ := h.blame
  obtain ⟨b, hb, rfl⟩ := h'.blame
  rw [Option.some.inj (ha.symm.trans hb)]

/-! ## Evaluation -/

/-- From any position that it has come to, evaluation finds what the chain leads to. -/
theorem value_leadsTo (hchain : i.chain e k = some a) (hlevels : k + levels = i.limits.depth)
    (hseen : ∀ x, x ∈ seen ↔ ∃ j < k, i.chain e j = some (.name x)) (hruns : i.RunsTo e k) :
    i.LeadsTo e (value i.bindings i.limits.depth levels seen a) := by
  fun_induction value i.bindings i.limits.depth levels seen a generalizing k with
  | case1 levels seen n => exact ⟨k, by omega, hchain⟩
  | case2 levels seen x hmem =>
    obtain ⟨j, hj, hx⟩ := (hseen x).1 hmem
    exact .inl ⟨k, by omega, .selfReference hchain hj hx, hruns⟩
  | case3 levels seen x hmem hnone => exact .inl ⟨k, by omega, .unknownVariable hchain hnone, hruns⟩
  | case4 seen x hmem b hsome =>
    obtain rfl : k = i.limits.depth := hlevels
    have hfirst : ∀ j < i.limits.depth, i.chain e j ≠ some (.name x) := fun j hj hx => hmem ((hseen x).2 ⟨j, hj, hx⟩)
    exact .inr ⟨hruns.succ hchain hsome hfirst, x, hchain, rfl⟩
  | case5 seen x hmem b hsome levels ih =>
    have hfirst : ∀ j < k, i.chain e j ≠ some (.name x) := fun j hj hx => hmem ((hseen x).2 ⟨j, hj, hx⟩)
    refine ih ((chain_succ hchain).trans hsome) (by omega) (fun y => ?_) (hruns.succ hchain hsome hfirst)
    -- the names passed so far are those before position `k` and the one at it
    rw [List.mem_cons, hseen y]
    constructor
    · rintro (rfl | ⟨j, hj, hy⟩)
      · exact ⟨k, Nat.lt_succ_self k, hchain⟩
      · exact ⟨j, Nat.lt_succ_of_lt hj, hy⟩
    · rintro ⟨j, hj, hy⟩
      rcases Nat.lt_succ_iff_lt_or_eq.1 hj with hlt | rfl
      · exact .inr ⟨j, hlt, hy⟩
      · cases hy.symm.trans hchain
        exact .inl rfl
  | case6 levels seen a hint hname => exact .inl ⟨k, by omega, .notALiteral hchain hname hint, hruns⟩

theorem LeadsTo.not_error (h : i.LeadsTo e (.ok n)) : ¬i.LeadsTo e (.error f) := by
  obtain ⟨k, hk, hn⟩ := h
  rintro (⟨k', -, hstop, -⟩ | ⟨-, x, hx, -⟩)
  · obtain ⟨a, ha, -⟩ := hstop.blame
    exact runsTo_of_int hn k' (Nat.lt_succ_of_le (chain_le_of_int hn ha)) f hstop
  · obtain rfl : k = i.limits.depth := Nat.le_antisymm hk (chain_le_of_int hn hx)
    cases hn.symm.trans hx

/-- No chain leads to two things. -/
theorem LeadsTo.unique {r r' : Except Fault Int64} (h : i.LeadsTo e r) (h' : i.LeadsTo e r') : r = r' := by
  cases r with
  | ok n =>
    cases r' with
    | ok m =>
      obtain ⟨k, -, hn⟩ := h
      obtain ⟨k', -, hm⟩ := h'
      obtain rfl : k = k' := Nat.le_antisymm (chain_le_of_int hm hn) (chain_le_of_int hn hm)
      cases hn.symm.trans hm
      rfl
    | error g => exact absurd h' h.not_error
  | error f =>
    cases r' with
    | ok m => exact absurd h h'.not_error
    | error g =>
      obtain ⟨k, hk, hf, hfirst⟩ | ⟨hruns, x, hx, rfl⟩ := h <;>
        obtain ⟨k', hk', hg, hfirst'⟩ | ⟨hruns', y, hy, rfl⟩ := h'
      · rcases Nat.lt_trichotomy k k' with hlt | rfl | hlt
        · exact absurd hf (hfirst' k hlt f)
        · rw [hf.unique hg]
        · exact absurd hg (hfirst k' hlt g)
      · exact absurd hf (hruns' k (Nat.lt_succ_of_le hk) f)
      · exact absurd hg (hruns k' (Nat.lt_succ_of_le hk') g)
      · cases hx.symm.trans hy
        rfl

/-! ## The depth -/

/-- Different names that are bound are no more than the bindings. -/
theorem length_le_size {bindings : Bindings} {xs : List Name} (h : xs.Nodup)
    (hbound : ∀ x ∈ xs, (bindings[x.text]?).isSome) : xs.length ≤ bindings.size := by
  have hdistinct : (xs.map Name.text).Nodup :=
    List.pairwise_map.2 (h.imp fun hne htext => hne (congrArg Name.mk htext))
  have hsubset : xs.map Name.text ⊆ bindings.keys := by
    intro s hs
    obtain ⟨x, hx, rfl⟩ := List.mem_map.1 hs
    rw [Std.TreeMap.mem_keys, ← Std.TreeMap.isSome_getElem?_iff_mem]
    exact hbound x hx
  have hlength := hdistinct.length_le_of_subset hsubset
  rwa [List.length_map, Std.TreeMap.length_keys] at hlength

/-- Where the depth runs out, there are more variables than there were names to follow. -/
theorem lt_size_of_depthExceeded {bindings : Bindings} {limit limit' : Nat} {e : Expr}
    (h : value bindings limit levels seen e = .error (.depthExceeded x limit')) (hseen : seen.Nodup)
    (hbound : ∀ y ∈ seen, (bindings[y.text]?).isSome) : seen.length + levels < bindings.size := by
  fun_induction value bindings limit levels seen e with
  | case1 | case2 | case3 | case6 => cases h
  | case4 seen y hmem b hsome =>
    have hall : ∀ z ∈ y :: seen, (bindings[z.text]?).isSome := List.forall_mem_cons.2 ⟨by simp [hsome], hbound⟩
    exact length_le_size (List.nodup_cons.2 ⟨hmem, hseen⟩) hall
  | case5 seen y hmem b hsome levels ih =>
    have hall : ∀ z ∈ y :: seen, (bindings[z.text]?).isSome := List.forall_mem_cons.2 ⟨by simp [hsome], hbound⟩
    have hlt := ih h (List.nodup_cons.2 ⟨hmem, hseen⟩) hall
    simp only [List.length_cons] at hlt
    omega

/-! ## Results -/

theorem leadsTo_iff {r : Except Fault Int64} :
    i.LeadsTo e r ↔ value i.bindings i.limits.depth i.limits.depth [] e = r := by
  have hvalue : i.LeadsTo e (value i.bindings i.limits.depth i.limits.depth [] e) :=
    value_leadsTo (k := 0) rfl (Nat.zero_add _) (by simp) nofun
  constructor
  · exact fun h => hvalue.unique h
  · exact fun h => h ▸ hvalue

theorem report_injective (h : i.report f = i.report g) : f = g := by
  have hpush : i.faults.push f = i.faults.push g := congrArg Interpreter.faults h
  exact (Array.push_eq_push.1 hpush).1

theorem evaluate_number : (i.evaluate e).1 = some n ↔ i.LeadsTo e (.ok n) := by
  rw [leadsTo_iff]
  unfold evaluate
  cases value i.bindings i.limits.depth i.limits.depth [] e <;> simp

theorem evaluate_fault : i.evaluate e = (none, i.report f) ↔ i.LeadsTo e (.error f) := by
  rw [leadsTo_iff]
  unfold evaluate
  cases value i.bindings i.limits.depth i.limits.depth [] e with
  | ok n => simp
  | error g =>
    constructor
    · intro h
      rw [report_injective (congrArg Prod.snd h)]
    · intro h
      rw [Except.error.inj h]

/-- What evaluating a tree comes to, told by the chain of references from it. It has a number and changes
nothing exactly if an integer stands in the chain within the depth. Otherwise it queues one fault and changes
nothing else: that of the first stop within the depth, or, if there is none, that the depth has run out on the
variable at its end. It does not run out if there are no more variables than it allows. -/
theorem evaluate_chain (i : Interpreter) (e : Expr) :
    (∀ n, (i.evaluate e).1 = some n ↔ ∃ k ≤ i.limits.depth, i.chain e k = some (.int n)) ∧
    (∀ n, (i.evaluate e).1 = some n → (i.evaluate e).2 = i) ∧
    ((i.evaluate e).1 = none → ∃ f, (i.evaluate e).2 = i.report f) ∧
    (∀ f, i.evaluate e = (none, i.report f) ↔
      (∃ k ≤ i.limits.depth, i.Stops e k f ∧ i.RunsTo e k) ∨
        i.RunsTo e (i.limits.depth + 1) ∧
          ∃ x, i.chain e i.limits.depth = some (.name x) ∧ f = .depthExceeded x i.limits.depth) ∧
    (i.bindings.size ≤ i.limits.depth → ∀ x limit, i.evaluate e ≠ (none, i.report (.depthExceeded x limit))) := by
  refine ⟨fun n => evaluate_number, fun n hn => ?_, fun hnone => ?_, fun f => evaluate_fault, fun hsize x limit h => ?_⟩
  · unfold evaluate at hn ⊢
    cases hvalue : value i.bindings i.limits.depth i.limits.depth [] e <;> simp_all
  · unfold evaluate at hnone ⊢
    cases hvalue : value i.bindings i.limits.depth i.limits.depth [] e with
    | ok n => simp [hvalue] at hnone
    | error f => exact ⟨f, rfl⟩
  · have hlt := lt_size_of_depthExceeded (leadsTo_iff.1 (evaluate_fault.1 h)) List.nodup_nil (by simp)
    simp only [List.length_nil] at hlt
    omega

/-- A chain of three variables needs a depth of three. -/
example :
    let i := fun depth => ["let a = b", "let b = c", "let c = 7"].foldl runLine (new ⟨depth, 1⟩)
    ((i 2).evaluate (.name ⟨"a"⟩)).2.faults = #[.depthExceeded ⟨"c"⟩ 2] ∧
      ((i 3).evaluate (.name ⟨"a"⟩)).1 = some 7 := by decide +kernel

end RobotShell.Interpreter
