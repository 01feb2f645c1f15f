import RobotShell.Proofs.Printing
/-!
# What is nested too deeply

A line that the grammar derives may hold more operands open at once than may be. Reading such a line
complains about nothing else: where an operand is one too many, it is skipped up to the end of its
statement, the operands around it that consist of nothing else fall with it, and all others are read
as the derivation denotes them. `Derivation.cut` says so of every phrase, whatever the number of
levels it is read with.
-/

namespace RobotShell

namespace Expr

/-- The messages and columns of the error nodes, from left to right. -/
def errors : Expr → List (String × Nat)
  | error message col => [(message, col)]
  | seq left right => left.errors ++ right.errors
  | assign _ e | rotate e | move e | buy _ e | sell _ e => e.errors
  | _ => []

/-- From a node to one right below it. -/
inductive Step where
  | left
  | right
  /-- To the operand of a node that is no chain. -/
  | value

/-- The part of the tree that stands at a place, which is given by the way there. -/
def at? : Expr → List Step → Option Expr
  | e, [] => some e
  | seq left _, .left :: place => left.at? place
  | seq _ right, .right :: place => right.at? place
  | assign _ e, .value :: place | rotate e, .value :: place | move e, .value :: place
  | buy _ e, .value :: place | sell _ e, .value :: place => e.at? place
  | _, _ :: _ => none

theorem errors_of_isError {e : Expr} (h : e.isError = true) : e.errors ≠ [] := by
  cases e <;> simp_all [isError, errors]

end Expr

namespace Grammar

open RobotShell.Expr

/-! ## Derivations -/

/-- The derivations of the grammar, with no limit to how many operands are open at once. -/
inductive Derivation : Phrase → List Token.Kind → Expr → Type
  /-- An operand without operands of its own. -/
  | leaf {ks e} : Derives .operand 1 ks e → Derivation .operand ks e
  | assign {ks e} (x : Name) : Derivation .operand ks e →
      Derivation .operand (.keyword .assign :: .name x :: .symbol .equals :: ks) (.assign x e)
  | rotate {ks e} : Argument ks → Derivation .operand ks e → Derivation .operand (.keyword .rotate :: ks) (.rotate e)
  | move {ks e} : Argument ks → Derivation .operand ks e → Derivation .operand (.keyword .move :: ks) (.move e)
  | buy {ks e} (x : Name) : Derivation .operand ks e →
      Derivation .operand (.keyword .buy :: .name x :: ks) (.buy x e)
  | sell {ks e} (x : Name) : Derivation .operand ks e →
      Derivation .operand (.keyword .sell :: .name x :: ks) (.sell x e)
  | group {ks e} : Derivation .expression ks e →
      Derivation .operand (.symbol .openParen :: (ks ++ [.symbol .closeParen])) e
  | single {ks e} : Derivation .operand ks e → Derivation .expression ks e
  | link {ks ls e f} : Derivation .operand ks e → Derivation .expression ls f →
      Derivation .expression (ks ++ .symbol .andAnd :: ls) (.seq e f)

/-- How many operands are open at once. -/
def Derivation.nesting : ∀ {p ks e}, Derivation p ks e → Nat
  | _, _, _, .leaf _ => 1
  | _, _, _, .assign _ D | _, _, _, .rotate _ D | _, _, _, .move _ D | _, _, _, .buy _ D | _, _, _, .sell _ D
  | _, _, _, .group D => D.nesting + 1
  | _, _, _, .single D => D.nesting
  | _, _, _, .link D D' => max D.nesting D'.nesting

/-- An operand in a derivation: the place of its tree in the tree of the whole, the number of other
operands it stands in, and its own derivation. -/
structure Occurrence where
  place : List Step
  around : Nat
  ks : List Token.Kind
  tree : Expr
  derivation : Derivation .operand ks tree

namespace Occurrence

/-- The operand as it occurs in a larger phrase: further down by `steps`, inside so many operands more. -/
def below (steps : List Step) (levels : Nat) (o : Occurrence) : Occurrence :=
  { o with place := steps ++ o.place, around := o.around + levels }

/-- How many operands are open at once in the operand, itself included. -/
def nesting (o : Occurrence) : Nat := o.derivation.nesting

end Occurrence

namespace Derivation

/-- The operand as it occurs in itself. -/
def self {ks e} (D : Derivation .operand ks e) : Occurrence := ⟨[], 0, ks, e, D⟩

/-- All operands of a derivation: the statements of its chains, on every level, and the operands of these. -/
def operands : ∀ {p ks e}, Derivation p ks e → List Occurrence
  | _, _, _, .leaf d => [(leaf d).self]
  | _, _, _, .assign x D => (assign x D).self :: D.operands.map (.below [.value] 1)
  | _, _, _, .rotate h D => (rotate h D).self :: D.operands.map (.below [.value] 1)
  | _, _, _, .move h D => (move h D).self :: D.operands.map (.below [.value] 1)
  | _, _, _, .buy x D => (buy x D).self :: D.operands.map (.below [.value] 1)
  | _, _, _, .sell x D => (sell x D).self :: D.operands.map (.below [.value] 1)
  | _, _, _, .group D => (group D).self :: D.operands.map (.below [] 1)
  | _, _, _, .single D => D.operands
  | _, _, _, .link D D' => D.operands.map (.below [.left] 0) ++ D'.operands.map (.below [.right] 0)

end Derivation

variable {p : Phrase} {ks ls : List Token.Kind} {e f : Expr} {n : Nat} {s : Scope} {read rest : List Token}

/-- A derivation is one within the limit of its own nesting. -/
theorem Derivation.derives (D : Derivation p ks e) : Derives p D.nesting ks e := by
  induction D with
  | leaf d => exact d
  | assign x _ ih => exact .assign x ih
  | rotate h _ ih => exact .rotate h ih
  | move h _ ih => exact .move h ih
  | buy x _ ih => exact .buy x ih
  | sell x _ ih => exact .sell x ih
  | group _ ih => exact .group ih
  | single _ ih => exact .single ih
  | link _ _ ih ih' => exact .link (ih.mono (Nat.le_max_left ..)) (ih'.mono (Nat.le_max_right ..))

theorem Derivation.nesting_pos (D : Derivation p ks e) : 0 < D.nesting := by
  induction D with
  | leaf => exact Nat.one_pos
  | single _ ih => exact ih
  | link _ _ ih _ => exact Nat.lt_of_lt_of_le ih (Nat.le_max_left ..)
  | _ => exact Nat.succ_pos _

/-- What is derivable within a limit has a derivation that nests no deeper. -/
theorem Derives.derivation (d : Derives p n ks e) : ∃ D : Derivation p ks e, D.nesting ≤ n := by
  induction d with
  | quit | stop | help | landmark | inventory | marketPrices | cityPrices | name | integer | echo =>
    exact ⟨.leaf (by constructor), Nat.le_add_left ..⟩
  | assign x _ ih => exact ih.elim fun D h => ⟨.assign x D, Nat.succ_le_succ h⟩
  | rotate ha _ ih => exact ih.elim fun D h => ⟨.rotate ha D, Nat.succ_le_succ h⟩
  | move ha _ ih => exact ih.elim fun D h => ⟨.move ha D, Nat.succ_le_succ h⟩
  | buy x _ ih => exact ih.elim fun D h => ⟨.buy x D, Nat.succ_le_succ h⟩
  | sell x _ ih => exact ih.elim fun D h => ⟨.sell x D, Nat.succ_le_succ h⟩
  | group _ ih => exact ih.elim fun D h => ⟨.group D, Nat.succ_le_succ h⟩
  | single _ ih => exact ih.elim fun D h => ⟨.single D, h⟩
  | link _ _ ih ih' =>
    obtain ⟨D, h⟩ := ih
    obtain ⟨D', h'⟩ := ih'
    exact ⟨.link D D', Nat.max_le.2 ⟨h, h'⟩⟩

/-- An operand occurs at its place in the tree. -/
theorem Derivation.at?_place (D : Derivation p ks e) : ∀ o ∈ D.operands, e.at? o.place = some o.tree := by
  induction D with
  | leaf => simp [operands, self, at?]
  | single _ ih => exact ih
  | link _ _ ih ih' =>
    intro o ho
    rcases List.mem_append.1 ho with ho | ho <;> obtain ⟨o', ho', rfl⟩ := List.mem_map.1 ho
    · exact ih o' ho'
    · exact ih' o' ho'
  | assign _ _ ih | rotate _ _ ih | move _ _ ih | buy _ _ ih | sell _ _ ih | group _ ih =>
    intro o ho
    rcases List.mem_cons.1 ho with rfl | ho
    · simp [self, at?]
    · obtain ⟨o', ho', rfl⟩ := List.mem_map.1 ho
      exact ih o' ho'

/-! ## What is skipped -/

/-- Recovery skips the phrase: an operand wherever it starts, a chain inside parentheses. -/
def SkippedBy (p : Phrase) (ks : List Token.Kind) : Prop :=
  ∀ (s : Scope) (k : Nat) read rest, kinds read = ks → match p with
    | .operand => s.resume k (read ++ rest) = s.resume k rest
    | .expression => s.resume (k + 1) (read ++ rest) = s.resume (k + 1) rest

theorem resume_equals (k col : Nat) (ts : List Token) :
    s.resume k (⟨.symbol .equals, col⟩ :: ts) = s.resume k ts := by
  cases k <;> rfl

theorem Derives.skippedBy (d : Derives p n ks e) : SkippedBy p ks := by
  induction d with
  | quit | stop | help | landmark | inventory | marketPrices | cityPrices | name | integer =>
    intro s k read rest h
    obtain ⟨col, rfl⟩ := kinds_eq_singleton h
    rfl
  | echo x =>
    intro s k read rest h
    obtain ⟨col, read, rfl, h₁⟩ := kinds_eq_cons h
    obtain ⟨col', rfl⟩ := kinds_eq_singleton h₁
    rfl
  | assign x _ ih =>
    intro s k read rest h
    obtain ⟨col, read, rfl, h₁⟩ := kinds_eq_cons h
    obtain ⟨col', read, rfl, h₂⟩ := kinds_eq_cons h₁
    obtain ⟨colEq, read, rfl, h₃⟩ := kinds_eq_cons h₂
    exact (resume_equals k colEq (read ++ rest)).trans (ih s k read rest h₃)
  | rotate _ _ ih | move _ _ ih =>
    intro s k read rest h
    obtain ⟨col, read, rfl, h₁⟩ := kinds_eq_cons h
    exact ih s k read rest h₁
  | buy _ _ ih | sell _ _ ih =>
    intro s k read rest h
    obtain ⟨col, read, rfl, h₁⟩ := kinds_eq_cons h
    obtain ⟨col', read, rfl, h₂⟩ := kinds_eq_cons h₁
    exact ih s k read rest h₂
  | group _ ih =>
    intro s k read rest h
    obtain ⟨col, read, rfl, h₁⟩ := kinds_eq_cons h
    obtain ⟨read, close, rfl, h₂, hclose⟩ := kinds_eq_append h₁
    obtain ⟨col', rfl⟩ := kinds_eq_singleton hclose
    have hin : s.resume (k + 1) (read ++ ⟨.symbol .closeParen, col'⟩ :: rest) =
        s.resume (k + 1) (⟨.symbol .closeParen, col'⟩ :: rest) := ih s k read _ h₂
    simpa [Scope.resume] using hin
  | single _ ih => exact fun s k read rest h => ih s (k + 1) read rest h
  | link _ _ ih ih' =>
    intro s k read rest h
    obtain ⟨read₁, more, rfl, h₁, hmore⟩ := kinds_eq_append h
    obtain ⟨col, read₂, rfl, h₂⟩ := kinds_eq_cons hmore
    have hfirst : s.resume (k + 1) (read₁ ++ ⟨.symbol .andAnd, col⟩ :: (read₂ ++ rest)) =
        s.resume (k + 1) (⟨.symbol .andAnd, col⟩ :: (read₂ ++ rest)) := ih s (k + 1) read₁ _ h₁
    show s.resume (k + 1) (read₁ ++ ⟨.symbol .andAnd, col⟩ :: read₂ ++ rest) = s.resume (k + 1) rest
    rw [List.append_assoc, List.cons_append]
    exact hfirst.trans (ih' s k read₂ rest h₂)

/-! ## What is read -/

/-- What `n` levels make of a derived phrase: `q` is the tree, and the tokens behind the phrase. -/
structure Cut (n : Nat) (D : Derivation p ks e) (rest : List Token) (q : Expr × List Token) : Prop where
  rest : q.2 = rest
  complaints : ∀ c ∈ q.1.errors, c.1 = Complaint.nestedTooDeeply.text
  free : q.1.errors = [] ↔ D.nesting ≤ n
  kept : ∀ o ∈ D.operands, o.around + o.nesting ≤ n → q.1.isError = false ∧ q.1.at? o.place = some o.tree

theorem errors_of_errorFree {e : Expr} (h : e.errorFree = true) : e.errors = [] := by
  induction e with
  | error => cases h
  | seq left right ihl ihr =>
    obtain ⟨hl, hr⟩ : left.errorFree = true ∧ right.errorFree = true := by simpa [Expr.errorFree] using h
    simp [errors, ihl hl, ihr hr]
  | assign _ _ ih | rotate _ ih | move _ ih | buy _ _ ih | sell _ _ ih => exact ih h
  | _ => rfl

/-- Levels enough for the whole phrase cut nothing. -/
theorem Cut.of_nesting_le (D : Derivation p ks e) (hn : D.nesting ≤ n) : Cut n D rest (e, rest) := by
  have hnil := errors_of_errorFree D.derives.errorFree
  refine ⟨rfl, by simp [hnil], by simp [hnil, hn], fun o ho _ => ⟨?_, D.at?_place o ho⟩⟩
  exact isError_of_errorFree D.derives.errorFree

/-- Where no level is left, the operand is skipped. -/
theorem cut_zero (D : Derivation .operand ks e) (h : kinds read = ks) (hend : AtEnd s rest) :
    Cut 0 D rest (operand 0 s (read ++ rest)) := by
  have hrest : s.resume 0 (read ++ rest) = rest :=
    (D.derives.skippedBy s 0 read rest h).trans (resume_of_atEnd hend)
  have hpos := D.nesting_pos
  refine ⟨hrest, ?_, iff_of_false ?_ (by omega), fun o _ ho => ?_⟩
  · simp [operand, Scope.failHere, Scope.fail, errors]
  · simp [operand, Scope.failHere, Scope.fail, errors]
  · have hpos' : 0 < o.nesting := o.derivation.nesting_pos
    omega

/-- The node that `build` puts around an operand keeps what is wrong with it, one step further down. -/
structure Node (build : Expr → Expr) : Prop where
  isError : ∀ e, (build e).isError = false
  errors : ∀ e, (build e).errors = e.errors
  at? : ∀ e place, (build e).at? (.value :: place) = e.at? place

/-- Of an operand that is too deep itself, only operands within it can be within the limit. -/
theorem exists_of_within {D : Derivation p ks e} {D' : Derivation .operand ls f} {steps : List Step}
    (hops : D'.operands = D'.self :: D.operands.map (.below steps 1)) (hdeep : n + 1 < D'.nesting)
    {o : Occurrence} (ho : o ∈ D'.operands) (hle : o.around + o.nesting ≤ n + 1) :
    ∃ o' ∈ D.operands, o = o'.below steps 1 ∧ o'.around + o'.nesting ≤ n := by
  rw [hops] at ho
  rcases List.mem_cons.1 ho with rfl | ho
  · have hself : 0 + D'.nesting ≤ n + 1 := hle
    omega
  · obtain ⟨o', ho', rfl⟩ := List.mem_map.1 ho
    have hle' : o'.around + 1 + o'.nesting ≤ n + 1 := hle
    exact ⟨o', ho', rfl, by omega⟩

/-- Where the operand of a node falls, the node falls with it. -/
theorem Cut.wrap (build : Expr → Expr) (hb : Node build) {D : Derivation .operand ks e}
    {D' : Derivation .operand ls f} (hn : D'.nesting = D.nesting + 1)
    (hops : D'.operands = D'.self :: D.operands.map (.below [.value] 1)) (hdeep : n + 1 < D'.nesting)
    {q : Expr × List Token} (hcut : Cut n D rest q) : Cut (n + 1) D' rest (Expr.wrap build q) := by
  cases hE : q.1.isError with
  | true =>
    rw [wrap_error hE]
    refine ⟨hcut.rest, hcut.complaints, iff_of_false (errors_of_isError hE) (by omega), fun o ho hle => ?_⟩
    obtain ⟨o', ho', -, hle'⟩ := exists_of_within hops hdeep ho hle
    rw [(hcut.kept o' ho' hle').1] at hE
    cases hE
  | false =>
    rw [wrap_of_not_error hE]
    refine ⟨hcut.rest, ?_, ?_, fun o ho hle => ?_⟩
    · rw [hb.errors]
      exact hcut.complaints
    · rw [hb.errors, hcut.free]
      omega
    · obtain ⟨o', ho', rfl, hle'⟩ := exists_of_within hops hdeep ho hle
      exact ⟨hb.isError _, (hb.at? _ _).trans (hcut.kept o' ho' hle').2⟩

theorem Cut.group {D : Derivation .expression ks e} {q : Expr × List Token} {col : Nat}
    (hdeep : n + 1 < (Derivation.group D).nesting) (hcut : Cut n D (⟨.symbol .closeParen, col⟩ :: rest) q) :
    Cut (n + 1) (.group D) rest (q.1, rest) := by
  refine ⟨rfl, hcut.complaints, hcut.free.trans Nat.succ_le_succ_iff.symm, fun o ho hle => ?_⟩
  obtain ⟨o', ho', rfl, hle'⟩ := exists_of_within rfl hdeep ho hle
  exact hcut.kept o' ho' hle'

theorem Cut.link {D : Derivation .operand ks e} {D' : Derivation .expression ls f} {q q' : Expr × List Token}
    {rest' : List Token} (hcut : Cut n D rest' q) (hcut' : Cut n D' rest q') :
    Cut n (.link D D') rest (seq q.1 q'.1, q'.2) := by
  refine ⟨hcut'.rest, fun c hc => ?_, ?_, fun o ho hle => ⟨rfl, ?_⟩⟩
  · rcases List.mem_append.1 hc with hc | hc
    · exact hcut.complaints c hc
    · exact hcut'.complaints c hc
  · rw [errors, List.append_eq_nil_iff, hcut.free, hcut'.free]
    exact Nat.max_le.symm
  · rcases List.mem_append.1 ho with ho | ho <;> obtain ⟨o', ho', rfl⟩ := List.mem_map.1 ho
    · exact (hcut.kept o' ho' hle).2
    · exact (hcut'.kept o' ho' hle).2

/-- The phrase is cut wherever it may end, whatever the number of levels. -/
def CutBy (D : Derivation p ks e) : Prop :=
  ∀ n s read rest, kinds read = ks → AtEnd s rest → match p with
    | .operand => Cut n D rest (operand n s (read ++ rest))
    | .expression => NoLink rest → Cut n D rest (chain (operand n) s (read ++ rest))

/-- What is left to show of an operand: that it is cut where its own operands are too deep. -/
theorem cutBy_operand {D : Derivation .operand ks e}
    (h : ∀ n s read rest, n + 1 < D.nesting → kinds read = ks → AtEnd s rest →
      Cut (n + 1) D rest (operand (n + 1) s (read ++ rest))) : CutBy D := by
  intro n s read rest hks hend
  rcases Nat.lt_or_ge n D.nesting with hn | hn
  · cases n with
    | zero => exact cut_zero D hks hend
    | succ n => exact h n s read rest hn hks hend
  · have hread : operand n s (read ++ rest) = (e, rest) := (D.derives.mono hn).readBy s read rest hks
    rw [hread]
    exact .of_nesting_le D hn

/-- However deep a phrase is nested, it is cut where the levels end and nowhere else. -/
theorem Derivation.cut (D : Derivation p ks e) : CutBy D := by
  induction D with
  | leaf => exact cutBy_operand fun n s read rest hn => absurd hn (Nat.not_lt.2 (Nat.le_add_left ..))
  | assign x D ih =>
    refine cutBy_operand fun n s read rest hn h hend => ?_
    obtain ⟨col, read, rfl, h₁⟩ := kinds_eq_cons h
    obtain ⟨col', read, rfl, h₂⟩ := kinds_eq_cons h₁
    obtain ⟨colEq, read, rfl, h₃⟩ := kinds_eq_cons h₂
    exact (ih n s read rest h₃ hend).wrap (Expr.assign x) ⟨fun _ => rfl, fun _ => rfl, fun _ _ => rfl⟩ rfl rfl hn
  | rotate ha D ih =>
    refine cutBy_operand fun n s read rest hn h hend => ?_
    obtain ⟨col, read, rfl, h₁⟩ := kinds_eq_cons h
    have hcut := (ih n s read rest h₁ hend).wrap Expr.rotate ⟨fun _ => rfl, fun _ => rfl, fun _ _ => rfl⟩ rfl rfl hn
    rwa [← argument_starts ha h₁] at hcut
  | move ha D ih =>
    refine cutBy_operand fun n s read rest hn h hend => ?_
    obtain ⟨col, read, rfl, h₁⟩ := kinds_eq_cons h
    have hcut := (ih n s read rest h₁ hend).wrap Expr.move ⟨fun _ => rfl, fun _ => rfl, fun _ _ => rfl⟩ rfl rfl hn
    rwa [← argument_starts ha h₁] at hcut
  | buy x D ih =>
    refine cutBy_operand fun n s read rest hn h hend => ?_
    obtain ⟨col, read, rfl, h₁⟩ := kinds_eq_cons h
    obtain ⟨col', read, rfl, h₂⟩ := kinds_eq_cons h₁
    exact (ih n s read rest h₂ hend).wrap (Expr.buy x) ⟨fun _ => rfl, fun _ => rfl, fun _ _ => rfl⟩ rfl rfl hn
  | sell x D ih =>
    refine cutBy_operand fun n s read rest hn h hend => ?_
    obtain ⟨col, read, rfl, h₁⟩ := kinds_eq_cons h
    obtain ⟨col', read, rfl, h₂⟩ := kinds_eq_cons h₁
    exact (ih n s read rest h₂ hend).wrap (Expr.sell x) ⟨fun _ => rfl, fun _ => rfl, fun _ _ => rfl⟩ rfl rfl hn
  | group D ih =>
    refine cutBy_operand fun n s read rest hn h hend => ?_
    obtain ⟨col, read, rfl, h₁⟩ := kinds_eq_cons h
    obtain ⟨read, close, rfl, h₂, hclose⟩ := kinds_eq_append h₁
    obtain ⟨col', rfl⟩ := kinds_eq_singleton hclose
    have hcut : Cut n D _ (chain (operand n) s.inside (read ++ ⟨.symbol .closeParen, col'⟩ :: rest)) :=
      ih n s.inside read _ h₂ (by simp [AtEnd, Scope.endsStatement, Scope.inside]) (by simp [NoLink])
    have hgroup := group_closed hcut.rest
    have hcut := hcut.group hn
    rw [← hgroup] at hcut
    simpa [operand, primary] using hcut
  | single D ih =>
    intro n s read rest h hend hlink
    have hcut : Cut n D rest (operand n s (read ++ rest)) := ih n s read rest h hend
    have hst : statement (operand n) s (read ++ rest) = operand n s (read ++ rest) :=
      statement_of_atEnd (by rwa [hcut.rest])
    rw [chain_last (by rwa [hst, hcut.rest]), hst]
    exact ⟨hcut.rest, hcut.complaints, hcut.free, hcut.kept⟩
  | link D D' ih ih' =>
    intro n s read rest h hend hlink
    obtain ⟨read₁, more, rfl, h₁, hmore⟩ := kinds_eq_append h
    obtain ⟨col, read₂, rfl, h₂⟩ := kinds_eq_cons hmore
    rw [List.append_assoc, List.cons_append]
    have hand : AtEnd s (⟨.symbol .andAnd, col⟩ :: (read₂ ++ rest)) := by simp [AtEnd, Scope.endsStatement]
    have hcut : Cut n D _ (operand n s (read₁ ++ ⟨.symbol .andAnd, col⟩ :: (read₂ ++ rest))) :=
      ih n s read₁ _ h₁ hand
    have hst := statement_of_atEnd (r := operand n) (s := s) (by rwa [hcut.rest])
    rw [chain_link (operand_suffix n) (hst ▸ hcut.rest) rfl, hst]
    exact hcut.link (ih' n s read₂ rest h₂ hend hlink)

/-! ## Lines -/

/-- Of a line that is derivable but for the limit, the only complaint is that operands are nested too deeply.
There is one exactly if more than `maxNesting` operands are open at once, and every operand of the
derivation that stays within the limit where it stands has its tree at its place. -/
theorem ofString?_nested {line : String} (h : kinds (Line.ofString line).tokens = ks)
    (D : Derivation .expression ks e) :
    ∃ t, ofString? line = some t ∧
      (∀ message col, (message, col) ∈ t.errors → message = "expression nested too deeply") ∧
      (t.errors ≠ [] ↔ maxNesting < D.nesting) ∧
      ∀ o ∈ D.operands, o.around + o.nesting ≤ maxNesting → t.at? o.place = some o.tree := by
  obtain ⟨t, ht⟩ : ∃ t, ofString? line = some t := by
    rw [← Option.ne_none_iff_exists']
    intro hnone
    rw [ofLine?_eq_none.1 hnone] at h
    exact D.derives.ne_nil h.symm
  have hcut : Cut maxNesting D [] (chain (operand maxNesting) ⟨(Line.ofString line).endCol, false⟩
      ((Line.ofString line).tokens ++ [])) :=
    D.cut maxNesting ⟨_, false⟩ _ [] h (by simp [AtEnd]) (by simp [NoLink])
  rw [List.append_nil] at hcut
  obtain rfl := ofLine?_eq_some ht
  exact ⟨_, ht, fun message col hc => hcut.complaints _ hc, (not_congr hcut.free).trans Nat.not_le,
    fun o ho hle => (hcut.kept o ho hle).2⟩

/-- A `stop` in `k` pairs of parentheses. -/
def stopWithin : Nat → String
  | 0 => Keyword.stop.text
  | k + 1 => "(" ++ stopWithin k ++ ")"

theorem stopWithin_spelled (k : Nat) :
    ∃ ks, Spells (stopWithin k) ks ∧ ∃ D : Derivation .operand ks .stop, D.nesting = k + 1 := by
  induction k with
  | zero => exact ⟨_, spells_keyword .stop, .leaf .stop, rfl⟩
  | succ k ih =>
    obtain ⟨ks, hs, D, hn⟩ := ih
    exact ⟨_, hs.group, .group (.single D), congrArg (· + 1) hn⟩

/-- Behind 500 parentheses a `stop` is too deep, and the statement behind it is read. -/
theorem ofString?_nested_parentheses :
    ∃ t, ofString? (stopWithin 500 ++ " && move 1") = some t ∧ t.errors ≠ [] ∧
      (∀ message col, (message, col) ∈ t.errors → message = "expression nested too deeply") ∧
      t.at? [.right] = some (.move (.int 1)) := by
  obtain ⟨ks, hs, D, hn⟩ := stopWithin_spelled 500
  generalize stopWithin 500 = text at hs ⊢
  have hmove : Spells ("move" ++ " " ++ "1") [.keyword .move, .integer 1] :=
    (spells_keyword .move).blank (spells_integer 1)
  have hline : text ++ " && move 1" = text ++ " " ++ ("&&" ++ " " ++ ("move" ++ " " ++ "1")) := by
    rw [String.append_assoc]
    exact congrArg (text ++ ·) (by decide +kernel)
  let D' : Derivation .operand [.keyword .move, .integer 1] (.move (.int 1)) :=
    .move (.integer 1 []) (.leaf (.integer 1))
  obtain ⟨t, ht, hall, hsome, hkept⟩ := ofString?_nested (hline ▸ (hs.blank ((spells_symbol .andAnd).blank hmove)).kinds)
    (.link D (.single D'))
  refine ⟨t, ht, hsome.2 ?_, hall, hkept (D'.self.below [.right] 0) ?_ (by decide)⟩
  · exact Nat.lt_of_lt_of_le (by rw [hn]; decide) (Nat.le_max_left ..)
  · exact List.mem_append_right _ (List.mem_map_of_mem List.mem_cons_self)

end Grammar

end RobotShell
