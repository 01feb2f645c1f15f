import RobotShell.Proofs.Lines
import RobotShell.Proofs.Rules
/-!
# The grammar, and what is read by it

`Derives` is the grammar as a relation between the kinds of some tokens and the tree they denote.
Reading a line gives a tree without errors exactly if the line is derivable, and then it is the
derived tree. Soundness follows the rules that read, completeness the derivation.
-/

namespace RobotShell

/-- Whether no error node occurs in the tree. -/
def Expr.errorFree : Expr → Bool
  | .error _ _ => false
  | .seq left right => left.errorFree && right.errorFree
  | .assign _ e | .rotate e | .move e | .buy _ e | .sell _ e => e.errorFree
  | _ => true

namespace Grammar

open RobotShell.Expr

/-- The kinds of tokens, in order. -/
def kinds (ts : List Token) : List Token.Kind := ts.map (·.kind)

inductive Phrase where
  | expression
  | operand

/-- What the operand of `rotate` and `move` may start with: a name, an integer or a parenthesis. -/
inductive Argument : List Token.Kind → Prop
  | name (x : Name) (ks : List Token.Kind) : Argument (.name x :: ks)
  | integer (n : Int64) (ks : List Token.Kind) : Argument (.integer n :: ks)
  | group (ks : List Token.Kind) : Argument (.symbol .openParen :: ks)

/-- `Derives p n ks e`: the tokens form a phrase `p` in which at most `n` operands are open at once,
and `e` is its tree. -/
inductive Derives : Phrase → Nat → List Token.Kind → Expr → Prop
  | quit {n} : Derives .operand (n + 1) [.keyword .quit] .quit
  | stop {n} : Derives .operand (n + 1) [.keyword .stop] .stop
  | help {n} : Derives .operand (n + 1) [.keyword .help] .help
  | landmark {n} : Derives .operand (n + 1) [.keyword .landmark] .landmark
  | inventory {n} : Derives .operand (n + 1) [.keyword .inventory] .inventory
  | marketPrices {n} : Derives .operand (n + 1) [.keyword .marketPrices] .marketPrices
  | cityPrices {n} : Derives .operand (n + 1) [.keyword .cityPrices] .cityPrices
  | name {n} (x : Name) : Derives .operand (n + 1) [.name x] (.name x)
  | integer {n} (i : Int64) : Derives .operand (n + 1) [.integer i] (.int i)
  | echo {n} (x : Name) : Derives .operand (n + 1) [.keyword .echo, .name x] (.echo x)
  | assign {n ks e} (x : Name) : Derives .operand n ks e →
      Derives .operand (n + 1) (.keyword .assign :: .name x :: .symbol .equals :: ks) (.assign x e)
  | rotate {n ks e} : Argument ks → Derives .operand n ks e →
      Derives .operand (n + 1) (.keyword .rotate :: ks) (.rotate e)
  | move {n ks e} : Argument ks → Derives .operand n ks e →
      Derives .operand (n + 1) (.keyword .move :: ks) (.move e)
  | buy {n ks e} (x : Name) : Derives .operand n ks e →
      Derives .operand (n + 1) (.keyword .buy :: .name x :: ks) (.buy x e)
  | sell {n ks e} (x : Name) : Derives .operand n ks e →
      Derives .operand (n + 1) (.keyword .sell :: .name x :: ks) (.sell x e)
  | group {n ks e} : Derives .expression n ks e →
      Derives .operand (n + 1) (.symbol .openParen :: (ks ++ [.symbol .closeParen])) e
  | single {n ks e} : Derives .operand n ks e → Derives .expression n ks e
  | link {n ks ls e f} : Derives .operand n ks e → Derives .expression n ls f →
      Derives .expression n (ks ++ .symbol .andAnd :: ls) (.seq e f)

variable {r : Rule} {s : Scope} {ts rest : List Token} {n : Nat}

/-! ## Error nodes -/

theorem isError_of_errorFree {e : Expr} (h : e.errorFree = true) : e.isError = false := by
  cases e <;> simp_all [errorFree, isError]

theorem Derives.errorFree {p : Phrase} {ks : List Token.Kind} {e : Expr} (d : Derives p n ks e) :
    e.errorFree = true := by
  induction d with
  | link _ _ ih₁ ih₂ => simp [Expr.errorFree, ih₁, ih₂]
  | assign _ _ ih | rotate _ _ ih | move _ _ ih | buy _ _ ih | sell _ _ ih | group _ ih | single _ ih => exact ih
  | _ => rfl

/-- A derivable line holds no integer that is out of range. -/
theorem Derives.inRange {p : Phrase} {ks : List Token.Kind} {e : Expr} (d : Derives p n ks e) :
    .outOfRange ∉ ks := by
  induction d <;> simp_all

/-- Nor a character that belongs to no token. -/
theorem Derives.noStray {p : Phrase} {ks : List Token.Kind} {e : Expr} (d : Derives p n ks e) (c : Char) :
    .stray c ∉ ks := by
  induction d <;> simp_all

theorem Derives.ne_nil {p : Phrase} {ks : List Token.Kind} {e : Expr} (d : Derives p n ks e) : ks ≠ [] := by
  induction d <;> simp_all

/-- The rule gave `q` by reading a phrase from the front of the tokens. -/
def Reads (p : Phrase) (n : Nat) (ts : List Token) (q : Expr × List Token) : Prop :=
  ∃ read, ts = read ++ q.2 ∧ Derives p n (kinds read) q.1

/-- Whatever the rule reads without an error is an operand with at most `n` open at once. -/
def Sound (n : Nat) (r : Rule) : Prop := ∀ s ts, (r s ts).1.errorFree = true → Reads .operand n ts (r s ts)

/-! ## Soundness -/

/-- A node around an operand is sound if the grammar has the rule for it. -/
theorem wrap_sound (hr : Sound n r) (build : Expr → Expr) (hb : ∀ e, (build e).errorFree = e.errorFree)
    (front : List Token)
    (rule : ∀ read, ts = read ++ (r s ts).2 → Derives .operand n (kinds read) (r s ts).1 →
      Derives .operand (n + 1) (kinds front ++ kinds read) (build (r s ts).1))
    (h : (wrap build (r s ts)).1.errorFree = true) :
    Reads .operand (n + 1) (front ++ ts) (wrap build (r s ts)) := by
  cases hE : (r s ts).1.isError with
  | true =>
    rw [wrap_error hE] at h
    rw [isError_of_errorFree h] at hE
    cases hE
  | false =>
    rw [wrap_of_not_error hE] at h ⊢
    obtain ⟨read, hts, d⟩ := hr s ts (hb _ ▸ h)
    refine ⟨front ++ read, ?_, ?_⟩
    · rw [List.append_assoc, ← hts]
    · simpa [kinds] using rule read hts d

theorem named_errorFree {andThen : Name → List Token → Expr × List Token}
    (h : (named s ts andThen).1.errorFree = true) :
    ∃ x col rest, ts = ⟨.name x, col⟩ :: rest ∧ named s ts andThen = andThen x rest := by
  unfold named at h ⊢
  split at h
  · exact ⟨_, _, _, rfl, rfl⟩
  · cases h

theorem argument_errorFree {build : Expr → Expr} (h : (argument r build s ts).1.errorFree = true) :
    (∃ t rest, ts = t :: rest ∧ startsArgument t.kind = true) ∧ argument r build s ts = wrap build (r s ts) := by
  unfold argument at h ⊢
  split at h
  · cases h
  · split at h
    · next ht => exact ⟨⟨_, _, rfl, ht⟩, if_pos ht⟩
    · cases h

theorem statement_sound (hr : Sound n r) : Sound n (statement r) := by
  intro s ts h
  rcases atEnd_or s (r s ts).2 with hend | ⟨t, rest, hrest, ht⟩
  · rw [statement_of_atEnd hend] at h ⊢
    exact hr s ts h
  · rw [statement_of_not_end hrest ht] at h
    cases h

theorem chain_sound (hs : Shrinks r) (hr : Sound n r) (s : Scope) (ts : List Token)
    (h : (chain r s ts).1.errorFree = true) : Reads .expression n ts (chain r s ts) := by
  revert h
  refine chain_induction hs s (P := fun ts q => q.1.errorFree = true → Reads .expression n ts q) ?_ ?_ ts
  · intro ts _ h
    obtain ⟨read, hts, d⟩ := statement_sound hr s ts h
    exact ⟨read, hts, .single d⟩
  · intro ts t rest hrest ht ih h
    obtain ⟨h₁, h₂⟩ : _ ∧ _ := by simpa [errorFree] using h
    obtain ⟨read₁, hts, d₁⟩ := statement_sound hr s ts h₁
    obtain ⟨read₂, hrest₂, d₂⟩ := ih h₂
    refine ⟨read₁ ++ t :: read₂, ?_, ?_⟩
    · rw [List.append_assoc, List.cons_append, ← hrest₂, ← hrest, ← hts]
    · simpa [kinds, ht] using Derives.link d₁ d₂

theorem group_sound (hs : Shrinks r) (hr : Sound n r) (col : Nat) (h : (group r s ts).1.errorFree = true) :
    Reads .operand (n + 1) (⟨.symbol .openParen, col⟩ :: ts) (group r s ts) := by
  rcases chain_rest hs s.inside ts with hc | ⟨-, col', rest, hc⟩
  -- without a close the group is an error, that of its contents or one of its own
  · rw [group_unclosed hc] at h
    cases hE : (chain r s.inside ts).1.isError with
    | true =>
      have hfree : (chain r s.inside ts).1.errorFree = true := by simpa [hE] using h
      rw [isError_of_errorFree hfree] at hE
      cases hE
    | false => simp [hE, errorFree] at h
  · rw [group_closed hc] at h ⊢
    obtain ⟨read, hts, d⟩ := chain_sound hs hr s.inside ts h
    refine ⟨⟨.symbol .openParen, col⟩ :: (read ++ [⟨.symbol .closeParen, col'⟩]), ?_, ?_⟩
    · rw [hts, hc]; simp
    · simpa [kinds] using Derives.group d

/-- The argument of `rotate` and `move` starts as the grammar says: the rule lets an integer out of
range through as well, but no operand starts with one. -/
theorem argument_of_starts {read : List Token} {e : Expr} (d : Derives .operand n (kinds read) e)
    (h : ∃ t ts, read ++ rest = t :: ts ∧ startsArgument t.kind = true) : Argument (kinds read) := by
  obtain ⟨t, ts, hts, ht⟩ := h
  rcases read with _ | ⟨⟨kind, col⟩, read⟩
  · exact absurd rfl d.ne_nil
  · obtain ⟨rfl, -⟩ : Token.mk kind col = t ∧ read ++ rest = ts := by simpa using hts
    have hrange := d.inRange
    cases kind with
    | name x => exact .name x _
    | integer i => exact .integer i _
    | outOfRange => simp [kinds] at hrange
    | symbol y =>
      cases y with
      | openParen => exact .group _
      | _ => cases ht
    | _ => cases ht

theorem keyworded_sound (hr : Sound n r) (k : Keyword) (col : Nat)
    (h : (keyworded r k s ts).1.errorFree = true) :
    Reads .operand (n + 1) (⟨.keyword k, col⟩ :: ts) (keyworded r k s ts) := by
  cases k with
  | quit => exact ⟨[⟨.keyword .quit, col⟩], rfl, .quit⟩
  | stop => exact ⟨[⟨.keyword .stop, col⟩], rfl, .stop⟩
  | help => exact ⟨[⟨.keyword .help, col⟩], rfl, .help⟩
  | landmark => exact ⟨[⟨.keyword .landmark, col⟩], rfl, .landmark⟩
  | inventory => exact ⟨[⟨.keyword .inventory, col⟩], rfl, .inventory⟩
  | marketPrices => exact ⟨[⟨.keyword .marketPrices, col⟩], rfl, .marketPrices⟩
  | cityPrices => exact ⟨[⟨.keyword .cityPrices, col⟩], rfl, .cityPrices⟩
  | echo =>
    obtain ⟨x, col', rest, rfl, -⟩ := named_errorFree h
    exact ⟨[⟨.keyword .echo, col⟩, ⟨.name x, col'⟩], rfl, .echo x⟩
  | rotate =>
    obtain ⟨hstart, heq⟩ := argument_errorFree h
    rw [show keyworded r .rotate s ts = _ from heq] at h ⊢
    exact wrap_sound hr rotate (fun e => rfl) [⟨.keyword .rotate, col⟩]
      (fun read hts d => .rotate (argument_of_starts d (hts ▸ hstart)) d) h
  | move =>
    obtain ⟨hstart, heq⟩ := argument_errorFree h
    rw [show keyworded r .move s ts = _ from heq] at h ⊢
    exact wrap_sound hr move (fun e => rfl) [⟨.keyword .move, col⟩]
      (fun read hts d => .move (argument_of_starts d (hts ▸ hstart)) d) h
  | buy =>
    obtain ⟨x, col', rest, rfl, -⟩ := named_errorFree h
    exact wrap_sound hr (buy x) (fun e => rfl) [⟨.keyword .buy, col⟩, ⟨.name x, col'⟩]
      (fun read _ d => .buy x d) h
  | sell =>
    obtain ⟨x, col', rest, rfl, -⟩ := named_errorFree h
    exact wrap_sound hr (sell x) (fun e => rfl) [⟨.keyword .sell, col⟩, ⟨.name x, col'⟩]
      (fun read _ d => .sell x d) h
  | assign =>
    obtain ⟨x, col', rest, rfl, -⟩ := named_errorFree h
    rcases rest with _ | ⟨⟨kind, colEq⟩, rest⟩
    · cases h
    · cases kind with
      | symbol y =>
        cases y with
        | equals =>
          exact wrap_sound hr (assign x) (fun e => rfl)
            [⟨.keyword .assign, col⟩, ⟨.name x, col'⟩, ⟨.symbol .equals, colEq⟩] (fun read _ d => .assign x d) h
        | _ => cases h
      | _ => cases h

theorem primary_sound (hs : Shrinks r) (hr : Sound n r) : Sound (n + 1) (primary r) := by
  intro s ts h
  rcases ts with _ | ⟨⟨kind, col⟩, rest⟩
  · cases h
  · cases kind with
    | keyword k => exact keyworded_sound hr k col h
    | name x => exact ⟨[⟨.name x, col⟩], rfl, .name x⟩
    | integer i => exact ⟨[⟨.integer i, col⟩], rfl, .integer i⟩
    | outOfRange | stray c => cases h
    | symbol y =>
      cases y with
      | openParen => exact group_sound hs hr col h
      | _ => cases h

theorem operand_sound (n : Nat) : Sound n (operand n) := by
  induction n with
  | zero => exact fun s ts h => by cases h
  | succ n ih => exact primary_sound (operand_suffix n) ih

/-! ## Completeness -/

/-- The phrase is read from the front of any tokens, wherever a phrase may end. -/
def ReadBy (p : Phrase) (n : Nat) (ks : List Token.Kind) (e : Expr) : Prop :=
  ∀ s read rest, kinds read = ks → match p with
    | .operand => operand n s (read ++ rest) = (e, rest)
    | .expression => AtEnd s rest → NoLink rest → chain (operand n) s (read ++ rest) = (e, rest)

theorem kinds_eq_cons {read : List Token} {k : Token.Kind} {ks : List Token.Kind} (h : kinds read = k :: ks) :
    ∃ col read', read = ⟨k, col⟩ :: read' ∧ kinds read' = ks := by
  obtain ⟨t, read', rfl, ht, hread⟩ := List.map_eq_cons_iff.1 h
  exact ⟨t.col, read', by rw [← ht], hread⟩

theorem kinds_eq_append {read : List Token} {ks ls : List Token.Kind} (h : kinds read = ks ++ ls) :
    ∃ read₁ read₂, read = read₁ ++ read₂ ∧ kinds read₁ = ks ∧ kinds read₂ = ls :=
  List.map_eq_append_iff.1 h

theorem kinds_eq_singleton {read : List Token} {k : Token.Kind} (h : kinds read = [k]) :
    ∃ col, read = [⟨k, col⟩] := by
  obtain ⟨col, read', hread, hnil⟩ := kinds_eq_cons h
  exact ⟨col, by rw [hread, List.map_eq_nil_iff.1 hnil]⟩

theorem readBy_wrap {ks : List Token.Kind} {e : Expr} (d : Derives .operand n ks e)
    (ih : ReadBy .operand n ks e) (build : Expr → Expr) {read : List Token} (h : kinds read = ks) :
    wrap build (operand n s (read ++ rest)) = (build e, rest) := by
  rw [ih s read rest h]
  exact wrap_of_not_error (isError_of_errorFree d.errorFree)

theorem argument_starts {ks : List Token.Kind} (ha : Argument ks) {read : List Token} (h : kinds read = ks)
    (r : Rule) (build : Expr → Expr) : argument r build s (read ++ rest) = wrap build (r s (read ++ rest)) := by
  cases ha <;> obtain ⟨col, read, rfl, -⟩ := kinds_eq_cons h <;> rfl

theorem Derives.readBy {p : Phrase} {ks : List Token.Kind} {e : Expr} (d : Derives p n ks e) : ReadBy p n ks e := by
  induction d with
  | quit | stop | help | landmark | inventory | marketPrices | cityPrices | name | integer =>
    intro s read rest h
    obtain ⟨col, rfl⟩ := kinds_eq_singleton h
    rfl
  | echo x =>
    intro s read rest h
    obtain ⟨col, read, rfl, h₁⟩ := kinds_eq_cons h
    obtain ⟨col', rfl⟩ := kinds_eq_singleton h₁
    rfl
  | assign x d ih =>
    intro s read rest h
    obtain ⟨col, read, rfl, h₁⟩ := kinds_eq_cons h
    obtain ⟨col', read, rfl, h₂⟩ := kinds_eq_cons h₁
    obtain ⟨colEq, read, rfl, h₃⟩ := kinds_eq_cons h₂
    exact readBy_wrap d ih (.assign x) h₃
  | rotate ha d ih =>
    intro s read rest h
    obtain ⟨col, read, rfl, h₁⟩ := kinds_eq_cons h
    exact (argument_starts ha h₁ _ .rotate).trans (readBy_wrap d ih .rotate h₁)
  | move ha d ih =>
    intro s read rest h
    obtain ⟨col, read, rfl, h₁⟩ := kinds_eq_cons h
    exact (argument_starts ha h₁ _ .move).trans (readBy_wrap d ih .move h₁)
  | buy x d ih =>
    intro s read rest h
    obtain ⟨col, read, rfl, h₁⟩ := kinds_eq_cons h
    obtain ⟨col', read, rfl, h₂⟩ := kinds_eq_cons h₁
    exact readBy_wrap d ih (.buy x) h₂
  | sell x d ih =>
    intro s read rest h
    obtain ⟨col, read, rfl, h₁⟩ := kinds_eq_cons h
    obtain ⟨col', read, rfl, h₂⟩ := kinds_eq_cons h₁
    exact readBy_wrap d ih (.sell x) h₂
  | @group n ks e d ih =>
    intro s read rest h
    obtain ⟨col, read, rfl, h₁⟩ := kinds_eq_cons h
    obtain ⟨read, close, rfl, h₂, hclose⟩ := kinds_eq_append h₁
    obtain ⟨col', rfl⟩ := kinds_eq_singleton hclose
    -- for the chain inside, the close is where it ends and belongs to the rest
    have hc : chain (operand n) s.inside (read ++ ⟨.symbol .closeParen, col'⟩ :: rest) = (e, _) :=
      ih s.inside read (⟨.symbol .closeParen, col'⟩ :: rest) h₂ (by simp [AtEnd, Scope.endsStatement, Scope.inside])
        (by simp [NoLink])
    have hg : Expr.group (operand n) s (read ++ ⟨.symbol .closeParen, col'⟩ :: rest) = (e, rest) := by
      rw [group_closed (by rw [hc]), hc]
    simpa [operand, primary] using hg
  | @single n ks e d ih =>
    intro s read rest h hend hlink
    have hop : operand n s (read ++ rest) = (e, rest) := ih s read rest h
    have hst : statement (operand n) s (read ++ rest) = (e, rest) := by
      rw [statement_of_atEnd (by rwa [hop]), hop]
    rw [chain_last (by rwa [hst]), hst]
  | @link n ks ls e f d₁ d₂ ih₁ ih₂ =>
    intro s read rest h hend hlink
    obtain ⟨read₁, more, rfl, h₁, hmore⟩ := kinds_eq_append h
    obtain ⟨col, read₂, rfl, h₂⟩ := kinds_eq_cons hmore
    rw [List.append_assoc, List.cons_append]
    have hop := ih₁ s read₁ (⟨.symbol .andAnd, col⟩ :: (read₂ ++ rest)) h₁
    have hend' : AtEnd s (⟨.symbol .andAnd, col⟩ :: (read₂ ++ rest)) := by simp [AtEnd, Scope.endsStatement]
    have hst := (statement_of_atEnd (by rwa [hop])).trans hop
    rw [chain_link (operand_suffix n) (congrArg Prod.snd hst) rfl, hst, ih₂ s read₂ rest h₂ hend hlink]

/-! ## Lines -/

/-- A line's tokens are an expression with at most `n` operands open at once, and `e` is its tree. -/
theorem chain_eq_iff (n endCol : Nat) (ts : List Token) :
    ((chain (operand n) ⟨endCol, false⟩ ts).1.errorFree = true ↔ ∃ e, Derives .expression n (kinds ts) e) ∧
      ∀ e, Derives .expression n (kinds ts) e → (chain (operand n) ⟨endCol, false⟩ ts).1 = e := by
  have htop := chain_top (operand_suffix n) endCol ts
  have hread : ∀ e, Derives .expression n (kinds ts) e → (chain (operand n) ⟨endCol, false⟩ ts).1 = e := by
    intro e d
    have h : chain (operand n) ⟨endCol, false⟩ (ts ++ []) = (e, []) :=
      d.readBy ⟨endCol, false⟩ ts [] rfl (by simp [AtEnd]) (by simp [NoLink])
    rw [List.append_nil] at h
    rw [h]
  refine ⟨⟨fun h => ?_, ?_⟩, hread⟩
  -- what is read is all there is, as a chain leaves nothing at the top level
  · obtain ⟨read, hts, d⟩ := chain_sound (operand_suffix n) (operand_sound n) _ ts h
    rw [htop, List.append_nil] at hts
    rw [← hts] at d
    exact ⟨_, d⟩
  · rintro ⟨e, d⟩
    exact hread e d ▸ d.errorFree

theorem Derives.ofString? {s : String} {e : Expr} (d : Derives .expression maxNesting (kinds (Line.ofString s).tokens) e) :
    Expr.ofString? s = some e := by
  obtain ⟨e', he'⟩ : ∃ e', Expr.ofString? s = some e' := by
    rw [← Option.ne_none_iff_exists']
    intro hnone
    exact d.ne_nil (congrArg kinds (ofLine?_eq_none.1 hnone))
  have hread := (chain_eq_iff maxNesting (Line.ofString s).endCol (Line.ofString s).tokens).2 e d
  rw [he', ofLine?_eq_some he', hread]

/-- Reading a line accepts exactly the grammar. A line has no tree exactly if it is blank up to its
end. The tree of any other line is free of errors exactly if no integer is out of range and the line
is an expression with at most `maxNesting` operands open at once, and then it is the tree that the
derivation denotes. -/
theorem ofString?_derives (s : String) :
    (Expr.ofString? s = none ↔ ∀ c ∈ s.toList.takeWhile (fun c => !Source.isLineEnd c), Source.isBlank c = true) ∧
      ∀ e, Expr.ofString? s = some e →
        (e.errorFree = true ↔ (∀ t ∈ (Line.ofString s).tokens, t.kind ≠ .outOfRange) ∧
          ∃ e', Derives .expression maxNesting (kinds (Line.ofString s).tokens) e') ∧
        (e.errorFree = true → ∀ e', Derives .expression maxNesting (kinds (Line.ofString s).tokens) e' ↔ e' = e) := by
  refine ⟨ofLine?_eq_none.trans (Source.line_tokens_eq_nil _), fun e he => ?_⟩
  obtain ⟨hfree, hread⟩ := chain_eq_iff maxNesting (Line.ofString s).endCol (Line.ofString s).tokens
  rw [← ofLine?_eq_some he] at hfree hread
  refine ⟨⟨fun h => ?_, fun h => hfree.2 h.2⟩, fun h e' => ⟨fun d => (hread e' d).symm, ?_⟩⟩
  · obtain ⟨e', d⟩ := hfree.1 h
    refine ⟨fun t ht hk => d.inRange ?_, e', d⟩
    rw [← hk]
    exact List.mem_map_of_mem ht
  · rintro rfl
    obtain ⟨e', d⟩ := hfree.1 h
    exact hread e' d ▸ d

theorem ofString?_derives_rotate :
    Expr.ofString? "rotate (x) && stop" = some (.seq (.rotate (.name ⟨"x"⟩)) .stop) ∧
      Derives .expression maxNesting (kinds (Line.ofString "rotate (x) && stop").tokens)
        (.seq (.rotate (.name ⟨"x"⟩)) .stop) := by
  have h : Expr.ofString? "rotate (x) && stop" = some (.seq (.rotate (.name ⟨"x"⟩)) .stop) := by decide +kernel
  exact ⟨h, (((ofString?_derives _).2 _ h).2 rfl _).2 rfl⟩

end Grammar

end RobotShell
