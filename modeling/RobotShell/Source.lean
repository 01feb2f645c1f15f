import RobotShell.Decimal
import RobotShell.Token

/-!
# Reading tokens from a line

`Source.next` reads one token and leaves the rest of the line. A carriage return, a line feed and
the end of the text all end the line, and a source that has come to the line's end stays there.
`Source.line` reads all tokens up to that end.
-/

namespace RobotShell

open Unicode

/-- The unread part of a line and the column at which it starts. -/
structure Source where
  col : Nat
  rest : List Char
  deriving DecidableEq

namespace Source

/-- A whole line, unread. -/
def ofString (s : String) : Source :=
  ⟨1, s.toList⟩

/-- Blanks between tokens are spaces and tabs. -/
def isBlank (c : Char) : Bool :=
  c == ' ' || c == '\t'

/-- The characters that end a line. -/
def isLineEnd (c : Char) : Bool :=
  c == '\r' || c == '\n'

/-- The source behind the blanks at its front. -/
def skipBlanks (s : Source) : Source :=
  ⟨s.col + (s.rest.takeWhile isBlank).length, s.rest.dropWhile isBlank⟩

/-- The integer token with the given sign and digits. -/
def integer (negative : Bool) (digits : List Char) : Token.Kind :=
  match Decimal.int64? negative digits with
  | some n => .integer n
  | none => .outOfRange

/-- The token made of a letter and all letters and numbers that follow it. -/
def word (cs : List Char) : Token.Kind :=
  let s := String.ofList cs
  match Keyword.ofString? s with
  | some k => .keyword k
  | none => .name ⟨s⟩

/-- The token at the front of `c :: cs`, and how many characters it spans. Names and integers take
all the characters they can. -/
def lexeme (c : Char) (cs : List Char) : Token.Kind × Nat :=
  if c = '=' then (.symbol .equals, 1)
  else if c = '(' then (.symbol .openParen, 1)
  else if c = ')' then (.symbol .closeParen, 1)
  else if c = '&' ∧ cs.head? = some '&' then (.symbol .andAnd, 2)
  else if c = '-' ∧ cs.head?.any Char.isDigit = true then
    let digits := cs.takeWhile Char.isDigit
    (integer true digits, digits.length + 1)
  else if c.isDigit then
    let digits := c :: cs.takeWhile Char.isDigit
    (integer false digits, digits.length)
  else if isAlphabetic c then
    let letters := c :: cs.takeWhile isAlphanumeric
    (word letters, letters.length)
  else (.stray c, 1)

/-- Reads one token, or the end of the line, which is not consumed. -/
def next (s : Source) : Reading × Source :=
  let s := s.skipBlanks
  match s.rest with
  | [] => (.lineEnd s.col, s)
  | c :: cs =>
    if isLineEnd c then (.lineEnd s.col, s)
    else
      let (kind, width) := lexeme c cs
      (.token ⟨kind, s.col⟩, ⟨s.col + width, (c :: cs).drop width⟩)

/-- Reads tokens up to the end of the line; `read` holds those already read, the latest first.
Each token takes a character at least, so as many reads as there are characters suffice. -/
def lineFrom : List Char → Source → List Token → Line
  | [], s, read => ⟨read.reverse, s.col⟩
  | _ :: budget, s, read =>
    match s.next with
    | (.token t, s) => lineFrom budget s (t :: read)
    | (.lineEnd col, _) => ⟨read.reverse, col⟩

/-- All tokens up to the end of the line. -/
def line (s : Source) : Line :=
  lineFrom s.rest s []

/-! ## Reading ends -/

theorem lexeme_width_pos (c : Char) (cs : List Char) : 0 < (lexeme c cs).2 := by
  unfold lexeme
  repeat' split
  all_goals simp

theorem length_skipBlanks_le (s : Source) : s.skipBlanks.rest.length ≤ s.rest.length :=
  (List.dropWhile_sublist isBlank).length_le

/-- Reading a token takes a character at least. -/
theorem length_rest_of_next {s s' : Source} {t : Token} (h : s.next = (.token t, s')) :
    s'.rest.length < s.rest.length := by
  have hle := s.length_skipBlanks_le
  unfold next at h
  generalize s.skipBlanks = b at h hle
  obtain ⟨col, rest⟩ := b
  match rest with
  | [] => simp at h
  | c :: cs =>
    have hw := lexeme_width_pos c cs
    simp only at h
    split at h
    · simp at h
    · simp only [Prod.mk.injEq] at h
      rw [← h.2, List.length_drop]
      simp only [List.length_cons] at hle ⊢
      omega

theorem next_of_rest_eq_nil {s : Source} (h : s.rest = []) : s.next = (.lineEnd s.col, s) := by
  obtain ⟨col, rest⟩ := s
  subst h
  rfl

/-- The tokens already read come first. -/
theorem lineFrom_read (budget : List Char) (s : Source) (read : List Token) :
    lineFrom budget s read =
      ⟨read.reverse ++ (lineFrom budget s []).tokens, (lineFrom budget s []).endCol⟩ := by
  induction budget generalizing s read with
  | nil => simp [lineFrom]
  | cons c budget ih =>
    simp only [lineFrom]
    split
    · next t s' _ =>
      rw [ih s' (t :: read), ih s' [t]]
      simp
    · simp

/-- Any budget that covers the characters gives the same line. -/
theorem lineFrom_budget (b₁ b₂ : List Char) (s : Source) (h₁ : s.rest.length ≤ b₁.length)
    (h₂ : s.rest.length ≤ b₂.length) : lineFrom b₁ s [] = lineFrom b₂ s [] := by
  induction b₁ generalizing b₂ s with
  | nil =>
    have hs : s.rest = [] := List.length_eq_zero_iff.1 (Nat.le_zero.1 h₁)
    cases b₂ <;> simp [lineFrom, next_of_rest_eq_nil hs]
  | cons c b₁ ih =>
    cases b₂ with
    | nil =>
      have hs : s.rest = [] := List.length_eq_zero_iff.1 (Nat.le_zero.1 h₂)
      simp [lineFrom, next_of_rest_eq_nil hs]
    | cons d b₂ =>
      simp only [lineFrom]
      split
      · next t s' hn =>
        have hlt := length_rest_of_next hn
        simp only [List.length_cons] at h₁ h₂
        rw [lineFrom_read b₁, lineFrom_read b₂, ih b₂ s' (by omega) (by omega)]
      · rfl

/-- A line is its first token and the line behind it. -/
theorem line_of_token {s s' : Source} {t : Token} (h : s.next = (.token t, s')) :
    s.line = ⟨t :: s'.line.tokens, s'.line.endCol⟩ := by
  have hlt := length_rest_of_next h
  cases hr : s.rest with
  | nil => simp [hr] at hlt
  | cons c cs =>
    rw [hr, List.length_cons] at hlt
    simp only [line, hr, lineFrom, h]
    rw [lineFrom_read, lineFrom_budget cs s'.rest s' (by omega) (Nat.le_refl _)]
    simp

/-- A line without tokens is its end. -/
theorem line_of_lineEnd {s s' : Source} {col : Nat} (h : s.next = (.lineEnd col, s')) :
    s.line = ⟨[], col⟩ := by
  cases hr : s.rest with
  | nil =>
    rw [next_of_rest_eq_nil hr] at h
    simp only [Prod.mk.injEq, Reading.lineEnd.injEq] at h
    simp [line, hr, lineFrom, h.1]
  | cons c cs => simp [line, hr, lineFrom, h]

end Source

/-- The tokens of a line of text. -/
def Line.ofString (s : String) : Line :=
  (Source.ofString s).line

end RobotShell
