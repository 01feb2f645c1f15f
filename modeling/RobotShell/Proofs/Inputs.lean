import RobotShell.Console
import RobotShell.Proofs.Lossy
import RobotShell.Proofs.Lines
/-!
# Inputs with the same session

Of a line a session sees only the tree that it is read as. So inputs have the same session if their lines
are read as the same trees. Two changes of an input leave all of them as they are: to decode the input and
encode the text again, and to put a carriage return in front of a line feed, with any bytes in between.
-/

namespace RobotShell

open Utf8

/-- What stands behind the end of a line is not read; the columns of errors are where they were. -/
theorem Expr.ofString?_append {d : Char} {e : String} (he : e.toList = [d]) (hd : Source.isLineEnd d = true)
    (s t : String) : Expr.ofString? (s ++ e ++ t) = Expr.ofString? s := by
  have hline : Line.ofString (s ++ e ++ t) = Line.ofString s := by
    have hcut := Source.line_cut hd t.toList (Source.ofString s)
    simpa [Line.ofString, Source.ofString, he] using hcut
  rw [ofString?, ofString?, hline]

namespace Utf8

/-- The carriage return. -/
def carriageReturn : UInt8 := 0x0D

/-- Some of the line feeds have a carriage return put in front of them, and any bytes in between. -/
inductive Padded : List UInt8 → List UInt8 → Prop
  | last {a : List UInt8} : lineFeed ∉ a → Padded a a
  | same {a bs bs' : List UInt8} : lineFeed ∉ a → Padded bs bs' →
      Padded (a ++ lineFeed :: bs) (a ++ lineFeed :: bs')
  | padded {a junk bs bs' : List UInt8} : lineFeed ∉ a → lineFeed ∉ junk → Padded bs bs' →
      Padded (a ++ lineFeed :: bs) (a ++ carriageReturn :: junk ++ lineFeed :: bs')

/-- The bytes with a carriage return in front of each line feed. -/
def withReturns (bs : List UInt8) : List UInt8 :=
  bs.flatMap fun b => if b = lineFeed then [carriageReturn, lineFeed] else [b]

theorem withReturns_of_not_mem {a : List UInt8} (ha : lineFeed ∉ a) : withReturns a = a := by
  induction a with
  | nil => rfl
  | cons b a ih =>
    obtain ⟨hb, ha⟩ : lineFeed ≠ b ∧ lineFeed ∉ a := by simpa using ha
    rw [withReturns, List.flatMap_cons, if_neg hb.symm]
    exact congrArg (b :: ·) (ih ha)

theorem padded_withReturns (bs : List UInt8) : Padded bs (withReturns bs) := by
  induction bs using lines_induction with
  | nil => exact .last List.not_mem_nil
  | last a hne ha =>
    rw [withReturns_of_not_mem ha]
    exact .last ha
  | cons a bs ha ih =>
    have hcut : withReturns (a ++ lineFeed :: bs) = a ++ [carriageReturn] ++ lineFeed :: withReturns bs := by
      rw [withReturns, List.flatMap_append, ← withReturns, withReturns_of_not_mem ha]
      simp [withReturns]
    rw [hcut]
    exact .padded ha List.not_mem_nil ih

/-- The tree that a line is read as. -/
def tree? (line : List UInt8) : Option Expr := Expr.ofString? (decode line)

theorem tree?_append {b : UInt8} (hb : b < 0x80) (hend : Source.isLineEnd (Char.ofNat b.toNat) = true)
    (a bs : List UInt8) : tree? (a ++ b :: bs) = tree? a := by
  rw [tree?, decode_append_ascii hb]
  exact Expr.ofString?_append (String.toList_singleton _) hend ..

theorem tree?_append_lineFeed (a bs : List UInt8) : tree? (a ++ lineFeed :: bs) = tree? a :=
  tree?_append (by decide) (by decide) a bs

theorem tree?_append_carriageReturn (a bs : List UInt8) : tree? (a ++ carriageReturn :: bs) = tree? a :=
  tree?_append (by decide) (by decide) a bs

theorem Padded.lines {bs bs' : List UInt8} (h : Padded bs bs') :
    (lines bs').map tree? = (lines bs).map tree? := by
  induction h with
  | last => rfl
  | same ha _ ih => rw [lines_cons ha, lines_cons ha, List.map_cons, List.map_cons, ih]
  | @padded a junk bs bs' ha hjunk _ ih =>
    have hpadded : lineFeed ∉ a ++ carriageReturn :: junk := by
      simpa [ha, hjunk] using show lineFeed ≠ carriageReturn by decide
    rw [lines_cons ha, lines_cons hpadded, List.map_cons, List.map_cons, ih, tree?_append_lineFeed,
      tree?_append_lineFeed, tree?_append_carriageReturn]

end Utf8

namespace Console

theorem runLines_congr {ls ls' : List (List UInt8)} (h : ls.map tree? = ls'.map tree?) (c : Console) (out : String) :
    c.runLines out ls = c.runLines out ls' := by
  induction ls generalizing c out ls' with
  | nil =>
    obtain rfl : ls' = [] := List.map_eq_nil_iff.1 h.symm
    rfl
  | cons line ls ih =>
    rcases ls' with _ | ⟨line', ls'⟩
    · cases h
    · obtain ⟨htree, hrest⟩ := List.cons.inj h
      have htree : Expr.ofString? (decode line) = Expr.ofString? (decode line') := htree
      have hstep : c.step (decode line) = c.step (decode line') := by
        funext out
        rw [step, step, Interpreter.runLine, Interpreter.runLine, htree]
      rw [runLines, runLines, hstep]
      dsimp only
      rw [ih hrest]

theorem run_congr {input input' : List UInt8} (h : (Utf8.lines input).map tree? = (Utf8.lines input').map tree?)
    (settings : Settings) : run settings input = run settings input' :=
  runLines_congr h ..

/-- Bytes may be decoded before they are split into lines: the lines of the text are what the lines of the
bytes are read as, one by one, and the session is the same. What bytes are read as is said by `Lossy`. -/
theorem run_encode_decode (settings : Settings) (input : List UInt8) :
    (∀ bs cs, Lossy bs cs ↔ cs = (decode bs).toList) ∧ (∀ text, decode (encode text) = text) ∧
      (Utf8.lines (encode (decode input))).map decode = (Utf8.lines input).map decode ∧
      run settings (encode (decode input)) = run settings input := by
  have hlines : (Utf8.lines (encode (decode input))).map decode = (Utf8.lines input).map decode := by
    simp [lines_encode_decode, decode_encode]
  refine ⟨fun bs cs => lossy_iff, decode_encode, hlines, run_congr ?_ settings⟩
  have htrees := congrArg (List.map Expr.ofString?) hlines
  rwa [List.map_map, List.map_map] at htrees

/-- From a carriage return to the line feed nothing is read: a session is the same with and without such
bytes, in some lines or in all of them, and so is the tree of a text, with the columns of its errors. -/
theorem run_padded {input input' : List UInt8} (h : Padded input input') (settings : Settings) (s t : String) :
    run settings input' = run settings input ∧ run settings (withReturns input) = run settings input ∧
      Expr.ofString? (s ++ "\r" ++ t) = Expr.ofString? s ∧ Expr.ofString? (s ++ "\n" ++ t) = Expr.ofString? s := by
  refine ⟨run_congr h.lines settings, run_congr (padded_withReturns input).lines settings, ?_, ?_⟩
  · exact Expr.ofString?_append (show "\r".toList = ['\r'] from rfl) (by decide) s t
  · exact Expr.ofString?_append (show "\n".toList = ['\n'] from rfl) (by decide) s t

/-- Behind the carriage return stand a byte that is no text and a stray character. -/
theorem run_padded_stray :
    let settings := { Settings.default with showPrompt := false }
    let input := encode "move 1 @" ++ lineFeed :: encode "move 3"
    let input' := encode "move 1 @" ++ carriageReturn :: [0xFF, 0x40] ++ lineFeed :: encode "move 3"
    Padded input input' ∧ run settings input' = run settings input ∧
      run settings input = ("error: unexpected '@'\nmove 3\n", .endOfInput) ∧
      Expr.ofString? ("move 1 @" ++ "\r" ++ "&& @") = Expr.ofString? "move 1 @" := by
  intro settings input input'
  have h : Padded input input' := .padded (by decide +kernel) (by decide) (.last (by decide +kernel))
  obtain ⟨hrun, -, htree, -⟩ := run_padded h settings "move 1 @" "&& @"
  exact ⟨h, hrun, by decide +kernel, htree⟩

end Console

end RobotShell
