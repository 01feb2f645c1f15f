import RobotShell.Proofs.OneLine
import RobotShell.Proofs.ReadBack
/-!
# What the actuator reads

The actuator is given one text, the lines of all instructions one behind the other. It can take that text apart
again: a line ends at a line feed and the words of a line are parted by blanks, and no word has either in it. So
the text says which instructions were written, and what has been read of it up to some character says which of
them have come through.
-/

namespace RobotShell

namespace Instruction

/-- The lines of the instructions, as the console writes them. -/
def stream (is : List Instruction) : String := rows (is.map text)

/-- If the instruction names a ware, the text of that name forms a name. -/
def Readable (i : Instruction) : Prop := ∀ x ∈ i.ware?, Name.ofString? x.text = some x

instance (i : Instruction) : Decidable i.Readable := inferInstanceAs (Decidable (∀ x ∈ i.ware?, _))

/-- The words of the instruction's line. -/
def words : Instruction → List String
  | stop => ["stop"]
  | rotate n => ["rotate", toString n.toInt]
  | move n => ["move", toString n.toInt]
  | buy x n => ["buy", x.text, toString n.toInt]
  | sell x n => ["sell", x.text, toString n.toInt]
  | inventory => ["inventory"]
  | marketPrices => ["marketPrices"]
  | cityPrices => ["cityPrices"]

/-- The integer that is written so. -/
def integer? (s : String) : Option Int64 := Expr.ofInteger? s.toList

/-- The instruction that the words of a line make. -/
def ofWords? : List String → Option Instruction
  | ["stop"] => some stop
  | ["rotate", n] => (integer? n).map rotate
  | ["move", n] => (integer? n).map move
  | ["buy", x, n] => (Name.ofString? x).bind fun x => (integer? n).map (buy x)
  | ["sell", x, n] => (Name.ofString? x).bind fun x => (integer? n).map (sell x)
  | ["inventory"] => some inventory
  | ["marketPrices"] => some marketPrices
  | ["cityPrices"] => some cityPrices
  | _ => none

/-- The instruction that a line carries. -/
def ofText? (s : String) : Option Instruction := ofWords? ((s.toList.splitOn ' ').map String.ofList)

/-- The instructions whose lines have been read to the end. What stands behind the last line feed is not looked at. -/
def ofStream? (s : String) : Option (List Instruction) :=
  ((s.toList.splitOn '\n').dropLast.map String.ofList).mapM ofText?

variable {i : Instruction} {is js : List Instruction} {s t read rest : String}

/-! ## One line -/

theorem integer?_toString (n : Int64) : integer? (toString n.toInt) = some n := Expr.ofInteger?_toString n

theorem ofWords?_words (h : i.Readable) : ofWords? i.words = some i := by
  cases i with
  | rotate n | move n => simp only [words, ofWords?, integer?_toString, Option.map_some]
  | buy x n | sell x n => simp only [words, ofWords?, integer?_toString, h x rfl, Option.bind_some, Option.map_some]
  | stop | inventory | marketPrices | cityPrices => rfl

theorem not_blank_of_isWord (h : Expr.IsWord s) : ' ' ∉ s.toList := by
  intro hblank
  have hends := List.any_eq_true.2 ⟨' ', hblank, (rfl : Expr.endsWord ' ' = true)⟩
  exact Bool.false_ne_true (h.2.symm.trans hends)

theorem isWord_of_mem_words (h : i.Readable) : ∀ w ∈ i.words, Expr.IsWord w := by
  cases i with
  | rotate n | move n =>
    exact List.forall_mem_cons.2 ⟨by decide, List.forall_mem_singleton.2 (Expr.isWord_int n)⟩
  | buy x n | sell x n =>
    have hparts := List.forall_mem_cons.2 ⟨Expr.isWord_name (h x rfl), List.forall_mem_singleton.2 (Expr.isWord_int n)⟩
    exact List.forall_mem_cons.2 ⟨by decide, hparts⟩
  | stop | inventory | marketPrices | cityPrices => exact List.forall_mem_singleton.2 (by decide)

theorem text_eq (i : Instruction) : i.text.toList = [' '].intercalate (i.words.map String.toList) := by
  cases i <;> simp [text, words]

theorem words_ne_nil (i : Instruction) : i.words ≠ [] := by
  cases i <;> nofun

/-- The words of a line are read back from it. -/
theorem ofText?_text (h : i.Readable) : ofText? i.text = some i := by
  have hblank : ∀ w ∈ i.words.map String.toList, ' ' ∉ w :=
    List.forall_mem_map.2 fun w hw => not_blank_of_isWord (isWord_of_mem_words h w hw)
  have hsplit : i.text.toList.splitOn ' ' = i.words.map String.toList := by
    rw [text_eq]
    exact List.splitOn_intercalate ' ' hblank (by simpa using words_ne_nil i)
  have hwords : (i.words.map String.toList).map String.ofList = i.words := by simp
  rw [ofText?, hsplit, hwords, ofWords?_words h]

theorem lineFeed_notMem_text (h : i.Readable) : '\n' ∉ i.text.toList :=
  (Interpreter.unbroken_instruction fun x hx => unbroken_name (h x hx)).1

/-! ## All lines -/

theorem stream_cons (i : Instruction) (is : List Instruction) : stream (i :: is) = i.text ++ "\n" ++ stream is := by
  simp [stream, rows]

/-- Behind a line feed reading starts afresh. -/
theorem ofStream?_line (ht : '\n' ∉ t.toList) (s : String) :
    ofStream? (t ++ "\n" ++ s) = (ofText? t).bind fun i => (ofStream? s).map (i :: ·) := by
  have htext : (t ++ "\n" ++ s).toList = t.toList ++ '\n' :: s.toList := by simp
  rw [ofStream?, htext, List.splitOn_append_cons_self_of_not_mem ht,
    List.dropLast_cons_of_ne_nil (List.splitOn_ne_nil _ _)]
  rw [List.map_cons, List.mapM_cons, String.ofList_toList]
  cases ofText? t with
  | none => rfl
  | some i => exact Option.map_eq_bind.symm

/-- A line that is read in front of a text is one instruction more. -/
theorem ofStream?_cons (h : i.Readable) (s : String) :
    ofStream? (i.text ++ "\n" ++ s) = (ofStream? s).map (i :: ·) := by
  rw [ofStream?_line (lineFeed_notMem_text h), ofText?_text h, Option.bind_some]

theorem ofStream?_stream (h : ∀ i ∈ is, i.Readable) : ofStream? (stream is) = some is := by
  induction is with
  | nil => rfl
  | cons i is ih =>
    obtain ⟨hi, his⟩ := List.forall_mem_cons.1 h
    rw [stream_cons, ofStream?_cons hi, ih his, Option.map_some]

/-- What is read of a text that starts with a line is a part of the line or goes on behind it. -/
theorem read_cases (ht : '\n' ∉ t.toList) (h : read ++ rest = t ++ "\n" ++ s) :
    '\n' ∉ read.toList ∨ ∃ u, read = t ++ "\n" ++ u ∧ u ++ rest = s := by
  by_cases hmem : '\n' ∈ read.toList
  · obtain ⟨as, bs, hread, has⟩ := List.eq_append_cons_of_mem hmem
    have htexts : as ++ '\n' :: (bs ++ rest.toList) = t.toList ++ '\n' :: s.toList := by
      simpa [hread] using congrArg String.toList h
    have hlines := congrArg (List.splitOn '\n') htexts
    rw [List.splitOn_append_cons_self_of_not_mem has, List.splitOn_append_cons_self_of_not_mem ht] at hlines
    obtain rfl := (List.cons.inj hlines).1
    obtain ⟨-, hrest⟩ := List.cons.inj (List.append_cancel_left htexts)
    refine .inr ⟨String.ofList bs, ?_, ?_⟩ <;> rw [← String.toList_inj]
    · simp [hread]
    · simpa using hrest
  · exact .inl hmem

/-- Of a stream that is read up to some character, the instructions have come through whose line feed was read. -/
theorem ofStream?_read (h : ∀ i ∈ is, i.Readable) (hread : read ++ rest = stream is) :
    ofStream? read = some (is.take (read.toList.count '\n')) := by
  induction is generalizing read with
  | nil =>
    obtain ⟨rfl, -⟩ := String.append_eq_empty_iff.1 hread
    rfl
  | cons i is ih =>
    obtain ⟨hi, his⟩ := List.forall_mem_cons.1 h
    rw [stream_cons] at hread
    rcases read_cases (lineFeed_notMem_text hi) hread with hline | ⟨u, rfl, hu⟩
    · rw [List.count_eq_zero_of_not_mem hline, ofStream?, List.splitOn_eq_singleton hline]
      rfl
    · have hcount : (i.text ++ "\n" ++ u).toList.count '\n' = u.toList.count '\n' + 1 := by
        simp [List.count_eq_zero_of_not_mem (lineFeed_notMem_text hi)]
      rw [ofStream?_cons hi, ih his hu, hcount, Option.map_some, List.take_succ_cons]

/-- The lines of instructions are taken apart into just these instructions, so the same text is written for no
others. And however much of the text has been read, the instructions that are read from it are the first ones
that were written, as many as line feeds have been read. -/
theorem stream_injective (h : ∀ i ∈ is, i.Readable) (h' : ∀ i ∈ js, i.Readable) :
    ofStream? (stream is) = some is ∧ (stream is = stream js ↔ is = js) ∧
      ∀ read rest : String, read ++ rest = stream is →
        ofStream? read = some (is.take (read.toList.count '\n')) := by
  refine ⟨ofStream?_stream h, ⟨fun heq => ?_, fun heq => heq ▸ rfl⟩, fun read rest hread => ofStream?_read h hread⟩
  have hboth := ofStream?_stream h
  rw [heq, ofStream?_stream h'] at hboth
  exact (Option.some.inj hboth).symm

/-- Wares that are called like instructions, the smallest count, and a stream that is cut inside of a number. -/
theorem stream_injective_wares :
    let is := [buy ⟨"sell"⟩ (-3), sell ⟨"größe"⟩ Int64.minValue, stop]
    let js := [sell ⟨"buy"⟩ (-3), sell ⟨"größe"⟩ Int64.minValue, stop]
    stream is = "buy sell -3\nsell größe -9223372036854775808\nstop\n" ∧ ofStream? (stream is) = some is ∧
      stream is ≠ stream js ∧
      ofStream? "buy sell -3\nsell größe -922" = some [buy ⟨"sell"⟩ (-3)] := by
  intro is js
  have his : ∀ i ∈ is, i.Readable := by decide +kernel
  have hjs : ∀ i ∈ js, i.Readable := by decide +kernel
  have hstream : stream is = "buy sell -3\nsell größe -9223372036854775808\nstop\n" := by decide +kernel
  obtain ⟨hall, hiff, hread⟩ := stream_injective his hjs
  refine ⟨hstream, hall, fun heq => absurd (hiff.1 heq) (by decide), ?_⟩
  exact hread "buy sell -3\nsell größe -922" "3372036854775808\nstop\n" (hstream ▸ rfl)

end Instruction

end RobotShell
