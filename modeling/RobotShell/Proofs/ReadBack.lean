import RobotShell.Proofs.Display
import RobotShell.Proofs.Printing
/-!
# Reading a tree back from its text

The canonical text of a tree can be read in one pass from left to right. What has been read so far stands on
a stack; a closing parenthesis takes the parts of a form off it and puts the tree there that they make. So
the text of a tree without errors stands for no other tree, as long as no variable in it is called like a
constant: a word is a variable only if it is neither a constant nor an integer.
-/

namespace RobotShell

open Unicode

namespace Expr

/-- The trees that are written as one word and are neither variables nor integers. -/
def constants : List Expr := [help, landmark, inventory, marketPrices, cityPrices, quit, stop]

/-- The names that stand in the tree for what is bound to them. -/
def references : Expr → List Name
  | seq left right => left.references ++ right.references
  | assign _ e | rotate e | move e | buy _ e | sell _ e => e.references
  | name x => [x]
  | _ => []

/-- The tree can be read back from its text. -/
structure Readable (e : Expr) : Prop where
  errorFree : e.errorFree = true
  names : ∀ x ∈ e.names, Name.ofString? x.text = some x
  references : ∀ x ∈ e.references,
    x.text ∉ ["Help", "Landmark", "Inventory", "MarketPrices", "CityPrices", "Quit", "Stop"]

/-- The integer that is written with the characters. -/
def ofInteger? : List Char → Option Int64
  | [] => none
  | c :: ds =>
    if c = '-' then Decimal.int64? true ds
    else if c.isDigit then Decimal.int64? false (c :: ds)
    else none

/-- The tree that is written as one word. -/
def ofWord (s : String) : Expr :=
  match constants.find? (·.canonical == s) with
  | some e => e
  | none => (ofInteger? s.toList).elim (name ⟨s⟩) int

/-- What is read of a form so far. -/
inductive Item where
  | opening
  | word (s : String)
  | tree (e : Expr)

/-- The tree that an item stands for as the part of a form. -/
def Item.tree? : Item → Option Expr
  | opening => none
  | word s => some (ofWord s)
  | tree e => some e

/-- The form with a head and one part. -/
def unary? : String → Item → Option Expr
  | "Echo", .word x => some (echo ⟨x⟩)
  | "Rotate", a => a.tree?.map rotate
  | "Move", a => a.tree?.map move
  | _, _ => none

/-- The form with a head and two parts. -/
def binary? : String → Item → Item → Option Expr
  | "Continue", a, b => a.tree?.bind fun left => b.tree?.map (seq left)
  | "Let", .word x, b => b.tree?.map (assign ⟨x⟩)
  | "Buy", .word x, b => b.tree?.map (buy ⟨x⟩)
  | "Sell", .word x, b => b.tree?.map (sell ⟨x⟩)
  | _, _, _ => none

/-- Takes the form that is closed off the stack, and puts its tree there. -/
def close : List Item → Option (List Item)
  | a :: .word head :: .opening :: items => (unary? head a).map (.tree · :: items)
  | b :: a :: .word head :: .opening :: items => (binary? head a b).map (.tree · :: items)
  | _ => none

/-- What has been read: the items on the stack, and the characters of the word that is being read, both the
latest first. -/
structure Reader where
  items : List Item
  letters : List Char

namespace Reader

/-- The items, with the word that ends here. -/
def flush (r : Reader) : List Item :=
  if r.letters = [] then r.items else .word (String.ofList r.letters.reverse) :: r.items

/-- Reads a character. -/
def step (r : Reader) (c : Char) : Option Reader :=
  if c = '(' then some ⟨.opening :: r.flush, []⟩
  else if c = ' ' then some ⟨r.flush, []⟩
  else if c = ')' then (close r.flush).map (⟨·, []⟩)
  else some ⟨r.items, c :: r.letters⟩

end Reader

/-- The tree that is written so, if there is one. -/
def ofDisplay? (s : String) : Option Expr :=
  match (s.toList.foldlM Reader.step ⟨[], []⟩).map Reader.flush with
  | some [item] => item.tree?
  | _ => none

/-- The item that is on the stack behind the text of a tree. -/
def item : Expr → Item
  | e@(name _) | e@(int _) | e@help | e@landmark | e@inventory | e@marketPrices | e@cityPrices | e@quit
  | e@stop => .word e.canonical
  | e => .tree e

/-- Reading the text puts the item on the stack, if what comes next ends a word. -/
def Reads (s : String) (item : Item) : Prop :=
  ∀ items, ∃ r, s.toList.foldlM Reader.step ⟨items, []⟩ = some r ∧ r.flush = item :: items

/-- Whether the character ends a word. -/
def endsWord (c : Char) : Bool := c == '(' || c == ' ' || c == ')'

/-- The text is read as one word. -/
def IsWord (s : String) : Prop := s.toList ≠ [] ∧ s.toList.any endsWord = false

instance (s : String) : Decidable (IsWord s) := inferInstanceAs (Decidable (_ ∧ _))

variable {s t head : String} {e e' : Expr} {x : Name} {a b : Item}

/-! ## Words and forms -/

theorem foldlM_letters {cs : List Char} (r : Reader) (h : ∀ c ∈ cs, endsWord c = false) :
    cs.foldlM Reader.step r = some ⟨r.items, cs.reverse ++ r.letters⟩ := by
  induction cs generalizing r with
  | nil => rfl
  | cons c cs ih =>
    obtain ⟨hc, hcs⟩ := List.forall_mem_cons.1 h
    have hstep : r.step c = some ⟨r.items, c :: r.letters⟩ := by simp_all [Reader.step, endsWord]
    rw [List.foldlM_cons, hstep]
    simp [ih _ hcs]

theorem IsWord.reads (h : IsWord s) : Reads s (.word s) := by
  intro items
  refine ⟨_, foldlM_letters _ (by simpa using h.2), ?_⟩
  simp [Reader.flush, h.1]

theorem foldlM_opening (cs : List Char) (items : List Item) :
    ('(' :: cs).foldlM Reader.step ⟨items, []⟩ = cs.foldlM Reader.step ⟨.opening :: items, []⟩ := by
  simp [List.foldlM_cons, Reader.step, Reader.flush]

/-- A blank behind a part puts the part on the stack. -/
theorem Reads.foldlM_blank (h : Reads s a) (cs : List Char) (items : List Item) :
    (s.toList ++ ' ' :: cs).foldlM Reader.step ⟨items, []⟩ = cs.foldlM Reader.step ⟨a :: items, []⟩ := by
  obtain ⟨r, hr, hflush⟩ := h items
  rw [List.foldlM_append, hr]
  simp [List.foldlM_cons, Reader.step, hflush]

/-- A parenthesis behind the last part closes the form. -/
theorem Reads.foldlM_close (h : Reads s a) (items : List Item) :
    (s.toList ++ [')']).foldlM Reader.step ⟨items, []⟩ = (close (a :: items)).map (⟨·, []⟩) := by
  obtain ⟨r, hr, hflush⟩ := h items
  rw [List.foldlM_append, hr]
  simp [List.foldlM_cons, Reader.step, hflush]

theorem reads_unary (hhead : IsWord head) (ha : Reads s a) (he : unary? head a = some e) :
    Reads (form head [s]) (.tree e) := by
  intro items
  have htext : (form head [s]).toList = '(' :: (head.toList ++ ' ' :: (s.toList ++ [')'])) := by simp [form]
  have hclose : close (a :: .word head :: .opening :: items) = some (.tree e :: items) := by simp [close, he]
  refine ⟨⟨.tree e :: items, []⟩, ?_, rfl⟩
  rw [htext, foldlM_opening, hhead.reads.foldlM_blank, ha.foldlM_close, hclose]
  rfl

theorem reads_binary (hhead : IsWord head) (ha : Reads s a) (hb : Reads t b) (hopen : a ≠ .opening)
    (he : binary? head a b = some e) : Reads (form head [s, t]) (.tree e) := by
  intro items
  have htext : (form head [s, t]).toList = '(' :: (head.toList ++ ' ' :: (s.toList ++ ' ' :: (t.toList ++ [')']))) := by
    simp [form]
  have hclose : close (b :: a :: .word head :: .opening :: items) = some (.tree e :: items) := by
    cases a <;> simp_all [close]
  refine ⟨⟨.tree e :: items, []⟩, ?_, rfl⟩
  rw [htext, foldlM_opening, hhead.reads.foldlM_blank, ha.foldlM_blank, hb.foldlM_close, hclose]
  rfl

/-! ## Names and integers -/

theorem endsWord_of_class {p : Char → Bool} {c : Char} (hc : p c = true) (hopen : p '(' = false)
    (hblank : p ' ' = false) (hclose : p ')' = false) : endsWord c = false := by
  simp [endsWord, ne_of_class hc hopen, ne_of_class hc hblank, ne_of_class hc hclose]

theorem isWord_name (h : Name.ofString? x.text = some x) : IsWord x.text := by
  obtain ⟨c, cs, hs, hc, hcs⟩ := Name.letters h
  have hletter : ∀ d, isAlphanumeric d = true → endsWord d = false := fun d hd =>
    endsWord_of_class hd (isAlphanumeric_sign (by decide)) (isAlphanumeric_sign (by decide))
      (isAlphanumeric_sign (by decide))
  rw [IsWord, hs]
  simpa [hletter c (isAlphanumeric_of_isAlphabetic hc)] using fun d hd => hletter d (hcs d hd)

theorem ofWord_name (h : Name.ofString? x.text = some x)
    (hfree : x.text ∉ ["Help", "Landmark", "Inventory", "MarketPrices", "CityPrices", "Quit", "Stop"]) :
    ofWord x.text = name x := by
  obtain ⟨c, cs, hs, hc, -⟩ := Name.letters h
  have hconstant : constants.find? (·.canonical == x.text) = none := by
    simpa [constants, canonical, @eq_comm _ _ x.text] using hfree
  have hdigit : c.isDigit = false := by
    refine Bool.eq_false_iff.2 fun hd => ?_
    exact ne_of_class hc (not_isAlphabetic_of_isDigit hd) rfl
  have hminus : c ≠ '-' := ne_of_class hc (isAlphabetic_sign (by decide))
  simp [ofWord, hconstant, hs, ofInteger?, hminus, hdigit]

theorem isWord_int (n : Int64) : IsWord (toString n.toInt) := by
  obtain ⟨c, cs, hc, hcs, htext⟩ := Grammar.toString_digits n
  have hdigits : (c :: cs).any endsWord = false := by
    simpa [endsWord_of_class hc rfl rfl rfl] using fun d hd => endsWord_of_class (hcs d hd) rfl rfl rfl
  rcases htext with ⟨hs, -⟩ | ⟨hs, -⟩ <;> rw [IsWord, hs]
  · exact ⟨List.cons_ne_nil c cs, hdigits⟩
  · exact ⟨List.cons_ne_nil '-' (c :: cs), hdigits⟩

/-- A constant starts with a letter, so a word that does not is an integer. -/
theorem ofWord_of_integer {c : Char} {cs : List Char} {n : Int64} (hs : s.toList = c :: cs)
    (hc : isAlphabetic c = false) (hn : ofInteger? (c :: cs) = some n) : ofWord s = int n := by
  have hletter : ∀ e ∈ constants, e.canonical.toList.head?.any isAlphabetic = true := by decide +kernel
  have hconstant : constants.find? (·.canonical == s) = none := by
    refine List.find?_eq_none.2 fun e he heq => ?_
    have hhead := hletter e he
    rw [eq_of_beq heq, hs] at hhead
    exact ne_of_class hhead hc rfl
  rw [ofWord, hconstant, hs, hn]
  rfl

theorem ofInteger?_toString (n : Int64) : ofInteger? (toString n.toInt).toList = some n := by
  obtain ⟨c, cs, hc, -, ⟨hs, hn⟩ | ⟨hs, hn⟩⟩ := Grammar.toString_digits n
  · have hminus : c ≠ '-' := ne_of_class hc rfl
    rw [hs]
    simp [ofInteger?, hminus, hc, hn]
  · rw [hs]
    simp [ofInteger?, hn]

theorem ofWord_int (n : Int64) : ofWord (toString n.toInt) = int n := by
  have hn := ofInteger?_toString n
  obtain ⟨c, cs, hc, -, ⟨hs, -⟩ | ⟨hs, -⟩⟩ := Grammar.toString_digits n
  · exact ofWord_of_integer hs (not_isAlphabetic_of_isDigit hc) (hs ▸ hn)
  · exact ofWord_of_integer hs (isAlphabetic_sign (by decide)) (hs ▸ hn)

/-! ## Trees -/

theorem item_ne_opening (e : Expr) : e.item ≠ .opening := by
  cases e <;> nofun

/-- The text of a tree is read as the tree. -/
theorem reads_canonical (h : Readable e) : Reads e.canonical e.item ∧ e.item.tree? = some e := by
  induction e with
  | error message col => cases h.errorFree
  | seq left right ihl ihr =>
    obtain ⟨herror, hnames, hreferences⟩ := h
    simp only [errorFree, Bool.and_eq_true, names, Expr.references, List.forall_mem_append] at herror hnames hreferences
    obtain ⟨hl, htl⟩ := ihl ⟨herror.1, hnames.1, hreferences.1⟩
    obtain ⟨hr, htr⟩ := ihr ⟨herror.2, hnames.2, hreferences.2⟩
    exact ⟨reads_binary (by decide +kernel) hl hr left.item_ne_opening (by simp [binary?, htl, htr]), rfl⟩
  | assign x e ih | buy x e ih | sell x e ih =>
    obtain ⟨herror, hnames, hreferences⟩ := h
    obtain ⟨hx, hnames⟩ := List.forall_mem_cons.1 hnames
    obtain ⟨he, hte⟩ := ih ⟨herror, hnames, hreferences⟩
    exact ⟨reads_binary (by decide +kernel) (isWord_name hx).reads he (by simp) (by simp [binary?, hte]), rfl⟩
  | rotate e ih | move e ih =>
    obtain ⟨he, hte⟩ := ih ⟨h.errorFree, h.names, h.references⟩
    exact ⟨reads_unary (by decide +kernel) he (by simp [unary?, hte]), rfl⟩
  | echo x => exact ⟨reads_unary (by decide +kernel) (isWord_name (h.names x List.mem_cons_self)).reads rfl, rfl⟩
  | name x =>
    have hx := h.names x List.mem_cons_self
    exact ⟨(isWord_name hx).reads, congrArg some (ofWord_name hx (h.references x List.mem_cons_self))⟩
  | int n => exact ⟨(isWord_int n).reads, congrArg some (ofWord_int n)⟩
  | help | landmark | inventory | marketPrices | cityPrices | quit | stop =>
    exact ⟨IsWord.reads (by decide +kernel), by decide +kernel⟩

theorem ofDisplay?_display (h : Readable e) : ofDisplay? e.display = some e := by
  obtain ⟨hreads, htree⟩ := reads_canonical h
  obtain ⟨r, hr, hflush⟩ := hreads []
  rw [ofDisplay?, display_eq, hr]
  simp [hflush, htree]

/-- The text of a tree is read back as the tree, and no other tree has the same text. -/
theorem display_injective (h : Readable e) (h' : Readable e') :
    ofDisplay? e.display = some e ∧ (e.display = e'.display ↔ e = e') := by
  refine ⟨ofDisplay?_display h, fun heq => ?_, fun heq => heq ▸ rfl⟩
  have hread := ofDisplay?_display h
  rw [heq, ofDisplay?_display h'] at hread
  exact (Option.some.inj hread).symm

/-- Chains of the same three statements, grouped to the left and to the right. -/
theorem display_injective_grouping :
    let e := seq (seq (name ⟨"Continue"⟩) (int (-5))) (echo ⟨"Help"⟩)
    let e' := seq (name ⟨"Continue"⟩) (seq (int (-5)) (echo ⟨"Help"⟩))
    ofDisplay? "(Continue (Continue Continue -5) (Echo Help))" = some e ∧ e.display ≠ e'.display := by
  intro e e'
  have he : Readable e := ⟨by decide, by decide +kernel, by decide⟩
  have he' : Readable e' := ⟨by decide, by decide +kernel, by decide⟩
  obtain ⟨hread, hiff⟩ := display_injective he he'
  have htext : e.display = "(Continue (Continue Continue -5) (Echo Help))" := by decide +kernel
  exact ⟨htext ▸ hread, fun heq => absurd (hiff.1 heq) (by decide)⟩

/-- A variable with the name of a constant is written like it. -/
example : (name ⟨"Help"⟩).display = help.display := by decide +kernel

end Expr

end RobotShell
