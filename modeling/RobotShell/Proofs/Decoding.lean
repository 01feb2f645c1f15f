import RobotShell.Text.Utf8
/-!
# Bytes, characters and lines

A byte below 0x80 is a character of its own wherever it stands: what was begun before it is given up, and
what follows it is read as if it stood at the start. So bytes may be cut behind a line feed before or after
they are decoded, and neither gives a line more or less than the other. A text that is encoded reads as
itself.
-/

namespace RobotShell.Utf8

/-- The characters that bytes are read as, from a state. -/
def State.read : State → List UInt8 → List Char
  | s, [] => s.finish
  | s, b :: bs => (s.step b).1 ++ (s.step b).2.read bs

/-- What holds of every state that is reached: no byte below 0x80 goes on with a character, and no
character that is gone on with has a value below 0x80. -/
def State.Sound : State → Prop
  | .start => True
  | .inside more lo _ code => 0x80 ≤ lo ∧ 2 ≤ 64 * code + (lo.toNat - 0x80) ∧ (more = 0 → 2 ≤ code)

/-- The bytes of a text. -/
def encode (s : String) : List UInt8 := s.toList.flatMap String.utf8EncodeChar

/-- The lines make up the bytes: each ends with its only line feed, but for a last one that has none and
is not empty. -/
inductive Splits : List UInt8 → List (List UInt8) → Prop
  | nil : Splits [] []
  | last {a : List UInt8} : a ≠ [] → lineFeed ∉ a → Splits a [a]
  | cons {a bs : List UInt8} {ls : List (List UInt8)} : lineFeed ∉ a → Splits bs ls →
      Splits (a ++ lineFeed :: bs) ((a ++ [lineFeed]) :: ls)

variable {s : State} {b d : UInt8} {bs a : List UInt8} {ls : List (List UInt8)} {c : Char} {v code more : Nat}
  {lo hi : UInt8}

/-! ## Reading -/

theorem toList_foldl_push (out : String) (cs : List Char) :
    (cs.foldl String.push out).toList = out.toList ++ cs := by
  induction cs generalizing out with
  | nil => simp
  | cons c cs ih => simp [ih]

theorem toList_decodeFrom (out : String) (s : State) (bs : List UInt8) :
    (decodeFrom out s bs).toList = out.toList ++ s.read bs := by
  induction bs generalizing out s with
  | nil => exact toList_foldl_push ..
  | cons b bs ih => simp [decodeFrom, State.read, ih, toList_foldl_push]

theorem toList_decode (bs : List UInt8) : (decode bs).toList = State.start.read bs :=
  toList_decodeFrom ..

/-! ## The first byte of a character -/

theorem first_ascii (hb : b < 0x80) : first b = ([Char.ofNat b.toNat], .start) := if_pos hb

theorem first_two (hlow : 0xC2 ≤ b) (hhigh : b < 0xE0) : first b = ([], .inside 0 0x80 0xBF (b.toNat - 0xC0)) := by
  rw [UInt8.le_iff_toNat_le] at hlow
  rw [first, if_neg, if_neg, if_pos hhigh]
  all_goals
    rw [UInt8.lt_iff_toNat_lt]
    simp at hlow ⊢
    omega

theorem first_three (hlow : 0xE0 ≤ b) (hhigh : b < 0xF0) :
    first b = ([], .inside 1 (if b = 0xE0 then 0xA0 else 0x80) (if b = 0xED then 0x9F else 0xBF) (b.toNat - 0xE0)) := by
  rw [UInt8.le_iff_toNat_le] at hlow
  rw [first, if_neg, if_neg, if_neg, if_pos hhigh]
  · by_cases hE0 : b = 0xE0
    · subst hE0
      rfl
    · by_cases hED : b = 0xED
      · subst hED
        rfl
      · simp [hE0, hED]
  all_goals
    rw [UInt8.lt_iff_toNat_lt]
    simp at hlow ⊢
    omega

theorem first_four (hlow : 0xF0 ≤ b) (hhigh : b ≤ 0xF4) :
    first b = ([], .inside 2 (if b = 0xF0 then 0x90 else 0x80) (if b = 0xF4 then 0x8F else 0xBF) (b.toNat - 0xF0)) := by
  by_cases hF4 : b = 0xF4
  · subst hF4
    rfl
  · have hlt : b < 0xF4 := by
      rcases UInt8.lt_or_eq_of_le hhigh with h | h
      · exact h
      · exact absurd h hF4
    rw [UInt8.le_iff_toNat_le] at hlow
    rw [first, if_neg, if_neg, if_neg, if_neg, if_neg, if_neg]
    · by_cases hF0 : b = 0xF0
      · subst hF0
        rfl
      · simp [hF0, hF4, hlt]
    all_goals
      try rw [UInt8.lt_iff_toNat_lt]
      simp [← UInt8.toNat_inj] at hlow ⊢
      omega

theorem first_invalid (h : (0x80 ≤ b ∧ b < 0xC2) ∨ 0xF4 < b) : first b = ([replacement], .start) := by
  rcases h with ⟨hlow, hhigh⟩ | hlow
  · rw [first, if_neg (UInt8.not_lt.2 hlow), if_pos hhigh]
  · have hne : ∀ d : UInt8, d ≤ 0xF4 → b ≠ d := fun d hd h => UInt8.not_lt.2 hd (h ▸ hlow)
    have hge : ∀ d : UInt8, d ≤ 0xF4 → ¬b < d := fun d hd h =>
      UInt8.lt_irrefl _ (UInt8.lt_trans hlow (UInt8.lt_of_lt_of_le h hd))
    simp [first, hne 0xE0, hne 0xED, hne 0xF0, hne 0xF4, hge 0x80, hge 0xC2, hge 0xE0, hge 0xF0, hge 0xF4]

/-- The bound on the second byte makes up for a first one without value. -/
theorem sound_lead {x l : UInt8} (hx : x ≤ b) (hl : 0x82 ≤ l) :
    (State.inside (more + 1) (if b = x then l else 0x80) hi (b.toNat - x.toNat)).Sound := by
  have hl' : 0x82 ≤ l.toNat := UInt8.le_iff_toNat_le.1 hl
  by_cases h : b = x
  -- the first byte has no value, so the bound on the second one is higher
  · rw [if_pos h]
    exact ⟨UInt8.le_trans (by decide) hl, by omega, nofun⟩
  · have hne : b.toNat ≠ x.toNat := fun he => h (UInt8.toNat_inj.1 he)
    have hle := UInt8.le_iff_toNat_le.1 hx
    rw [if_neg h]
    exact ⟨UInt8.le_refl _, by omega, nofun⟩

/-- A byte at the start is a character, is invalid, or begins a character of more bytes. -/
theorem first_cases (b : UInt8) :
    (b < 0x80 ∧ first b = ([Char.ofNat b.toNat], .start)) ∨ first b = ([replacement], .start) ∨
      ∃ more lo hi code, first b = ([], .inside more lo hi code) ∧ (State.inside more lo hi code).Sound := by
  by_cases hascii : b < 0x80
  · exact .inl ⟨hascii, first_ascii hascii⟩
  by_cases hlow : b < 0xC2
  · exact .inr (.inl (first_invalid (.inl ⟨UInt8.not_lt.1 hascii, hlow⟩)))
  by_cases hhigh : 0xF4 < b
  · exact .inr (.inl (first_invalid (.inr hhigh)))
  rw [UInt8.not_lt] at hlow hhigh
  refine .inr (.inr ?_)
  by_cases htwo : b < 0xE0
  · have hle : 0xC2 ≤ b.toNat := UInt8.le_iff_toNat_le.1 hlow
    refine ⟨_, _, _, _, first_two hlow htwo, UInt8.le_refl _, ?_, fun _ => ?_⟩ <;> omega
  rw [UInt8.not_lt] at htwo
  by_cases hthree : b < 0xF0
  · exact ⟨_, _, _, _, first_three htwo hthree, sound_lead htwo (by decide)⟩
  · rw [UInt8.not_lt] at hthree
    exact ⟨_, _, _, _, first_four hthree hhigh, sound_lead hthree (by decide)⟩

theorem first_sound (b : UInt8) : (first b).2.Sound := by
  obtain ⟨-, h⟩ | h | ⟨more, lo, hi, code, h, hs⟩ := first_cases b <;> rw [h]
  · trivial
  · trivial
  · exact hs

theorem step_last (h : lo ≤ b ∧ b ≤ hi) :
    (State.inside 0 lo hi code).step b = ([Char.ofNat (64 * code + (b.toNat - 0x80))], .start) :=
  if_pos h

theorem step_more (h : lo ≤ b ∧ b ≤ hi) :
    (State.inside (more + 1) lo hi code).step b = ([], .inside more 0x80 0xBF (64 * code + (b.toNat - 0x80))) :=
  if_pos h

theorem step_outside (h : ¬(lo ≤ b ∧ b ≤ hi)) :
    (State.inside more lo hi code).step b = (replacement :: (first b).1, (first b).2) :=
  if_neg h

/-- A byte inside a character ends it, goes on with it, or gives it up and stands at the start. -/
theorem step_cases (hs : s.Sound) (b : UInt8) :
    s.step b = (s.finish ++ (first b).1, (first b).2) ∨ (∃ v, 0x80 ≤ v ∧ s.step b = ([Char.ofNat v], .start)) ∨
      ∃ s', s.step b = ([], s') ∧ s' ≠ .start ∧ s'.Sound := by
  cases s with
  | start => exact .inl rfl
  | inside more lo hi code =>
    obtain ⟨hlo, hcode, hlast⟩ := hs
    by_cases h : lo ≤ b ∧ b ≤ hi
    · have hle := UInt8.le_iff_toNat_le.1 h.1
      cases more with
      | zero =>
        have htwo := hlast rfl
        exact .inr (.inl ⟨_, by omega, step_last h⟩)
      | succ more =>
        refine .inr (.inr ⟨_, step_more h, nofun, UInt8.le_refl _, ?_, fun _ => ?_⟩) <;> omega
    · exact .inl (step_outside h)

theorem step_sound (hs : s.Sound) (b : UInt8) : (s.step b).2.Sound := by
  obtain h | ⟨v, -, h⟩ | ⟨s', h, -, hs'⟩ := step_cases hs b <;> rw [h]
  · exact first_sound b
  · trivial
  · exact hs'

/-! ## Bytes below 0x80 -/

/-- A byte below 0x80 ends what was begun, and is a character. -/
theorem step_ascii (hs : s.Sound) (hb : b < 0x80) : s.step b = (s.finish ++ [Char.ofNat b.toNat], .start) := by
  cases s with
  | start => exact first_ascii hb
  | inside more lo hi code =>
    have hlo : ¬(lo ≤ b ∧ b ≤ hi) := by
      rintro ⟨hle, -⟩
      exact absurd hb (UInt8.not_lt.2 (UInt8.le_trans hs.1 hle))
    rw [step_outside hlo, first_ascii hb]
    rfl

theorem read_append_ascii (hs : s.Sound) (hb : b < 0x80) (a bs : List UInt8) :
    s.read (a ++ b :: bs) = s.read a ++ Char.ofNat b.toNat :: State.start.read bs := by
  induction a generalizing s with
  | nil => simp [State.read, step_ascii hs hb]
  | cons d a ih => simp [State.read, ih (step_sound hs d)]

/-- The bytes before and behind a byte below 0x80 are read apart. -/
theorem decode_append_ascii (hb : b < 0x80) (a bs : List UInt8) :
    decode (a ++ b :: bs) = decode a ++ String.singleton (Char.ofNat b.toNat) ++ decode bs := by
  rw [← String.toList_inj]
  simp [toList_decode, read_append_ascii (s := .start) trivial hb]

theorem decode_lineFeed (a bs : List UInt8) :
    decode (a ++ lineFeed :: bs) = decode a ++ "\n" ++ decode bs :=
  decode_append_ascii (by decide) a bs

/-! ## Line feeds -/

theorem val_ofNat (hv : v.isValidChar) : (Char.ofNat v).val.toNat = v := by
  rw [Char.ofNat, dif_pos hv]
  rfl

theorem ofNat_eq_lineFeed (h : Char.ofNat v = '\n') : v = 10 := by
  by_cases hv : v.isValidChar
  · rw [← val_ofNat hv, h]
    rfl
  · rw [Char.ofNat, dif_neg hv] at h
    cases h

theorem first_lineFeed (h : '\n' ∈ (first b).1) : b = lineFeed := by
  obtain ⟨-, hb⟩ | hb | ⟨more, lo, hi, code, hb, -⟩ := first_cases b <;> rw [hb] at h
  · exact UInt8.toNat_inj.1 (ofNat_eq_lineFeed (List.mem_singleton.1 h).symm)
  · exact absurd (List.mem_singleton.1 h) (by decide)
  · cases h

theorem step_lineFeed (hs : s.Sound) (h : '\n' ∈ (s.step b).1) : b = lineFeed := by
  obtain hb | ⟨v, hv, hb⟩ | ⟨s', hb, -⟩ := step_cases hs b <;> rw [hb] at h
  · rcases List.mem_append.1 h with h | h
    · cases s <;> simp [State.finish, replacement] at h
    · exact first_lineFeed h
  · have hten := ofNat_eq_lineFeed (List.mem_singleton.1 h).symm
    omega
  · cases h

/-- A line feed is read only from a line feed. -/
theorem lineFeed_mem_of_mem_read (hs : s.Sound) (h : '\n' ∈ s.read bs) : lineFeed ∈ bs := by
  induction bs generalizing s with
  | nil => cases s <;> simp [State.read, State.finish, replacement] at h
  | cons b bs ih =>
    rcases List.mem_append.1 h with h | h
    · exact List.mem_cons.2 (.inl (step_lineFeed hs h).symm)
    · exact List.mem_cons_of_mem b (ih (step_sound hs b) h)

/-- A byte that gives no character begins or goes on with one. -/
theorem step_progress (hs : s.Sound) (h : (s.step b).1 = []) : (s.step b).2 ≠ .start := by
  obtain hb | ⟨v, -, hb⟩ | ⟨s', hb, hs', -⟩ := step_cases hs b <;> rw [hb] at h ⊢
  · have hfirst := (List.append_eq_nil_iff.1 h).2
    obtain ⟨-, hb⟩ | hb | ⟨more, lo, hi, code, hb, -⟩ := first_cases b <;> simp_all
  · cases h
  · exact hs'

/-- Bytes are read as at least one character. -/
theorem eq_nil_of_read (hs : s.Sound) (h : s.read bs = []) : s = .start ∧ bs = [] := by
  induction bs generalizing s with
  | nil =>
    cases s with
    | start => exact ⟨rfl, rfl⟩
    | inside => cases h
  | cons b bs ih =>
    obtain ⟨hstep, hrest⟩ := List.append_eq_nil_iff.1 h
    exact absurd (ih (step_sound hs b) hrest).1 (step_progress hs hstep)

theorem decode_eq_empty : decode bs = "" ↔ bs = [] := by
  constructor
  · intro h
    have hread : State.start.read bs = [] := by simpa [h] using (toList_decode bs).symm
    exact (eq_nil_of_read (s := .start) trivial hread).2
  · rintro rfl
    rfl

/-! ## Encoded texts -/

theorem read_last (h : lo ≤ b ∧ b ≤ hi) (hb : b.toNat = v + 0x80) (bs : List UInt8) :
    (State.inside 0 lo hi code).read (b :: bs) = Char.ofNat (64 * code + v) :: State.start.read bs := by
  rw [State.read, step_last h, hb, Nat.add_sub_cancel]
  rfl

theorem read_more (h : lo ≤ b ∧ b ≤ hi) (hb : b.toNat = v + 0x80) (bs : List UInt8) :
    (State.inside (more + 1) lo hi code).read (b :: bs) = (State.inside more 0x80 0xBF (64 * code + v)).read bs := by
  rw [State.read, step_more h, hb, Nat.add_sub_cancel]
  rfl

theorem read_first (h : first b = ([], s)) (bs : List UInt8) : State.start.read (b :: bs) = s.read bs := by
  rw [State.read, State.step, h, List.nil_append]

theorem continues (hd : d.toNat = v + 0x80) (hv : v < 64) : 0x80 ≤ d ∧ d ≤ 0xBF := by
  rw [UInt8.le_iff_toNat_le, UInt8.le_iff_toNat_le, hd]
  exact ⟨Nat.le_add_left .., Nat.add_le_add_right (Nat.le_of_lt_succ hv) _⟩

section

variable {d₁ d₂ d₃ : UInt8} {v₁ v₂ v₃ : Nat} (h₁ : d₁.toNat = v₁ + 0x80) (hv₁ : v₁ < 64)
  (h₂ : d₂.toNat = v₂ + 0x80) (hv₂ : v₂ < 64) (h₃ : d₃.toNat = v₃ + 0x80) (hv₃ : v₃ < 64)

include h₁ hv₁

theorem read_two (hb : b.toNat = v + 0xC0) (hlow : 2 ≤ v) (hhigh : v < 32) (bs : List UInt8) :
    State.start.read (b :: d₁ :: bs) = Char.ofNat (64 * v + v₁) :: State.start.read bs := by
  have hle : 0xC2 ≤ b := UInt8.le_iff_toNat_le.2 (by simp [hb]; omega)
  have hlt : b < 0xE0 := UInt8.lt_iff_toNat_lt.2 (by simp [hb]; omega)
  have hfirst := first_two hle hlt
  rw [hb, Nat.add_sub_cancel] at hfirst
  rw [read_first hfirst, read_last (continues h₁ hv₁) h₁]

include h₂ hv₂

theorem read_three (hb : b.toNat = v + 0xE0) (hhigh : v < 16) (hlow : v = 0 → 32 ≤ v₁)
    (hsurrogate : v = 13 → v₁ < 32) (bs : List UInt8) :
    State.start.read (b :: d₁ :: d₂ :: bs) = Char.ofNat (64 * (64 * v + v₁) + v₂) :: State.start.read bs := by
  have hle : 0xE0 ≤ b := UInt8.le_iff_toNat_le.2 (by simp [hb])
  have hlt : b < 0xF0 := UInt8.lt_iff_toNat_lt.2 (by simp [hb]; omega)
  have hfirst := first_three hle hlt
  have hsecond : (if b = 0xE0 then 0xA0 else 0x80) ≤ d₁ ∧ d₁ ≤ if b = 0xED then 0x9F else 0xBF := by
    simp only [← UInt8.toNat_inj, UInt8.le_iff_toNat_le]
    split <;> split <;> simp_all <;> omega
  rw [hb, Nat.add_sub_cancel] at hfirst
  rw [read_first hfirst, read_more hsecond h₁, read_last (continues h₂ hv₂) h₂]

include h₃ hv₃

theorem read_four (hb : b.toNat = v + 0xF0) (hhigh : v ≤ 4) (hlow : v = 0 → 16 ≤ v₁) (hlast : v = 4 → v₁ < 16)
    (bs : List UInt8) :
    State.start.read (b :: d₁ :: d₂ :: d₃ :: bs) =
      Char.ofNat (64 * (64 * (64 * v + v₁) + v₂) + v₃) :: State.start.read bs := by
  have hle : 0xF0 ≤ b := UInt8.le_iff_toNat_le.2 (by simp [hb])
  have hge : b ≤ 0xF4 := UInt8.le_iff_toNat_le.2 (by simp [hb]; omega)
  have hfirst := first_four hle hge
  have hsecond : (if b = 0xF0 then 0x90 else 0x80) ≤ d₁ ∧ d₁ ≤ if b = 0xF4 then 0x8F else 0xBF := by
    simp only [← UInt8.toNat_inj, UInt8.le_iff_toNat_le]
    split <;> split <;> simp_all <;> omega
  rw [hb, Nat.add_sub_cancel] at hfirst
  rw [read_first hfirst, read_more hsecond h₁, read_more (continues h₂ hv₂) h₂,
    read_last (continues h₃ hv₃) h₃]

end

/-- The bytes of a character are read as that character. -/
theorem read_encodeChar (c : Char) (bs : List UInt8) :
    State.start.read (String.utf8EncodeChar c ++ bs) = c :: State.start.read bs := by
  have hbyte : ∀ n < 256, (UInt8.ofNat n).toNat = n := fun n hn => UInt8.toNat_ofNat_of_lt hn
  have hmod : ∀ w, w % 64 < 64 := fun w => Nat.mod_lt w (by decide)
  have hmore : ∀ w, (UInt8.ofNat (w % 64 + 0x80)).toNat = w % 64 + 0x80 := fun w => hbyte _ (by omega)
  have hvalid : c.val.toNat.isValidChar := c.valid
  have hchar : ∀ w, w = c.val.toNat → Char.ofNat w = c := by
    rintro w rfl
    exact Char.ofNat_toNat c
  generalize hv : c.val.toNat = v at hvalid hchar
  simp only [String.utf8EncodeChar, hv]
  -- one byte, then two, three and four
  split
  · next h =>
    have hb := hbyte v (by omega)
    have hascii : UInt8.ofNat v < 0x80 := by
      rw [UInt8.lt_iff_toNat_lt, hb]
      exact Nat.lt_succ_of_le h
    simp [State.read, State.step, first_ascii hascii, hb, hchar v rfl]
  split
  · rw [List.cons_append, List.cons_append, List.nil_append,
      read_two (hmore _) (hmod _) (hbyte _ (by omega)) (by omega) (by omega), hchar]
    omega
  split
  · rw [List.cons_append, List.cons_append, List.cons_append, List.nil_append,
      read_three (hmore _) (hmod _) (hmore _) (hmod _) (hbyte _ (by omega)) (by omega) (by omega) (by omega), hchar]
    omega
  · rw [List.cons_append, List.cons_append, List.cons_append, List.cons_append, List.nil_append,
      read_four (hmore _) (hmod _) (hmore _) (hmod _) (hmore _) (hmod _) (hbyte _ (by omega)) (by omega) (by omega)
        (by omega), hchar]
    omega

/-- A text is read back from its bytes. -/
theorem decode_encode (s : String) : decode (encode s) = s := by
  have hread : ∀ cs : List Char, State.start.read (cs.flatMap String.utf8EncodeChar) = cs := by
    intro cs
    induction cs with
    | nil => rfl
    | cons c cs ih => rw [List.flatMap_cons, read_encodeChar, ih]
  rw [← String.toList_inj, toList_decode, encode, hread]

theorem encode_append (s t : String) : encode (s ++ t) = encode s ++ encode t := by
  simp [encode]

theorem lineFeed_mem_encodeChar (h : lineFeed ∈ String.utf8EncodeChar c) : c = '\n' := by
  obtain ⟨a, bs, hsplit⟩ := List.append_of_mem h
  have hread := read_encodeChar c []
  rw [List.append_nil, hsplit, read_append_ascii (s := .start) trivial (by decide)] at hread
  have hmem : '\n' ∈ [c] := hread ▸ List.mem_append_right _ List.mem_cons_self
  exact (List.mem_singleton.1 hmem).symm

theorem lineFeed_mem_encode_decode (h : lineFeed ∈ encode (decode bs)) : lineFeed ∈ bs := by
  obtain ⟨c, hc, hmem⟩ := List.mem_flatMap.1 h
  rw [lineFeed_mem_encodeChar hmem, toList_decode] at hc
  exact lineFeed_mem_of_mem_read (s := .start) trivial hc

theorem encode_decode_eq_nil (h : encode (decode bs) = []) : bs = [] := by
  rw [← decode_eq_empty, ← decode_encode (decode bs), h]
  rfl

/-! ## Lines -/

theorem splitFrom_append (ha : lineFeed ∉ a) (current : List UInt8) (done : List (List UInt8)) (bs : List UInt8) :
    splitFrom current done (a ++ bs) = splitFrom (a.reverse ++ current) done bs := by
  induction a generalizing current with
  | nil => rfl
  | cons b a ih =>
    obtain ⟨hb, ha⟩ : lineFeed ≠ b ∧ lineFeed ∉ a := by simpa using ha
    simp [splitFrom, hb.symm, ih ha]

theorem splitFrom_done (current : List UInt8) (done : List (List UInt8)) (bs : List UInt8) :
    splitFrom current done bs = done.reverse ++ splitFrom current [] bs := by
  induction bs generalizing current done with
  | nil => cases current <;> simp [splitFrom]
  | cons b bs ih =>
    simp only [splitFrom]
    split
    · rw [ih, ih [] [_]]
      simp
    · exact ih ..

theorem lines_last (hne : a ≠ []) (ha : lineFeed ∉ a) : lines a = [a] := by
  have h := splitFrom_append ha [] [] []
  rw [List.append_nil, List.append_nil] at h
  simp [lines, h, splitFrom, hne]

theorem lines_cons (ha : lineFeed ∉ a) (bs : List UInt8) :
    lines (a ++ lineFeed :: bs) = (a ++ [lineFeed]) :: lines bs := by
  rw [lines, splitFrom_append ha, splitFrom, if_pos rfl, splitFrom_done]
  simp [lines]

/-- Bytes are empty, a last line, or a line and the bytes behind its line feed. -/
theorem lines_induction {P : List UInt8 → Prop} (nil : P []) (last : ∀ a, a ≠ [] → lineFeed ∉ a → P a)
    (cons : ∀ a bs, lineFeed ∉ a → P bs → P (a ++ lineFeed :: bs)) (bs : List UInt8) : P bs := by
  induction hn : bs.length using Nat.strongRecOn generalizing bs with
  | _ n ih =>
    by_cases hmem : lineFeed ∈ bs
    · obtain ⟨a, bs', rfl, ha⟩ := List.eq_append_cons_of_mem hmem
      exact cons a bs' ha (ih bs'.length (by simp at hn; omega) bs' rfl)
    · by_cases hne : bs = []
      · exact hne ▸ nil
      · exact last bs hne hmem

/-- There is one way to split bytes into lines. -/
theorem splits_iff : Splits bs ls ↔ ls = lines bs := by
  constructor
  · intro h
    induction h with
    | nil => rfl
    | last hne ha => exact (lines_last hne ha).symm
    | cons ha _ ih => rw [ih, lines_cons ha]
  · rintro rfl
    induction bs using lines_induction with
    | nil => exact .nil
    | last a hne ha =>
      rw [lines_last hne ha]
      exact .last hne ha
    | cons a bs ha ih =>
      rw [lines_cons ha]
      exact .cons ha ih

/-- Behind a line that ends with a line feed, the bytes may be others. -/
theorem Splits.replace {line rest : List UInt8} {pre post : List (List UInt8)} (h : Splits bs (pre ++ line :: post))
    (hend : lineFeed ∈ line ∨ rest = []) : Splits ((pre ++ [line]).flatten ++ rest) (pre ++ line :: lines rest) := by
  induction pre generalizing bs with
  | nil =>
    cases h with
    | last hne ha =>
      have hrest : rest = [] := hend.resolve_left ha
      have hlines : lines [] = [] := rfl
      simpa [hrest, hlines] using Splits.last hne ha
    | cons ha _ => simpa using Splits.cons ha (splits_iff.2 rfl)
  | cons l pre ih =>
    generalize hls : pre ++ line :: post = ls at h ih
    rw [List.cons_append, hls] at h
    cases h with
    | last => simp at hls
    | cons ha h => simpa using Splits.cons ha (ih h)

/-- The lines of what bytes are read as are what their lines are read as. -/
theorem lines_encode_decode (bs : List UInt8) :
    lines (encode (decode bs)) = (lines bs).map fun line => encode (decode line) := by
  induction bs using lines_induction with
  | nil => rfl
  | last a hne ha =>
    rw [lines_last hne ha, lines_last (mt encode_decode_eq_nil hne) (mt lineFeed_mem_encode_decode ha),
      List.map_singleton]
  | cons a bs ha ih =>
    have hfeed : encode "\n" = [lineFeed] := by decide +kernel
    have hcut : ∀ v, encode (decode (a ++ lineFeed :: v)) = encode (decode a) ++ lineFeed :: encode (decode v) := by
      intro v
      rw [decode_lineFeed, encode_append, encode_append, hfeed]
      simp
    rw [hcut, lines_cons (mt lineFeed_mem_encode_decode ha), ih, lines_cons ha, List.map_cons, hcut]
    rfl

end RobotShell.Utf8
