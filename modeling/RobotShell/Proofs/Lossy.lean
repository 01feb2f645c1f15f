import RobotShell.Proofs.Decoding
/-!
# Invalid bytes

Bytes that are no text are read as U+FFFD, one for each part that cannot become a character. A part goes as
far as its bytes begin some character, and is a single byte where not even that one does.
-/

namespace RobotShell.Utf8

/-- The bytes are the first ones of a character, or all of them. -/
def Begins (part : List UInt8) : Prop := ∃ c, part <+: String.utf8EncodeChar c

/-- There is no character where the part begins, and the part is the longest one that begins a character,
or a single byte. -/
structure Invalid (part bs : List UInt8) : Prop where
  nonempty : part ≠ []
  begins : Begins part ∨ part.length = 1
  longest : ∀ b ∈ bs.head?, ¬Begins (part ++ [b])
  ill : ∀ c, ¬String.utf8EncodeChar c <+: part ++ bs

/-- Bytes as they are read: each character from its own bytes, and U+FFFD from each invalid part. -/
inductive Lossy : List UInt8 → List Char → Prop
  | nil : Lossy [] []
  | char {c : Char} {bs : List UInt8} {cs : List Char} : Lossy bs cs → Lossy (String.utf8EncodeChar c ++ bs) (c :: cs)
  | invalid {part bs : List UInt8} {cs : List Char} : Invalid part bs → Lossy bs cs →
      Lossy (part ++ bs) (replacement :: cs)

variable {b d d₁ d₂ d₃ : UInt8} {part bs l : List UInt8} {c : Char} {more code : Nat} {lo hi : UInt8}

/-- The bytes fill up a character: the first lies between bounds, and as many continue it as are missing. -/
def Fills : Nat → UInt8 → UInt8 → List UInt8 → Prop
  | 0, lo, hi, l => ∃ d, l = [d] ∧ lo ≤ d ∧ d ≤ hi
  | more + 1, lo, hi, l => ∃ d l', l = d :: l' ∧ (lo ≤ d ∧ d ≤ hi) ∧ Fills more 0x80 0xBF l'

/-! ## The bytes of a character -/

theorem ofNat_eq {n : Nat} (h : n = b.toNat) : UInt8.ofNat n = b := by
  rw [h, UInt8.ofNat_toNat]

theorem toNat_bounds (h : lo ≤ b ∧ b ≤ hi) : lo.toNat ≤ b.toNat ∧ b.toNat ≤ hi.toNat :=
  ⟨UInt8.le_iff_toNat_le.1 h.1, UInt8.le_iff_toNat_le.1 h.2⟩

theorem encode_one (hb : b < 0x80) : ∃ c, String.utf8EncodeChar c = [b] := by
  have hlt : b.toNat < 0x80 := UInt8.lt_iff_toNat_lt.1 hb
  have hvalid : b.toNat.isValidChar := by simp only [Nat.isValidChar]; omega
  refine ⟨Char.ofNat b.toNat, ?_⟩
  simp only [String.utf8EncodeChar, val_ofNat hvalid]
  rw [if_pos (by omega), ofNat_eq rfl]

theorem encode_two (hlow : 0xC2 ≤ b) (hhigh : b < 0xE0) (hd : 0x80 ≤ d ∧ d ≤ 0xBF) :
    ∃ c, String.utf8EncodeChar c = [b, d] := by
  have hlow : 0xC2 ≤ b.toNat := UInt8.le_iff_toNat_le.1 hlow
  have hhigh : b.toNat < 0xE0 := UInt8.lt_iff_toNat_lt.1 hhigh
  have hd : 0x80 ≤ d.toNat ∧ d.toNat ≤ 0xBF := toNat_bounds hd
  let v := 64 * (b.toNat - 0xC0) + (d.toNat - 0x80)
  have hvalid : v.isValidChar := by simp only [Nat.isValidChar, v]; omega
  refine ⟨Char.ofNat v, ?_⟩
  simp only [String.utf8EncodeChar, val_ofNat hvalid]
  rw [if_neg (by omega), if_pos (by omega), ofNat_eq (b := b) (by omega), ofNat_eq (b := d) (by omega)]

theorem encode_three (hlow : 0xE0 ≤ b) (hhigh : b < 0xF0)
    (h₁ : (if b = 0xE0 then 0xA0 else 0x80) ≤ d₁ ∧ d₁ ≤ if b = 0xED then 0x9F else 0xBF)
    (h₂ : 0x80 ≤ d₂ ∧ d₂ ≤ 0xBF) : ∃ c, String.utf8EncodeChar c = [b, d₁, d₂] := by
  have hlow : 0xE0 ≤ b.toNat := UInt8.le_iff_toNat_le.1 hlow
  have hhigh : b.toNat < 0xF0 := UInt8.lt_iff_toNat_lt.1 hhigh
  have h₂ : 0x80 ≤ d₂.toNat ∧ d₂.toNat ≤ 0xBF := toNat_bounds h₂
  have h₁ : 0x80 ≤ d₁.toNat ∧ d₁.toNat ≤ 0xBF ∧ (b.toNat = 0xE0 → 0xA0 ≤ d₁.toNat) ∧
      (b.toNat = 0xED → d₁.toNat ≤ 0x9F) := by
    have h := toNat_bounds h₁
    simp only [← UInt8.toNat_inj] at h
    split at h <;> split at h <;> simp_all <;> omega
  let v := 64 * (64 * (b.toNat - 0xE0) + (d₁.toNat - 0x80)) + (d₂.toNat - 0x80)
  have hvalid : v.isValidChar := by simp only [Nat.isValidChar, v]; omega
  refine ⟨Char.ofNat v, ?_⟩
  simp only [String.utf8EncodeChar, val_ofNat hvalid]
  rw [if_neg (by omega), if_neg (by omega), if_pos (by omega), ofNat_eq (b := b) (by omega),
    ofNat_eq (b := d₁) (by omega), ofNat_eq (b := d₂) (by omega)]

theorem encode_four (hlow : 0xF0 ≤ b) (hhigh : b ≤ 0xF4)
    (h₁ : (if b = 0xF0 then 0x90 else 0x80) ≤ d₁ ∧ d₁ ≤ if b = 0xF4 then 0x8F else 0xBF)
    (h₂ : 0x80 ≤ d₂ ∧ d₂ ≤ 0xBF) (h₃ : 0x80 ≤ d₃ ∧ d₃ ≤ 0xBF) :
    ∃ c, String.utf8EncodeChar c = [b, d₁, d₂, d₃] := by
  have hb : 0xF0 ≤ b.toNat ∧ b.toNat ≤ 0xF4 := toNat_bounds ⟨hlow, hhigh⟩
  have h₂ : 0x80 ≤ d₂.toNat ∧ d₂.toNat ≤ 0xBF := toNat_bounds h₂
  have h₃ : 0x80 ≤ d₃.toNat ∧ d₃.toNat ≤ 0xBF := toNat_bounds h₃
  have h₁ : 0x80 ≤ d₁.toNat ∧ d₁.toNat ≤ 0xBF ∧ (b.toNat = 0xF0 → 0x90 ≤ d₁.toNat) ∧
      (b.toNat = 0xF4 → d₁.toNat ≤ 0x8F) := by
    have h := toNat_bounds h₁
    simp only [← UInt8.toNat_inj] at h
    split at h <;> split at h <;> simp_all <;> omega
  let v := 64 * (64 * (64 * (b.toNat - 0xF0) + (d₁.toNat - 0x80)) + (d₂.toNat - 0x80)) + (d₃.toNat - 0x80)
  have hvalid : v.isValidChar := by simp only [Nat.isValidChar, v]; omega
  refine ⟨Char.ofNat v, ?_⟩
  simp only [String.utf8EncodeChar, val_ofNat hvalid]
  rw [if_neg (by omega), if_neg (by omega), if_neg (by omega), ofNat_eq (b := b) (by omega),
    ofNat_eq (b := d₁) (by omega), ofNat_eq (b := d₂) (by omega), ofNat_eq (b := d₃) (by omega)]

theorem encodeChar_ne_nil (c : Char) : String.utf8EncodeChar c ≠ [] := by
  intro h
  have hread := read_encodeChar c []
  rw [h] at hread
  cases hread

/-- No character goes on with another one. -/
theorem eq_nil_of_encodeChar {c' : Char} (h : String.utf8EncodeChar c' = String.utf8EncodeChar c ++ l) : l = [] := by
  have hread := read_encodeChar c' []
  rw [List.append_nil, h, read_encodeChar] at hread
  exact (eq_nil_of_read (s := .start) trivial (List.cons.inj hread).2).2

/-- If a U+FFFD is read before a byte, no character has this byte there. -/
theorem not_begins (h : ∀ bs, State.start.read (part ++ b :: bs) = replacement :: State.start.read (b :: bs)) :
    ¬Begins (part ++ [b]) := by
  rintro ⟨c, tail, hc⟩
  have hread := read_encodeChar c []
  rw [List.append_nil, ← hc, List.append_assoc, List.singleton_append, h] at hread
  exact List.cons_ne_nil _ _ (eq_nil_of_read (s := .start) trivial (List.cons.inj hread).2).2

/-! ## Invalid parts -/

theorem exists_fills (more : Nat) (h : lo ≤ hi) : ∃ l, l ≠ [] ∧ Fills more lo hi l := by
  induction more generalizing lo hi with
  | zero => exact ⟨[lo], List.cons_ne_nil lo [], lo, rfl, UInt8.le_refl _, h⟩
  | succ more ih =>
    obtain ⟨l, -, hl⟩ := ih (show (0x80 : UInt8) ≤ 0xBF by decide)
    exact ⟨lo :: l, List.cons_ne_nil lo l, lo, l, rfl, ⟨UInt8.le_refl _, h⟩, hl⟩

/-- Bytes that begin with a character, or with an invalid part that is read as one U+FFFD. -/
def Parts (bs : List UInt8) : Prop :=
  (∃ c bs', bs = String.utf8EncodeChar c ++ bs') ∨
    ∃ part bs', bs = part ++ bs' ∧ Invalid part bs' ∧ State.start.read bs = replacement :: State.start.read bs'

theorem eq_cons_of_head {p : UInt8 → Prop} (h : ¬∀ b ∈ bs.head?, ¬p b) : ∃ b bs', bs = b :: bs' ∧ p b := by
  cases bs with
  | nil => simp at h
  | cons b bs => exact ⟨b, bs, rfl, by simpa using h⟩

theorem parts_invalid (h : first b = ([replacement], .start)) (bs : List UInt8) : Parts (b :: bs) := by
  have hread : ∀ l, State.start.read (b :: l) = replacement :: State.start.read l := by
    intro l
    rw [State.read, State.step, h, List.singleton_append]
  refine .inr ⟨[b], bs, rfl, ⟨List.cons_ne_nil b [], .inr rfl, fun d _ => not_begins fun l => hread _, ?_⟩, hread bs⟩
  rintro c ⟨t, hc⟩
  rcases hbytes : String.utf8EncodeChar c with _ | ⟨b', l⟩
  · exact encodeChar_ne_nil c hbytes
  · have hc' := read_encodeChar c []
    rw [hbytes] at hc hc'
    obtain ⟨rfl, -⟩ := List.cons.inj hc
    rw [List.append_nil, hread] at hc'
    -- only U+FFFD itself could stand here, and it has three bytes
    obtain ⟨rfl, hl⟩ := List.cons.inj hc'
    have hlength : (String.utf8EncodeChar replacement).length = 3 := by decide
    rw [hbytes, (eq_nil_of_read (s := .start) trivial hl).2] at hlength
    cases hlength

section
variable (hne : part ≠ []) (hle : lo ≤ hi)
  (hread : ∀ bs, State.start.read (part ++ bs) = (State.inside more lo hi code).read bs)
  (hfills : ∀ l, Fills more lo hi l → ∃ c, String.utf8EncodeChar c = part ++ l)

include hne hle hread hfills

/-- What begins a character is an invalid part if it does not go on. -/
theorem parts_stopped (hstop : ∀ b ∈ bs.head?, ¬(lo ≤ b ∧ b ≤ hi)) : Parts (part ++ bs) := by
  have hcut : ∀ l, (∀ b ∈ l.head?, ¬(lo ≤ b ∧ b ≤ hi)) →
      State.start.read (part ++ l) = replacement :: State.start.read l := by
    intro l hl
    rw [hread]
    cases l with
    | nil => rfl
    | cons b l =>
      rw [State.read, step_outside (hl b rfl)]
      rfl
  have hlongest : ∀ b ∈ bs.head?, ¬Begins (part ++ [b]) := by
    intro b hb
    refine not_begins fun l => hcut (b :: l) ?_
    simpa using hstop b hb
  obtain ⟨l, hl, hfill⟩ := exists_fills more hle
  obtain ⟨c, hc⟩ := hfills l hfill
  refine .inr ⟨part, bs, rfl, ⟨hne, .inl ⟨c, l, hc.symm⟩, hlongest, ?_⟩, hcut bs hstop⟩
  rintro c' ⟨t, ht⟩
  rcases List.append_eq_append_iff.1 ht with ⟨a, ha, -⟩ | ⟨a, ha, hbs⟩
  -- a character that ends inside of the part would go on with it
  · rw [ha, List.append_assoc] at hc
    exact hl (List.append_eq_nil_iff.1 (eq_nil_of_encodeChar hc)).2
  · cases a with
    | nil =>
      rw [List.append_nil] at ha
      rw [← ha] at hc
      exact hl (eq_nil_of_encodeChar hc)
    | cons b a =>
      rw [hbs] at hlongest
      exact hlongest b rfl ⟨c', a, by simp [ha]⟩

/-- What begins a character goes on with it up to its end, or is an invalid part. -/
theorem parts_inside (bs : List UInt8) : Parts (part ++ bs) := by
  induction more generalizing part lo hi code bs with
  | zero =>
    by_cases hstop : ∀ b ∈ bs.head?, ¬(lo ≤ b ∧ b ≤ hi)
    · exact parts_stopped hne hle hread hfills hstop
    · obtain ⟨b, bs, rfl, hb⟩ := eq_cons_of_head hstop
      obtain ⟨c, hc⟩ := hfills [b] ⟨b, rfl, hb⟩
      exact .inl ⟨c, bs, by simp [hc]⟩
  | succ more ih =>
    by_cases hstop : ∀ b ∈ bs.head?, ¬(lo ≤ b ∧ b ≤ hi)
    · exact parts_stopped hne hle hread hfills hstop
    · obtain ⟨b, bs, rfl, hb⟩ := eq_cons_of_head hstop
      have hmore : ∀ l, State.start.read (part ++ [b] ++ l) =
          (State.inside more 0x80 0xBF (64 * code + (b.toNat - 0x80))).read l := by
        intro l
        rw [List.append_assoc, hread, List.singleton_append, State.read, step_more hb]
        rfl
      have hrest := ih (by simp) (by decide) hmore (fun l hl => ?_) bs
      · simpa using hrest
      · obtain ⟨c, hc⟩ := hfills (b :: l) ⟨b, l, rfl, hb, hl⟩
        exact ⟨c, by simp [hc]⟩

end

theorem parts_cons (b : UInt8) (bs : List UInt8) : Parts (b :: bs) := by
  by_cases hascii : b < 0x80
  · obtain ⟨c, hc⟩ := encode_one hascii
    exact .inl ⟨c, bs, by rw [hc]; rfl⟩
  by_cases hlow : b < 0xC2
  · exact parts_invalid (first_invalid (.inl ⟨UInt8.not_lt.1 hascii, hlow⟩)) bs
  by_cases hhigh : 0xF4 < b
  · exact parts_invalid (first_invalid (.inr hhigh)) bs
  rw [UInt8.not_lt] at hlow hhigh
  by_cases htwo : b < 0xE0
  · refine parts_inside (List.cons_ne_nil b []) (by decide) (read_first (first_two hlow htwo)) ?_ bs
    rintro l ⟨d, rfl, hd⟩
    exact encode_two hlow htwo hd
  rw [UInt8.not_lt] at htwo
  by_cases hthree : b < 0xF0
  · refine parts_inside (List.cons_ne_nil b []) ?_ (read_first (first_three htwo hthree)) ?_ bs
    · by_cases hE0 : b = 0xE0
      · subst hE0
        decide
      · rw [if_neg hE0]
        split <;> decide
    · rintro l ⟨d₁, l, rfl, h₁, d₂, rfl, h₂⟩
      exact encode_three htwo hthree h₁ h₂
  rw [UInt8.not_lt] at hthree
  refine parts_inside (List.cons_ne_nil b []) ?_ (read_first (first_four hthree hhigh)) ?_ bs
  · by_cases hF0 : b = 0xF0
    · subst hF0
      decide
    · rw [if_neg hF0]
      split <;> decide
  · rintro l ⟨d₁, l, rfl, h₁, d₂, l, rfl, h₂, d₃, rfl, h₃⟩
    exact encode_four hthree hhigh h₁ h₂ h₃

theorem lossy_read (bs : List UInt8) : Lossy bs (State.start.read bs) := by
  induction hn : bs.length using Nat.strongRecOn generalizing bs with
  | _ n ih =>
    have hshorter : ∀ front bs', bs = front ++ bs' → front ≠ [] → Lossy bs' (State.start.read bs') := by
      intro front bs' hbs hne
      have hpos := List.length_pos_iff.2 hne
      have hlength := congrArg List.length hbs
      rw [List.length_append] at hlength
      exact ih bs'.length (by omega) bs' rfl
    rcases bs with _ | ⟨b, bs⟩
    · exact .nil
    · rcases parts_cons b bs with ⟨c, bs', hbs⟩ | ⟨part, bs', hbs, hinvalid, hread⟩
      · have hrest := hshorter _ bs' hbs (encodeChar_ne_nil c)
        rw [hbs, read_encodeChar]
        exact .char hrest
      · have hrest := hshorter part bs' hbs hinvalid.nonempty
        rw [hread, hbs]
        exact .invalid hinvalid hrest

theorem Invalid.eq_nil {r : List UInt8} (h : Invalid part (r ++ bs)) (h' : Invalid (part ++ r) bs) : r = [] := by
  cases r with
  | nil => rfl
  | cons b r =>
    rcases h'.begins with ⟨c, hc⟩ | hlength
    · have hprefix : part ++ [b] <+: part ++ b :: r := ⟨r, by simp⟩
      exact absurd ⟨c, hprefix.trans hc⟩ (h.longest b rfl)
    · have hpos := List.length_pos_iff.2 h.nonempty
      simp only [List.length_append, List.length_cons] at hlength
      omega

/-- One invalid part stands at the front of bytes, and one U+FFFD is read from it. -/
theorem Invalid.read (h : Invalid part bs) : State.start.read (part ++ bs) = replacement :: State.start.read bs := by
  obtain ⟨b, part', rfl⟩ := List.exists_cons_of_ne_nil h.nonempty
  rcases parts_cons b (part' ++ bs) with ⟨c, bs', hbs⟩ | ⟨p, bs', hbs, hp, hread⟩
  · exact absurd ⟨bs', hbs.symm⟩ (h.ill c)
  · rw [← List.cons_append] at hbs
    rw [List.cons_append, hread]
    rcases List.append_eq_append_iff.1 hbs with ⟨r, rfl, rfl⟩ | ⟨r, hr, rfl⟩
    · obtain rfl := h.eq_nil hp
      rfl
    · rw [hr] at h
      obtain rfl := hp.eq_nil h
      rfl

/-- Bytes are decoded in the one way that reads each character from its bytes, and a single U+FFFD from each
maximal part that is none. -/
theorem lossy_iff {cs : List Char} : Lossy bs cs ↔ cs = (decode bs).toList := by
  rw [toList_decode]
  constructor
  · intro h
    induction h with
    | nil => rfl
    | char _ ih => rw [ih, read_encodeChar]
    | invalid hinvalid _ ih => rw [ih, hinvalid.read]
  · rintro rfl
    exact lossy_read bs

end RobotShell.Utf8
