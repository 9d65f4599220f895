import Mathlib.Data.String.Basic

/-!
# Decimals of a fixed width

Texts of a fixed number of decimal digits: what they stand for, how they are printed, and that their
order as texts is the order of the numbers.  With it the order of texts that are put together from
parts of the same lengths.
-/

namespace Decimals

/-! ## The order of texts in parts -/

variable {α : Type*} [LinearOrder α] {as bs cs ds : List α}

theorem append_lt_append_iff (h : as.length = bs.length) :
    as ++ cs < bs ++ ds ↔ as < bs ∨ as = bs ∧ cs < ds := by
  induction as generalizing bs with
  | nil =>
    obtain rfl : bs = [] := List.length_eq_zero_iff.mp h.symm
    simp
  | cons a as ih =>
    cases bs with
    | nil => cases h
    | cons b bs =>
      have hlen : as.length = bs.length := Nat.succ.inj h
      rw [List.cons_append, List.cons_append, List.cons_lt_cons_iff, List.cons_lt_cons_iff,
        ih hlen, List.cons.injEq]
      -- either way the first place decides, or it is the same
      tauto

/-- A separator that both texts have makes no difference. -/
theorem append_cons_lt_append_cons_iff (h : as.length = bs.length) (sep : α) :
    as ++ sep :: cs < bs ++ sep :: ds ↔ as < bs ∨ as = bs ∧ cs < ds := by
  rw [append_lt_append_iff h, List.cons_lt_cons_iff]
  simp

/-- Names that begin with texts of one length sort as these do. -/
theorem append_lt_append {text other : String} (h : text.toList.length = other.toList.length)
    (hlt : text < other) (rest rest' : String) : text ++ rest < other ++ rest' := by
  rw [String.lt_iff_toList_lt] at hlt ⊢
  rw [String.toList_append, String.toList_append, append_lt_append_iff h]
  exact .inl hlt

/-! ## Numbers -/

/-- A text of `width` decimal digits, and the number it stands for. -/
structure Reads (width n : ℕ) (text : List Char) : Prop where
  length : text.length = width
  digits : ∀ c ∈ text, c.isDigit = true
  value : Nat.ofDigitChars 10 text 0 = n

/-- A number with zeros in front. -/
theorem reads_leftpad {width n : ℕ} (hwidth : 0 < width) (h : n < 10 ^ width) :
    Reads width n ((Nat.toDigits 10 n).leftpad width '0') where
  length := by
    have hle := (Nat.length_toDigits_le_iff (by decide : 1 < 10) hwidth).mpr h
    rw [List.length_leftpad]
    omega
  digits c hc := by
    rcases List.mem_append.mp hc with hc | hc
    · rw [List.eq_of_mem_replicate hc]
      decide
    · exact Nat.isDigit_of_mem_toDigits (by decide) (by decide) hc
  value := by
    rw [List.leftpad, Nat.ofDigitChars_append, Nat.ofDigitChars_replicate_zero, Nat.mul_zero,
      Nat.ofDigitChars_ten_toDigits]

/-- The digit that a character is. -/
def digit (c : Char) : ℕ := c.toNat - '0'.toNat

theorem digit_lt {c : Char} (h : c.isDigit = true) : digit c < 10 := by
  have hle : c.toNat ≤ 57 := (Char.isDigit_iff_toNat.mp h).2
  show c.toNat - 48 < 10
  omega

theorem lt_iff_digit_lt {c d : Char} (hc : c.isDigit = true) (hd : d.isDigit = true) :
    c < d ↔ digit c < digit d := by
  have hlow := (Char.isDigit_iff_toNat.mp hc).1
  have hlow' := (Char.isDigit_iff_toNat.mp hd).1
  have hlt : c < d ↔ c.toNat < d.toNat := Iff.rfl
  rw [hlt]
  unfold digit
  omega

variable {width n m : ℕ} {c d : Char} {text other : List Char}

theorem value_cons (c : Char) (text : List Char) :
    Nat.ofDigitChars 10 (c :: text) 0 =
      10 ^ text.length * digit c + Nat.ofDigitChars 10 text 0 := by
  rw [Nat.ofDigitChars_cons, Nat.ofDigitChars_eq_ofDigitChars_zero, Nat.mul_zero, Nat.zero_add]
  rfl

theorem value_lt (h : ∀ c ∈ text, c.isDigit = true) :
    Nat.ofDigitChars 10 text 0 < 10 ^ text.length := by
  induction text with
  | nil => decide
  | cons c text ih =>
    have hc := digit_lt (h c (List.mem_cons_self ..))
    have ih := ih fun d hd ↦ h d (List.mem_cons_of_mem c hd)
    rw [value_cons, List.length_cons, Nat.pow_succ]
    calc 10 ^ text.length * digit c + Nat.ofDigitChars 10 text 0
        < 10 ^ text.length * digit c + 10 ^ text.length := Nat.add_lt_add_left ih _
      _ = 10 ^ text.length * (digit c + 1) := (Nat.mul_succ ..).symm
      _ ≤ 10 ^ text.length * 10 := Nat.mul_le_mul_left _ hc

/-- A number by its quotient and its remainder. -/
theorem mul_add_lt_mul_add_iff {p a b x y : ℕ} (hx : x < p) (hy : y < p) :
    p * a + x < p * b + y ↔ a < b ∨ a = b ∧ x < y := by
  rcases lt_trichotomy a b with hlt | rfl | hgt
  · have hmul : p * (a + 1) ≤ p * b := Nat.mul_le_mul_left p hlt
    rw [Nat.mul_succ] at hmul
    omega
  · omega
  · have hmul : p * (b + 1) ≤ p * a := Nat.mul_le_mul_left p hgt
    rw [Nat.mul_succ] at hmul
    omega

/-- Where both strict comparisons agree, so does equality. -/
theorem eq_iff_of_lt_iff {x y : α} (hlt : x < y ↔ n < m) (hgt : y < x ↔ m < n) :
    x = y ↔ n = m := by
  rw [le_antisymm_iff, ← not_lt, ← not_lt, hlt, hgt]
  omega

theorem eq_iff_digit_eq (hc : c.isDigit = true) (hd : d.isDigit = true) :
    c = d ↔ digit c = digit d :=
  eq_iff_of_lt_iff (lt_iff_digit_lt hc hd) (lt_iff_digit_lt hd hc)

/-- The most significant digit comes first. -/
theorem lt_iff_value_lt (h : text.length = other.length) (htext : ∀ c ∈ text, c.isDigit = true)
    (hother : ∀ c ∈ other, c.isDigit = true) :
    text < other ↔ Nat.ofDigitChars 10 text 0 < Nat.ofDigitChars 10 other 0 := by
  induction text generalizing other with
  | nil =>
    obtain rfl : other = [] := List.length_eq_zero_iff.mp h.symm
    simp
  | cons c text ih =>
    cases other with
    | nil => cases h
    | cons d other =>
      obtain ⟨hc, htext⟩ := List.forall_mem_cons.mp htext
      obtain ⟨hd, hother⟩ := List.forall_mem_cons.mp hother
      have hlen : text.length = other.length := Nat.succ.inj h
      have hlow := value_lt htext
      have hlow' := value_lt hother
      rw [hlen] at hlow
      rw [List.cons_lt_cons_iff, ih hlen htext hother, value_cons, value_cons, hlen,
        mul_add_lt_mul_add_iff hlow hlow', lt_iff_digit_lt hc hd, eq_iff_digit_eq hc hd]

theorem Reads.lt_iff (h : Reads width n text) (h' : Reads width m other) :
    text < other ↔ n < m := by
  rw [lt_iff_value_lt (h.length.trans h'.length.symm) h.digits h'.digits, h.value, h'.value]

theorem Reads.eq_iff (h : Reads width n text) (h' : Reads width m other) :
    text = other ↔ n = m :=
  eq_iff_of_lt_iff (h.lt_iff h') (h'.lt_iff h)

end Decimals
