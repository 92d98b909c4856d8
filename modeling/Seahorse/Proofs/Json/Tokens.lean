import Mathlib.Data.Fintype.Basic
import Mathlib.Data.List.Basic
import Mathlib.Tactic.FinCases
import Mathlib.Tactic.IntervalCases
import Seahorse.Json.Reader
import Seahorse.Json.Writer

/-!
# Numerals and strings are read back

Whatever text stands behind it, a numeral that was written is read as the same numeral, sign, leading
zeros of the fraction and exponent included, as long as the text behind it does not go on with a
digit, a point or an exponent. A string literal needs no such condition: it ends at its quote, and
every character of a string is written so that it is read back, control characters by their number.
-/

namespace Seahorse

/-! ## Digits -/

namespace Decimal

/-- A digit is read back from its character. -/
@[simp]
theorem digitOf?_digitChar (d : Digit) : digitOf? (digitChar d) = some d := by
  revert d
  decide

/-- The digits of a number of some width are computed from the last one on; here the first one is
split off. -/
theorem digitsOfWidth_succ (width n : Nat) :
    digitsOfWidth (width + 1) n = Fin.ofNat 10 (n / 10 ^ width) :: digitsOfWidth width n := by
  induction width generalizing n with
  | zero => simp [digitsOfWidth]
  | succ width ih =>
    rw [digitsOfWidth, ih, digitsOfWidth, Nat.div_div_eq_div_mul, ← Nat.pow_succ', List.cons_append]

theorem value_concat (ds : List Digit) (d : Digit) : value (ds ++ [d]) = 10 * value ds + d.val := by
  simp [value]

/-- Digits of some width have the value of the number, up to what does not fit. -/
theorem value_digitsOfWidth (width n : Nat) : value (digitsOfWidth width n) = n % 10 ^ width := by
  induction width generalizing n with
  | zero => simp [digitsOfWidth, value, Nat.mod_one]
  | succ width ih =>
    rw [digitsOfWidth, value_concat, ih, Fin.val_ofNat, Nat.pow_succ', Nat.mod_mul]
    omega

/-- The number of digits of a number leaves room for it. -/
theorem lt_pow_length (n : Nat) : n < 10 ^ length n :=
  (Nat.length_toDigits_le_iff (by decide) Nat.length_toDigits_pos).mp le_rfl

/-- A number is the value of its digits. -/
@[simp]
theorem value_digits (n : Nat) : value (digits n) = n := by
  rw [digits, value_digitsOfWidth, Nat.mod_eq_of_lt (lt_pow_length n)]

/-- A number starts with its only digit or with one that is not zero. -/
theorem digits_cases (n : Nat) :
    (∃ d, digits n = [d]) ∨ ∃ d ds, digits n = d :: ds ∧ d ≠ 0 := by
  have hlt := lt_pow_length n
  have hpos : 0 < length n := Nat.length_toDigits_pos
  rcases hlen : length n with - | - | k
  · omega
  · exact .inl ⟨_, by rw [digits, hlen]; rfl⟩
  · right
    refine ⟨_, _, by rw [digits, hlen, digitsOfWidth_succ], ?_⟩
    have hge : 10 ^ (k + 1) ≤ n := by
      by_contra hnot
      have := (Nat.length_toDigits_le_iff (by decide) (Nat.succ_pos k)).mpr (Nat.lt_of_not_le hnot)
      unfold length at hlen
      omega
    have hlead : 1 ≤ n / 10 ^ (k + 1) := (Nat.one_le_div_iff (by positivity)).mpr hge
    have hdigit : n / 10 ^ (k + 1) < 10 := by
      rw [Nat.div_lt_iff_lt_mul (by positivity), ← Nat.pow_succ']
      rwa [hlen] at hlt
    intro hzero
    have hmod : n / 10 ^ (k + 1) % 10 = 0 := congrArg Fin.val hzero
    omega

end Decimal

namespace Json

open Decimal

/-! ## Numerals -/

/-- The text does not start with a digit. -/
def NoDigit (cs : List Char) : Prop :=
  ∀ c ∈ cs.head?, digitOf? c = none

/-- The text does not start with anything that a numeral could go on with. -/
def NumeralEnds (cs : List Char) : Prop :=
  ∀ c ∈ cs.head?, digitOf? c = none ∧ c ≠ '.' ∧ c ≠ 'e' ∧ c ≠ 'E'

section Numeral

variable {rest : List Char}

theorem NumeralEnds.noDigit (h : NumeralEnds rest) : NoDigit rest :=
  fun c hc => (h c hc).1

/-- Digits are read up to the first character that is none. -/
theorem readDigits_text (ds : List Digit) (h : NoDigit rest) :
    readDigits (text ds ++ rest) = (ds, rest) := by
  induction ds with
  | nil =>
    cases rest with
    | nil => rfl
    | cons c cs => simp [text, readDigits, h c rfl]
  | cons d ds ih =>
    have hread : readDigits (digitChar d :: (text ds ++ rest)) = (d :: ds, rest) := by
      simp [readDigits, ih]
    exact hread

/-- A whole part is read back: with no leading zero it is not refused. -/
theorem readWhole_digits (n : Nat) (h : NoDigit rest) :
    readWhole (text (digits n) ++ rest) = some (n, rest) := by
  have hvalue := value_digits n
  unfold readWhole
  rw [readDigits_text _ h]
  rcases digits_cases n with ⟨d, hd⟩ | ⟨d, ds, hd, hne⟩
  · rw [hd] at hvalue ⊢
    simp [hvalue]
  · rw [hd] at hvalue ⊢
    simp [hvalue, hne]

/-- The text of a fraction. -/
def fractionText (ds : List Digit) : List Char :=
  if ds.isEmpty then [] else '.' :: text ds

/-- A fraction is read back, leading zeros included. With no digits there is no point either. -/
theorem readFraction_text (ds : List Digit) (h : NoDigit rest) (hpoint : ∀ c ∈ rest.head?, c ≠ '.') :
    readFraction (fractionText ds ++ rest) = some (ds, rest) := by
  cases ds with
  | nil =>
    cases rest with
    | nil => rfl
    | cons c cs => simp [fractionText, readFraction, hpoint c rfl]
  | cons d ds =>
    simp [fractionText, readFraction, readDigits_text (d :: ds) h]

theorem digits_ne_nil (n : Nat) : digits n ≠ [] := by
  rcases digits_cases n with ⟨d, hd⟩ | ⟨d, ds, hd, -⟩ <;> simp [hd]

/-- The sign and the digits of an exponent are read back. -/
theorem readPower_text (e : Int) (h : NoDigit rest) :
    readPower ((if e < 0 then '-' else '+') :: text (digits e.natAbs) ++ rest) = some (e, rest) := by
  have hsign : readSign ((if e < 0 then '-' else '+') :: text (digits e.natAbs) ++ rest) =
      (decide (e < 0), text (digits e.natAbs) ++ rest) := by
    by_cases he : e < 0 <;> simp [he, readSign]
  unfold readPower
  rw [hsign]
  simp only [readDigits_text _ h]
  obtain ⟨d, ds, hd⟩ := List.exists_cons_of_ne_nil (digits_ne_nil e.natAbs)
  have hvalue := value_digits e.natAbs
  rw [hd] at hvalue ⊢
  simp only [hvalue, decide_eq_true_eq, Option.some.injEq, Prod.mk.injEq, and_true]
  split_ifs <;> omega

/-- An exponent is read back, and that there is none. -/
theorem readExponent_text (e : Option Int) (h : NumeralEnds rest) :
    readExponent ((e.map Numeral.exponentText).getD [] ++ rest) = some (e, rest) := by
  cases e with
  | none =>
    cases rest with
    | nil => rfl
    | cons c cs =>
      obtain ⟨-, -, he, hE⟩ := h c rfl
      simp [readExponent, he, hE]
  | some e =>
    have hpower := readPower_text e h.noDigit
    simp only [Option.map_some, Option.getD_some, Numeral.exponentText, List.cons_append] at hpower ⊢
    simp [readExponent, hpower]

/-- The three parts of a numeral are read one behind the other. -/
theorem readUnsigned_text (n : Numeral) (h : NumeralEnds rest) :
    readUnsigned n.negative (text (digits n.whole) ++ (fractionText n.fraction ++
      ((n.exponent.map Numeral.exponentText).getD [] ++ rest))) = some (n, rest) := by
  -- behind the fraction there is an exponent or the rest, behind the whole part also a point
  have hexponent : ∀ c ∈ ((n.exponent.map Numeral.exponentText).getD [] ++ rest).head?,
      digitOf? c = none ∧ c ≠ '.' := by
    intro c hc
    cases he : n.exponent with
    | none =>
      rw [he] at hc
      exact ⟨(h c hc).1, (h c hc).2.1⟩
    | some e =>
      rw [he] at hc
      obtain rfl : 'e' = c := by simpa [Numeral.exponentText] using hc
      decide
  have hfraction : NoDigit (fractionText n.fraction ++
      ((n.exponent.map Numeral.exponentText).getD [] ++ rest)) := by
    intro c hc
    cases hf : n.fraction with
    | nil =>
      rw [hf] at hc
      exact (hexponent c hc).1
    | cons d ds =>
      rw [hf] at hc
      obtain rfl : '.' = c := by simpa [fractionText] using hc
      decide
  simp only [readUnsigned, readWhole_digits _ hfraction,
    readFraction_text _ (fun c hc => (hexponent c hc).1) (fun c hc => (hexponent c hc).2),
    readExponent_text _ h, Option.bind_eq_bind, Option.bind_some]

/-- **Numerals.** A numeral that was written is read back. -/
theorem readNumeral_text (n : Numeral) (h : NumeralEnds rest) :
    readNumeral (n.text ++ rest) = some (n, rest) := by
  have hunsigned := readUnsigned_text n h
  have htext : n.text ++ rest = (if n.negative then ['-'] else []) ++ (text (digits n.whole) ++
      (fractionText n.fraction ++ ((n.exponent.map Numeral.exponentText).getD [] ++ rest))) := by
    simp only [Numeral.text, fractionText, List.append_assoc]
  rw [htext]
  cases hn : n.negative with
  | true =>
    rw [hn] at hunsigned
    simpa [readNumeral] using hunsigned
  | false =>
    rw [hn] at hunsigned
    obtain ⟨d, ds, hd⟩ := List.exists_cons_of_ne_nil (digits_ne_nil n.whole)
    have hminus : digitChar d ≠ '-' := (by decide : ∀ d : Digit, digitChar d ≠ '-') d
    rw [hd] at hunsigned ⊢
    simpa [readNumeral, text, hminus] using hunsigned

end Numeral

/-! ## Strings -/

/-- A hexadecimal digit is read back from its character. -/
theorem hexValue?_hexChar {n : Nat} (h : n < 16) : hexValue? (hexChar n) = some n := by
  interval_cases n <;> decide

/-- A piece that stands for a character: the character, or the number of a control character. -/
def Piece.Spells (p : Piece) (c : Char) : Prop :=
  p = .char c ∨ p = .unit c.toNat ∧ c.toNat < 0x20

/-- A piece stands for its character whatever comes behind it: a control character is never taken
for half of a pair. -/
theorem Piece.Spells.spell?_cons {p : Piece} {c : Char} (h : p.Spells c) (ps : List Piece) :
    spell? (p :: ps) = (spell? ps).map (c :: ·) := by
  rcases h with rfl | ⟨rfl, hc⟩
  · rfl
  · -- the number of a control character is no half of a surrogate pair
    have hhigh : isHighHalf c.toNat = false := by
      simp only [isHighHalf, Bool.and_eq_false_iff, decide_eq_false_iff_not]
      omega
    have hlow : isLowHalf c.toNat = false := by
      simp only [isLowHalf, Bool.and_eq_false_iff, decide_eq_false_iff_not]
      omega
    rcases ps with - | ⟨⟨d⟩ | ⟨u⟩, ps⟩ <;> simp [spell?, hhigh, hlow]

/-- A character that needs no escape is read as it is. -/
theorem readPieces_char {c : Char} (hquote : c ≠ '"') (hslash : c ≠ '\\') (hc : ¬ c.toNat < 0x20)
    (cs : List Char) :
    readPieces (c :: cs) = (readPieces cs).map fun (ps, rest) => (.char c :: ps, rest) := by
  rw [readPieces.eq_def]
  split
  · next h => cases h
  · next h => exact absurd (List.cons.inj h).1 hquote
  · next h => exact absurd (List.cons.inj h).1 hslash
  · next h => exact absurd (List.cons.inj h).1 hslash
  · next h =>
    obtain ⟨rfl, rfl⟩ := List.cons.inj h
    rw [if_neg hc]
    cases readPieces cs <;> rfl

/-- A short escape is read as the character it stands for. -/
theorem readPieces_short {c e : Char} (h : shortEscape? e = some c) (cs : List Char) :
    readPieces ('\\' :: e :: cs) = (readPieces cs).map fun (ps, rest) => (.char c :: ps, rest) := by
  have hu : e ≠ 'u' := by
    rintro rfl
    cases h
  rw [readPieces, h]
  · cases readPieces cs <;> rfl
  · exact fun _ _ _ _ _ he => absurd he hu

/-- Reading an escaped character gives a piece that stands for it. -/
theorem readPieces_escape (c : Char) :
    ∃ p : Piece, p.Spells c ∧ ∀ cs,
      readPieces (escape c ++ cs) = (readPieces cs).map fun (ps, rest) => (p :: ps, rest) := by
  unfold escape
  split
  case h_8 hquote hslash _ _ _ _ _ =>
    split_ifs with hc
    · refine ⟨.unit c.toNat, .inr ⟨rfl, hc⟩, fun cs => ?_⟩
      have hlead := hexValue?_hexChar (n := c.toNat / 16) (by omega)
      have hlast := hexValue?_hexChar (n := c.toNat % 16) (by omega)
      have hunit : hexUnit? '0' '0' (hexChar (c.toNat / 16)) (hexChar (c.toNat % 16)) =
          some c.toNat := by
        have hzero : hexValue? '0' = some 0 := by decide
        simp only [hexUnit?, hzero, hlead, hlast, Option.bind_eq_bind, Option.bind_some]
        congr 1
        omega
      simp [readPieces, hunit, Option.map_eq_bind]
    · exact ⟨.char c, .inl rfl, readPieces_char hquote hslash hc⟩
  all_goals exact ⟨.char _, .inl rfl, readPieces_short rfl⟩

/-- The escaped characters of a string are read up to its quote. -/
theorem readPieces_flatMap_escape (cs rest : List Char) :
    ∃ ps, readPieces (cs.flatMap escape ++ '"' :: rest) = some (ps, rest) ∧ spell? ps = some cs := by
  induction cs with
  | nil => exact ⟨[], rfl, rfl⟩
  | cons c cs ih =>
    obtain ⟨ps, hread, hspell⟩ := ih
    obtain ⟨p, hp, hescape⟩ := readPieces_escape c
    refine ⟨p :: ps, ?_, ?_⟩
    · rw [List.flatMap_cons, List.append_assoc, hescape, hread]
      rfl
    · rw [hp.spell?_cons, hspell]
      rfl

/-- **Strings.** A string literal is read back. -/
theorem readString_quote (s : String) (rest : List Char) :
    readString (s.toList.flatMap escape ++ '"' :: rest) = some (some s, rest) := by
  obtain ⟨ps, hread, hspell⟩ := readPieces_flatMap_escape s.toList rest
  simp [readString, hread, hspell]

end Json

end Seahorse
