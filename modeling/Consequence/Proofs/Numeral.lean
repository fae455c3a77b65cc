import Mathlib.Data.Nat.Digits.Defs
import Consequence.Text.Numeral

/-!
# What is a numeral

A text is read as a number just if it spells the number in decimal digits, with or without a plus
sign in front, and the number fits in 64 bits. The reader tells digits by their characters and adds
them up from the left; `Spells` starts from the digits, and knows neither.
-/

namespace Consequence.Text

def digit (d : Fin 10) : Char :=
  Nat.digitChar d

/-- The text spells the number. -/
def Spells (text : List Char) (n : Nat) : Prop :=
  ∃ digits : List (Fin 10), digits ≠ [] ∧
    (text = digits.map digit ∨ text = '+' :: digits.map digit) ∧
    n = Nat.ofDigits 10 (digits.map Fin.val).reverse ∧ n < 2 ^ 64

theorem isDigit_digit (d : Fin 10) : (digit d).isDigit = true := by
  rw [digit, Nat.isDigit_digitChar, decide_eq_true d.isLt]

theorem toNat_digit (d : Fin 10) : (digit d).toNat - '0'.toNat = d := by
  rw [digit, Nat.toNat_digitChar_of_lt_ten d.isLt]
  exact Nat.add_sub_cancel_left ..

theorem exists_digit_eq {c : Char} (h : c.isDigit = true) : ∃ d, digit d = c := by
  obtain ⟨hzero, hnine⟩ := Char.isDigit_iff_toNat.1 h
  have hlt : c.toNat - '0'.toNat < 10 := by
    have hten : '9'.toNat = '0'.toNat + 9 := rfl
    omega
  refine ⟨⟨c.toNat - '0'.toNat, hlt⟩, Char.toNat_inj.1 ?_⟩
  rw [digit, Nat.toNat_digitChar_of_lt_ten hlt]
  exact Nat.add_sub_cancel' hzero

theorem exists_map_digit_eq {chars : List Char} (h : chars.all Char.isDigit = true) :
    ∃ digits : List (Fin 10), digits.map digit = chars := by
  induction chars with
  | nil => exact ⟨[], rfl⟩
  | cons c chars ih =>
      rw [List.all_cons, Bool.and_eq_true] at h
      obtain ⟨d, hd⟩ := exists_digit_eq h.1
      obtain ⟨digits, hdigits⟩ := ih h.2
      exact ⟨d :: digits, by rw [List.map_cons, hd, hdigits]⟩

theorem digitsValue_map_digit (digits : List (Fin 10)) :
    digitsValue (digits.map digit) = Nat.ofDigits 10 (digits.map Fin.val).reverse := by
  rw [digitsValue, Nat.ofDigits_eq_foldr, List.foldr_reverse, List.foldl_map, List.foldl_map]
  congr
  funext value d
  rw [toNat_digit, Nat.add_comm]
  rfl

theorem readDigits_eq_some_iff {chars : List Char} {n : Nat} :
    readDigits chars = some n ↔ ∃ digits : List (Fin 10), digits ≠ [] ∧
      chars = digits.map digit ∧ n = Nat.ofDigits 10 (digits.map Fin.val).reverse ∧
      n < 2 ^ 64 := by
  unfold readDigits
  constructor
  · intro h
    obtain ⟨⟨hne, hall, hlt⟩, hn⟩ := Option.ite_none_right_eq_some.1 h
    obtain ⟨digits, rfl⟩ := exists_map_digit_eq hall
    rw [digitsValue_map_digit] at hn hlt
    have hdigits : digits ≠ [] := fun hnil => hne (by rw [hnil, List.map_nil])
    exact ⟨digits, hdigits, rfl, (Option.some.inj hn).symm, Option.some.inj hn ▸ hlt⟩
  · rintro ⟨digits, hne, rfl, rfl, hlt⟩
    have hall : (digits.map digit).all Char.isDigit = true := by
      rw [List.all_map, List.all_eq_true]
      exact fun d _ => isDigit_digit d
    rw [digitsValue_map_digit, if_pos ⟨by simpa using hne, hall, hlt⟩]

theorem plus_cons_ne_map_digit (digits : List (Fin 10)) (rest : List Char) :
    '+' :: rest ≠ digits.map digit := by
  intro h
  obtain ⟨d, -, hd⟩ := List.mem_map.1 (h ▸ List.mem_cons_self : '+' ∈ digits.map digit)
  have hplus := isDigit_digit d
  rw [hd] at hplus
  exact absurd hplus (by decide)

theorem readNumeral_eq_some_iff {text : List Char} {n : Nat} :
    readNumeral text = some n ↔ Spells text n := by
  unfold readNumeral Spells
  split
  · next rest =>
      rw [readDigits_eq_some_iff]
      refine exists_congr fun digits => and_congr_right fun _ => and_congr_left fun _ => ?_
      rw [or_iff_right (plus_cons_ne_map_digit digits rest), List.cons.injEq]
      exact (and_iff_right rfl).symm
  · next hplus =>
      rw [readDigits_eq_some_iff]
      refine exists_congr fun digits => and_congr_right fun _ => and_congr_left fun _ => ?_
      exact (or_iff_left fun h => hplus _ h).symm

/-- Leading zeros are free; a second sign, or a sign alone, is no numeral. -/
example : readNumeral "+007".toList = some 7 ∧ readNumeral "++7".toList = none ∧
    readNumeral "+".toList = none := by decide

end Consequence.Text
