/-
Strings, read back.

A string is written between quotes, character by character, and read back the same way: each
character is written as itself or as an escape, and either is read as one step. The reader is
bounded by the length of the whole text, which is never less than the number of characters.
-/
import Agenda.Json.Reader
import Agenda.Json.Writer
import Agenda.Proofs.Result
import Mathlib.Tactic.SplitIfs

set_option autoImplicit false

namespace Agenda.Json.Reader

/-! ## Single characters -/

/-- Hexadecimal digits are read back. -/
theorem hexDigit?_hexDigit {n : Nat} (h : n < 16) : hexDigit? (Writer.hexDigit n) = some n := by
  revert n
  decide

/-- The three ways in which a character is written: behind a backslash, as a code, or as itself. -/
theorem escape_cases (c : Char) :
    (∃ e, Writer.escape c = ['\\', e] ∧ e ≠ 'u' ∧ plainEscape? e = some c) ∨
      (c.toNat < 0x20 ∧ Writer.escape c =
        ['\\', 'u', '0', '0', Writer.hexDigit (c.toNat / 16), Writer.hexDigit (c.toNat % 16)]) ∨
      Writer.escape c = [c] ∧ c ≠ '"' ∧ c ≠ '\\' ∧ ¬ c.toNat < 0x20 := by
  unfold Writer.escape
  -- seven characters have an escape of their own, and the other controls are written as codes
  split_ifs with hquote hbackslash hb ht hn hf hr hcontrol
  · exact .inl ⟨_, rfl, by decide, by rw [hquote]; rfl⟩
  · exact .inl ⟨_, rfl, by decide, by rw [hbackslash]; rfl⟩
  · exact .inl ⟨_, rfl, by decide, by rw [hb]; rfl⟩
  · exact .inl ⟨_, rfl, by decide, by rw [ht]; rfl⟩
  · exact .inl ⟨_, rfl, by decide, by rw [hn]; rfl⟩
  · exact .inl ⟨_, rfl, by decide, by rw [hf]; rfl⟩
  · exact .inl ⟨_, rfl, by decide, by rw [hr]; rfl⟩
  · exact .inr (.inl ⟨hcontrol, rfl⟩)
  · exact .inr (.inr ⟨rfl, hquote, hbackslash, hcontrol⟩)

/-- The code of a control character is read back. -/
theorem unicodeEscape_control {c : Char} (h : c.toNat < 0x20) (rest : List Char) :
    unicodeEscape ('0' :: '0' :: Writer.hexDigit (c.toNat / 16) ::
      Writer.hexDigit (c.toNat % 16) :: rest) = .ok (c, rest) := by
  have hhigh := hexDigit?_hexDigit (show c.toNat / 16 < 16 by omega)
  have hlow := hexDigit?_hexDigit (show c.toNat % 16 < 16 by omega)
  have hzero : hexDigit? '0' = some 0 := rfl
  have hvalue : c.toNat / 16 * 16 + c.toNat % 16 = c.toNat := by omega
  have hdigits : fourHexDigits? ('0' :: '0' :: Writer.hexDigit (c.toNat / 16) ::
      Writer.hexDigit (c.toNat % 16) :: rest) = some (c.toNat, rest) := by
    simp [fourHexDigits?, hzero, hhigh, hlow, hvalue]
  have hunit : codeUnit ('0' :: '0' :: Writer.hexDigit (c.toNat / 16) ::
      Writer.hexDigit (c.toNat % 16) :: rest) = .ok (c.toNat, rest) := by
    rw [codeUnit, hdigits]
  rw [unicodeEscape, hunit, Result.ok_bind]
  simp only
  rw [if_neg (by omega), if_pos (by omega), Char.ofNat_toNat]

/-- What is written for a character is read in one step. -/
theorem stringWithin_escape (fuel : Nat) (c : Char) (rest : List Char) :
    stringWithin (fuel + 1) (Writer.escape c ++ rest) =
      (stringWithin fuel rest >>= fun p => .ok (c :: p.1, p.2)) := by
  rcases escape_cases c with ⟨e, hwritten, hplain, he⟩ | ⟨hcontrol, hwritten⟩ |
    ⟨hwritten, hquote, hbackslash, hcontrol⟩
  · have hescape : escape (e :: rest) = .ok (c, rest) := by
      rw [escape]
      simp only [if_neg hplain, he]
    rw [hwritten, List.cons_append, List.cons_append, List.nil_append, stringWithin,
      if_neg (by decide), if_pos rfl, hescape, Result.ok_bind]
  · have hescape := unicodeEscape_control hcontrol rest
    rw [hwritten]
    simp only [List.cons_append, List.nil_append]
    rw [stringWithin, if_neg (by decide), if_pos rfl, escape]
    simp only [if_pos, hescape, Result.ok_bind]
  · rw [hwritten, List.singleton_append, stringWithin, if_neg hquote, if_neg hbackslash,
      if_neg hcontrol]

/-! ## Whole strings -/

/-- The characters between the quotes are read back. -/
theorem stringWithin_flatMap {cs : List Char} {fuel : Nat} (hfuel : cs.length < fuel)
    (rest : List Char) :
    stringWithin fuel (cs.flatMap Writer.escape ++ '"' :: rest) = .ok (cs, rest) := by
  induction cs generalizing fuel with
  | nil =>
      obtain ⟨fuel, rfl⟩ := Nat.exists_eq_add_of_lt hfuel
      rfl
  | cons c cs ih =>
      obtain ⟨fuel, rfl⟩ : ∃ k, fuel = k + 1 := ⟨fuel - 1, by omega⟩
      rw [List.length_cons] at hfuel
      rw [List.flatMap_cons, List.append_assoc, stringWithin_escape, ih (by omega),
        Result.ok_bind]

/-- No character is written with fewer characters than one. -/
theorem length_le_flatMap_escape (cs : List Char) :
    cs.length ≤ (cs.flatMap Writer.escape).length := by
  induction cs with
  | nil => simp
  | cons c cs ih =>
      have hone : 0 < (Writer.escape c).length := by
        rcases escape_cases c with ⟨e, h, -⟩ | ⟨-, h⟩ | ⟨h, -⟩ <;> rw [h] <;> simp
      rw [List.flatMap_cons, List.length_append, List.length_cons]
      omega

/-- A string is read back after its opening quote. -/
theorem stringBody_quote {s : String} {size : Nat} (hsize : (Writer.quote s).length ≤ size)
    {rest cs : List Char} (hcs : Writer.quote s ++ rest = '"' :: cs) :
    stringBody size cs = .ok (s, rest) := by
  have hlength := length_le_flatMap_escape s.toList
  rw [Writer.quote, List.length_cons, List.length_append] at hsize
  rw [Writer.quote, List.cons_append, List.append_assoc, List.singleton_append] at hcs
  obtain ⟨-, rfl⟩ := List.cons.inj hcs
  rw [stringBody, stringWithin_flatMap (by omega), Result.ok_bind]
  simp only [String.ofList_toList]

end Agenda.Json.Reader
