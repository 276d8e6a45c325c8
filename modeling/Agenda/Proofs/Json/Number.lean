/-
Numbers, read where they stand.

A written number is read in the middle of a text, so reading it must not depend on what follows.
Each step of the reader of numbers stops at the first character that no number has, and this is
proved step by step: with such a character behind it, a text is read as it is read alone. What is
written for a number has the shape that the reader expects, digits with perhaps a fraction and
perhaps an exponent, and so nothing of it is left over.

Whether the number that is read is the one that was written is another matter: the reader scales in
steps, each of which rounds. So a number has a rereading, which may be another number.
-/
import Agenda.Json.Reader
import Agenda.Proofs.Result
import Agenda.Proofs.Text.Numeral

set_option autoImplicit false

namespace Agenda.Json.Reader

open Numeral

/-! ## Where a number ends -/

/-- The characters that numbers are written with. -/
def isNumeric (c : Char) : Bool :=
  isDigit c || c = '.' || c = 'e' || c = 'E' || c = '+' || c = '-'

/-- No character of a number comes next. In a text that was written this holds behind every number:
a comma, a bracket, a blank or nothing follows. -/
def Stops (rest : List Char) : Prop := ∀ c ∈ rest.head?, isNumeric c = false

theorem stops_nil : Stops [] := by simp [Stops]

theorem stops_cons {c : Char} {rest : List Char} (h : isNumeric c = false) : Stops (c :: rest) := by
  intro a ha
  rw [List.head?_cons, Option.mem_some_iff] at ha
  exact ha ▸ h

/-- What is no character of a number is none of its parts. The steps of the reader look for one part
each, so each of them takes one of these. -/
theorem isNumeric_eq_false {c : Char} (h : isNumeric c = false) :
    isDigit c = false ∧ c ≠ '.' ∧ c ≠ 'e' ∧ c ≠ 'E' ∧ c ≠ '+' ∧ c ≠ '-' := by
  simpa [isNumeric, and_assoc] using h

/-- Blanks end a number, the line breaks of a layout among them. -/
theorem isNumeric_of_isSpace {c : Char} (h : isSpace c = true) : isNumeric c = false := by
  have hcases : c = ' ' ∨ c = '\t' ∨ c = '\n' ∨ c = '\r' := by
    simpa [isSpace, or_assoc] using h
  rcases hcases with rfl | rfl | rfl | rfl <;> rfl

theorem digit?_eq_none {c : Char} (h : isDigit c = false) : digit? c = none := by
  rwa [isDigit, Option.isSome_eq_false_iff, Option.isNone_iff_eq_none] at h

/-- In particular no digit comes next. -/
theorem Stops.ends {rest : List Char} (h : Stops rest) : Ends rest :=
  fun c hc => (isNumeric_eq_false (h c hc)).1

/-! ## Reading on -/

/-- A reader whose result does not depend on what stands behind a number. Only results are compared;
the place of an error counts what is left of the text, and so does depend on it. -/
def Local {α : Type} (r : Reader α) : Prop :=
  ∀ cs rest, Stops rest →
    (r (cs ++ rest)).toOption = (r cs).toOption.map fun p => (p.1, p.2 ++ rest)

/-- Only a character behind the number could make a difference, so the end of the text need not be
looked at again. -/
theorem local_of_cons {α : Type} {r : Reader α}
    (h : ∀ cs c rest, isNumeric c = false →
      (r (cs ++ c :: rest)).toOption = (r cs).toOption.map fun p => (p.1, p.2 ++ c :: rest)) :
    Local r := by
  intro cs rest hrest
  cases rest with
  | nil => simp
  | cons c rest => exact h cs c rest (hrest c rfl)

/-- Whether a part of a number comes next is not changed by what stops the number. -/
theorem head?_append_iff {c d : Char} (hc : isNumeric c = false) (hd : isNumeric d = true)
    (cs rest : List Char) : (cs ++ c :: rest).head? = some d ↔ cs.head? = some d := by
  cases cs with
  | nil =>
      have hne : c ≠ d := by
        rintro rfl
        rw [hc] at hd
        cases hd
      simp [hne]
  | cons a cs => simp

/-! ### Exponents -/

/-- Scaling looks at no more of the text. -/
theorem local_scaled (negative : Bool) (significand : Nat) (start : Int) :
    Local (scaled negative significand start) := by
  intro cs rest _
  rw [scaled, scaled]
  split <;> rfl

/-- The digits of an exponent are gathered up to what stops them, or until their number is out of
bounds; both happen before the rest is reached. -/
theorem exponentDigits_append (n : Nat) (cs : List Char) {rest : List Char} (hrest : Ends rest) :
    exponentDigits n (cs ++ rest) =
      ((exponentDigits n cs).1, (exponentDigits n cs).2 ++ rest) := by
  induction cs generalizing n with
  | nil =>
      cases rest with
      | nil => rfl
      | cons c rest =>
          simp only [List.nil_append, exponentDigits, digit?_eq_none (hrest c rfl)]
  | cons c cs ih =>
      rw [List.cons_append, exponentDigits, exponentDigits]
      cases digit? c with
      | none => rfl
      | some d =>
          by_cases hd : n * 10 + d < exponentBound
          · simp only [if_pos hd]
            exact ih _
          · simp only [if_neg hd]

theorem exponentSign_of_ne {c : Char} (cs : List Char) (hplus : c ≠ '+') (hminus : c ≠ '-') :
    exponentSign (c :: cs) = (false, c :: cs) := by
  rw [exponentSign]
  · rintro _ ⟨⟩
    exact hplus rfl
  · rintro _ ⟨⟩
    exact hminus rfl

/-- A sign is looked for at the first character only. -/
theorem exponentSign_append (cs : List Char) {c : Char} (hc : isNumeric c = false)
    (rest : List Char) :
    exponentSign (cs ++ c :: rest) = ((exponentSign cs).1, (exponentSign cs).2 ++ c :: rest) := by
  obtain ⟨-, -, -, -, hplus, hminus⟩ := isNumeric_eq_false hc
  cases cs with
  | nil =>
      rw [List.nil_append, exponentSign_of_ne rest hplus hminus]
      rfl
  | cons a cs =>
      by_cases haplus : a = '+'
      · rw [haplus]
        rfl
      · by_cases haminus : a = '-'
        · rw [haminus]
          rfl
        · rw [List.cons_append, exponentSign_of_ne _ haplus haminus,
            exponentSign_of_ne _ haplus haminus]
          rfl

/-- An exponent is read to its end. Out of bounds it is not gathered but skipped, which must come to
the same place. -/
theorem local_exponent (negative : Bool) (significand : Nat) (start : Int) :
    Local (exponent negative significand start) := by
  refine local_of_cons fun cs c rest hc => ?_
  have hrest : Stops (c :: rest) := stops_cons hc
  rw [exponent, exponent, exponentSign_append cs hc]
  obtain ⟨below, cs⟩ := exponentSign cs
  cases cs with
  | nil =>
      simp only [List.nil_append, digit?_eq_none (hrest.ends c rfl)]
      rfl
  | cons a cs =>
      simp only [List.cons_append]
      cases digit? a with
      | none => rfl
      | some d =>
          simp only [exponentDigits_append d cs hrest.ends]
          obtain ⟨e, left⟩ := exponentDigits d cs
          cases e with
          | some e => exact local_scaled _ _ _ _ _ hrest
          | none =>
              -- out of bounds, the digits that are left are skipped, and no others
              simp only
              split
              · rfl
              · rw [dropWhile_append_ends left hrest.ends]
                rfl

theorem exponentOrEnd_of_ne {negative : Bool} {significand : Nat} {start : Int} {cs : List Char}
    (he : cs.head? ≠ some 'e') (hE : cs.head? ≠ some 'E') :
    exponentOrEnd negative significand start cs = scaled negative significand start cs := by
  rw [exponentOrEnd]
  · rintro _ rfl
    exact he rfl
  · rintro _ rfl
    exact hE rfl

/-- Either an exponent begins here or the number ends, and what stops it is not the mark of an
exponent. -/
theorem local_exponentOrEnd (negative : Bool) (significand : Nat) (start : Int) :
    Local (exponentOrEnd negative significand start) := by
  refine local_of_cons fun cs c rest hc => ?_
  have hrest : Stops (c :: rest) := stops_cons hc
  by_cases he : cs.head? = some 'e'
  · obtain ⟨cs, rfl⟩ := List.head?_eq_some_iff.1 he
    exact local_exponent negative significand start cs _ hrest
  · by_cases hE : cs.head? = some 'E'
    · obtain ⟨cs, rfl⟩ := List.head?_eq_some_iff.1 hE
      exact local_exponent negative significand start cs _ hrest
    · rw [exponentOrEnd_of_ne he hE, exponentOrEnd_of_ne]
      · exact local_scaled negative significand start cs _ hrest
      · rwa [ne_eq, head?_append_iff hc rfl]
      · rwa [ne_eq, head?_append_iff hc rfl]

/-! ### Fractions and whole parts -/

/-- The digits of a fraction are all taken before anything else is looked at. -/
theorem local_fraction (negative : Bool) (significand : Nat) (start : Int) :
    Local (fraction negative significand start) := by
  intro cs rest hrest
  rw [fraction, fraction, takeWhile_append_ends cs hrest.ends, dropWhile_append_ends cs hrest.ends]
  by_cases hempty : (cs.takeWhile isDigit).isEmpty = true
  · simp only [if_pos hempty]
    cases cs.dropWhile isDigit ++ rest <;> cases cs.dropWhile isDigit <;> rfl
  · simp only [if_neg hempty]
    exact local_exponentOrEnd _ _ _ _ _ hrest

/-- Without a point an integer ends here, or an exponent follows. A numeral is an integer only if no
digit of it was dropped. -/
theorem afterWhole_of_ne {negative : Bool} {significand dropped : Nat} {cs : List Char}
    (hpoint : cs.head? ≠ some '.') :
    afterWhole negative significand dropped cs =
      if dropped = 0 ∧ cs.head? ≠ some 'e' ∧ cs.head? ≠ some 'E' then
        match Number.ofDigits? negative significand with
        | some n => .ok (n, cs)
        | none => stopBefore .numberOutOfRange cs
      else exponentOrEnd negative significand dropped cs := by
  rw [afterWhole.eq_def]
  split
  · exact absurd rfl hpoint
  · rfl

/-- Behind the whole part three things may come, and each of them was seen to stop in time. -/
theorem local_afterWhole (negative : Bool) (significand dropped : Nat) :
    Local (afterWhole negative significand dropped) := by
  refine local_of_cons fun cs c rest hc => ?_
  have hrest : Stops (c :: rest) := stops_cons hc
  by_cases hpoint : cs.head? = some '.'
  · obtain ⟨cs, rfl⟩ := List.head?_eq_some_iff.1 hpoint
    exact local_fraction negative significand dropped cs _ hrest
  · have hpoint' : (cs ++ c :: rest).head? ≠ some '.' := by
      rwa [ne_eq, head?_append_iff hc rfl]
    rw [afterWhole_of_ne hpoint, afterWhole_of_ne hpoint']
    simp only [ne_eq, head?_append_iff hc (show isNumeric 'e' = true from rfl),
      head?_append_iff hc (show isNumeric 'E' = true from rfl)]
    split
    · cases Number.ofDigits? negative significand <;> rfl
    · exact local_exponentOrEnd _ _ _ _ _ hrest

/-- The reader of numbers does not look behind them. So a number may be read alone, and what is read
is what would be read anywhere in a text. -/
theorem local_number (negative : Bool) : Local (number negative) := by
  refine local_of_cons fun cs c rest hc => ?_
  have hrest : Stops (c :: rest) := stops_cons hc
  have hdigit : digit? c = none := digit?_eq_none (hrest.ends c rfl)
  cases cs with
  | nil =>
      simp only [List.nil_append, number, hdigit]
      rfl
  | cons a cs =>
      simp only [List.cons_append, number]
      cases digit? a with
      | none => rfl
      | some d =>
          cases d with
          | zero =>
              -- behind a leading zero the reader looks one character ahead, for a digit
              have hhead : (cs ++ c :: rest).head?.bind digit? = cs.head?.bind digit? := by
                cases cs with
                | nil => simp [hdigit]
                | cons b cs => rfl
              simp only [hhead]
              split
              · rfl
              · exact local_afterWhole _ _ _ _ _ hrest
          | succ d =>
              simp only [← List.cons_append, takeWhile_append_ends (a :: cs) hrest.ends,
                dropWhile_append_ends (a :: cs) hrest.ends]
              exact local_afterWhole _ _ _ _ _ hrest

/-! ## What is written for a number -/

/-- Nothing but digits. -/
def Digits (cs : List Char) : Prop := ∀ c ∈ cs, isDigit c = true

/-- Nothing, or an exponent with its sign. -/
inductive IsExponent : List Char → Prop where
  | none : IsExponent []
  | below {digits : List Char} (h : Digits digits) : IsExponent ('e' :: '-' :: digits)
  | above {digits : List Char} (h : Digits digits) : IsExponent ('e' :: '+' :: digits)

/-- What follows the whole part: a fraction or not, an exponent or not. -/
inductive IsTail : List Char → Prop where
  | whole {cs : List Char} (h : IsExponent cs) : IsTail cs
  | fraction {digits cs : List Char} (hdigits : Digits digits) (h : IsExponent cs) :
      IsTail ('.' :: (digits ++ cs))

/-- Digits and what may follow them, something at least. The writer's numbers are all of this shape,
and it is wide enough to need no case for each way of writing a double. -/
structure IsMagnitude (cs : List Char) : Prop where
  split : ∃ digits tail, cs = digits ++ tail ∧ Digits digits ∧ IsTail tail
  ne_nil : cs ≠ []

theorem IsExponent.ends {cs : List Char} (h : IsExponent cs) : Ends cs := by
  cases h with
  | none => exact ends_nil
  | below _ => exact ends_cons rfl
  | above _ => exact ends_cons rfl

/-- What follows the whole part does not begin with a digit, so the whole part is cut off where it
was put together. -/
theorem IsTail.ends {cs : List Char} (h : IsTail cs) : Ends cs := by
  cases h with
  | whole h => exact h.ends
  | fraction _ _ => exact ends_cons rfl

/-- A reader that leaves nothing of a text, if it reads it at all. Whether it reads the text is
another question: a double that was written may be out of the range that can be read. -/
def Exhausts (r : Reader Number) (cs : List Char) : Prop :=
  ∀ n left, r cs = .ok (n, left) → left = []

theorem exhausts_scaled (negative : Bool) (significand : Nat) (start : Int) :
    Exhausts (scaled negative significand start) [] := by
  intro n left h
  rw [scaled] at h
  split at h
  · cases h
    rfl
  · cases h

/-- Digits alone are gathered to the last one, or what is left of them are digits. -/
theorem exponentDigits_of_digits (n : Nat) {cs : List Char} (h : Digits cs) :
    (∃ e, exponentDigits n cs = (some e, [])) ∨
      ∃ left, exponentDigits n cs = (none, left) ∧ Digits left := by
  induction cs generalizing n with
  | nil => exact .inl ⟨n, rfl⟩
  | cons c cs ih =>
      have hcs : Digits cs := fun a ha => h a (List.mem_cons_of_mem _ ha)
      rw [exponentDigits, digit?_eq_some (h c List.mem_cons_self)]
      by_cases hbound : n * 10 + (c.toNat - '0'.toNat) < exponentBound
      · simp only [if_pos hbound]
        exact ih _ hcs
      · simp only [if_neg hbound]
        exact .inr ⟨cs, rfl, hcs⟩

/-- Behind its sign an exponent of digits is read to its end, in bounds or out of them. -/
theorem exhausts_exponent {negative : Bool} {significand : Nat} {start : Int} {below : Bool}
    {cs digits : List Char} (hsign : exponentSign cs = (below, digits)) (h : Digits digits) :
    Exhausts (exponent negative significand start) cs := by
  intro n left hread
  rw [exponent, hsign] at hread
  cases digits with
  | nil => cases hread
  | cons c digits =>
      have hdigits : Digits digits := fun a ha => h a (List.mem_cons_of_mem _ ha)
      simp only [digit?_eq_some (h c List.mem_cons_self)] at hread
      rcases exponentDigits_of_digits (c.toNat - '0'.toNat) hdigits with ⟨e, he⟩ | ⟨more, hmore, hd⟩
      · rw [he] at hread
        exact exhausts_scaled _ _ _ n left hread
      · rw [hmore] at hread
        simp only at hread
        split at hread
        · cases hread
        · obtain ⟨-, rfl⟩ := Prod.mk.inj (Except.ok.inj hread)
          exact List.dropWhile_eq_nil_iff.2 hd

theorem IsExponent.exhausts {negative : Bool} {significand : Nat} {start : Int} {cs : List Char}
    (h : IsExponent cs) : Exhausts (exponentOrEnd negative significand start) cs := by
  cases h with
  | none => exact exhausts_scaled negative significand start
  | below h =>
      have hsign : ∀ digits, exponentSign ('-' :: digits) = (true, digits) := fun _ => rfl
      exact exhausts_exponent (hsign _) h
  | above h =>
      have hsign : ∀ digits, exponentSign ('+' :: digits) = (false, digits) := fun _ => rfl
      exact exhausts_exponent (hsign _) h

/-- What may follow the whole part is read to its end. The cases are those of the shape, and each is
taken by the step of the reader that was made for it. -/
theorem IsTail.exhausts {negative : Bool} {significand dropped : Nat} {cs : List Char}
    (h : IsTail cs) : Exhausts (afterWhole negative significand dropped) cs := by
  intro n left hread
  cases h with
  | whole h =>
      have hpoint : cs.head? ≠ some '.' := by
        cases h <;> simp
      rw [afterWhole_of_ne hpoint] at hread
      split at hread
      · rename_i hend
        -- the branch of an integer without an exponent, so nothing follows the digits
        have hcs : cs = [] := by
          cases h with
          | none => rfl
          | below _ => exact absurd rfl hend.2.1
          | above _ => exact absurd rfl hend.2.1
        split at hread
        · obtain ⟨-, rfl⟩ := Prod.mk.inj (Except.ok.inj hread)
          exact hcs
        · cases hread
      · exact h.exhausts n left hread
  | fraction hdigits h =>
      rw [afterWhole, Reader.fraction, takeWhile_append hdigits h.ends,
        dropWhile_append hdigits h.ends] at hread
      split at hread
      · split at hread <;> cases hread
      · exact h.exhausts n left hread

/-- What is written for a number is read to its end. -/
theorem IsMagnitude.exhausts {negative : Bool} {cs : List Char} (h : IsMagnitude cs) :
    Exhausts (number negative) cs := by
  intro n left hread
  obtain ⟨digits, tail, rfl, hdigits, htail⟩ := h.split
  cases digits with
  | nil =>
      rw [List.nil_append] at hread
      cases tail with
      | nil => cases hread
      | cons c tail =>
          simp only [number, digit?_eq_none (htail.ends c rfl)] at hread
          cases hread
  | cons c digits =>
      have hmore : Digits digits := fun a ha => hdigits a (List.mem_cons_of_mem _ ha)
      simp only [List.cons_append, number, digit?_eq_some (hdigits c List.mem_cons_self)] at hread
      split at hread
      · cases hread
      · split at hread
        · cases hread
        · rename_i hone
          -- no digit follows a leading zero, so the zero is all there is
          have hnone : digits = [] := by
            cases digits with
            | nil => rfl
            | cons a digits =>
                rw [List.cons_append, List.head?_cons, Option.bind_some,
                  digit?_eq_some (hmore a List.mem_cons_self)] at hone
                exact absurd rfl hone
          rw [hnone] at hread
          exact htail.exhausts n left hread
      · rw [← List.cons_append, dropWhile_append hdigits htail.ends] at hread
        exact htail.exhausts n left hread

/-- What is written for a number begins with a digit, or with the mark of a fraction or of an
exponent. The last two never happen, but the shape allows them and excluding them would take a look
at the digits of doubles. -/
def isFirst (c : Char) : Bool := isDigit c || c = '.' || c = 'e'

theorem notMem_of_isFirst {c : Char} {marks : List Char} (hc : isFirst c = true)
    (hmarks : marks.any isFirst = false) : c ∉ marks := by
  intro hmem
  exact List.any_eq_false.1 hmarks c hmem hc

theorem isSpace_of_isFirst {c : Char} (h : isFirst c = true) : isSpace c = false := by
  have hnot : c ∉ [' ', '\t', '\n', '\r'] := notMem_of_isFirst h rfl
  simpa [isSpace, and_assoc] using hnot

/-- There is a first character, and it is none that another kind of value begins with. -/
theorem IsMagnitude.exists_cons {cs : List Char} (h : IsMagnitude cs) :
    ∃ c more, cs = c :: more ∧ isFirst c = true := by
  obtain ⟨c, more, hcs⟩ := List.exists_cons_of_ne_nil h.ne_nil
  obtain ⟨digits, tail, hsplit, hdigits, htail⟩ := h.split
  refine ⟨c, more, hcs, ?_⟩
  cases digits with
  | nil =>
      rw [hcs, List.nil_append] at hsplit
      subst hsplit
      cases htail with
      | whole h => cases h <;> rfl
      | fraction _ _ => rfl
  | cons d digits =>
      rw [hcs, List.cons_append] at hsplit
      obtain ⟨rfl, -⟩ := List.cons.inj hsplit
      simp [isFirst, hdigits c List.mem_cons_self]

/-! ### The texts of numbers -/

theorem digits_ofNat (n : Nat) : Digits (ofNat n) := fun _ hc => isDigit_of_mem_ofNat hc

theorem digits_replicate (n : Nat) : Digits (List.replicate n '0') := by
  intro c hc
  rw [List.eq_of_mem_replicate hc]
  rfl

theorem digits_dropTrailingZeros {cs : List Char} (h : Digits cs) :
    Digits (dropTrailingZeros cs) := fun c hc => h c (mem_of_mem_dropTrailingZeros hc)

theorem Digits.append {as bs : List Char} (ha : Digits as) (hb : Digits bs) :
    Digits (as ++ bs) := fun c hc => (List.mem_append.1 hc).elim (ha c) (hb c)

/-- Digits alone are of the shape. -/
theorem isMagnitude_ofNat (n : Nat) : IsMagnitude (ofNat n) :=
  ⟨⟨ofNat n, [], (List.append_nil _).symm, digits_ofNat n, .whole .none⟩, ofNat_ne_nil n⟩

/-- Digits, a point and digits. -/
theorem isMagnitude_point {as bs : List Char} (ha : Digits as) (hb : Digits bs) :
    IsMagnitude (as ++ '.' :: bs) := by
  refine ⟨⟨as, '.' :: bs, rfl, ha, ?_⟩, by simp⟩
  have htail := IsTail.fraction hb .none
  rwa [List.append_nil] at htail

/-- A double that is neither very large nor very small is written with a point, with zeros before or
behind it as far as they are needed. -/
theorem isMagnitude_positional {digits : List Char} (h : Digits digits) (leading : Int) :
    IsMagnitude (Double.positional digits leading) := by
  rw [Double.positional]
  by_cases hneg : leading < 0
  · rw [if_pos hneg]
    exact isMagnitude_point (digits_replicate 1) ((digits_replicate _).append h)
  · rw [if_neg hneg]
    by_cases hshort : digits.length ≤ leading.toNat + 1
    · simp only [if_pos hshort]
      exact isMagnitude_point (h.append (digits_replicate _)) (digits_replicate 1)
    · simp only [if_neg hshort]
      exact isMagnitude_point (fun c hc => h c (List.mem_of_mem_take hc))
        fun c hc => h c (List.mem_of_mem_drop hc)

/-- An exponent is always written with its sign, also if that is a plus. -/
theorem isExponent_ofInt (n : Int) :
    IsExponent ('e' :: (if n < 0 then Numeral.ofInt n else '+' :: Numeral.ofInt n)) := by
  rw [Numeral.ofInt]
  by_cases hneg : n < 0
  · rw [if_pos hneg, if_pos hneg]
    exact .below (digits_ofNat _)
  · rw [if_neg hneg, if_neg hneg]
    exact .above (digits_ofNat _)

/-- A very large or very small double is written with an exponent, and with a point only if it has
more than one digit. -/
theorem isMagnitude_scientific {digits : List Char} (h : Digits digits) (leading : Int) :
    IsMagnitude (Double.scientific digits leading) := by
  have hexponent := isExponent_ofInt leading
  unfold Double.scientific
  match digits with
  | [] => exact ⟨⟨[], _, rfl, h, .whole hexponent⟩, by simp⟩
  | [d] => exact ⟨⟨[d], _, rfl, h, .whole hexponent⟩, by simp⟩
  | d :: e :: more =>
      have hfirst : Digits [d] := fun c hc => h c (by simp_all)
      have hmore : Digits (e :: more) := fun c hc => h c (List.mem_cons_of_mem _ hc)
      exact ⟨⟨[d], _, rfl, hfirst, .fraction hmore hexponent⟩, by simp⟩

/-- Whichever of the two ways is taken for a double, its text is of the shape. -/
theorem exists_text_double (x : Double) :
    ∃ cs, x.text = (if x.negative then ['-'] else []) ++ cs ∧ IsMagnitude cs := by
  have hsign : ∀ magnitude : List Char,
      (if x.negative then '-' :: magnitude else magnitude) =
        (if x.negative then ['-'] else []) ++ magnitude := by
    intro magnitude
    split <;> rfl
  rw [Double.text]
  refine ⟨_, hsign _, ?_⟩
  by_cases hzero : x.isZero = true
  · rw [if_pos hzero]
    exact isMagnitude_point (digits_replicate 1) (digits_replicate 1)
  · rw [if_neg hzero]
    have hdigits := digits_dropTrailingZeros (digits_ofNat x.shortest.coefficient)
    simp only
    split
    · exact isMagnitude_positional hdigits _
    · exact isMagnitude_scientific hdigits _

/-- A number is written as digits with what may follow them, perhaps behind a minus sign. -/
theorem exists_text (n : Number) :
    ∃ (negative : Bool) (cs : List Char),
      n.text = (if negative then ['-'] else []) ++ cs ∧ IsMagnitude cs := by
  cases n with
  | integer n _ =>
      rw [Number.text, Numeral.ofInt]
      by_cases hneg : n < 0
      · exact ⟨true, _, by rw [if_pos hneg]; rfl, isMagnitude_ofNat _⟩
      · exact ⟨false, _, by rw [if_neg hneg]; rfl, isMagnitude_ofNat _⟩
  | float x => exact ⟨x.negative, exists_text_double x⟩

/-! ## Rereading -/

/-- Where no blank stands, none is skipped. -/
theorem skipSpace_of_ne {c : Char} (cs : List Char) (h : isSpace c = false) :
    skipSpace (c :: cs) = c :: cs := by
  rw [skipSpace, List.dropWhile_cons, h, if_neg (by simp)]

variable {size : Nat} {item : Option (Reader Json)}

/-- A value that begins with none of the marks is a number or nothing. The reader of values decides
by the first character, so this leaves one branch of it. -/
theorem valueOver_of_notMem {c : Char} (cs : List Char) (hspace : isSpace c = false)
    (hmark : c ∉ ['n', 't', 'f', '-', '"', '[', '{']) :
    valueOver size item (c :: cs) =
      if isDigit c then number false (c :: cs) >>= fun p => .ok (.number p.1, p.2)
      else stopAt .expectedValue (c :: cs) := by
  rw [valueOver, skipSpace_of_ne cs hspace]
  split
  · rename_i heq
    cases heq
  -- the branches of the marks, none of which is `c`
  all_goals try (rename_i heq; obtain ⟨rfl, -⟩ := List.cons.inj heq; simp at hmark; done)
  rename_i heq
  obtain ⟨rfl, rfl⟩ := List.cons.inj heq
  rfl

/-- What is written for a number is read as a number wherever it stands. -/
theorem valueOver_magnitude {negative : Bool} {cs rest : List Char} (h : IsMagnitude cs)
    (hrest : Stops rest) :
    (valueOver size item ((if negative then ['-'] else []) ++ cs ++ rest)).toOption =
      (number negative cs).toOption.map fun p => (.number p.1, rest) := by
  have hnumber : (number negative (cs ++ rest)).toOption =
      (number negative cs).toOption.map fun p => (p.1, rest) := by
    rw [local_number negative cs rest hrest]
    cases hread : number negative cs with
    | error stop => rfl
    | ok p =>
        obtain ⟨n, left⟩ := p
        rw [h.exhausts n left hread]
        rfl
  have hvalue : (number negative (cs ++ rest) >>= fun p =>
      (.ok (.number p.1, p.2) : Except Stop (Json × List Char))).toOption =
      (number negative cs).toOption.map fun p => (.number p.1, rest) := by
    rw [Result.toOption_bind, hnumber, Option.bind_map]
    cases (number negative cs).toOption <;> rfl
  cases negative with
  | true => exact hvalue
  | false =>
      obtain ⟨c, more, hcs, hc⟩ := h.exists_cons
      have hmark : c ∉ ['n', 't', 'f', '-', '"', '[', '{'] := notMem_of_isFirst hc rfl
      rw [if_neg (by simp), List.nil_append, hcs, List.cons_append,
        valueOver_of_notMem _ (isSpace_of_isFirst hc) hmark]
      by_cases hdigit : isDigit c = true
      · rw [if_pos hdigit, ← List.cons_append, ← hcs]
        exact hvalue
      · rw [if_neg hdigit]
        simp only [number, digit?_eq_none (Bool.eq_false_iff.2 hdigit)]
        rfl

end Agenda.Json.Reader

namespace Agenda

open Json.Reader

/-- What is left of reading a whole text when the places of errors are forgotten. -/
theorem Json.toOption_read (cs : List Char) :
    (Json.read (String.ofList cs)).toOption =
      (value cs.length maxDepth cs).toOption.bind fun p =>
        if skipSpace p.2 = [] then some p.1 else none := by
  rw [Json.read, String.toList_ofList]
  cases hvalue : value cs.length maxDepth cs with
  | error stop => rfl
  | ok p =>
      obtain ⟨v, left⟩ := p
      simp only [Result.ok_bind, Result.toOption_ok, Option.bind_some]
      cases hleft : skipSpace left with
      | nil => rfl
      | cons c cs => rfl

/-- The number that is read where a number is written; none if the text is out of range. It is the
number itself for all integers, and for most doubles. -/
def Number.reread? (n : Number) : Option Number :=
  match Json.read (String.ofList n.text) with
  | .ok (.number m) => some m
  | _ => none

/-- A rereading is known once the reader's result is, whatever the reason of a failure. -/
theorem Number.reread?_eq {n : Number} {o : Option Number}
    (h : (Json.read (String.ofList n.text)).toOption = o.map .number) : n.reread? = o := by
  rw [reread?]
  cases hread : Json.read (String.ofList n.text) with
  | error e =>
      rw [hread, Result.toOption_error] at h
      exact (Option.map_eq_none_iff.1 h.symm).symm
  | ok v =>
      rw [hread, Result.toOption_ok] at h
      obtain ⟨m, rfl, rfl⟩ := Option.map_eq_some_iff.1 h.symm
      rfl

/-- A number is read back from what is written for it. As far as numbers go, a document can be
written and read without a change exactly if all of them are. -/
def Number.ReadsBack (n : Number) : Prop := Json.read (String.ofList n.text) = .ok (.number n)

/-- To be read back is to be one's own rereading. This makes it decidable, since rereading
computes. -/
theorem Number.readsBack_iff {n : Number} : n.ReadsBack ↔ n.reread? = some n := by
  rw [ReadsBack, reread?]
  constructor
  · intro h
    rw [h]
  · intro h
    split at h
    · rename_i m hm
      rw [hm, Option.some.inj h]
    · cases h

instance (n : Number) : Decidable n.ReadsBack := decidable_of_iff _ Number.readsBack_iff.symm

/-- Of two doubles next to each other, the text of the upper one is read as the lower one. -/
example : (Number.float ⟨false, 8574330037796451, -53, by decide⟩).reread? =
    some (.float ⟨false, 8574330037796450, -53, by decide⟩) := by decide +kernel

section

variable {n : Number} {negative : Bool} {cs : List Char}

/-- The rereading of a number is what is read behind its sign. -/
theorem Number.reread?_of_text (htext : n.text = (if negative then ['-'] else []) ++ cs)
    (hcs : IsMagnitude cs) : n.reread? = (number negative cs).toOption.map Prod.fst := by
  refine reread?_eq ?_
  have hvalue : (value n.text.length Json.maxDepth n.text).toOption =
      (number negative cs).toOption.map fun p => (.number p.1, []) := by
    rw [htext, ← valueOver_magnitude hcs stops_nil, List.append_nil]
    rfl
  rw [Json.toOption_read, hvalue, Option.bind_map, Option.map_map]
  cases (number negative cs).toOption <;> rfl

/-- Wherever a number is written, its rereading is read. -/
theorem Json.Reader.valueOver_text {size : Nat} {item : Option (Reader Json)} (n : Number)
    {rest : List Char} (hrest : Stops rest) :
    (valueOver size item (n.text ++ rest)).toOption =
      n.reread?.map fun m => (.number m, rest) := by
  obtain ⟨negative, cs, htext, hcs⟩ := exists_text n
  rw [Number.reread?_of_text htext hcs, htext, valueOver_magnitude hcs hrest, Option.map_map]
  rfl

end

/-! ## Integers -/

namespace Json.Reader

open Numeral

/-- Digits that fit are gathered to the last one. The bound on the value bounds every step on the
way, because gathering only makes the number greater. -/
theorem gather_eq {n : Nat} {cs : List Char} (h : Digits cs)
    (hbound : Numeral.valueFrom n cs < significandBound) :
    gather n cs = (Numeral.valueFrom n cs, 0) := by
  induction cs generalizing n with
  | nil => rfl
  | cons c cs ih =>
      have hle := Numeral.le_valueFrom (n * 10 + (Numeral.digit? c).getD 0) cs
      have hlt : n * 10 + (Numeral.digit? c).getD 0 < significandBound :=
        Nat.lt_of_le_of_lt hle hbound
      rw [gather]
      simp only [if_pos hlt]
      exact ih (fun d hd => h d (List.mem_cons_of_mem _ hd)) hbound

/-- Where the text ends behind the digits, an integer is made of them. -/
theorem afterWhole_nil (negative : Bool) (n : Nat) :
    afterWhole negative n 0 [] =
      match Number.ofDigits? negative n with
      | some m => .ok (m, [])
      | none => stopBefore .numberOutOfRange [] := by
  rw [afterWhole_of_ne (by simp), if_pos (by simp)]

/-- The digits of a number that fits 64 bits are read as this number. -/
theorem number_ofNat {n : Nat} (h : n < significandBound) (negative : Bool) :
    number negative (Numeral.ofNat n) =
      match Number.ofDigits? negative n with
      | some m => .ok (m, [])
      | none => stopBefore .numberOutOfRange [] := by
  have hdigits : Digits (Numeral.ofNat n) := digits_ofNat n
  have hvalue : Numeral.valueFrom 0 (Numeral.ofNat n) = n := Numeral.value_ofNat n
  obtain ⟨c, cs, hcs⟩ := List.exists_cons_of_ne_nil (Numeral.ofNat_ne_nil n)
  have hc : isDigit c = true := hdigits c (hcs ▸ List.mem_cons_self)
  have htake : (Numeral.ofNat n).takeWhile isDigit = Numeral.ofNat n :=
    List.takeWhile_eq_self_iff.2 hdigits
  have hdrop : (Numeral.ofNat n).dropWhile isDigit = [] := List.dropWhile_eq_nil_iff.2 hdigits
  have hgather : gather 0 (Numeral.ofNat n) = (n, 0) := by
    rw [gather_eq hdigits (by rwa [hvalue]), hvalue]
  by_cases hzero : c = '0'
  · -- A zero stands alone.
    have hnil := Numeral.tail_eq_nil_of_zero (hzero ▸ hcs)
    have hn : n = 0 := by
      rw [← hvalue, hcs, hzero, hnil]
      rfl
    rw [hcs, hzero, hnil, hn]
    exact afterWhole_nil negative 0
  · have hpos : ∃ d, c.toNat - '0'.toNat = d + 1 := by
      have hle : '0'.toNat ≤ c.toNat := (isDigit_iff.1 hc).1
      have hne : c.toNat ≠ '0'.toNat := fun heq => hzero (Char.toNat_inj.1 heq)
      exact ⟨c.toNat - '0'.toNat - 1, by omega⟩
    obtain ⟨d, hd⟩ := hpos
    rw [← afterWhole_nil, hcs, number, digit?_eq_some hc, hd]
    simp only
    rw [← hcs, htake, hdrop, hgather]

end Json.Reader

/-- Digits and a sign make the integer that they stand for, if it has 64 bits. Zero with a minus is
excepted: it is read as a double. -/
theorem Number.ofDigits?_eq {negative : Bool} {k : Nat} {n : Int} (h : least ≤ n ∧ n ≤ greatest)
    (hvalue : (if negative then -(k : Int) else k) = n) (hzero : ¬ (negative ∧ k = 0)) :
    ofDigits? negative k = some (integer n h) := by
  subst hvalue
  exact dif_pos ⟨h, hzero⟩

/-- Integers are read back. Their digits are gathered exactly, so that no rounding comes in; only
doubles have another rereading than themselves. -/
theorem Number.readsBack_integer (n : Int) (h : least ≤ n ∧ n ≤ greatest) :
    (integer n h).ReadsBack := by
  have hbound : n.natAbs < significandBound := by
    have hpow : significandBound = 18446744073709551616 := rfl
    simp only [least, greatest] at h
    omega
  rw [readsBack_iff]
  by_cases hneg : n < 0
  · have htext : (integer n h).text = (if true then ['-'] else []) ++ Numeral.ofNat n.natAbs := by
      rw [text, Numeral.ofInt, if_pos hneg]
      rfl
    have hvalue : ofDigits? true n.natAbs = some (integer n h) :=
      ofDigits?_eq h (by simp only [if_true]; omega) (by simp only [true_and]; omega)
    rw [reread?_of_text htext (isMagnitude_ofNat _), number_ofNat hbound, hvalue]
    rfl
  · have htext : (integer n h).text = (if false then ['-'] else []) ++ Numeral.ofNat n.natAbs := by
      rw [text, Numeral.ofInt, if_neg hneg]
      rfl
    have hvalue : ofDigits? false n.natAbs = some (integer n h) :=
      ofDigits?_eq h (by simp only [Bool.false_eq_true, if_false]; omega) (by simp)
    rw [reread?_of_text htext (isMagnitude_ofNat _), number_ofNat hbound, hvalue]
    rfl

end Agenda
