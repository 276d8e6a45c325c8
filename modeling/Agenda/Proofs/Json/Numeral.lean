/-
Numerals as they stand in a text.

A number of JSON has a whole part without superfluous zeros, perhaps a fraction and perhaps an
exponent. The reader of numbers takes just such a numeral, and would read it alone as the same
number; this goes step by step, as each step of the reader takes its own part of the numeral. The
number may be another one than the numeral says, since doubles are rounded. An integer never is: it
is read from digits that all fit, and then it is what they say.
-/
import Agenda.Proofs.Json.Accepted
import Agenda.Proofs.Number.Text

set_option autoImplicit false

namespace Agenda.Json.Reader

open Numeral

/-! ## The grammar of numerals -/

/-- Digits, without a zero before others. A zero that stands alone is one of them, so the first
digit says whether more may follow. -/
structure IsWhole (cs : List Char) : Prop where
  ne_nil : cs ≠ []
  digits : Digits cs
  leading : cs.head? = some '0' → cs = ['0']

/-- Digits behind a point, or nothing. -/
inductive IsFraction : List Char → Prop where
  | none : IsFraction []
  | some {digits : List Char} (hne : digits ≠ []) (h : Digits digits) : IsFraction ('.' :: digits)

/-- Digits behind a sign, if there is one. -/
inductive IsSigned : List Char → Prop where
  | plain {digits : List Char} (hne : digits ≠ []) (h : Digits digits) : IsSigned digits
  | plus {digits : List Char} (hne : digits ≠ []) (h : Digits digits) : IsSigned ('+' :: digits)
  | minus {digits : List Char} (hne : digits ≠ []) (h : Digits digits) : IsSigned ('-' :: digits)

/-- Signed digits behind an `e` of either case, or nothing. -/
inductive IsPower : List Char → Prop where
  | none : IsPower []
  | lower {cs : List Char} (h : IsSigned cs) : IsPower ('e' :: cs)
  | upper {cs : List Char} (h : IsSigned cs) : IsPower ('E' :: cs)

/-- What may follow the whole part. -/
def IsRest (cs : List Char) : Prop := ∃ f p, cs = f ++ p ∧ IsFraction f ∧ IsPower p

/-- A numeral without a sign. -/
def IsUnsigned (cs : List Char) : Prop := ∃ w rest, cs = w ++ rest ∧ IsWhole w ∧ IsRest rest

/-! ## What each step takes -/

/-- A reader takes texts of some kind, and it reads such a text alone as it does where it stands.
Both halves are needed: the first gives the grammar, and the second lets a number be named by its
numeral, wherever that was found. -/
def Takes {α : Type} (r : Reader α) (P : List Char → Prop) : Prop :=
  ∀ cs a rest, r cs = .ok (a, rest) → ∃ s, cs = s ++ rest ∧ P s ∧ r s = .ok (a, [])

variable {negative : Bool} {significand dropped : Nat} {start : Int}

/-- Scaling takes nothing, for the digits have been taken by then. -/
theorem takes_scaled : Takes (scaled negative significand start) (· = []) := by
  intro cs n rest h
  rw [scaled] at h
  split at h
  · rename_i x hx
    obtain ⟨rfl, rfl⟩ := Prod.mk.inj (Except.ok.inj h)
    exact ⟨[], rfl, rfl, by rw [scaled, hx]⟩
  · cases h

/-- Digits of an exponent that fit were taken up to the first character that is none. -/
theorem exponentDigits_some {n e : Nat} {cs rest : List Char}
    (h : exponentDigits n cs = (some e, rest)) :
    ∃ ds, cs = ds ++ rest ∧ Digits ds ∧ exponentDigits n ds = (some e, []) := by
  induction cs generalizing n with
  | nil =>
      obtain ⟨hn, rfl⟩ := Prod.mk.inj h
      exact ⟨[], rfl, by simp [Digits], by rw [exponentDigits, hn]⟩
  | cons c cs ih =>
      rw [exponentDigits] at h
      cases hc : digit? c with
      | none =>
          rw [hc] at h
          obtain ⟨hn, rfl⟩ := Prod.mk.inj h
          exact ⟨[], rfl, by simp [Digits], by rw [exponentDigits, hn]⟩
      | some d =>
          rw [hc] at h
          simp only at h
          split at h
          · rename_i hlt
            obtain ⟨ds, rfl, hds, hread⟩ := ih h
            refine ⟨c :: ds, rfl, List.forall_mem_cons.2 ⟨by rw [isDigit, hc]; rfl, hds⟩, ?_⟩
            rw [exponentDigits, hc]
            simp only [if_pos hlt]
            exact hread
          · cases (Prod.mk.inj h).1

/-- Digits of an exponent that do not fit were taken up to the one that was too much. The others are
still there, whatever they are, and are skipped by the caller. -/
theorem exponentDigits_none {n : Nat} {cs rest : List Char}
    (h : exponentDigits n cs = (none, rest)) :
    ∃ ds, cs = ds ++ rest ∧ Digits ds ∧ ∀ more, exponentDigits n (ds ++ more) = (none, more) := by
  induction cs generalizing n with
  | nil => cases (Prod.mk.inj h).1
  | cons c cs ih =>
      rw [exponentDigits] at h
      cases hc : digit? c with
      | none =>
          rw [hc] at h
          cases (Prod.mk.inj h).1
      | some d =>
          have hdigit : isDigit c = true := by rw [isDigit, hc]; rfl
          rw [hc] at h
          simp only at h
          split at h
          · rename_i hlt
            obtain ⟨ds, rfl, hds, hread⟩ := ih h
            refine ⟨c :: ds, rfl, List.forall_mem_cons.2 ⟨hdigit, hds⟩, fun more => ?_⟩
            rw [List.cons_append, exponentDigits, hc]
            simp only [if_pos hlt]
            exact hread more
          · rename_i hlt
            obtain ⟨-, rfl⟩ := Prod.mk.inj h
            refine ⟨[c], rfl, List.forall_mem_cons.2 ⟨hdigit, by simp⟩, fun more => ?_⟩
            rw [List.singleton_append, exponentDigits, hc]
            simp only [if_neg hlt]

/-- A sign is taken if there is one. Whether it was a plus is forgotten, so the sign is kept beside
the answer. -/
theorem exists_exponentSign (cs : List Char) : ∃ sign,
    cs = sign ++ (exponentSign cs).2 ∧ (sign = [] ∨ sign = ['+'] ∨ sign = ['-']) ∧
      ∀ c more, isDigit c = true →
        exponentSign (sign ++ c :: more) = ((exponentSign cs).1, c :: more) := by
  rw [exponentSign.eq_def]
  split
  · exact ⟨['+'], rfl, .inr (.inl rfl), fun _ _ _ => rfl⟩
  · exact ⟨['-'], rfl, .inr (.inr rfl), fun _ _ _ => rfl⟩
  · refine ⟨[], rfl, .inl rfl, fun c more hc => exponentSign_of_ne more ?_ ?_⟩
    · rintro rfl
      exact absurd hc (by decide)
    · rintro rfl
      exact absurd hc (by decide)

theorem isSigned_append {sign digits : List Char}
    (hsign : sign = [] ∨ sign = ['+'] ∨ sign = ['-']) (hne : digits ≠ []) (h : Digits digits) :
    IsSigned (sign ++ digits) := by
  rcases hsign with rfl | rfl | rfl
  · exact .plain hne h
  · exact .plus hne h
  · exact .minus hne h

/-- An exponent may be given up because it is out of bounds, but even then all its digits are taken.
So the text that is taken is an exponent in either case. -/
theorem takes_exponent : Takes (exponent negative significand start) IsSigned := by
  intro cs n rest h
  obtain ⟨sign, hcs, hsign, hagain⟩ := exists_exponentSign cs
  obtain ⟨below, left, heq⟩ : ∃ below left, exponentSign cs = (below, left) := ⟨_, _, rfl⟩
  rw [heq] at hcs hagain
  rw [exponent, heq] at h
  simp only at h hcs hagain
  subst hcs
  split at h
  · cases h
  · rename_i c more
    cases hc : digit? c with
    | none =>
        rw [hc] at h
        cases h
    | some d =>
        have hdigit : isDigit c = true := by rw [isDigit, hc]; rfl
        rw [hc] at h
        simp only at h
        split at h
        · rename_i e left heq
          obtain ⟨ds, rfl, hds, hread⟩ := exponentDigits_some heq
          obtain ⟨s, hs, rfl, hscaled⟩ := takes_scaled _ _ _ h
          rw [List.nil_append] at hs
          subst hs
          refine ⟨sign ++ c :: ds, by simp, isSigned_append hsign (List.cons_ne_nil c ds)
            (List.forall_mem_cons.2 ⟨hdigit, hds⟩), ?_⟩
          rw [exponent, hagain c ds hdigit]
          simp only [hc, hread]
          exact hscaled
        · rename_i left heq
          obtain ⟨ds, rfl, hds, hread⟩ := exponentDigits_none heq
          split at h
          · cases h
          · rename_i hzero
            obtain ⟨rfl, rfl⟩ := Prod.mk.inj (Except.ok.inj h)
            -- out of bounds, all the digits that are left are taken
            have htaken : Digits (left.takeWhile isDigit) := fun c hc => List.mem_takeWhile_imp hc
            refine ⟨sign ++ c :: (ds ++ left.takeWhile isDigit), ?_,
              isSigned_append hsign (List.cons_ne_nil c _)
                (List.forall_mem_cons.2 ⟨hdigit, hds.append htaken⟩), ?_⟩
            · simp
            · rw [exponent, hagain c _ hdigit]
              simp only [hc, hread, if_neg hzero]
              rw [List.dropWhile_eq_nil_iff.2 htaken]

/-- No exponent is an empty text, so a number without one is taken by the same rule. -/
theorem takes_exponentOrEnd : Takes (exponentOrEnd negative significand start) IsPower := by
  intro cs n rest h
  rw [exponentOrEnd.eq_def] at h
  split at h
  · obtain ⟨s, rfl, hs, hread⟩ := takes_exponent _ _ _ h
    exact ⟨'e' :: s, rfl, .lower hs, hread⟩
  · obtain ⟨s, rfl, hs, hread⟩ := takes_exponent _ _ _ h
    exact ⟨'E' :: s, rfl, .upper hs, hread⟩
  · obtain ⟨s, hs, rfl, hread⟩ := takes_scaled _ _ _ h
    exact ⟨[], hs, .none, hread⟩

/-- Where nothing is taken, no exponent stood. An integer is told from a double by this. -/
theorem head?_ne_of_exponentOrEnd {cs : List Char} {n : Number}
    (h : exponentOrEnd negative significand start cs = .ok (n, cs)) :
    cs.head? ≠ some 'e' ∧ cs.head? ≠ some 'E' := by
  have hshorter : ∀ c more, exponent negative significand start more ≠ .ok (n, c :: more) := by
    intro c more hread
    obtain ⟨s, hs, -, -⟩ := takes_exponent _ _ _ hread
    have := congrArg List.length hs
    rw [List.length_append, List.length_cons] at this
    omega
  constructor
  · intro he
    obtain ⟨more, rfl⟩ := List.head?_eq_some_iff.1 he
    exact hshorter 'e' more h
  · intro hE
    obtain ⟨more, rfl⟩ := List.head?_eq_some_iff.1 hE
    exact hshorter 'E' more h

/-- What may follow digits begins with none. -/
theorem IsPower.ends {cs : List Char} (h : IsPower cs) : Ends cs := by
  cases h with
  | none => exact ends_nil
  | lower _ => exact ends_cons rfl
  | upper _ => exact ends_cons rfl

theorem IsRest.ends {cs : List Char} (h : IsRest cs) : Ends cs := by
  obtain ⟨f, p, rfl, hf, hp⟩ := h
  cases hf with
  | none => exact hp.ends
  | some _ _ => exact ends_cons rfl

/-- Behind a point at least one digit is taken, and an exponent may follow. -/
theorem takes_fraction : Takes (fraction negative significand start)
    fun s => ∃ digits p, s = digits ++ p ∧ digits ≠ [] ∧ Digits digits ∧ IsPower p := by
  intro cs n rest h
  rw [fraction] at h
  have htaken : Digits (cs.takeWhile isDigit) := fun c hc => List.mem_takeWhile_imp hc
  by_cases hempty : (cs.takeWhile isDigit).isEmpty = true
  · simp only [if_pos hempty] at h
    split at h
    · cases h
    · cases h
  · simp only [if_neg hempty] at h
    obtain ⟨p, hp, hpower, hread⟩ := takes_exponentOrEnd _ _ _ h
    refine ⟨cs.takeWhile isDigit ++ p, ?_, ⟨_, p, rfl, ?_, htaken, hpower⟩, ?_⟩
    · rw [List.append_assoc, ← hp, List.takeWhile_append_dropWhile]
    · rwa [ne_eq, ← List.isEmpty_iff]
    · rw [fraction, takeWhile_append htaken hpower.ends, dropWhile_append htaken hpower.ends]
      simp only [if_neg hempty]
      exact hread

/-- What may follow the whole part is a fraction, an exponent, both or nothing, and the reader has a
branch for each. -/
theorem takes_afterWhole : Takes (afterWhole negative significand dropped) IsRest := by
  intro cs n rest h
  by_cases hpoint : cs.head? = some '.'
  · obtain ⟨more, rfl⟩ := List.head?_eq_some_iff.1 hpoint
    obtain ⟨_, rfl, ⟨digits, p, rfl, hne, hdigits, hpower⟩, hread⟩ := takes_fraction _ _ _ h
    exact ⟨'.' :: (digits ++ p), rfl, ⟨'.' :: digits, p, rfl, .some hne hdigits, hpower⟩, hread⟩
  · rw [afterWhole_of_ne hpoint] at h
    split at h
    -- an integer ends where its digits do
    · rename_i hends
      split at h
      · rename_i m hm
        obtain ⟨rfl, rfl⟩ := Prod.mk.inj (Except.ok.inj h)
        refine ⟨[], rfl, ⟨[], [], rfl, .none, .none⟩, ?_⟩
        rw [afterWhole_of_ne (by simp), if_pos ⟨hends.1, by simp, by simp⟩, hm]
      · cases h
    · rename_i hends
      obtain ⟨p, rfl, hpower, hread⟩ := takes_exponentOrEnd _ _ _ h
      refine ⟨p, rfl, ⟨[], p, rfl, .none, hpower⟩, ?_⟩
      have hpoint' : p.head? ≠ some '.' := by
        cases hpower <;> simp
      rw [afterWhole_of_ne hpoint', if_neg ?_, hread]
      rintro ⟨hdropped, he, hE⟩
      cases hpower with
      | none => exact hends ⟨hdropped, head?_ne_of_exponentOrEnd h⟩
      | lower _ => exact he rfl
      | upper _ => exact hE rfl

theorem digit?_eq_zero_iff {c : Char} : digit? c = some 0 ↔ c = '0' := by
  constructor
  · intro h
    have hdigit : isDigit c = true := by rw [isDigit, h]; rfl
    rw [digit?_eq_some hdigit, Option.some.injEq] at h
    have hle : '0'.toNat ≤ c.toNat := (isDigit_iff.1 hdigit).1
    exact Char.toNat_inj.1 (by omega)
  · rintro rfl
    rfl

/-- The reader of numbers takes a numeral. A leading zero must stand alone before it goes on, which
is how the two shapes of a whole part come about. -/
theorem takes_number : Takes (number negative) IsUnsigned := by
  intro cs n rest h
  cases cs with
  | nil => cases h
  | cons c cs =>
      rw [number] at h
      cases hc : digit? c with
      | none =>
          rw [hc] at h
          cases h
      | some d =>
          have hdigit : isDigit c = true := by rw [isDigit, hc]; rfl
          cases d with
          | zero =>
              -- a leading zero stands alone
              rw [hc] at h
              simp only at h
              split at h
              · cases h
              · obtain rfl := digit?_eq_zero_iff.1 hc
                obtain ⟨s, rfl, hs, hread⟩ := takes_afterWhole _ _ _ h
                have hhead : ¬ (s.head?.bind digit?).isSome = true := by
                  cases hsc : s.head? with
                  | none => simp
                  | some a => simp [digit?_eq_none (hs.ends a hsc)]
                refine ⟨'0' :: s, rfl, ⟨['0'], s, rfl, ?_, hs⟩, ?_⟩
                · exact ⟨by simp, by simp [Digits, isDigit, digit?], fun _ => rfl⟩
                · rw [number, hc]
                  simp only [if_neg hhead]
                  exact hread
          | succ d =>
              have hne : c ≠ '0' := fun heq => by
                rw [digit?_eq_zero_iff.2 heq] at hc
                cases hc
              rw [hc] at h
              simp only at h
              obtain ⟨s, hs, hrest, hread⟩ := takes_afterWhole _ _ _ h
              have htaken : Digits ((c :: cs).takeWhile isDigit) := fun c hc =>
                List.mem_takeWhile_imp hc
              have hfirst : (c :: cs).takeWhile isDigit = c :: cs.takeWhile isDigit := by
                rw [List.takeWhile_cons, if_pos hdigit]
              refine ⟨(c :: cs).takeWhile isDigit ++ s, ?_, ⟨_, s, rfl, ?_, hrest⟩, ?_⟩
              · rw [List.append_assoc, ← hs, List.takeWhile_append_dropWhile]
              · refine ⟨by simp [hfirst], htaken, fun hzero => ?_⟩
                rw [hfirst, List.head?_cons, Option.some.injEq] at hzero
                exact absurd hzero hne
              · have hwhole := takeWhile_append htaken hrest.ends
                have hleft := dropWhile_append htaken hrest.ends
                rw [hfirst, List.cons_append] at hwhole hleft ⊢
                rw [number, hc]
                simp only [hwhole, hleft]
                rw [← hfirst]
                exact hread

/-! ## Integers -/

/-- Digits that all fit are gathered to their value. That none was dropped is said by the zero
beside it. -/
theorem valueFrom_of_gather {n m : Nat} {cs : List Char} (h : gather n cs = (m, 0)) :
    valueFrom n cs = m := by
  induction cs generalizing n with
  | nil => exact (Prod.mk.inj h).1
  | cons c cs ih =>
      rw [gather] at h
      split at h
      · rw [valueFrom, List.foldl_cons]
        exact ih h
      · cases (Prod.mk.inj h).2

/-- What has been scaled is a double, even if its value is whole. -/
theorem scaled_yields : Yields (scaled negative significand start) fun n => ∃ x, n = .float x := by
  intro cs n rest h
  rw [scaled] at h
  split at h
  · obtain ⟨rfl, -⟩ := Prod.mk.inj (Except.ok.inj h)
    exact ⟨_, rfl⟩
  · cases h

/-- An exponent makes a double of a number, and so do digits that do not fit. -/
theorem exponentOrEnd_yields : Yields (exponentOrEnd negative significand start)
    fun n => ∃ x, n = .float x := by
  have hexponent : Yields (exponent negative significand start) fun n => ∃ x, n = .float x := by
    intro cs n rest h
    rw [exponent] at h
    simp only at h
    split at h
    · cases h
    · split at h
      · cases h
      · split at h
        · exact scaled_yields _ _ _ h
        · split at h
          · cases h
          · obtain ⟨rfl, -⟩ := Prod.mk.inj (Except.ok.inj h)
            exact ⟨_, rfl⟩
  intro cs n rest h
  rw [exponentOrEnd.eq_def] at h
  split at h
  · exact hexponent _ _ _ h
  · exact hexponent _ _ _ h
  · exact scaled_yields _ _ _ h

/-- So does a fraction. -/
theorem fraction_yields : Yields (fraction negative significand start)
    fun n => ∃ x, n = .float x := by
  intro cs n rest h
  rw [fraction] at h
  simp only at h
  split at h
  · split at h
    · cases h
    · cases h
  · exact exponentOrEnd_yields _ _ _ h

variable {k : ℤ} {hk : Number.least ≤ k ∧ k ≤ Number.greatest}

/-- Digits are read as an integer only if they all fit, and then nothing follows them. -/
theorem afterWhole_eq_integer {cs rest : List Char}
    (h : afterWhole negative significand dropped cs = .ok (.integer k hk, rest)) :
    dropped = 0 ∧ cs = rest ∧ Number.ofDigits? negative significand = some (.integer k hk) := by
  by_cases hpoint : cs.head? = some '.'
  · obtain ⟨more, rfl⟩ := List.head?_eq_some_iff.1 hpoint
    obtain ⟨x, hx⟩ := fraction_yields _ _ _ h
    cases hx
  · rw [afterWhole_of_ne hpoint] at h
    split at h
    · rename_i hends
      split at h
      · rename_i m hm
        obtain ⟨rfl, rfl⟩ := Prod.mk.inj (Except.ok.inj h)
        exact ⟨hends.1, rfl, hm⟩
      · cases h
    · obtain ⟨x, hx⟩ := exponentOrEnd_yields _ _ _ h
      cases hx

/-- An integer has the sign and the digits that it was made of. -/
theorem eq_of_ofDigits? {n : Nat} (h : Number.ofDigits? negative n = some (.integer k hk)) :
    (if negative then -(n : ℤ) else n) = k := by
  rw [Number.ofDigits?] at h
  by_cases hfits : (Number.least ≤ (if negative then -(n : ℤ) else n) ∧
      (if negative then -(n : ℤ) else n) ≤ Number.greatest) ∧ ¬ (negative ∧ n = 0)
  · simp only [dif_pos hfits] at h
    injection h with h
    injection h
  · simp only [dif_neg hfits] at h
    obtain ⟨x, -, hx⟩ := Option.map_eq_some_iff.1 h
    cases hx

/-- An integer is what the digits say that it is read from. There is no such statement for doubles,
which are rounded. -/
theorem eq_of_number_eq_integer {cs : List Char}
    (h : number negative cs = .ok (.integer k hk, [])) :
    (if negative then -magnitude cs else magnitude cs) = k := by
  -- it is read from digits and from nothing else
  have hdigits : ∃ n : Nat, magnitude cs = n ∧
      Number.ofDigits? negative n = some (.integer k hk) := by
    cases cs with
    | nil => cases h
    | cons c cs =>
        rw [number] at h
        cases hc : digit? c with
        | none =>
            rw [hc] at h
            cases h
        | some d =>
            rw [hc] at h
            cases d with
            | zero =>
                simp only at h
                split at h
                · cases h
                · obtain ⟨-, rfl, hn⟩ := afterWhole_eq_integer h
                  obtain rfl := digit?_eq_zero_iff.1 hc
                  exact ⟨0, magnitude_digits (digits_replicate 1), hn⟩
            | succ d =>
                simp only at h
                obtain ⟨hdropped, hleft, hn⟩ := afterWhole_eq_integer h
                obtain ⟨m, left, hgather⟩ : ∃ m left,
                    gather 0 ((c :: cs).takeWhile isDigit) = (m, left) := ⟨_, _, rfl⟩
                rw [hgather] at hdropped hn
                simp only at hdropped hn
                subst hdropped
                have hall : Digits (c :: cs) := List.dropWhile_eq_nil_iff.1 hleft
                rw [List.takeWhile_eq_self_iff.2 hall] at hgather
                refine ⟨m, ?_, hn⟩
                rw [magnitude_digits hall, ← valueFrom_of_gather hgather]
                rfl
  obtain ⟨n, hn, hread⟩ := hdigits
  rw [hn, ← eq_of_ofDigits? hread]
  split <;> simp

/-! ## Whole numerals -/

/-- A numeral as JSON has it, with a minus sign or without. -/
def IsNumeral (s : List Char) : Prop := ∃ cs, IsUnsigned cs ∧ (s = cs ∨ s = '-' :: cs)

/-- What a reader makes of a text, if nothing of it is left over. This turns a reader into a
function of the text alone. -/
def whole? {α : Type} (r : Reader α) (cs : List Char) : Option α :=
  match r cs with
  | .ok (a, []) => some a
  | _ => none

theorem whole?_eq_some_iff {α : Type} {r : Reader α} {cs : List Char} {a : α} :
    whole? r cs = some a ↔ r cs = .ok (a, []) := by
  rw [whole?]
  split
  · rename_i heq
    simp [heq]
  · rename_i hne
    simp only [reduceCtorEq, false_iff]
    exact hne a

/-- The number that a numeral is read as. The minus sign is taken by the reader of values and not by
that of numbers, so it is treated here. -/
def numeral? : List Char → Option Number
  | '-' :: cs => whole? (number true) cs
  | cs => whole? (number false) cs

/-- Without a minus sign a text is left to the reader of numbers. -/
theorem numeral?_of_ne {s : List Char} (h : ∀ cs, s ≠ '-' :: cs) :
    numeral? s = whole? (number false) s := numeral?.eq_2 s h

theorem numeral?_minus {cs : List Char} {n : Number} (h : number true cs = .ok (n, [])) :
    numeral? ('-' :: cs) = some n := whole?_eq_some_iff.2 h

/-- A numeral without a sign does not begin with one, so that the two cases exclude each other. -/
theorem IsUnsigned.ne_minus {cs : List Char} (h : IsUnsigned cs) (more : List Char) :
    cs ≠ '-' :: more := by
  obtain ⟨w, rest, rfl, hw, -⟩ := h
  obtain ⟨c, digits, rfl⟩ := List.exists_cons_of_ne_nil hw.ne_nil
  rintro heq
  obtain ⟨rfl, -⟩ := List.cons.inj heq
  exact absurd (hw.digits _ List.mem_cons_self) (by decide)

theorem numeral?_plain {cs : List Char} (hcs : IsUnsigned cs) {n : Number}
    (h : number false cs = .ok (n, [])) : numeral? cs = some n := by
  rw [numeral?_of_ne hcs.ne_minus]
  exact whole?_eq_some_iff.2 h

/-- Nothing but numerals is read as one. The converse fails: a numeral may be out of range. -/
theorem isNumeral_of_numeral? {s : List Char} {n : Number} (h : numeral? s = some n) :
    IsNumeral s := by
  rw [numeral?.eq_def] at h
  split at h
  · obtain ⟨cs, rfl, hcs, -⟩ := takes_number _ _ _ (whole?_eq_some_iff.1 h)
    exact ⟨cs, hcs, .inr (by rw [List.append_nil])⟩
  · obtain ⟨cs, rfl, hcs, -⟩ := takes_number _ _ _ (whole?_eq_some_iff.1 h)
    exact ⟨cs, hcs, .inl (by rw [List.append_nil])⟩

/-- An integer is what its numeral says, in exact arithmetic. So numerals of different value that
are read as one number are not read as integers. -/
theorem exact_of_numeral?_eq_integer {s : List Char} (h : numeral? s = some (.integer k hk)) :
    exact s = k := by
  rw [numeral?.eq_def] at h
  split at h
  · exact eq_of_number_eq_integer (whole?_eq_some_iff.1 h)
  · rename_i hne
    have hexact : exact s = magnitude s := by
      rw [exact]
      exact hne
    rw [hexact]
    exact eq_of_number_eq_integer (whole?_eq_some_iff.1 h)

theorem isFirst_ne_minus {c : Char} (h : isFirst c = true) : c ≠ '-' := by
  rintro rfl
  cases h

/-- What is written for a number is read as its rereading. This joins numerals as they stand in a
text to numbers that were written. -/
theorem numeral?_text (n : Number) : numeral? n.text = n.reread? := by
  obtain ⟨negative, cs, htext, hcs⟩ := exists_text n
  have hwhole : whole? (number negative) cs = n.reread? := by
    rw [Number.reread?_of_text htext hcs, whole?]
    cases hread : number negative cs with
    | error stop => rfl
    | ok p =>
        obtain ⟨m, left⟩ := p
        obtain rfl := hcs.exhausts m left hread
        rfl
  rw [htext, ← hwhole]
  cases negative with
  | true => rfl
  | false =>
      obtain ⟨c, more, rfl, hc⟩ := hcs.exists_cons
      apply numeral?_of_ne
      rintro more' heq
      exact isFirst_ne_minus hc (List.cons.inj heq).1

/-- The digits of an integer that fits 64 bits are read as the integer. -/
theorem numeral?_integer (k : Int) (hk : Number.least ≤ k ∧ k ≤ Number.greatest) :
    numeral? (Numeral.ofInt k) = some (.integer k hk) :=
  (numeral?_text (.integer k hk)).trans (Number.readsBack_iff.1 (Number.readsBack_integer k hk))

/-! ## The characters of numerals -/

/-- A text has no other characters than those of numerals. It bounds a numeral from outside: where a
text goes on otherwise, the numeral has ended. -/
def Numeric (cs : List Char) : Prop := ∀ c ∈ cs, isNumeric c = true

theorem Numeric.cons {c : Char} {cs : List Char} (hc : isNumeric c = true) (h : Numeric cs) :
    Numeric (c :: cs) := List.forall_mem_cons.2 ⟨hc, h⟩

theorem Numeric.append {cs ds : List Char} (h : Numeric cs) (h' : Numeric ds) :
    Numeric (cs ++ ds) := List.forall_mem_append.2 ⟨h, h'⟩

theorem numeric_of_digits {cs : List Char} (h : Digits cs) : Numeric cs := fun c hc => by
  simp [isNumeric, h c hc]

theorem IsFraction.numeric {cs : List Char} (h : IsFraction cs) : Numeric cs := by
  cases h with
  | none => exact fun c hc => absurd hc List.not_mem_nil
  | some _ h => exact .cons (by decide) (numeric_of_digits h)

theorem IsSigned.numeric {cs : List Char} (h : IsSigned cs) : Numeric cs := by
  cases h with
  | plain _ h => exact numeric_of_digits h
  | plus _ h => exact .cons (by decide) (numeric_of_digits h)
  | minus _ h => exact .cons (by decide) (numeric_of_digits h)

theorem IsPower.numeric {cs : List Char} (h : IsPower cs) : Numeric cs := by
  cases h with
  | none => exact fun c hc => absurd hc List.not_mem_nil
  | lower h => exact .cons (by decide) h.numeric
  | upper h => exact .cons (by decide) h.numeric

theorem IsUnsigned.numeric {cs : List Char} (h : IsUnsigned cs) : Numeric cs := by
  obtain ⟨w, rest, rfl, hw, f, p, rfl, hf, hp⟩ := h
  exact (numeric_of_digits hw.digits).append (hf.numeric.append hp.numeric)

theorem IsNumeral.numeric {s : List Char} (h : IsNumeral s) : Numeric s := by
  obtain ⟨cs, hcs, rfl | rfl⟩ := h
  · exact hcs.numeric
  · exact .cons (by decide) hcs.numeric

theorem IsNumeral.ne_nil {s : List Char} (h : IsNumeral s) : s ≠ [] := by
  rintro rfl
  obtain ⟨cs, ⟨w, rest, rfl, hw, -⟩, heq | heq⟩ := h
  · exact hw.ne_nil (List.append_eq_nil_iff.1 heq.symm).1
  · cases heq

/-- A numeral is all that can be taken of these characters, so it is found again in the text in
which it stands. -/
theorem takeWhile_isNumeric {cs rest : List Char} (hcs : Numeric cs) (hrest : Stops rest) :
    (cs ++ rest).takeWhile isNumeric = cs := by
  induction cs with
  | nil =>
      cases rest with
      | nil => rfl
      | cons c rest => rw [List.nil_append, List.takeWhile_cons, hrest c rfl, if_neg (by simp)]
  | cons c cs ih =>
      obtain ⟨hc, hcs⟩ := List.forall_mem_cons.1 hcs
      rw [List.cons_append, List.takeWhile_cons, hc, if_pos rfl, ih hcs]

/-- A text begins with one numeral only, if what is behind it goes on otherwise. Without that it
might begin with several, as every beginning of its digits is one. -/
theorem IsNumeral.unique {s u rest left : List Char} (hs : IsNumeral s) (hu : IsNumeral u)
    (hrest : Stops rest) (hleft : Stops left) (h : s ++ rest = u ++ left) :
    s = u ∧ rest = left := by
  have hsu : s = u := by
    rw [← takeWhile_isNumeric hs.numeric hrest, h, takeWhile_isNumeric hu.numeric hleft]
  subst hsu
  exact ⟨rfl, List.append_cancel_left h⟩

end Agenda.Json.Reader
