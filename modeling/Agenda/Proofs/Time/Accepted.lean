/-
Which texts are read as instants.

Every scanner takes what its part of the grammar says, loosely, and nothing else; the form of
RFC 3339 alone leaves no room but for the sign of an offset. So the reader takes all texts that
spell a moment exactly, as the forms are documented, and of the others those that spell a moment
in range loosely. There are such texts.
-/
import Agenda.Proofs.Time.Grammar

set_option autoImplicit false

namespace Agenda

open Scan Numeral

namespace Timestamp

variable {m : Manner} {cs rest : List Char}

/-! ## What the scanners take -/

/-- Digits that are taken within a width are all there are, or as many as the width allows. Which of
the two it was is what a grammar has to know: it decides whether a digit may follow. -/
theorem exists_digits (most : Nat) (cs : List Char) :
    ∃ digits rest, cs = digits ++ rest ∧ (cs.take most).takeWhile isDigit = digits ∧
      (∀ c ∈ digits, isDigit c = true) ∧ digits.length ≤ most ∧
      (digits.length = most ∨ Ends rest) := by
  induction most generalizing cs with
  | zero => exact ⟨[], cs, rfl, rfl, by simp, Nat.le_refl 0, .inl rfl⟩
  | succ most ih =>
      cases cs with
      | nil => exact ⟨[], [], rfl, rfl, by simp, Nat.zero_le _, .inr ends_nil⟩
      | cons c cs =>
          rw [List.take_succ_cons, List.takeWhile_cons]
          by_cases hc : isDigit c = true
          · obtain ⟨digits, rest, rfl, htaken, hdigits, hle, hends⟩ := ih cs
            rw [if_pos hc, htaken]
            refine ⟨c :: digits, rest, rfl, rfl, List.forall_mem_cons.2 ⟨hc, hdigits⟩, ?_, ?_⟩
            · exact Nat.succ_le_succ hle
            · exact hends.imp_left (congrArg Nat.succ)
          · rw [if_neg hc]
            exact ⟨[], c :: cs, rfl, rfl, by simp, Nat.zero_le _,
              .inr (ends_cons (Bool.eq_false_iff.2 hc))⟩

/-- A number is taken exactly where one is spelled, and what is spelled is its value. All the
scanners below are made of this one, so what is loose about them is not the digits. -/
theorem number_eq_ok_iff {least most n : Nat} :
    number least most cs = .ok (n, rest) ↔ SpellsDigits least most n cs rest := by
  constructor
  · intro h
    -- the digits that the scanner has taken are the witnesses for the grammar
    obtain ⟨digits, behind, hcs, htaken, hdigits, hmost, hends⟩ := exists_digits most cs
    rw [number, htaken] at h
    split at h
    · cases h
    · rename_i hleast
      obtain ⟨rfl, rfl⟩ := Prod.mk.inj (Except.ok.inj h)
      rw [hcs, List.drop_left]
      exact ⟨digits, rfl, hdigits, Nat.le_of_not_lt hleast, hmost, hends, rfl⟩
  · rintro ⟨digits, rfl, hdigits, hleast, hmost, hrest, rfl⟩
    exact number_append hdigits hleast hmost hrest

/-- A bound takes nothing more and refuses what lies outside it. -/
theorem bounded_eq_ok_iff {low high n : Nat} {scan : Scanner Nat} :
    bounded low high scan cs = .ok (n, rest) ↔ scan cs = .ok (n, rest) ∧ low ≤ n ∧ n ≤ high := by
  constructor
  · intro h
    rw [bounded, Result.bind_eq_ok_iff] at h
    obtain ⟨⟨n', rest'⟩, hscan, h⟩ := h
    dsimp only at h
    split at h
    · rename_i hbounds
      obtain ⟨rfl, rfl⟩ := Prod.mk.inj (Except.ok.inj h)
      exact ⟨hscan, hbounds⟩
    · cases h
  · rintro ⟨hscan, hlow, hhigh⟩
    exact bounded_eq_ok hscan hlow hhigh

/-- A mark is taken only where it stands. -/
theorem mark_eq_ok_iff {c : Char} {u : Unit} : mark c cs = .ok (u, rest) ↔ cs = c :: rest := by
  cases cs with
  | nil => simp [mark]
  | cons d cs =>
      rw [mark]
      by_cases hd : d = c
      · simp [hd]
      · simp [hd]

theorem dateEnd_eq_ok_iff {u : Unit} :
    dateEnd cs = .ok (u, rest) ↔ ∃ c, cs = c :: rest ∧ isDateEnd c = true := by
  cases cs with
  | nil => simp [dateEnd]
  | cons c cs =>
      rw [dateEnd]
      by_cases hc : isDateEnd c = true
      · simp [hc]
      · simp [hc]

/-! ### Blanks -/

/-- All the blanks there are may be left out. This is how the scanners do it, and the grammar allows
any number, so the two meet in what comes behind the blanks. -/
theorem spellsBlanks_dropBlanks (cs : List Char) : SpellsBlanks cs (dropBlanks cs) :=
  ⟨cs.takeWhile isBlank, (List.takeWhile_append_dropWhile ..).symm,
    fun _ hc => List.mem_takeWhile_imp hc⟩

/-- However many blanks the grammar has left out, the scanners leave out the others as well. -/
theorem SpellsBlanks.dropBlanks_eq {cs' : List Char} (h : SpellsBlanks cs cs') :
    dropBlanks cs = dropBlanks cs' := by
  obtain ⟨blanks, rfl, hblanks⟩ := h
  rw [dropBlanks, dropBlanks, List.dropWhile_append_of_pos hblanks]

/-- What spells at least one digit begins with one, which tells it from a sign, a mark and a
blank. -/
theorem SpellsDigits.exists_cons {least most n : Nat}
    (h : SpellsDigits (least + 1) most n cs rest) : ∃ c cs', cs = c :: cs' ∧ isDigit c = true := by
  obtain ⟨digits, rfl, hdigits, hleast, -⟩ := h
  cases digits with
  | nil => cases hleast
  | cons c digits => exact ⟨c, digits ++ rest, rfl, hdigits c List.mem_cons_self⟩

/-- Blanks are not mistaken for digits, so where digits are spelled there is nothing to leave
out. -/
theorem SpellsDigits.dropBlanks_eq {least most n : Nat}
    (h : SpellsDigits (least + 1) most n cs rest) : dropBlanks cs = cs := by
  obtain ⟨c, cs', rfl, hc⟩ := h.exists_cons
  exact dropBlanks_cons_of_ne (isBlank_of_isDigit hc) cs'

/-! ### Dates -/

/-- The loose number allows blanks before it and fewer digits than its width. That is all that makes
a form accept more than it documents in its months, days and times. -/
theorem looseNumber_eq_ok_iff {low high n : Nat} : looseNumber low high cs = .ok (n, rest) ↔
    SpellsNumber .loose 2 n cs rest ∧ low ≤ n ∧ n ≤ high := by
  rw [looseNumber, bounded_eq_ok_iff, number_eq_ok_iff, SpellsNumber]
  refine and_congr_left fun _ => ⟨fun h => ⟨_, spellsBlanks_dropBlanks cs, h⟩, ?_⟩
  rintro ⟨cs', hblanks, hdigits⟩
  rwa [hblanks.dropBlanks_eq, hdigits.dropBlanks_eq]

/-- The loose year takes a sign, and with it any number of digits, as far as there are dates in that
year. Without a sign it is four digits at most. -/
theorem looseYear_eq_ok_iff {year : Int} : looseYear cs = .ok (year, rest) ↔
    SpellsYear .loose year cs rest ∧ -yearBound ≤ year ∧ year < yearBound := by
  constructor
  · -- the scanner has looked for a sign, so its three branches are those of the grammar
    intro h
    simp only [looseYear, Result.bind_eq_ok_iff] at h
    obtain ⟨⟨year', rest'⟩, hscan, h⟩ := h
    dsimp only at h
    split at h
    · rename_i hbound
      obtain ⟨rfl, rfl⟩ := Prod.mk.inj (Except.ok.inj h)
      refine ⟨⟨dropBlanks cs, spellsBlanks_dropBlanks cs, ?_⟩, hbound⟩
      split at hscan
      all_goals
        simp only [Result.bind_eq_ok_iff, number_eq_ok_iff, Prod.exists, Except.ok.injEq,
          Prod.mk.injEq] at hscan
        obtain ⟨n, _, hdigits, rfl, rfl⟩ := hscan
      · rename_i digits hsign _
        exact .inr ⟨'-', digits, n, hsign, hdigits, .inr ⟨rfl, rfl⟩⟩
      · rename_i digits hsign _
        exact .inr ⟨'+', digits, n, hsign, hdigits, .inl ⟨rfl, rfl⟩⟩
      · exact .inl ⟨n, rfl, hdigits⟩
    · cases h
  · rintro ⟨⟨cs', hblanks, hyear⟩, hbound⟩
    simp only [looseYear, hblanks.dropBlanks_eq, Result.bind_eq_ok_iff, Prod.exists]
    refine ⟨year, rest, ?_, by rw [if_pos hbound]⟩
    rcases hyear with ⟨n, rfl, hdigits⟩ | ⟨sign, digits, n, rfl, hdigits, hsign⟩
    · -- what begins with a digit has no sign
      have hnumber := number_eq_ok_iff.2 hdigits
      rw [hdigits.dropBlanks_eq]
      obtain ⟨c, cs', rfl, hc⟩ := hdigits.exists_cons
      split
      · rename_i heq
        rw [(List.cons.inj heq).1] at hc
        exact absurd hc (by decide)
      · rename_i heq
        rw [(List.cons.inj heq).1] at hc
        exact absurd hc (by decide)
      · rw [hnumber]
        rfl
    · have hnumber := number_eq_ok_iff.2 hdigits
      rcases hsign with ⟨rfl, rfl⟩ | ⟨rfl, rfl⟩
      · rw [dropBlanks_cons_of_ne (by decide)]
        simp only [hnumber, Result.ok_bind]
      · rw [dropBlanks_cons_of_ne (by decide)]
        simp only [hnumber, Result.ok_bind]

/-- Of a day that exists the loose date takes what spells it. A scanner also takes the 31st of a
month that has no such day, and only the instant is refused later; hence the premise. -/
theorem looseDate_eq_ok_iff {d : Date} (hd : d.IsValid) :
    looseDate cs = .ok (d, rest) ↔ SpellsDate .loose d cs rest := by
  have hyear := yearBound_of_isValid hd
  have hmonth : 1 ≤ d.month ∧ d.month ≤ 12 := ⟨hd.2.2.1, hd.2.2.2.1⟩
  have hday : 1 ≤ d.day ∧ d.day ≤ 31 := ⟨hd.2.2.2.2.1, day_le_of_isValid hd⟩
  simp only [looseDate, SpellsDate, Result.bind_eq_ok_iff, Prod.exists, looseYear_eq_ok_iff,
    mark_eq_ok_iff, looseNumber_eq_ok_iff, Except.ok.injEq, Prod.mk.injEq]
  constructor
  · rintro ⟨_, _, ⟨hyear', _⟩, _, month, rfl, _, _, ⟨hmonth', _⟩, _, day, rfl, _, _, ⟨hday', _⟩,
      rfl, rfl⟩
    exact ⟨hd, month, day, hyear', hmonth', hday'⟩
  · rintro ⟨-, month, day, hyear', hmonth', hday'⟩
    exact ⟨d.year, _, ⟨hyear', hyear⟩, (), month, rfl, d.month, _, ⟨hmonth', hmonth⟩, (), day,
      rfl, d.day, rest, ⟨hday', hday⟩, rfl, rfl⟩

/-! ### Times of day -/

/-- What is left behind all digits does not begin with one. -/
theorem ends_dropWhile (cs : List Char) : Ends (cs.dropWhile isDigit) := by
  intro c hc
  have hhead := List.head?_dropWhile_not isDigit cs
  rw [Option.mem_def.1 hc] at hhead
  exact hhead

/-- Digits beyond the ninth say nothing. The scanner skips them and the grammar counts them among
the digits of the fraction, so both must come to the same nanoseconds. -/
theorem fractionNanos_append {first more : List Char} (hfirst : first.length ≤ 9)
    (hmore : first.length = 9 ∨ more = []) :
    fractionNanos (first ++ more) = value first * 10 ^ (9 - first.length) := by
  rcases hmore with hnine | rfl
  · have hlength : 9 - (first ++ more).length = 9 - first.length := by
      rw [List.length_append]
      omega
    rw [fractionNanos, hlength, ← hnine, List.take_left]
  · rw [List.append_nil, fractionNanos, List.take_of_length_le hfirst]

/-- The digits behind a point are taken to the last one, in two parts: the first nine count and the
others are skipped. -/
theorem nanoseconds_eq_ok_iff {nano : Nat} : nanoseconds cs = .ok (nano, rest) ↔
    ∃ digits, cs = digits ++ rest ∧ digits ≠ [] ∧ (∀ c ∈ digits, isDigit c = true) ∧ Ends rest ∧
      nano = fractionNanos digits := by
  simp only [nanoseconds, Result.bind_eq_ok_iff, Prod.exists, number_eq_ok_iff, Except.ok.injEq,
    Prod.mk.injEq]
  constructor
  · -- the digits of the grammar are those that were counted and those that were skipped
    rintro ⟨n, behind, ⟨first, rfl, hfirst, hleast, hmost, hends, rfl⟩, rfl, rfl⟩
    refine ⟨first ++ behind.takeWhile isDigit, ?_, ?_, ?_, ends_dropWhile behind, ?_⟩
    · rw [List.append_assoc, List.takeWhile_append_dropWhile]
    · exact List.append_ne_nil_of_left_ne_nil (List.length_pos_iff.1 hleast) _
    · exact List.forall_mem_append.2 ⟨hfirst, fun c hc => List.mem_takeWhile_imp hc⟩
    · rw [fractionNanos_append hmost, List.length_append, Nat.add_sub_cancel]
      · rfl
      · exact hends.imp_right fun hbehind => takeWhile_append_ends [] hbehind
  · -- and the other way round they are cut after the ninth
    rintro ⟨digits, rfl, hne, hdigits, hends, rfl⟩
    have hsplit : digits.take 9 ++ (digits.drop 9 ++ rest) = digits ++ rest := by
      rw [← List.append_assoc, List.take_append_drop]
    have hmore : (digits.take 9).length = 9 ∨ digits.drop 9 = [] := by
      rw [List.length_take, List.drop_eq_nil_iff]
      omega
    have hle : (digits.take 9).length ≤ 9 := List.length_take_le _ _
    refine ⟨_, digits.drop 9 ++ rest,
      ⟨digits.take 9, hsplit.symm, fun c hc => hdigits c (List.mem_of_mem_take hc), ?_, hle, ?_,
        rfl⟩, ?_, ?_⟩
    · have hpos := List.length_pos_iff.2 hne
      rw [List.length_take]
      omega
    · refine hmore.imp_right fun hnil => ?_
      rwa [hnil, List.nil_append]
    · have hnanos := fractionNanos_append hle hmore
      rw [List.take_append_drop] at hnanos
      rw [hnanos, ← hsplit, List.length_append, Nat.add_sub_cancel]
      rfl
    · exact dropWhile_append (fun c hc => hdigits c (List.mem_of_mem_drop hc)) hends

/-- A fraction may be missing, but then there must be no point: a point that no digit follows is
refused, not left over. -/
theorem fraction?_eq_ok_iff {nano : Nat} :
    fraction? cs = .ok (nano, rest) ↔ SpellsFraction nano cs rest := by
  rw [SpellsFraction]
  by_cases hpoint : ∃ cs', cs = '.' :: cs'
  · obtain ⟨cs', rfl⟩ := hpoint
    rw [fraction?, nanoseconds_eq_ok_iff]
    constructor
    · rintro ⟨digits, rfl, h⟩
      exact .inr ⟨digits, rfl, h⟩
    · rintro (⟨-, rfl, hrest⟩ | ⟨digits, hcs, h⟩)
      · exact absurd rfl hrest
      · exact ⟨digits, (List.cons.inj hcs).2, h⟩
  · have hplain : fraction? cs = .ok (0, cs) := by
      rw [fraction?]
      exact fun cs' hcs => hpoint ⟨cs', hcs⟩
    have hhead : cs.head? ≠ some '.' := by
      intro hhead
      exact hpoint ⟨_, List.eq_cons_of_mem_head? hhead⟩
    rw [hplain]
    constructor
    · intro h
      obtain ⟨rfl, rfl⟩ := Prod.mk.inj (Except.ok.inj h)
      exact .inl ⟨rfl, rfl, hhead⟩
    · rintro (⟨rfl, rfl, -⟩ | ⟨digits, hcs, -⟩)
      · rfl
      · exact absurd ⟨_, hcs⟩ hpoint

/-- A time of day is taken as it is spelled, each part with its own bound. A second may be 60 in any
minute; whether one was ever inserted there is not asked. -/
theorem looseClock_eq_ok_iff {d : Date} {c : CivilTime} : looseClock d cs = .ok (c, rest) ↔
    ∃ hour minute second nano, c = ⟨d, hour, minute, second, nano, 0⟩ ∧
      SpellsClock .loose hour minute second nano cs rest := by
  simp only [looseClock, SpellsClock, Result.bind_eq_ok_iff, Prod.exists, looseNumber_eq_ok_iff,
    mark_eq_ok_iff, fraction?_eq_ok_iff, Except.ok.injEq, Prod.mk.injEq]
  constructor
  · rintro ⟨hour, _, ⟨hhour, _, hhour23⟩, _, minutes, rfl, minute, _, ⟨hminute, _, hminute59⟩, _,
      seconds, rfl, second, fraction, ⟨hsecond, _, hsecond60⟩, nano, _, hfraction, rfl, rfl⟩
    exact ⟨hour, minute, second, nano, rfl, ⟨hhour23, hminute59, hsecond60⟩, minutes, seconds,
      fraction, hhour, hminute, hsecond, hfraction⟩
  · rintro ⟨hour, minute, second, nano, rfl, hclock, minutes, seconds, fraction, hhour, hminute,
      hsecond, hfraction⟩
    exact ⟨hour, _, ⟨hhour, Nat.zero_le _, hclock.hour_le⟩, (), minutes, rfl, minute, _,
      ⟨hminute, Nat.zero_le _, hclock.minute_le⟩, (), seconds, rfl, second, fraction,
      ⟨hsecond, Nat.zero_le _, hclock.second_le⟩, nano, rest, hfraction, rfl, rfl⟩

/-- Blanks before a time of day say nothing, because its first number allows them anyway. -/
theorem SpellsClock.dropBlanks {hour minute second nano : Nat}
    (h : SpellsClock .loose hour minute second nano cs rest) :
    SpellsClock .loose hour minute second nano (dropBlanks cs) rest := by
  obtain ⟨hclock, minutes, seconds, fraction, ⟨cs', hblanks, hhour⟩, h⟩ := h
  refine ⟨hclock, minutes, seconds, fraction, ⟨cs', ⟨[], ?_, by simp⟩, hhour⟩, h⟩
  rw [hblanks.dropBlanks_eq, hhour.dropBlanks_eq, List.nil_append]

/-! ### Offsets -/

/-- Offsets have exactly two digits at a time, in every form. No form is loose about them. -/
theorem twoDigits_eq_ok_iff {n : Nat} :
    twoDigits cs = .ok (n, rest) ↔ SpellsDigits 2 2 n cs rest := by
  constructor
  · intro h
    rw [twoDigits.eq_def] at h
    split at h
    · rename_i a b cs'
      split at h
      · rename_i x y ha hb
        obtain ⟨rfl, rfl⟩ := Prod.mk.inj (Except.ok.inj h)
        refine ⟨[a, b], rfl, ?_, Nat.le_refl 2, Nat.le_refl 2, .inl rfl, ?_⟩
        · simp [isDigit, ha, hb]
        · simp [value, ha, hb]
      · cases h
    · cases h
    · cases h
  · rintro ⟨digits, rfl, hdigits, hleast, hmost, -, rfl⟩
    obtain ⟨a, b, rfl⟩ := List.length_eq_two.1 (Nat.le_antisymm hmost hleast)
    have ha := digit?_eq_some (hdigits a (by simp))
    have hb := digit?_eq_some (hdigits b (by simp))
    simp [twoDigits, value, ha, hb]

/-- There are two signs for an offset to the west, the hyphen and the minus. -/
theorem offsetSign_eq_ok_iff {negative : Bool} : offsetSign cs = .ok (negative, rest) ↔
    ∃ sign, cs = sign :: rest ∧ IsSign .loose negative sign := by
  cases cs with
  | nil => simp [offsetSign]
  | cons c cs =>
      rw [offsetSign]
      by_cases hplus : c = '+'
      · subst hplus
        cases negative <;> simp [IsSign]
      · rw [if_neg hplus]
        by_cases hminus : c = '-' ∨ c = '\u2212'
        · rw [if_pos hminus]
          cases negative <;> simp [IsSign, hplus, hminus]
        · rw [if_neg hminus]
          cases negative <;> simp [IsSign, hplus, hminus]

/-- An offset is taken as it is spelled. The forms differ in what may stand between hours and
minutes, so what a separator takes is a premise, and it is only asked before the minutes. -/
theorem offset_eq_ok_iff {separator : Scanner Unit} {IsMarks : List Char → Prop}
    (hseparator : ∀ cs minutes minute, SpellsDigits 2 2 minute minutes [] →
      (separator cs = .ok ((), minutes) ↔ ∃ marks, IsMarks marks ∧ cs = marks ++ minutes))
    {o : Int} (hday : o.natAbs < 86400) :
    offset separator cs = .ok (o, []) ↔ SpellsOffset .loose IsMarks o cs := by
  simp only [offset, SpellsOffset, Result.bind_eq_ok_iff, Prod.exists, bounded_eq_ok_iff,
    offsetSign_eq_ok_iff, twoDigits_eq_ok_iff, Except.ok.injEq, Prod.mk.injEq]
  constructor
  · rintro ⟨negative, hours, ⟨sign, rfl, hsign⟩, hour, behind, hhour, _, minutes, hbehind, minute,
      _, ⟨hminute, -, hle⟩, ho, rfl⟩
    obtain ⟨marks, hmarks, rfl⟩ := (hseparator _ _ _ hminute).1 hbehind
    refine ⟨negative, sign, hours, minutes, hour, minute, marks, rfl, hsign, hmarks, hhour, hminute,
      ?_, hle, ho.symm⟩
    split at ho <;> omega
  · rintro ⟨negative, sign, hours, minutes, hour, minute, marks, rfl, hsign, hmarks, hhour, hminute,
      -, hle, rfl⟩
    refine ⟨negative, hours, ⟨sign, rfl, hsign⟩, hour, _, hhour, (), minutes,
      (hseparator _ _ _ hminute).2 ⟨marks, hmarks, rfl⟩, minute, [], ⟨hminute, Nat.zero_le _, hle⟩,
      rfl, rfl⟩

/-- A sign is one of three characters, and none of them is a letter, a blank or a digit. -/
theorem IsSign.eq_or {negative : Bool} {sign : Char} (h : IsSign m negative sign) :
    sign = '+' ∨ sign = '-' ∨ sign = '\u2212' := by
  cases negative <;> cases m <;> simp_all [IsSign]

/-- The letter for no offset is taken in either case. It cannot be mistaken for a sign, so the two
ways of naming a zone do not meet. -/
theorem offsetOrZulu_eq_ok_iff {o : Int} (hday : o.natAbs < 86400) :
    offsetOrZulu (mark ':') cs = .ok (o, []) ↔ SpellsZone .loose o cs := by
  have hmark : ∀ cs minutes minute, SpellsDigits 2 2 minute minutes [] →
      (mark ':' cs = .ok ((), minutes) ↔ ∃ marks, marks = [':'] ∧ cs = marks ++ minutes) := by
    intro cs minutes minute _
    simp [mark_eq_ok_iff]
  have hletter : ∀ cs', SpellsOffset .loose (· = [':']) o cs' →
      ∀ c ∈ cs'.head?, c ≠ 'Z' ∧ c ≠ 'z' := by
    rintro _ ⟨negative, sign, hours, _, _, _, _, rfl, hsign, -⟩ c ⟨⟩
    rcases hsign.eq_or with rfl | rfl | rfl <;> decide
  rw [offsetOrZulu.eq_def, SpellsZone]
  split
  · rename_i rest
    constructor
    · intro h
      obtain ⟨rfl, rfl⟩ := Prod.mk.inj (Except.ok.inj h)
      exact .inl ⟨rfl, .inl rfl⟩
    · rintro (⟨rfl, hcs⟩ | hoffset)
      · obtain rfl : rest = [] := by simpa using hcs
        rfl
      · exact absurd rfl (hletter _ hoffset 'Z' rfl).1
  · rename_i rest
    constructor
    · intro h
      obtain ⟨rfl, rfl⟩ := Prod.mk.inj (Except.ok.inj h)
      exact .inl ⟨rfl, .inr rfl⟩
    · rintro (⟨rfl, hcs⟩ | hoffset)
      · obtain rfl : rest = [] := by simpa using hcs
        rfl
      · exact absurd rfl (hletter _ hoffset 'z' rfl).2
  · rename_i hupper hlower
    rw [offset_eq_ok_iff hmark hday]
    refine ⟨.inr, ?_⟩
    rintro (⟨-, rfl | rfl⟩ | hoffset)
    · exact absurd rfl (hupper [])
    · exact absurd rfl (hlower [])
    · exact hoffset

/-- In the forms with an offset of their own, blanks may stand before its sign, and colons and
blanks in any number between its hours and its minutes. -/
theorem offset_dropBlanks_eq_ok_iff {o : Int} (hday : o.natAbs < 86400) :
    offset colonsAndBlanks (dropBlanks cs) = .ok (o, []) ↔ SpellsPlainOffset .loose o cs := by
  -- the minutes are not taken with the marks before them
  have hmarks : ∀ cs minutes minute, SpellsDigits 2 2 minute minutes [] →
      (colonsAndBlanks cs = .ok ((), minutes) ↔
        ∃ marks, (∀ c ∈ marks, c = ':' ∨ isBlank c = true) ∧ cs = marks ++ minutes) := by
    intro cs minutes minute hminutes
    obtain ⟨d, minutes, rfl, hd⟩ := hminutes.exists_cons
    have hcolon : d ≠ ':' := by
      rintro rfl
      exact absurd hd (by decide)
    simp only [colonsAndBlanks, Except.ok.injEq, Prod.mk.injEq, true_and]
    constructor
    · intro h
      refine ⟨cs.takeWhile fun c => c = ':' || isBlank c, fun c hc => ?_, ?_⟩
      · simpa using List.mem_takeWhile_imp hc
      · rw [← h, List.takeWhile_append_dropWhile]
    · rintro ⟨marks, hall, rfl⟩
      rw [List.dropWhile_append_of_pos (by simpa using hall), List.dropWhile_cons_of_neg]
      simp [hcolon, isBlank_of_isDigit hd]
  rw [offset_eq_ok_iff hmarks hday, SpellsPlainOffset]
  refine ⟨fun h => ⟨_, spellsBlanks_dropBlanks cs, h⟩, ?_⟩
  rintro ⟨cs', hblanks, hoffset⟩
  rw [hblanks.dropBlanks_eq]
  obtain ⟨negative, sign, hours, minutes, hour, minute, marks, rfl, hsign, h⟩ := hoffset
  have hsolid : isBlank sign = false := by
    rcases hsign.eq_or with rfl | rfl | rfl <;> decide
  rw [dropBlanks_cons_of_ne hsolid]
  exact ⟨negative, sign, hours, minutes, hour, minute, marks, rfl, hsign, h⟩

/-! ### Forms -/

section

variable {c : CivilTime} (hdate : c.date.IsValid)

include hdate

/-- The form of RFC 3339 takes fixed widths only. What it has to spare is the case of two letters,
the blank between day and time, and the third sign. -/
theorem internet_eq_ok_iff (hday : c.offset.natAbs < 86400) : internet cs = .ok (c, []) ↔
    ∃ joint clock zone, SpellsDate .exact c.date cs (joint :: clock) ∧ isDateEnd joint = true ∧
      SpellsClock .exact c.hour c.minute c.second c.nano clock zone ∧
        SpellsZone .loose c.offset zone := by
  have hmonth : 1 ≤ c.date.month ∧ c.date.month ≤ 12 := ⟨hdate.2.2.1, hdate.2.2.2.1⟩
  have hday' : 1 ≤ c.date.day ∧ c.date.day ≤ 31 := ⟨hdate.2.2.2.2.1, day_le_of_isValid hdate⟩
  simp only [internet, SpellsDate, SpellsClock, SpellsYear, SpellsNumber, Result.bind_eq_ok_iff,
    Prod.exists, bounded_eq_ok_iff, number_eq_ok_iff, mark_eq_ok_iff, dateEnd_eq_ok_iff,
    fraction?_eq_ok_iff, Except.ok.injEq, Prod.mk.injEq]
  constructor
  · rintro ⟨year, _, hyear, _, month, rfl, _, _, ⟨hmonths, _⟩, _, day, rfl, _, _, ⟨hdays, _⟩, _,
      clock, ⟨joint, rfl, hjoint⟩, hour, _, ⟨hhour, _, hhour23⟩, _, minutes, rfl, minute, _,
      ⟨hminute, _, hminute59⟩, _, seconds, rfl, second, fraction, ⟨hsecond, _, hsecond60⟩, nano,
      zone, hfraction, o, _, hzone, rfl, rfl⟩
    exact ⟨joint, clock, zone, ⟨hdate, month, day, ⟨year, rfl, hyear⟩, hmonths, hdays⟩, hjoint,
      ⟨⟨hhour23, hminute59, hsecond60⟩, minutes, seconds, fraction, hhour, hminute, hsecond,
        hfraction⟩, (offsetOrZulu_eq_ok_iff hday).1 hzone⟩
  · rintro ⟨joint, clock, zone, ⟨-, month, day, ⟨year, hyear, hyears⟩, hmonths, hdays⟩, hjoint,
      ⟨hclock, minutes, seconds, fraction, hhour, hminute, hsecond, hfraction⟩, hzone⟩
    refine ⟨year, _, hyears, (), month, rfl, c.date.month, _, ⟨hmonths, hmonth⟩, (), day, rfl,
      c.date.day, _, ⟨hdays, hday'⟩, (), clock, ⟨joint, rfl, hjoint⟩, c.hour, _,
      ⟨hhour, Nat.zero_le _, hclock.hour_le⟩, (), minutes, rfl, c.minute, _,
      ⟨hminute, Nat.zero_le _, hclock.minute_le⟩, (), seconds, rfl, c.second, fraction,
      ⟨hsecond, Nat.zero_le _, hclock.second_le⟩, c.nano, zone, hfraction, c.offset, [],
      (offsetOrZulu_eq_ok_iff hday).2 hzone, ?_, rfl⟩
    rw [← hyear]

/-- A date and a time that the letter T joins, without an offset; they are taken to be in UTC. -/
theorem joined_eq_ok_iff : joined cs = .ok (c, rest) ↔
    c.offset = 0 ∧ ∃ clock, SpellsDate .loose c.date cs ('T' :: clock) ∧
      SpellsClock .loose c.hour c.minute c.second c.nano clock rest := by
  simp only [joined, Result.bind_eq_ok_iff, Prod.exists, mark_eq_ok_iff, looseClock_eq_ok_iff]
  constructor
  · rintro ⟨d, _, hd, _, clock, rfl, hour, minute, second, nano, rfl, hclock⟩
    exact ⟨rfl, clock, (looseDate_eq_ok_iff hdate).1 hd, hclock⟩
  · rintro ⟨hoffset, clock, hd, hclock⟩
    refine ⟨c.date, _, (looseDate_eq_ok_iff hdate).2 hd, (), clock, rfl, _, _, _, _, ?_, hclock⟩
    rw [← hoffset]

/-- The same with an offset behind it. It is scanned as if it had none, and the offset is set in
afterwards. -/
theorem joinedWithOffset_eq_ok_iff (hday : c.offset.natAbs < 86400) :
    joinedWithOffset cs = .ok (c, []) ↔
      ∃ clock zone, SpellsDate .loose c.date cs ('T' :: clock) ∧
        SpellsClock .loose c.hour c.minute c.second c.nano clock zone ∧
          SpellsPlainOffset .loose c.offset zone := by
  simp only [joinedWithOffset, Result.bind_eq_ok_iff, Prod.exists, Except.ok.injEq, Prod.mk.injEq]
  constructor
  · rintro ⟨c', zone, hjoined, o, _, hoffset, rfl, rfl⟩
    obtain ⟨-, clock, hd, hclock⟩ := (joined_eq_ok_iff (c := c') hdate).1 hjoined
    exact ⟨clock, zone, hd, hclock, (offset_dropBlanks_eq_ok_iff hday).1 hoffset⟩
  · rintro ⟨clock, zone, hd, hclock, hoffset⟩
    have hjoined : joined cs = .ok ({ c with offset := 0 }, zone) :=
      (joined_eq_ok_iff (c := { c with offset := 0 }) hdate).2 ⟨rfl, clock, hd, hclock⟩
    exact ⟨_, zone, hjoined, c.offset, [], (offset_dropBlanks_eq_ok_iff hday).2 hoffset, rfl, rfl⟩

/-- A date and a time with nothing but blanks between them, and even none of those. -/
theorem spaced_eq_ok_iff : spaced cs = .ok (c, rest) ↔
    c.offset = 0 ∧ ∃ space clock, SpellsDate .loose c.date cs space ∧
      SpellsSpace .loose space clock ∧
        SpellsClock .loose c.hour c.minute c.second c.nano clock rest := by
  simp only [spaced, Result.bind_eq_ok_iff, Prod.exists, looseClock_eq_ok_iff]
  constructor
  · rintro ⟨d, space, hd, hour, minute, second, nano, rfl, hclock⟩
    exact ⟨rfl, space, _, (looseDate_eq_ok_iff hdate).1 hd, spellsBlanks_dropBlanks space, hclock⟩
  · rintro ⟨hoffset, space, clock, hd, hspace, hclock⟩
    refine ⟨c.date, space, (looseDate_eq_ok_iff hdate).2 hd, c.hour, c.minute, c.second, c.nano,
      by rw [← hoffset], ?_⟩
    rw [SpellsBlanks.dropBlanks_eq hspace]
    exact hclock.dropBlanks

/-- A date alone stands for the first moment of its day. -/
theorem dateOnly_eq_ok_iff : dateOnly cs = .ok (c, rest) ↔
    c = ⟨c.date, 0, 0, 0, 0, 0⟩ ∧ SpellsDate .loose c.date cs rest := by
  simp only [dateOnly, Result.bind_eq_ok_iff, Prod.exists, Except.ok.injEq, Prod.mk.injEq]
  constructor
  · rintro ⟨d, _, hd, rfl, rfl⟩
    exact ⟨rfl, (looseDate_eq_ok_iff hdate).1 hd⟩
  · rintro ⟨hc, hd⟩
    exact ⟨c.date, rest, (looseDate_eq_ok_iff hdate).2 hd, hc.symm, rfl⟩

end

/-- A text spells a time loosely exactly if one of the five forms takes all of it. The grammar has
one rule for each form, in the order in which they are tried, but which of them takes the text first
does not matter here. -/
theorem spells_loose_iff {c : CivilTime} (hdate : c.date.IsValid)
    (hday : c.offset.natAbs < 86400) :
    Spells .loose cs c ↔ ∃ form ∈ forms, form cs = .ok (c, []) := by
  simp only [forms, List.exists_mem_cons_iff, List.not_mem_nil, false_and, exists_false, or_false,
    internet_eq_ok_iff hdate hday, joinedWithOffset_eq_ok_iff hdate hday, joined_eq_ok_iff hdate,
    spaced_eq_ok_iff hdate, dateOnly_eq_ok_iff hdate]
  constructor
  · intro h
    cases h with
    | internet hd hjoint hclock hzone => exact .inl ⟨_, _, _, hd, hjoint, hclock, hzone⟩
    | joinedWithOffset hd hclock hzone => exact .inr (.inl ⟨_, _, hd, hclock, hzone⟩)
    | joined hd hclock => exact .inr (.inr (.inl ⟨rfl, _, hd, hclock⟩))
    | spaced hd hspace hclock => exact .inr (.inr (.inr (.inl ⟨rfl, _, _, hd, hspace, hclock⟩)))
    | dateOnly hd => exact .inr (.inr (.inr (.inr ⟨rfl, hd⟩)))
  · rintro (⟨joint, clock, zone, hd, hjoint, hclock, hzone⟩ | ⟨clock, zone, hd, hclock, hzone⟩ |
      ⟨hoffset, clock, hd, hclock⟩ | ⟨hoffset, space, clock, hd, hspace, hclock⟩ | ⟨hc, hd⟩)
    · exact .internet hd hjoint hclock hzone
    · exact .joinedWithOffset hd hclock hzone
    · have h := Spells.joined hd hclock
      rwa [← hoffset] at h
    · have h := Spells.spaced hd hspace hclock
      rwa [← hoffset] at h
    · rw [hc]
      exact .dateOnly hd

/-! ## The reader -/

/-- The reader takes a text exactly if one of the forms takes it and what it shows is a moment. A
form that takes the text and shows none does not end the search. -/
theorem isSome_read?_iff (text : String) : (read? text).isSome = true ↔
    ∃ form ∈ forms, ∃ c t, form (trimBlanks text.toList) = .ok (c, []) ∧ c.instant = .ok t := by
  rw [read?, Option.isSome_map, List.isSome_findSome?, List.any_eq_true]
  refine exists_congr fun form => and_congr_right fun _ => ?_
  rw [readForm?]
  cases hform : form (trimBlanks text.toList) with
  | error e => simp
  | ok parsed =>
      obtain ⟨c, rest⟩ := parsed
      cases rest with
      | nil => cases hinstant : c.instant <;> simp [hinstant, Except.toOption]
      | cons ch rest => simp

/-- A text is read as an instant exactly if it spells a moment in range loosely in one of the five
forms. Among those texts are all that spell a time exactly. -/
theorem read?_accepts (text : String) :
    ((read? text).isSome = true ↔ ∃ c, Spells .loose (trimBlanks text.toList) c ∧ c.InRange) ∧
      ∀ c, Spells .exact (trimBlanks text.toList) c → (read? text).isSome = true := by
  have hiff : (read? text).isSome = true ↔
      ∃ c, Spells .loose (trimBlanks text.toList) c ∧ c.InRange := by
    rw [isSome_read?_iff]
    constructor
    · rintro ⟨form, hform, c, t, hc, ht⟩
      obtain ⟨hdate, hday, -⟩ := CivilTime.of_instant_eq_ok ht
      have hspells := (spells_loose_iff hdate hday).2 ⟨form, hform, hc⟩
      exact ⟨c, hspells, hspells.isShown.exists_instant_iff.1 ⟨t, ht⟩⟩
    · rintro ⟨c, hspells, hrange⟩
      have hshown := hspells.isShown
      obtain ⟨form, hform, hc⟩ := (spells_loose_iff hshown.date hshown.offset_lt).1 hspells
      obtain ⟨t, ht⟩ := hshown.exists_instant_iff.2 hrange
      exact ⟨form, hform, c, t, hc, ht⟩
  exact ⟨hiff, fun c hspells => hiff.2 ⟨c, hspells.loosen, hspells.inRange⟩⟩

/-- A moment within a leap second, with blanks around it. -/
theorem leap_accepted : (read? " 2024-02-29 23:59:60.5\n").isSome = true := by
  have hdate : SpellsDate .exact ⟨2024, 2, 29⟩ "2024-02-29 23:59:60.5".toList
      " 23:59:60.5".toList :=
    ⟨by decide, "02-29 23:59:60.5".toList, "29 23:59:60.5".toList,
      ⟨2024, rfl, .of_length "2024".toList (by decide)⟩, .of_length "02".toList (by decide),
      .of_length "29".toList (by decide)⟩
  have hclock : SpellsClock .exact 23 59 60 500000000 "23:59:60.5".toList [] :=
    ⟨⟨by decide, by decide, by decide⟩, "59:60.5".toList, "60.5".toList, ".5".toList,
      .of_length "23".toList (by decide), .of_length "59".toList (by decide),
      .of_length "60".toList (by decide),
      .inr ⟨"5".toList, by decide, by decide, List.all_eq_true.1 (by decide), ends_nil, by decide⟩⟩
  have htext : trimBlanks " 2024-02-29 23:59:60.5\n".toList = "2024-02-29 23:59:60.5".toList := by
    decide
  have hspells : Spells .exact (trimBlanks " 2024-02-29 23:59:60.5\n".toList)
      ⟨⟨2024, 2, 29⟩, 23, 59, 60, 500000000, 0⟩ := by
    rw [htext]
    exact .spaced hdate rfl hclock
  exact (read?_accepts _).2 _ hspells

/-- A month of one digit is taken too, and no form has one. The documented widths are an upper bound
to the scanners and no lower one. -/
theorem short_month_accepted : (read? "2024-9-1").isSome = true ∧
    ¬ ∃ c, Spells .exact (trimBlanks "2024-9-1".toList) c := by
  refine ⟨by decide +kernel, ?_⟩
  rintro ⟨c, hspells⟩
  exact absurd hspells.length_le (by decide)

end Timestamp

end Agenda
