/-
Which lines can be folded.

The writer cuts a line in places that it seeks backwards, and it bounds the number of cuts. Here the
cuts are a relation without a bound: a line folds into pieces if each cut lies at the last one or
behind it and the cuts come to an end. The bound of the writer is large enough for that, so a line
is written exactly if it folds in this sense, and then its pieces make up the line.

Not every line folds. A place inside a character is passed over, and one more with it if the number
of the place is that of a blank; a line with wide characters, and with blanks where their bytes are
counted, can be led back behind the last cut. Lines of narrow characters cannot.
-/
import Agenda.Calendar.Line
import Agenda.Proofs.Result

set_option autoImplicit false

namespace Agenda

/-! ## Bytes -/

namespace Bytes

/-- Nothing is taken where the cut stays in its place. -/
@[simp] theorem split_zero (cs : List Char) : split 0 cs = ([], cs) := by
  cases cs <;> rfl

/-- A split that takes something takes a character, even if it was to take a byte of it only. -/
theorem length_split_lt {bytes : Nat} {cs : List Char} (hbytes : 0 < bytes) (hcs : cs ≠ []) :
    (split bytes cs).2.length < cs.length := by
  cases cs with
  | nil => exact absurd rfl hcs
  | cons c cs =>
      have hlength := congrArg List.length (split_append (bytes - c.utf8Size) cs)
      rw [List.length_append] at hlength
      rw [split, if_neg (by omega), List.length_cons]
      dsimp only
      omega

theorem count_append (before rest : List Char) :
    count (before ++ rest) = count before + count rest := by
  induction before with
  | nil => simp [count]
  | cons c before ih => simp only [List.cons_append, count, ih, Nat.add_assoc]

/-- A place behind the first character is a boundary if it is one in the rest. -/
theorem isBoundary_cons {c : Char} {cs : List Char} {n : Nat} (hn : c.utf8Size ≤ n) :
    isBoundary (c :: cs) n = isBoundary cs (n - c.utf8Size) := by
  have hsize := c.utf8Size_pos
  cases n with
  | zero => omega
  | succ n =>
      rw [isBoundary, decide_eq_true hn, Bool.true_and]
      intro h
      cases h

/-- Boundaries behind some characters are those of the rest. Places are counted from the beginning
of the line, while a cut is made in what is left of it. -/
theorem isBoundary_append (before rest : List Char) (n : Nat) :
    isBoundary (before ++ rest) (count before + n) = isBoundary rest n := by
  induction before with
  | nil => rw [count, Nat.zero_add, List.nil_append]
  | cons c before ih =>
      rw [List.cons_append, count, Nat.add_assoc, isBoundary_cons (by omega),
        Nat.add_sub_cancel_left, ih]

/-- Where every character takes one byte, every place is a boundary, and numbers of bytes are
numbers of characters. -/
theorem isBoundary_of_narrow {cs : List Char} (hcs : ∀ c ∈ cs, c.utf8Size = 1) {n : Nat}
    (hn : n ≤ count cs) : isBoundary cs n = true := by
  induction cs generalizing n with
  | nil =>
      rw [count, Nat.le_zero] at hn
      subst hn
      rfl
  | cons c cs ih =>
      have hc := hcs c List.mem_cons_self
      rw [count, hc] at hn
      cases n with
      | zero => rw [isBoundary]
      | succ n =>
          rw [isBoundary_cons (by omega), hc]
          exact ih (fun c' hc' => hcs c' (List.mem_cons_of_mem _ hc')) (by omega)

end Bytes

namespace Calendar

variable {line rest : List Char} {start limit bound : Nat} {ps : List (List Char)}

/-! ## Folding without a bound -/

/-- What is left of a line after `start` bytes is cut into pieces, the first of which may reach to
`limit`. -/
inductive Folding (line : List Char) : Nat → Nat → List Char → List (List Char) → Prop where
  | rest {start limit : Nat} {rest : List Char} (h : Bytes.count rest ≤ lineLimit) :
      Folding line start limit rest [rest]
  | cut {start limit : Nat} {rest : List Char} {more : List (List Char)}
      (h : lineLimit < Bytes.count rest) (hplace : start ≤ cut line limit)
      (hmore : Folding line (cut line limit) (cut line limit + lineLimit - 1)
        (Bytes.split (cut line limit - start) rest).2 more) :
      Folding line start limit rest ((Bytes.split (cut line limit - start) rest).1 :: more)

/-- A line can be folded. -/
def Folds (line : List Char) : Prop := ∃ ps, Folding line 0 lineLimit line ps

/-- The pieces make up the line. -/
theorem Folding.flatten_eq (h : Folding line start limit rest ps) : ps.flatten = rest := by
  induction h with
  | rest h => simp
  | cut h hplace hmore ih => rw [List.flatten_cons, ih, Bytes.split_append]

theorem Folding.ne_nil (h : Folding line start limit rest ps) : ps ≠ [] := by
  cases h <;> simp

/-- Behind the first one no cut stays where the last one was. If it did, the next would be sought
from the same place and stay there too, and the cuts would not come to an end. -/
theorem Folding.lt_cut (h : Folding line start limit rest ps)
    (hlimit : limit = start + lineLimit - 1) (hrest : lineLimit < Bytes.count rest) :
    start < Calendar.cut line limit := by
  induction h with
  | rest h => omega
  | @cut start limit rest more h hplace hmore ih =>
      rcases Nat.lt_or_eq_of_le hplace with hlt | hstay
      · exact hlt
      · -- the cuts would go on from where they are
        rw [← hstay, Nat.sub_self, Bytes.split_zero] at ih
        have hlt := ih rfl hrest
        rw [← hlimit] at hlt
        omega

/-! ## The bound -/

theorem piecesFrom_succ : piecesFrom line (bound + 1) start limit rest =
    if Bytes.count rest ≤ lineLimit then .ok [rest]
    else if cut line limit < start then .error .backwards
    else (piecesFrom line bound (cut line limit) (cut line limit + lineLimit - 1)
      (Bytes.split (cut line limit - start) rest).2).bind fun more =>
        .ok ((Bytes.split (cut line limit - start) rest).1 :: more) := rfl

/-- What is cut with some bound is cut without one. -/
theorem folding_of_piecesFrom (h : piecesFrom line bound start limit rest = .ok ps) :
    Folding line start limit rest ps := by
  induction bound generalizing start limit rest ps with
  | zero => cases h
  | succ bound ih =>
      rw [piecesFrom_succ] at h
      by_cases hrest : Bytes.count rest ≤ lineLimit
      · rw [if_pos hrest] at h
        obtain rfl := Except.ok.inj h
        exact .rest hrest
      · rw [if_neg hrest] at h
        by_cases hplace : cut line limit < start
        · rw [if_pos hplace] at h
          cases h
        · rw [if_neg hplace] at h
          obtain ⟨more, hmore, hps⟩ := Result.bind_eq_ok_iff.1 h
          obtain rfl := Except.ok.inj hps
          exact .cut (by omega) (by omega) (ih hmore)

theorem ne_nil_of_lt_count (h : lineLimit < Bytes.count rest) : rest ≠ [] := by
  rintro rfl
  exact absurd h (by decide)

/-- Behind the first cut a piece takes a character at least, so as many cuts as there are characters
left are enough. -/
theorem piecesFrom_of_folding (h : Folding line start limit rest ps)
    (hlimit : limit = start + lineLimit - 1) (hbound : rest.length < bound) :
    piecesFrom line bound start limit rest = .ok ps := by
  induction h generalizing bound with
  | rest h =>
      obtain ⟨bound, rfl⟩ : ∃ b, bound = b + 1 := ⟨bound - 1, by omega⟩
      rw [piecesFrom_succ, if_pos h]
  | @cut start limit rest more h hplace hmore ih =>
      obtain ⟨bound, rfl⟩ : ∃ b, bound = b + 1 := ⟨bound - 1, by omega⟩
      have hcut := (Folding.cut h hplace hmore).lt_cut hlimit h
      have hlength : (Bytes.split (cut line limit - start) rest).2.length < rest.length :=
        Bytes.length_split_lt (by omega) (ne_nil_of_lt_count h)
      rw [piecesFrom_succ, if_neg (by omega), if_neg (by omega), ih rfl (by omega)]
      rfl

/-- A line is cut into pieces exactly if it folds into them. The first cut is set apart, since it
alone may take nothing. -/
theorem pieces_eq_ok_iff : pieces line = .ok ps ↔ Folding line 0 lineLimit line ps := by
  constructor
  · exact folding_of_piecesFrom
  · intro h
    rw [pieces, piecesFrom_succ]
    cases h with
    | rest h => rw [if_pos h]
    | cut h hplace hmore =>
        have hlength := congrArg List.length (Bytes.split_append (cut line lineLimit - 0) line)
        rw [List.length_append] at hlength
        rw [if_neg (by omega), if_neg (by omega), piecesFrom_of_folding hmore rfl (by omega)]
        rfl

/-- The writer's bound does not show: a line that is not cut could not be cut with any bound. -/
theorem exists_pieces_iff : (∃ ps, pieces line = .ok ps) ↔ Folds line :=
  exists_congr fun _ => pieces_eq_ok_iff

/-! ## Lines that fold -/

/-- The place of a cut is a boundary at or before the limit, however many blanks are passed over on
the way. -/
theorem retreat_le (line : List Char) (n : Nat) :
    retreat line n ≤ n ∧ Bytes.isBoundary line (retreat line n) = true := by
  induction n using retreat.induct line with
  | case1 => exact ⟨Nat.le_refl _, by rw [retreat, Bytes.isBoundary]⟩
  | case2 h =>
      rw [retreat, if_pos h]
      exact ⟨Nat.le_refl _, h⟩
  | case3 h =>
      rw [retreat, if_neg h]
      exact ⟨Nat.zero_le _, by rw [Bytes.isBoundary]⟩
  | case4 n h =>
      rw [retreat, if_pos h]
      exact ⟨Nat.le_refl _, h⟩
  | case5 n h hblank ih =>
      rw [retreat, if_neg h, if_pos hblank]
      exact ⟨by omega, ih.2⟩
  | case6 n h hblank ih =>
      rw [retreat, if_neg h, if_neg hblank]
      exact ⟨by omega, ih.2⟩

theorem cut_le (line : List Char) (limit : Nat) :
    cut line limit ≤ limit ∧ Bytes.isBoundary line (cut line limit) = true := by
  rw [cut]
  split
  · have hle := retreat_le line (limit - 1)
    exact ⟨by omega, hle.2⟩
  · exact retreat_le line limit

/-- On a boundary there is nothing to seek. -/
theorem retreat_of_isBoundary {n : Nat} (h : Bytes.isBoundary line n = true) :
    retreat line n = n := by
  match n with
  | 0 => rfl
  | 1 => rw [retreat, if_pos h]
  | n + 2 => rw [retreat, if_pos h]

/-- A line folds if every cut is sought over less than the length of a line: then each cut lies
behind the last one, whatever stands in the line. -/
theorem folds_of_near
    (hnear : ∀ limit, lineLimit ≤ limit + 1 → limit ≤ Bytes.count line →
      limit + 1 < cut line limit + lineLimit) : Folds line := by
  -- the induction is on what is left, which every cut makes shorter
  have hall : ∀ n before rest limit, line = before ++ rest → rest.length ≤ n →
      Bytes.count before + lineLimit ≤ limit + 1 → limit ≤ Bytes.count before + lineLimit →
        ∃ ps, Folding line (Bytes.count before) limit rest ps := by
    intro n
    induction n with
    | zero =>
        intro before rest limit _ hlength _ _
        obtain rfl := List.eq_nil_of_length_eq_zero (Nat.le_zero.1 hlength)
        exact ⟨_, .rest (by decide)⟩
    | succ n ih =>
        intro before rest limit hline hlength hlow hhigh
        by_cases hrest : Bytes.count rest ≤ lineLimit
        · exact ⟨_, .rest hrest⟩
        · have hcount : Bytes.count line = Bytes.count before + Bytes.count rest := by
            rw [hline, Bytes.count_append]
          have hplace := hnear limit (by omega) (by omega)
          have hcut := cut_le line limit
          obtain ⟨k, hk⟩ : ∃ k, cut line limit = Bytes.count before + k :=
            ⟨cut line limit - Bytes.count before, by omega⟩
          have hboundary : Bytes.isBoundary rest k = true := by
            rw [← Bytes.isBoundary_append before rest k, ← hline, ← hk]
            exact hcut.2
          have hsplit := Bytes.split_append k rest
          have htaken := Bytes.count_split_of_isBoundary hboundary
          have hshorter : (Bytes.split k rest).2.length < rest.length :=
            Bytes.length_split_lt (by omega) (ne_nil_of_lt_count (by omega))
          have hbefore : Bytes.count (before ++ (Bytes.split k rest).1) = cut line limit := by
            rw [Bytes.count_append, htaken, hk]
          obtain ⟨more, hmore⟩ := ih (before ++ (Bytes.split k rest).1) (Bytes.split k rest).2
            (cut line limit + lineLimit - 1) (by rw [List.append_assoc, hsplit, hline])
            (by omega) (by omega) (by omega)
          have hk' : cut line limit - Bytes.count before = k := by omega
          rw [hbefore, ← hk'] at hmore
          exact ⟨_, .cut (by omega) (by omega) hmore⟩
  exact hall line.length [] line lineLimit rfl (Nat.le_refl _) (by decide) (by decide)

/-- A line of characters that take one byte each can be folded. Only one step back is ever taken,
for a blank. -/
theorem folds_of_narrow (hline : ∀ c ∈ line, c.utf8Size = 1) : Folds line := by
  apply folds_of_near
  intro limit hlow hhigh
  have hlineLimit : lineLimit = 75 := rfl
  have hall : ∀ n ≤ Bytes.count line, retreat line n = n :=
    fun n hn => retreat_of_isBoundary (Bytes.isBoundary_of_narrow hline hn)
  rw [cut]
  split
  · rw [hall _ (by omega)]
    omega
  · rw [hall _ hhigh]
    omega

end Calendar

end Agenda
