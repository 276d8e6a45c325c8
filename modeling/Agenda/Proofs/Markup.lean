/-
What is left of a text without its tags.

Tags are found from left to right, each from a `<` to the first `>` behind it, and all else stays.
That leaves no tag: taking one out could only make a new one of a `<` before it and a `>` behind it,
but a `<` stays only if no `>` follows at all. So a second pass finds nothing.
-/
import Agenda.Markup
import Mathlib.Data.List.Basic

set_option autoImplicit false

namespace Agenda.Markup

/-- A `<` stands somewhere before a `>`. -/
def HasTag (cs : List Char) : Prop := ['<', '>'].Sublist cs

/-- The second text is what is left of the first one without its tags, as they are found from left
to right. -/
inductive Strips : List Char → List Char → Prop where
  | nil : Strips [] []
  | tag {inside rest out : List Char} (hinside : '>' ∉ inside) (hrest : Strips rest out) :
      Strips ('<' :: (inside ++ '>' :: rest)) out
  | kept {c : Char} {rest out : List Char} (hc : c = '<' → '>' ∉ rest) (hrest : Strips rest out) :
      Strips (c :: rest) (c :: out)

variable {c : Char} {cs inside rest out kept : List Char}

/-! ## Tags -/

theorem hasTag_cons_iff : HasTag (c :: cs) ↔ HasTag cs ∨ (c = '<' ∧ '>' ∈ cs) := by
  rw [HasTag, HasTag, List.sublist_cons_iff]
  simp [eq_comm]

/-- What stays is a part of the text, in the same order. -/
theorem Strips.sublist (h : Strips cs out) : out.Sublist cs := by
  induction h with
  | nil => exact .slnil
  | tag _ _ ih => exact ((ih.cons _).trans (List.sublist_append_right _ _)).cons _
  | kept _ _ ih => exact ih.cons_cons _

/-- Nothing that stays makes up a tag with what stays behind it. -/
theorem Strips.not_hasTag (h : Strips cs out) : ¬ HasTag out := by
  induction h with
  | nil => simp [HasTag]
  | tag _ _ ih => exact ih
  | kept hc hrest ih =>
      rw [hasTag_cons_iff, not_or, not_and]
      exact ⟨ih, fun hopen hclose => hc hopen (hrest.sublist.mem hclose)⟩

/-- A text without tags stays as it is. -/
theorem strips_self (h : ¬ HasTag cs) : Strips cs cs := by
  induction cs with
  | nil => exact .nil
  | cons c cs ih =>
      rw [hasTag_cons_iff, not_or, not_and] at h
      exact .kept h.2 (ih h.1)

/-! ## One pass -/

/-- An open tag that does not close stands for itself. -/
theorem strip_some_of_notMem (h : '>' ∉ cs) : strip (some kept) cs = kept.reverse ++ cs := by
  induction cs generalizing kept with
  | nil => simp [strip]
  | cons c cs ih =>
      rw [List.mem_cons, not_or] at h
      rw [strip, if_neg (Ne.symm h.1), ih h.2, List.reverse_cons, List.append_assoc,
        List.singleton_append]

/-- An open tag goes up to the first `>`. -/
theorem strip_some_append (h : '>' ∉ inside) :
    strip (some kept) (inside ++ '>' :: rest) = strip none rest := by
  induction inside generalizing kept with
  | nil => rw [List.nil_append, strip, if_pos rfl]
  | cons c inside ih =>
      rw [List.mem_cons, not_or] at h
      rw [List.cons_append, strip, if_neg (Ne.symm h.1), ih h.2]

theorem strip_tag (h : '>' ∉ inside) :
    strip none ('<' :: (inside ++ '>' :: rest)) = strip none rest := by
  rw [strip, if_pos rfl, strip_some_append h]

/-- Without a `>` nothing closes. -/
theorem strip_none_of_notMem (h : '>' ∉ cs) : strip none cs = cs := by
  induction cs with
  | nil => rfl
  | cons c cs ih =>
      rw [List.mem_cons, not_or] at h
      by_cases hopen : c = '<'
      · rw [strip, if_pos hopen, strip_some_of_notMem h.2, hopen]
        rfl
      · rw [strip, if_neg hopen, ih h.2]

/-- A character that opens no tag stays. -/
theorem strip_kept (hc : c = '<' → '>' ∉ cs) : strip none (c :: cs) = c :: strip none cs := by
  by_cases hopen : c = '<'
  · have hclose : '>' ∉ cs := hc hopen
    rw [strip, if_pos hopen, strip_some_of_notMem hclose, strip_none_of_notMem hclose, hopen]
    rfl
  · rw [strip, if_neg hopen]

/-- The pass takes out the tags and nothing else. -/
theorem strips_iff : Strips cs out ↔ out = strip none cs := by
  constructor
  · intro h
    induction h with
    | nil => rfl
    | tag hinside _ ih => rw [strip_tag hinside, ih]
    | kept hc _ ih => rw [strip_kept hc, ih]
  · rintro rfl
    -- a tag is taken out as a whole, so the induction is on the length
    induction hlength : cs.length using Nat.strongRecOn generalizing cs with
    | _ n ih =>
      subst hlength
      cases cs with
      | nil => exact .nil
      | cons c cs =>
          by_cases htag : c = '<' ∧ '>' ∈ cs
          · obtain ⟨rfl, hclose⟩ := htag
            obtain ⟨inside, rest, rfl, hinside⟩ := List.eq_append_cons_of_mem hclose
            rw [strip_tag hinside]
            refine .tag hinside (ih rest.length ?_ rfl)
            simp only [List.length_cons, List.length_append]
            omega
          · rw [not_and] at htag
            rw [strip_kept htag]
            exact .kept htag (ih cs.length (Nat.lt_succ_self _) rfl)

/-- What is left of a text has no tag, so that nothing is left to take out of it, and it is the text
without the tags that are found in it from left to right. -/
theorem plainText_strips (text : String) :
    ¬ HasTag (plainText text).toList ∧ plainText (plainText text) = plainText text ∧
      ∀ out : String, Strips text.toList out.toList ↔ out = plainText text := by
  have hiff : ∀ out : String, Strips text.toList out.toList ↔ out = plainText text := by
    intro out
    rw [strips_iff, plainText, ← String.toList_inj, String.toList_ofList]
  have hclean : ¬ HasTag (plainText text).toList := ((hiff _).2 rfl).not_hasTag
  refine ⟨hclean, ?_, hiff⟩
  rw [← String.toList_inj, plainText, String.toList_ofList]
  exact (strips_iff.1 (strips_self hclean)).symm

/-- Brackets inside a tag belong to it, and so does a line break. -/
example : plainText "a << b > c > d <br\n/> e < f" = "a  c > d  e < f" := by decide

end Agenda.Markup
