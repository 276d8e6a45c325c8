/-
One entry for each identifier.

Homework is put in order of date and identifier, and of several entries with one identifier the
first is kept; so each identifier has one entry. Where an identifier says all there is to know, so
that homework with the same one is the same, it does not matter which is the first: what is left is
made of the same homework, and there is only one way to put it in order. Then the outcome says no
more than which homework there is.
-/
import Agenda.Homework
import Mathlib.Data.List.Nodup

set_option autoImplicit false

namespace Agenda

/-! ## The order of instants -/

namespace Instant

variable {t u v : Instant}

/-- Instants are compared by their seconds first. A leap second lies behind all of its second. -/
theorem lt_iff : t.lt u = true ↔ t.second < u.second ∨ t.second = u.second ∧ t.nano < u.nano := by
  rw [lt, Bool.or_eq_true, Bool.and_eq_true, decide_eq_true_iff, decide_eq_true_iff,
    decide_eq_true_iff]

theorem ext_iff' : t = u ↔ t.second = u.second ∧ t.nano = u.nano := by
  cases t
  cases u
  simp

theorem lt_trans (h : t.lt u = true) (h' : u.lt v = true) : t.lt v = true := by
  rw [lt_iff] at h h' ⊢
  omega

theorem not_lt_of_lt (h : t.lt u = true) : ¬ u.lt t = true := by
  rw [lt_iff] at h ⊢
  omega

theorem lt_trichotomy (t u : Instant) : t.lt u = true ∨ t = u ∨ u.lt t = true := by
  rw [lt_iff, lt_iff, ext_iff']
  omega

end Instant

namespace Homework

variable {g h i : Homework} {seen : List String} {all others : List Homework}

/-! ## The order of homework -/

/-- Homework is in order of its date and then of its identifier. Nothing else of it counts, so some
pairs precede each other. -/
theorem precedes_iff : precedes g h = true ↔
    g.date.lt h.date = true ∨ g.date = h.date ∧ g.identifier ≤ h.identifier := by
  rw [precedes, Bool.or_eq_true, Bool.and_eq_true, decide_eq_true_iff, decide_eq_true_iff]

theorem precedes_trans (hgh : precedes g h = true) (hhi : precedes h i = true) :
    precedes g i = true := by
  rw [precedes_iff] at hgh hhi ⊢
  rcases hgh with hgh | ⟨hgh, hg⟩
  · rcases hhi with hhi | ⟨hhi, _⟩
    · exact .inl (Instant.lt_trans hgh hhi)
    · exact .inl (hhi ▸ hgh)
  · rw [hgh]
    exact hhi.imp_right fun ⟨hdate, hh⟩ => ⟨hdate, String.le_trans hg hh⟩

/-- Of any two pieces of homework one precedes the other, which is what sorting asks for. -/
theorem precedes_total (g h : Homework) : (precedes g h || precedes h g) = true := by
  rw [Bool.or_eq_true, precedes_iff, precedes_iff]
  rcases Instant.lt_trichotomy g.date h.date with hlt | hdate | hlt
  · exact .inl (.inl hlt)
  · rcases String.le_total g.identifier h.identifier with hle | hle
    · exact .inl (.inr ⟨hdate, hle⟩)
    · exact .inr (.inr ⟨hdate.symm, hle⟩)
  · exact .inr (.inl hlt)

/-- Only homework with one identifier precedes each other. Once identifiers are unique, the order is
strict. -/
theorem identifier_eq_of_precedes (hgh : precedes g h = true) (hhg : precedes h g = true) :
    g.identifier = h.identifier := by
  rw [precedes_iff] at hgh hhg
  rcases hgh with hgh | ⟨hdate, hgh⟩
  · rcases hhg with hhg | ⟨hdate, _⟩
    · exact absurd hhg (Instant.not_lt_of_lt hgh)
    · rw [hdate] at hgh
      exact absurd hgh (Instant.not_lt_of_lt hgh)
  · rcases hhg with hhg | ⟨_, hhg⟩
    · rw [hdate] at hhg
      exact absurd hhg (Instant.not_lt_of_lt hhg)
    · exact String.le_antisymm hgh hhg

/-! ## The first of each identifier -/

/-- Nothing is kept whose identifier has been met, and no identifier twice. The two are proved
together, since keeping an entry is meeting its identifier. -/
theorem nodup_firstsAfter (seen : List String) (all : List Homework) :
    (∀ h ∈ firstsAfter seen all, h.identifier ∉ seen) ∧
      ((firstsAfter seen all).map identifier).Nodup := by
  induction all generalizing seen with
  | nil => exact ⟨by simp [firstsAfter], List.nodup_nil⟩
  | cons h rest ih =>
      rw [firstsAfter]
      split
      · exact ih seen
      · rename_i hnew
        obtain ⟨hrest, hnodup⟩ := ih (h.identifier :: seen)
        -- the rest keeps nothing with the identifier of `h`, so neither `h` again
        refine ⟨?_, List.nodup_cons.2 ⟨?_, hnodup⟩⟩
        · intro g hg
          rcases List.mem_cons.1 hg with rfl | hg
          · exact hnew
          · exact fun hseen => hrest g hg (List.mem_cons_of_mem _ hseen)
        · intro hh
          obtain ⟨g, hg, hgh⟩ := List.mem_map.1 hh
          exact hrest g hg (hgh ▸ List.mem_cons_self)

theorem identifier_eq_of_find? {id : String}
    (h : all.find? (fun g => g.identifier = id) = some g) : g.identifier = id := by
  simpa using List.find?_some h

/-- What is kept of an identifier that has not been met is the first homework with it. The walk
remembers identifiers and the search does not, hence the list of those that were met before. -/
theorem mem_firstsAfter_iff_find? (seen : List String) : h ∈ firstsAfter seen all ↔
    all.find? (fun g => g.identifier = h.identifier) = some h ∧ h.identifier ∉ seen := by
  induction all generalizing seen with
  | nil => simp [firstsAfter]
  | cons a rest ih =>
      rw [firstsAfter, List.find?_cons]
      by_cases hid : a.identifier = h.identifier
      · -- nothing behind `a` is kept under the identifier of `a`
        rw [decide_eq_true hid]
        dsimp only
        rw [Option.some.injEq]
        split
        · rename_i hseen
          rw [ih]
          exact ⟨fun hh => absurd (hid ▸ hseen) hh.2, fun hh => absurd (hid ▸ hseen) hh.2⟩
        · rename_i hnew
          rw [List.mem_cons, ih]
          constructor
          · rintro (rfl | ⟨-, hh⟩)
            · exact ⟨rfl, hnew⟩
            · exact absurd (hid ▸ List.mem_cons_self) hh
          · exact fun hh => .inl hh.1.symm
      · rw [decide_eq_false hid]
        dsimp only
        have hne : h ≠ a := fun hh => hid (hh ▸ rfl)
        split
        · exact ih seen
        · rw [List.mem_cons, ih, List.mem_cons, not_or, or_iff_right hne]
          exact and_congr_right fun _ => ⟨fun hh => hh.2, fun hh => ⟨Ne.symm hid, hh⟩⟩

/-- Each identifier that has not been met is kept, so leaving out repetitions loses none. -/
theorem exists_mem_firstsAfter (hh : h ∈ all) (hnew : h.identifier ∉ seen) :
    ∃ g ∈ firstsAfter seen all, g.identifier = h.identifier := by
  obtain ⟨g, hg⟩ : ∃ g, all.find? (fun g => g.identifier = h.identifier) = some g := by
    rw [← Option.isSome_iff_exists, List.find?_isSome]
    exact ⟨h, hh, decide_eq_true rfl⟩
  have hid := identifier_eq_of_find? hg
  refine ⟨g, (mem_firstsAfter_iff_find? seen).2 ?_, hid⟩
  rw [hid]
  exact ⟨hg, hnew⟩

/-- Nothing is left out where no identifier comes twice. -/
theorem firstsAfter_of_nodup (hnodup : (all.map identifier).Nodup)
    (hnew : ∀ h ∈ all, h.identifier ∉ seen) : firstsAfter seen all = all := by
  induction all generalizing seen with
  | nil => rfl
  | cons h rest ih =>
      rw [List.map_cons, List.nodup_cons] at hnodup
      rw [firstsAfter, if_neg (hnew h List.mem_cons_self), ih hnodup.2]
      intro g hg hseen
      rcases List.mem_cons.1 hseen with hid | hseen
      · exact hnodup.1 (hid ▸ List.mem_map_of_mem hg)
      · exact hnew g (List.mem_cons_of_mem _ hg) hseen

/-- An identifier says all there is to know. This is what makes it safe to keep one entry of
several. -/
def Consistent (all : List Homework) : Prop :=
  ∀ g ∈ all, ∀ h ∈ all, g.identifier = h.identifier → g = h

instance (all : List Homework) : Decidable (Consistent all) :=
  inferInstanceAs (Decidable (∀ g ∈ all, ∀ h ∈ all, g.identifier = h.identifier → g = h))

/-- Then everything is kept whose identifier has not been met, though perhaps in another copy. -/
theorem mem_firstsAfter_iff (hall : Consistent all) (seen : List String) :
    h ∈ firstsAfter seen all ↔ h ∈ all ∧ h.identifier ∉ seen := by
  rw [mem_firstsAfter_iff_find?]
  refine and_congr_left fun _ => ⟨List.mem_of_find?_eq_some, fun hh => ?_⟩
  cases hfirst : all.find? (fun g => g.identifier = h.identifier) with
  | none => simpa using List.find?_eq_none.1 hfirst h hh
  | some g =>
      rw [hall g (List.mem_of_find?_eq_some hfirst) h hh (identifier_eq_of_find? hfirst)]

/-! ## One entry for each identifier -/

/-- Then the entries are the homework, and all that is gone are repetitions. -/
theorem mem_unique_iff (hall : Consistent all) : h ∈ unique all ↔ h ∈ all := by
  rw [unique, (List.mergeSort_perm _ _).mem_iff, mem_firstsAfter_iff hall]
  simp

theorem pairwise_unique (all : List Homework) :
    (unique all).Pairwise fun g h => precedes g h = true := by
  unfold unique
  apply List.pairwise_mergeSort
  · intro g h i
    exact precedes_trans
  · exact precedes_total

/-- No identifier comes twice. -/
theorem nodup_identifiers_unique (all : List Homework) : ((unique all).map identifier).Nodup :=
  ((List.mergeSort_perm _ _).map identifier).nodup_iff.2 (nodup_firstsAfter [] all).2

theorem nodup_unique (all : List Homework) : (unique all).Nodup :=
  (nodup_identifiers_unique all).of_map

/-- Entries with one identifier are the same entry, whatever else the homework had that was
given. -/
theorem eq_of_mem_unique (hg : g ∈ unique all) (hh : h ∈ unique all)
    (hid : g.identifier = h.identifier) : g = h :=
  List.inj_on_of_nodup_map (nodup_identifiers_unique all) hg hh hid

/-- Each identifier has an entry. -/
theorem exists_mem_unique (hh : h ∈ all) : ∃ e ∈ unique all, e.identifier = h.identifier := by
  obtain ⟨e, he, hid⟩ := exists_mem_firstsAfter hh List.not_mem_nil
  exact ⟨e, (List.mergeSort_perm _ _).mem_iff.2 he, hid⟩

/-- An entry is the first homework of its identifier, and the others with this identifier do not
count. -/
theorem mem_unique_iff_find? : h ∈ unique all ↔
    all.find? (fun g => g.identifier = h.identifier) = some h := by
  rw [unique, (List.mergeSort_perm _ _).mem_iff, mem_firstsAfter_iff_find?]
  simp

/-- The date is earlier, or the date is the same and the identifier is smaller. Unlike `precedes`
this is a strict order. -/
def Before (g h : Homework) : Prop :=
  g.date.lt h.date = true ∨ g.date = h.date ∧ g.identifier < h.identifier

/-- As no identifier comes twice, no two entries share their place in the order. -/
theorem pairwise_before_unique (all : List Homework) : (unique all).Pairwise Before := by
  have hne : (unique all).Pairwise fun g h => g.identifier ≠ h.identifier :=
    List.pairwise_map.1 (nodup_identifiers_unique all)
  refine (pairwise_unique all).imp₂ (fun g h hgh hid => ?_) hne
  exact (precedes_iff.1 hgh).imp_right fun ⟨hdate, hle⟩ => ⟨hdate, Std.lt_of_le_of_ne hle hid⟩

/-- Entries are left as they are, since nothing is repeated and they are in order. -/
theorem unique_unique (all : List Homework) : unique (unique all) = unique all := by
  have hfirsts : firstsAfter [] (unique all) = unique all :=
    firstsAfter_of_nodup (nodup_identifiers_unique all) fun _ _ => List.not_mem_nil
  rw [unique, hfirsts, List.mergeSort_of_pairwise (pairwise_unique all)]

/-- Homework with different identifiers can be put in order in one way only. So the result of
sorting does not depend on how it is done, or on the order before. -/
theorem eq_of_perm_of_pairwise (hnodup : (all.map identifier).Nodup)
    (hall : all.Pairwise fun g h => precedes g h = true)
    (hothers : others.Pairwise fun g h => precedes g h = true) (h : all.Perm others) :
    all = others := by
  -- no two members precede each other
  apply List.Perm.eq_of_pairwise _ hall hothers h
  intro g k hg hk hgk hkg
  exact List.inj_on_of_nodup_map hnodup hg (h.mem_iff.2 hk) (identifier_eq_of_precedes hgk hkg)

/-- The entries depend on nothing but which homework there is, if identifiers are consistent. The
order in which it came and how often it did have no effect. -/
theorem unique_congr (hall : Consistent all) (hsame : ∀ h, h ∈ all ↔ h ∈ others) :
    unique all = unique others := by
  have hothers : Consistent others := fun g hg h hh =>
    hall g ((hsame g).2 hg) h ((hsame h).2 hh)
  have hmem : ∀ h, h ∈ unique all ↔ h ∈ unique others := fun h => by
    rw [mem_unique_iff hall, mem_unique_iff hothers, hsame]
  apply eq_of_perm_of_pairwise (nodup_identifiers_unique all) (pairwise_unique all)
    (pairwise_unique others)
  exact (List.perm_ext_iff_of_nodup (nodup_unique all) (nodup_unique others)).2 hmem

end Homework

end Agenda
