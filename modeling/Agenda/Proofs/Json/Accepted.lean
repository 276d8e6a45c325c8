/-
What a text can be read as.

Whatever is read nests no deeper than the reader goes, and no object of it has a key twice: the
reader of values is built level by level, and it makes a table of the members of each object. Both
are carried through the levels by one statement. What holds of every value that the parts are read
as holds of the parts of the whole.
-/
import Agenda.Json.Reader
import Agenda.Proofs.Result
import Agenda.Proofs.Value

set_option autoImplicit false

namespace Agenda.Json.Reader

/-- Whatever is read has the property. -/
def Yields {α : Type} (r : Reader α) (P : α → Prop) : Prop :=
  ∀ cs a rest, r cs = .ok (a, rest) → P a

/-- A part and the parts behind it have it if each of them has. -/
theorem forall_of_cons {α : Type} {first : Reader α} {others : Reader (List α)} {P : α → Prop}
    (hfirst : Yields first P) (hothers : Yields others fun as => ∀ a ∈ as, P a)
    {text rest : List Char} {as : List α} (h : (first text >>= fun p => others p.2 >>= fun q =>
      (.ok (p.1 :: q.1, q.2) : Except Stop (List α × List Char))) = .ok (as, rest)) :
    ∀ a ∈ as, P a := by
  intro a ha
  obtain ⟨⟨u, left⟩, hu, h⟩ := Result.bind_eq_ok_iff.1 h
  obtain ⟨⟨us, left'⟩, hus, h⟩ := Result.bind_eq_ok_iff.1 h
  obtain ⟨rfl, rfl⟩ := Prod.mk.inj (Except.ok.inj h)
  rcases List.mem_cons.1 ha with rfl | ha
  · exact hfirst _ _ _ hu
  · exact hothers _ _ _ hus a ha

section

variable {item : Reader Json} {P : Json → Prop} {size : Nat} (hitem : Yields item P)

include hitem

/-- Each element of an array that is read has it. -/
theorem elementsWithin_yields (fuel : Nat) (first : Bool) :
    Yields (elementsWithin item fuel first) fun vs => ∀ v ∈ vs, P v := by
  induction fuel generalizing first with
  | zero =>
      intro cs vs rest h
      cases h
  | succ fuel ih =>
      intro cs vs rest h
      rw [elementsWithin] at h
      -- Wherever the element begins, it is read with `item`, and so are the others behind it.
      split at h
      · cases h
      · obtain ⟨rfl, -⟩ := Prod.mk.inj (Except.ok.inj h)
        exact fun v hv => absurd hv List.not_mem_nil
      · split at h
        · exact forall_of_cons hitem (ih false) h
        · split at h
          · cases h
          · cases h
          · exact forall_of_cons hitem (ih false) h
      · split at h
        · exact forall_of_cons hitem (ih false) h
        · cases h

theorem member_yields : Yields (member size item) fun m => P m.2 := by
  intro cs m rest h
  obtain ⟨⟨key, left⟩, -, h⟩ := Result.bind_eq_ok_iff.1 h
  simp only at h
  split at h
  · cases h
  · obtain ⟨⟨v, left'⟩, hv, h⟩ := Result.bind_eq_ok_iff.1 h
    obtain ⟨rfl, -⟩ := Prod.mk.inj (Except.ok.inj h)
    exact hitem _ _ _ hv
  · cases h

/-- So has the value of each member of an object. -/
theorem membersWithin_yields (fuel : Nat) (first : Bool) :
    Yields (membersWithin size item fuel first) fun ms => ∀ m ∈ ms, P m.2 := by
  have hmember : Yields (member size item) fun m => P m.2 := member_yields hitem
  induction fuel generalizing first with
  | zero =>
      intro cs ms rest h
      cases h
  | succ fuel ih =>
      intro cs ms rest h
      rw [membersWithin] at h
      -- as for elements, with one more way to fail: what begins is no key
      split at h
      · cases h
      · obtain ⟨rfl, -⟩ := Prod.mk.inj (Except.ok.inj h)
        exact fun m hm => absurd hm List.not_mem_nil
      · split at h
        · cases h
        · split at h
          · cases h
          · exact forall_of_cons hmember (ih false) h
          · cases h
          · cases h
      · split at h
        · exact forall_of_cons hmember (ih false) h
        · cases h
      · cases h

end

/-! ## Values -/

/-- What the reader goes into. -/
def Fits (depth : Nat) (v : Json) : Prop := v.depth ≤ depth ∧ v.Tabular

theorem word_yields {value v : Json} {expected cs rest : List Char}
    (h : word value expected cs = .ok (v, rest)) : v = value := by
  induction expected generalizing cs with
  | nil => exact (Prod.mk.inj (Except.ok.inj h)).1.symm
  | cons e expected ih =>
      cases cs with
      | nil => cases h
      | cons c cs =>
          rw [word] at h
          split at h
          · exact ih h
          · cases h

theorem fits_leaf {v : Json} (depth : Nat) (hdepth : v.depth = 0) (htabular : v.Tabular) :
    Fits depth v := ⟨hdepth ▸ Nat.zero_le depth, htabular⟩

/-- A value whose parts fit one level fits the next one, and one without parts fits every level. -/
theorem valueOver_yields {size depth : Nat} {item : Option (Reader Json)}
    (hitem : ∀ r ∈ item, 0 < depth ∧ Yields r (Fits (depth - 1))) :
    Yields (valueOver size item) (Fits depth) := by
  intro cs v rest h
  rw [valueOver] at h
  -- by the character that the value begins with: words, numbers and texts have no parts
  split at h
  · cases h
  · rw [word_yields h]
    exact fits_leaf depth rfl trivial
  · rw [word_yields h]
    exact fits_leaf depth rfl trivial
  · rw [word_yields h]
    exact fits_leaf depth rfl trivial
  · obtain ⟨⟨n, left⟩, -, h⟩ := Result.bind_eq_ok_iff.1 h
    obtain ⟨rfl, -⟩ := Prod.mk.inj (Except.ok.inj h)
    exact fits_leaf depth rfl trivial
  · obtain ⟨⟨s, left⟩, -, h⟩ := Result.bind_eq_ok_iff.1 h
    obtain ⟨rfl, -⟩ := Prod.mk.inj (Except.ok.inj h)
    exact fits_leaf depth rfl trivial
  · split at h
    · cases h
    · rename_i r
      obtain ⟨hpos, hr⟩ := hitem r rfl
      obtain ⟨⟨vs, left⟩, hvs, h⟩ := Result.bind_eq_ok_iff.1 h
      obtain ⟨rfl, -⟩ := Prod.mk.inj (Except.ok.inj h)
      have hparts := elementsWithin_yields hr _ _ _ _ _ hvs
      exact ⟨Value.depth_array_le.2 ⟨hpos, fun v hv => (hparts v hv).1⟩,
        Value.tabular_array.2 fun v hv => (hparts v hv).2⟩
  · split at h
    · cases h
    · rename_i r
      obtain ⟨hpos, hr⟩ := hitem r rfl
      obtain ⟨⟨ms, left⟩, hms, h⟩ := Result.bind_eq_ok_iff.1 h
      obtain ⟨rfl, -⟩ := Prod.mk.inj (Except.ok.inj h)
      -- the table keeps one member of each key, and any of them was read
      have hparts : ∀ m ∈ Table.ofList ms, Fits (depth - 1) m.2 := fun m hm =>
        membersWithin_yields hr _ _ _ _ _ hms m (Table.mem_of_mem_ofList hm)
      exact ⟨Value.depth_object_le.2 ⟨hpos, fun m hm => (hparts m hm).1⟩,
        Value.tabular_object.2 ⟨Table.nodup_keys_ofList ms, fun m hm => (hparts m hm).2⟩⟩
  · split at h
    · obtain ⟨⟨n, left⟩, -, h⟩ := Result.bind_eq_ok_iff.1 h
      obtain ⟨rfl, -⟩ := Prod.mk.inj (Except.ok.inj h)
      exact fits_leaf depth rfl trivial
    · cases h

/-- What is read at a level fits it. -/
theorem value_yields (size depth : Nat) : Yields (value size depth) (Fits depth) := by
  induction depth with
  | zero => exact valueOver_yields fun r hr => absurd hr (by simp)
  | succ depth ih =>
      apply valueOver_yields
      rintro r ⟨⟩
      exact ⟨Nat.succ_pos depth, ih⟩

end Agenda.Json.Reader

namespace Agenda.Json

/-- What a text is read as nests no deeper than the reader goes, and its objects are tables. -/
theorem fits_of_read {text : String} {v : Json} (h : read text = .ok v) :
    v.depth ≤ maxDepth ∧ v.Tabular := by
  obtain ⟨⟨w, rest⟩, hvalue, hrest⟩ := Result.bind_eq_ok_iff.1 (Result.mapError_eq_ok_iff.1 h)
  simp only at hrest
  split at hrest
  · obtain rfl := Except.ok.inj hrest
    exact Reader.value_yields _ _ _ _ _ hvalue
  · cases hrest

end Agenda.Json
