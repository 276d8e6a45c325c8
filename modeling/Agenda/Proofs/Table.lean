/-
What a table holds after it has been built.

`Agenda.Table` says how one insertion changes look-ups and keys. Here are the facts about whole
tables that proofs about objects need: a look-up is membership as soon as no key comes twice, an
insertion under a new key is an append, a list of pairs under distinct keys builds itself, of pairs
under one key the first gives the place and the last the value, and members under the same keys
build tables that are found alike.
-/
import Agenda.Table
import Mathlib.Data.List.Forall2
import Mathlib.Data.List.Induction
import Mathlib.Data.List.Nodup

set_option autoImplicit false

namespace Agenda.Table

variable {α β : Type}

/-! ## Keys -/

@[simp] theorem keys_nil : keys ([] : Table α) = [] := rfl

@[simp] theorem keys_cons (p : String × α) (t : Table α) : keys (p :: t) = p.1 :: keys t := rfl

@[simp] theorem keys_append (t u : Table α) : keys (t ++ u) = keys t ++ keys u := by
  simp only [keys, List.map_append]

@[simp] theorem keys_map (f : α → β) (t : Table α) :
    keys (t.map fun p => (p.1, f p.2)) = keys t := by
  simp only [keys, List.map_map, Function.comp_def]

theorem mem_keys_of_mem {t : Table α} {key : String} {a : α} (h : (key, a) ∈ t) :
    key ∈ keys t := List.mem_map.2 ⟨(key, a), h, rfl⟩

/-! ## Look-ups -/

theorem find?_cons (p : String × α) (t : Table α) (key : String) :
    find? (p :: t) key = if p.1 = key then some p.2 else find? t key := rfl

/-- What is found stands in the table. -/
theorem mem_of_find? {t : Table α} {key : String} {a : α} (h : find? t key = some a) :
    (key, a) ∈ t := by
  induction t with
  | nil => exact absurd h (by simp [find?])
  | cons p t ih =>
      rw [find?_cons] at h
      split at h
      · rename_i hk
        obtain ⟨k, b⟩ := p
        simp only [Option.some.injEq] at h hk
        simp only [hk, h, List.mem_cons, true_or]
      · exact List.mem_cons_of_mem _ (ih h)

/-- Where no key comes twice, what stands in the table is found. -/
theorem find?_of_mem {t : Table α} {key : String} {a : α} (h : (keys t).Nodup)
    (hm : (key, a) ∈ t) : find? t key = some a := by
  induction t with
  | nil => cases hm
  | cons p t ih =>
      rw [keys_cons, List.nodup_cons] at h
      rw [find?_cons]
      rcases List.mem_cons.1 hm with rfl | hm
      · rw [if_pos rfl]
      · have hne : p.1 ≠ key := by
          rintro rfl
          exact h.1 (mem_keys_of_mem hm)
        rw [if_neg hne, ih h.2 hm]

/-- Nothing is found under a key exactly when the table does not have it. -/
theorem find?_eq_none_iff {t : Table α} {key : String} : find? t key = none ↔ key ∉ keys t := by
  induction t with
  | nil => simp [find?]
  | cons p t ih =>
      rw [find?_cons, keys_cons, List.mem_cons]
      by_cases h : p.1 = key
      · simp [h]
      · rw [if_neg h, ih]
        simp [Ne.symm h]

theorem exists_find?_of_mem_keys {t : Table α} {key : String} (h : key ∈ keys t) :
    ∃ a, find? t key = some a := by
  rw [← Option.ne_none_iff_exists']
  exact fun hnone => find?_eq_none_iff.1 hnone h

theorem isSome_find?_iff {t : Table α} {key : String} :
    (find? t key).isSome = true ↔ key ∈ keys t := by
  rw [Option.isSome_iff_ne_none, ne_eq, find?_eq_none_iff, not_not]

theorem find?_append (t u : Table α) (key : String) :
    find? (t ++ u) key = (find? t key).or (find? u key) := by
  induction t with
  | nil => simp [find?]
  | cons p t ih =>
      rw [List.cons_append, find?_cons, find?_cons]
      split
      · rfl
      · exact ih

/-- A look-up among values that were all changed alike. -/
theorem find?_map (f : α → β) (t : Table α) (key : String) :
    find? (t.map fun p => (p.1, f p.2)) key = (find? t key).map f := by
  induction t with
  | nil => rfl
  | cons p t ih =>
      rw [List.map_cons, find?_cons, find?_cons]
      split
      · rfl
      · exact ih

/-! ## Insertions -/

/-- A new key comes last. -/
theorem insert_of_notMem {t : Table α} {key : String} (a : α) (h : key ∉ keys t) :
    insert t key a = t ++ [(key, a)] := by
  induction t with
  | nil => rfl
  | cons p t ih =>
      rw [keys_cons, List.mem_cons, not_or] at h
      rw [insert, if_neg (Ne.symm h.1), ih h.2, List.cons_append]

/-- Everything in a table stood there before, or is what was put in. -/
theorem mem_insert {t : Table α} {key : String} {a : α} {p : String × α}
    (h : p ∈ insert t key a) : p ∈ t ∨ p = (key, a) := by
  induction t with
  | nil => exact .inr (by simpa [insert] using h)
  | cons q t ih =>
      rw [insert] at h
      split at h
      · rename_i hk
        rcases List.mem_cons.1 h with hp | hp
        · exact .inr (by rw [hp, hk])
        · exact .inl (List.mem_cons_of_mem _ hp)
      · rcases List.mem_cons.1 h with hp | hp
        · exact .inl (hp ▸ List.mem_cons_self)
        · exact (ih hp).imp (List.mem_cons_of_mem _) id

/-- An insertion under a key of the second part leaves the first part alone. -/
theorem insert_append_of_notMem {t : Table α} (u : Table α) {key : String} (a : α)
    (h : key ∉ keys t) : insert (t ++ u) key a = t ++ insert u key a := by
  induction t with
  | nil => rfl
  | cons p t ih =>
      rw [keys_cons, List.mem_cons, not_or] at h
      rw [List.cons_append, insert, if_neg (Ne.symm h.1), ih h.2, List.cons_append]

/-- Pairs under distinct keys, put in one after the other, follow what was there. -/
theorem foldl_insert_of_nodup (pairs t : Table α) (h : (keys (t ++ pairs)).Nodup) :
    pairs.foldl (fun t p => insert t p.1 p.2) t = t ++ pairs := by
  induction pairs generalizing t with
  | nil => simp
  | cons p rest ih =>
      have hp : p.1 ∉ keys t := by
        rw [keys_append, keys_cons, List.nodup_append] at h
        exact fun hm => h.2.2 _ hm _ List.mem_cons_self rfl
      rw [List.foldl_cons, insert_of_notMem _ hp, ih, List.append_assoc]
      · rfl
      · rw [List.append_assoc]
        exact h

/-- Pairs under distinct keys build the table that they are. -/
theorem ofList_of_nodup {pairs : Table α} (h : (keys pairs).Nodup) : ofList pairs = pairs := by
  rw [ofList, foldl_insert_of_nodup pairs [] (by simpa using h), List.nil_append]

/-- A table that is built has no key twice. -/
theorem nodup_keys_ofList (pairs : List (String × α)) : (keys (ofList pairs)).Nodup := by
  have hfold : ∀ (t : Table α), (keys t).Nodup →
      (keys (pairs.foldl (fun t p => insert t p.1 p.2) t)).Nodup := by
    induction pairs with
    | nil => exact fun t ht => ht
    | cons p rest ih => exact fun t ht => ih _ (nodup_keys_insert p.1 p.2 ht)
  exact hfold [] (by simp)

/-- The keys of a table that is built are those of the pairs. -/
theorem mem_keys_ofList {pairs : List (String × α)} {key : String} :
    key ∈ keys (ofList pairs) ↔ key ∈ keys pairs := by
  have hinsert : ∀ (t : Table α) (p : String × α),
      key ∈ keys (insert t p.1 p.2) ↔ key ∈ keys t ∨ key = p.1 := by
    intro t p
    rw [keys_insert]
    split
    · rename_i hp
      exact ⟨.inl, fun h => h.elim id fun h => h ▸ hp⟩
    · rw [List.mem_append, List.mem_singleton]
  have hfold : ∀ (t : Table α), key ∈ keys (pairs.foldl (fun t p => insert t p.1 p.2) t) ↔
      key ∈ keys t ∨ key ∈ keys pairs := by
    induction pairs with
    | nil => simp
    | cons p rest ih =>
        intro t
        rw [List.foldl_cons, ih, hinsert, keys_cons, List.mem_cons, or_assoc]
  rw [ofList, hfold]
  simp

/-- Everything in a table that is built is one of the pairs. -/
theorem mem_of_mem_ofList {pairs : List (String × α)} {p : String × α} (h : p ∈ ofList pairs) :
    p ∈ pairs := by
  have hfold : ∀ (t : Table α), p ∈ pairs.foldl (fun t p => insert t p.1 p.2) t →
      p ∈ t ∨ p ∈ pairs := by
    clear h
    induction pairs with
    | nil => exact fun t ht => .inl ht
    | cons q rest ih =>
        intro t ht
        rcases ih _ ht with hm | hm
        · rcases mem_insert hm with hm | rfl
          · exact .inl hm
          · exact .inr List.mem_cons_self
        · exact .inr (List.mem_cons_of_mem _ hm)
  exact (hfold [] h).resolve_left (by simp)

/-- The last pair goes in last. -/
theorem ofList_append_singleton (pairs : List (String × α)) (p : String × α) :
    ofList (pairs ++ [p]) = insert (ofList pairs) p.1 p.2 := by
  rw [ofList, List.foldl_append]
  rfl

/-- The keys of a table that is built come in the order of their first pairs. -/
theorem pairwise_keys_ofList (pairs : List (String × α)) :
    (keys (ofList pairs)).Pairwise fun a b =>
      (keys pairs).idxOf a < (keys pairs).idxOf b := by
  induction pairs using List.reverseRecOn with
  | nil => exact .nil
  | append_singleton pairs p ih =>
      -- the keys that are there already have their first pairs before the last one
      have hplace : ∀ {a}, a ∈ keys (ofList pairs) →
          (keys (pairs ++ [p])).idxOf a = (keys pairs).idxOf a := by
        intro a ha
        rw [keys_append, List.idxOf_append_of_mem (mem_keys_ofList.1 ha)]
      have hbefore : (keys (ofList pairs)).Pairwise fun a b =>
          (keys (pairs ++ [p])).idxOf a < (keys (pairs ++ [p])).idxOf b := by
        refine ih.imp_of_mem fun ha hb hab => ?_
        rwa [hplace ha, hplace hb]
      rw [ofList_append_singleton, keys_insert]
      split
      · exact hbefore
      · rename_i hp
        rw [List.pairwise_append]
        refine ⟨hbefore, List.pairwise_singleton _ _, ?_⟩
        intro a ha b hb
        obtain rfl := List.mem_singleton.1 hb
        have hnew : p.1 ∉ keys pairs := fun hm => hp (mem_keys_ofList.2 hm)
        rw [hplace ha, keys_append, List.idxOf_append_of_notMem hnew]
        exact Nat.lt_add_right _ (List.idxOf_lt_length_of_mem (mem_keys_ofList.1 ha))

/-- Under a key a table that is built has what the last pair with this key says. -/
theorem find?_ofList_eq_some_iff {pairs : List (String × α)} {key : String} {a : α} :
    find? (ofList pairs) key = some a ↔
      ∃ i : Nat, pairs[i]? = some (key, a) ∧ key ∉ (keys pairs).drop (i + 1) := by
  induction pairs using List.reverseRecOn with
  | nil => simp [ofList, find?]
  | append_singleton pairs p ih =>
      have hlength : (keys pairs).length = pairs.length := List.length_map _
      rw [ofList_append_singleton]
      by_cases hp : p.1 = key
      · subst hp
        rw [find?_insert_self]
        constructor
        · rintro ⟨⟩
          refine ⟨pairs.length, by simp, ?_⟩
          rw [List.drop_eq_nil_of_le (by simp [keys])]
          exact List.not_mem_nil
        · rintro ⟨i, hi, hlast⟩
          -- no other pair is the last one with the key of the last pair
          have hle : pairs.length ≤ i := by
            by_contra hlt
            rw [keys_append, List.drop_append_of_le_length (by omega)] at hlast
            exact hlast (List.mem_append_right _ List.mem_cons_self)
          rw [List.getElem?_append_right hle, List.getElem?_singleton] at hi
          split at hi
          · rw [Option.some.inj hi]
          · cases hi
      · rw [find?_insert_of_ne _ _ (Ne.symm hp), ih]
        apply exists_congr
        intro i
        by_cases hlt : i < pairs.length
        · rw [List.getElem?_append_left hlt, keys_append, List.drop_append_of_le_length (by omega)]
          simp [Ne.symm hp]
        · rw [List.getElem?_append_right (by omega), List.getElem?_singleton,
            List.getElem?_eq_none (by omega)]
          simp only [reduceCtorEq, false_and, false_iff, not_and]
          split
          · rintro ⟨⟩
            exact absurd rfl hp
          · rintro ⟨⟩

/-! ## Lists made from a table -/

/-- What only the value under one key can give is counted there. -/
theorem count_flatMap [DecidableEq β] {t : Table α} (ht : (keys t).Nodup) {f : String × α → List β}
    {key : String} {b : β} (h : ∀ p ∈ t, b ∈ f p → p.1 = key) :
    (t.flatMap f).count b = (find? t key).elim 0 fun a => (f (key, a)).count b := by
  induction t with
  | nil => rfl
  | cons p t ih =>
      rw [keys_cons, List.nodup_cons] at ht
      rw [List.flatMap_cons, List.count_append, find?_cons,
        ih ht.2 fun q hq => h q (List.mem_cons_of_mem _ hq)]
      split
      · rename_i hp
        subst hp
        rw [find?_eq_none_iff.2 ht.1]
        rfl
      · rename_i hp
        have hnone : b ∉ f p := fun hb => hp (h p List.mem_cons_self hb)
        rw [List.count_eq_zero.2 hnone, Nat.zero_add]

/-! ## Tables beside tables -/

/-- Members under the same keys, with values in a relation. -/
def Paired (R : α → β → Prop) (ms : List (String × α)) (ns : List (String × β)) : Prop :=
  List.Forall₂ (fun m n => m.1 = n.1 ∧ R m.2 n.2) ms ns

variable {R : α → β → Prop}

theorem Paired.rel_find? {ms : Table α} {ns : Table β} (h : Paired R ms ns) (key : String) :
    Option.Rel R (find? ms key) (find? ns key) := by
  induction h with
  | nil => exact .none
  | cons hmn _ ih =>
      rw [find?_cons, find?_cons, hmn.1]
      split
      · exact .some hmn.2
      · exact ih

theorem Paired.insert {ms : Table α} {ns : Table β} (h : Paired R ms ns) (key : String) {a : α}
    {b : β} (hab : R a b) : Paired R (Table.insert ms key a) (Table.insert ns key b) := by
  induction h with
  | nil => exact .cons ⟨rfl, hab⟩ .nil
  | @cons m n _ _ hmn hrest ih =>
      rw [Table.insert, Table.insert, hmn.1]
      split
      · exact .cons ⟨rfl, hab⟩ hrest
      · exact .cons ⟨rfl, hmn.2⟩ ih

/-- Tables are built alike from members under the same keys. -/
theorem Paired.ofList {ms : List (String × α)} {ns : List (String × β)} (h : Paired R ms ns) :
    Paired R (ofList ms) (ofList ns) := by
  have hfold : ∀ {ts : Table α} {us : Table β}, Paired R ts us →
      Paired R (ms.foldl (fun t p => Table.insert t p.1 p.2) ts)
        (ns.foldl (fun t p => Table.insert t p.1 p.2) us) := by
    induction h with
    | nil => exact id
    | @cons m n _ _ hmn _ ih =>
        intro ts us hts
        rw [List.foldl_cons, List.foldl_cons, hmn.1]
        exact ih (hts.insert n.1 hmn.2)
  exact hfold .nil

end Agenda.Table
