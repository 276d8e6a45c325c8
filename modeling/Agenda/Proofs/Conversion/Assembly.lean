/-
Objects put together from rows.

A conversion of an object is seen best in a table with a row for each declared property, which says
what stands under its name before and after, and further rows for the surplus members. Read in one
direction the rows give the object before and the object after; read in the other they give the same
two objects with their places changed. What this file shows is that the conversion is determined row
by row, once the names are distinct and no surplus name is a declared one.
-/
import Agenda.Proofs.Conversion.Shape
import Agenda.Proofs.Lists

set_option autoImplicit false

namespace Agenda.Engine

variable {r : Registry} {d : Direction} {owner : Option String} {site : Site}
  {additional : Option Schema}

/-! ## What stands in a table of results -/

/-- A result is found under its name. -/
theorem find?_present {results : List (String × Option Data)} {name : String} {v : Option Data}
    (h : (results.map Prod.fst).Nodup) (hm : (name, v) ∈ results) :
    Table.find? (present results) name = v := by
  induction results with
  | nil => cases hm
  | cons m results ih =>
      rw [List.map_cons, List.nodup_cons] at h
      rcases List.mem_cons.1 hm with rfl | hrest
      · cases v with
        | none =>
            rw [present_cons_none, Table.find?_eq_none_iff]
            exact fun hkey => h.1 ((keys_present_sublist results).subset hkey)
        | some v => rw [present_cons_some, Table.find?_cons, if_pos rfl]
      · have hne : m.1 ≠ name := by
          rintro rfl
          exact h.1 (List.mem_map.2 ⟨_, hrest, rfl⟩)
        have hfound := ih h.2 hrest
        obtain ⟨other, _ | w⟩ := m
        · rw [present_cons_none, hfound]
        · rw [present_cons_some, Table.find?_cons, if_neg hne, hfound]

/-- So is the result for a property, under one of its names. -/
theorem find?_present_zip {name : Property Schema → String} {properties : List (Property Schema)}
    {vs : List (Option Data)} (hnames : (properties.map name).Nodup)
    (hlength : properties.length = vs.length) {p : Property Schema} {v : Option Data}
    (h : (p, v) ∈ properties.zip vs) :
    Table.find? (present ((properties.map name).zip vs)) (name p) = v := by
  refine find?_present ?_ ?_
  · rwa [List.map_fst_zip (by rw [List.length_map, hlength])]
  · rw [List.zip_map_left]
    exact List.mem_map.2 ⟨_, h, rfl⟩

theorem mem_present {results : List (String × Option Data)} {m : String × Data}
    (h : m ∈ present results) : (m.1, some m.2) ∈ results := by
  rw [present, List.mem_filterMap] at h
  obtain ⟨⟨name, _ | v⟩, hmem, hv⟩ := h
  · cases hv
  · obtain rfl := Option.some.inj hv
    exact hmem

/-- Storing under other names leaves what was there alone. -/
theorem storeAll_of_notMem {start u : Table Data} {results : List (String × Option Data)}
    (h : ∀ m ∈ results, m.1 ∉ Table.keys start) :
    storeAll (start ++ u) results = start ++ storeAll u results := by
  induction results generalizing u with
  | nil => rfl
  | cons m results ih =>
      have hrest := fun u => ih (u := u) fun n hn => h n (List.mem_cons_of_mem _ hn)
      obtain ⟨name, _ | v⟩ := m
      · exact hrest u
      · have hname := h _ List.mem_cons_self
        rw [storeAll, List.foldl_cons, store, Table.insert_append_of_notMem u v hname]
        exact hrest _

/-- Behind results under some names, what has other names is stored by itself. -/
theorem storeAll_zip_append {names : List String} {vs : List (Option Data)}
    {results : List (String × Option Data)} (hnames : names.Nodup)
    (hlength : names.length = vs.length) (hother : ∀ m ∈ results, m.1 ∉ names) :
    storeAll (storeAll [] (names.zip vs)) results =
      present (names.zip vs) ++ storeAll [] results := by
  have hkeys : ∀ m ∈ results, m.1 ∉ Table.keys (present (names.zip vs)) := by
    intro m hm hkey
    have hname := (keys_present_sublist _).subset hkey
    rw [List.map_fst_zip (le_of_eq hlength)] at hname
    exact hother m hm hname
  have hstore := storeAll_of_notMem (u := []) hkeys
  rw [List.append_nil] at hstore
  rw [storeAll_zip hnames hlength, hstore]

/-- No name comes twice in what was stored. -/
theorem nodup_keys_storeAll {start : Table Data} (results : List (String × Option Data))
    (h : (Table.keys start).Nodup) : (Table.keys (storeAll start results)).Nodup := by
  induction results generalizing start with
  | nil => exact h
  | cons m results ih =>
      obtain ⟨name, _ | v⟩ := m
      · exact ih h
      · exact ih (Table.nodup_keys_insert name v h)

/-- What was stored was there before or is one of the results. -/
theorem mem_storeAll {start : Table Data} {results : List (String × Option Data)}
    {m : String × Data} (h : m ∈ storeAll start results) :
    m ∈ start ∨ (m.1, some m.2) ∈ results := by
  induction results generalizing start with
  | nil => exact .inl h
  | cons n results ih =>
      rcases ih h with hm | hm
      · obtain ⟨name, _ | v⟩ := n
        · exact .inl hm
        · rcases Table.mem_insert hm with hm | rfl
          · exact .inl hm
          · exact .inr List.mem_cons_self
      · exact .inr (List.mem_cons_of_mem _ hm)

/-- Under distinct names a stored result is found, and what was there where none was stored. -/
theorem find?_storeAll {start : Table Data} {results : List (String × Option Data)}
    (h : (results.map Prod.fst).Nodup) (name : String) :
    Table.find? (storeAll start results) name =
      (Table.find? (present results) name).or (Table.find? start name) := by
  induction results generalizing start with
  | nil => rfl
  | cons m results ih =>
      rw [List.map_cons, List.nodup_cons] at h
      obtain ⟨other, _ | v⟩ := m
      · exact ih h.2
      · have hother : other ∉ Table.keys (present results) :=
          fun hkey => h.1 ((keys_present_sublist results).subset hkey)
        rw [storeAll, List.foldl_cons, store, ← storeAll, ih h.2, present_cons_some,
          Table.find?_cons]
        by_cases hname : other = name
        · subst hname
          rw [Table.find?_insert_self, if_pos rfl, Table.find?_eq_none_iff.2 hother]
          rfl
        · rw [Table.find?_insert_of_ne _ _ (Ne.symm hname), if_neg hname]

/-- In a converted object a surplus result comes before a declared one under the same name. -/
theorem find?_storeAll_zip {names keys : List String} {vs ws : List (Option Data)}
    (hnames : names.Nodup) (hkeys : keys.Nodup) (hvs : names.length = vs.length)
    (hws : keys.length = ws.length) (name : String) :
    Table.find? (storeAll (storeAll [] (names.zip vs)) (keys.zip ws)) name =
      (Table.find? (present (keys.zip ws)) name).or
        (Table.find? (present (names.zip vs)) name) := by
  rw [storeAll_zip hnames hvs, find?_storeAll]
  rwa [List.map_fst_zip (le_of_eq hws)]

/-- Related results under the same names are found as related. -/
theorem rel_find?_present {R : Data → Data → Prop} {names : List String}
    {vs ws : List (Option Data)} (h : List.Forall₂ (Option.Rel R) vs ws) (name : String) :
    Option.Rel R (Table.find? (present (names.zip vs)) name)
      (Table.find? (present (names.zip ws)) name) := by
  induction h generalizing names with
  | nil =>
      rw [List.zip_nil_right]
      exact .none
  | @cons v w vs ws hvw _ ih =>
      cases names with
      | nil => exact .none
      | cons other names =>
          rw [List.zip_cons_cons, List.zip_cons_cons]
          cases hvw with
          | none => exact ih
          | some hvw =>
              rw [present_cons_some, present_cons_some, Table.find?_cons, Table.find?_cons]
              by_cases hname : other = name
              · rw [if_pos hname, if_pos hname]
                exact .some hvw
              · rw [if_neg hname, if_neg hname]
                exact ih

/-- What is found among results that stand beside the members of a table. -/
theorem find?_present_keys {R : String × Data → Option Data → Prop} {t : Table Data}
    {ws : List (Option Data)} (hkeys : (Table.keys t).Nodup) (h : List.Forall₂ R t ws)
    (key : String) :
    (∃ v, Table.find? t key = some v ∧
      R (key, v) (Table.find? (present ((Table.keys t).zip ws)) key)) ∨
    (Table.find? t key = none ∧ Table.find? (present ((Table.keys t).zip ws)) key = none) := by
  have hnames : ((Table.keys t).zip ws).map Prod.fst = Table.keys t := by
    rw [List.map_fst_zip]
    rw [Table.keys, List.length_map, h.length_eq]
  cases hfind : Table.find? t key with
  | none =>
      refine .inr ⟨rfl, ?_⟩
      rw [Table.find?_eq_none_iff] at hfind ⊢
      exact fun hkey => hfind (hnames ▸ (keys_present_sublist _).subset hkey)
  | some v =>
      obtain ⟨w, hmem, hw⟩ := exists_mem_zip_of_forall₂ h (Table.mem_of_find? hfind)
      refine .inl ⟨v, rfl, ?_⟩
      rw [find?_present (hnames.symm ▸ hkeys) (v := w)]
      · exact hw
      · rw [Table.keys, List.zip_map_left]
        exact List.mem_map.2 ⟨_, hmem, rfl⟩

/-! ## Objects without surplus members -/

/-- An object that refuses surplus members becomes the object of its declared ones. -/
theorem convertUnder_strict_eq_ok_iff {x out : Option Data} {properties : List (Property Schema)}
    (hsource : (properties.map d.sourceName).Nodup)
    (htarget : (properties.map d.targetName).Nodup) :
    convertUnder r d owner x site (.object properties none) = .ok out ↔
      ∃ members vs, x = some (.object members) ∧
        List.Forall₂ (fun p v => convertProperty r d owner members p = .ok v) properties vs ∧
        surplus d properties members = [] ∧
        out = some (.object (present ((properties.map d.targetName).zip vs))) := by
  have hstored : ∀ vs : List (Option Data), properties.length = vs.length →
      storeAll [] ((properties.map d.targetName).zip vs) =
        present ((properties.map d.targetName).zip vs) := by
    intro vs hlength
    exact storeAll_zip htarget (by rw [List.length_map, hlength])
  rw [convertUnder_object_eq_ok_iff hsource]
  constructor
  · rintro ⟨members, vs, ws, rfl, hvs, hws, rfl⟩
    -- a surplus member would be one that a schema takes, and there is none
    have hnone : surplus d properties members = [] := by
      revert hws
      generalize surplus d properties members = extras
      intro hws
      cases hws with
      | nil => rfl
      | cons hm _ =>
          obtain ⟨_, hextra, _⟩ := hm
          cases hextra
    refine ⟨members, vs, rfl, hvs, hnone, ?_⟩
    rw [hnone, hstored vs hvs.length_eq]
    rfl
  · rintro ⟨members, vs, rfl, hvs, hnone, rfl⟩
    refine ⟨members, vs, [], rfl, hvs, by rw [hnone]; exact .nil, ?_⟩
    rw [hnone, hstored vs hvs.length_eq]
    rfl

/-! ## Objects whose surplus members stay apart -/

theorem present_map_some {ε : Type} (extras : List ε) (key : ε → String) (value : ε → Data) :
    present (extras.map fun e => (key e, some (value e))) =
      extras.map fun e => (key e, value e) := by
  induction extras with
  | nil => rfl
  | cons e extras ih => rw [List.map_cons, present_cons_some, ih, List.map_cons]

/-- Where no surplus member has the new name of a declared one, a converted object consists of the
declared members and, behind them, of the surplus ones. -/
theorem exists_parts_of_apart_eq_ok (hr : r.Acyclic) {properties : List (Property Schema)}
    {members : Table Data} {out : Option Data} (hsource : (properties.map d.sourceName).Nodup)
    (htarget : (properties.map d.targetName).Nodup) (hkeys : (Table.keys members).Nodup)
    (hapart : ∀ m ∈ surplus d properties members, m.1 ∉ properties.map d.targetName)
    (h : convertUnder r d owner (some (.object members)) site (.object properties additional) =
      .ok out) :
    ∃ (vs : List (Option Data)) (ws : List Data),
      List.Forall₂ (fun p v => convertProperty r d owner members p = .ok v) properties vs ∧
      List.Forall₂ (fun m w => ConvertsSurplus r d owner additional m (some w))
        (surplus d properties members) ws ∧
      out = some (.object (present ((properties.map d.targetName).zip vs) ++
        (Table.keys (surplus d properties members)).zip ws)) := by
  obtain ⟨_, vs, os, ⟨⟩, hvs, hos, rfl⟩ := (convertUnder_object_eq_ok_iff hsource).1 h
  -- a surplus member is present, so what it is converted to is
  obtain ⟨ws, rfl, hws⟩ : ∃ ws : List Data, os = ws.map some ∧
      List.Forall₂ (fun m w => ConvertsSurplus r d owner additional m (some w))
        (surplus d properties members) ws := by
    have hpresent : List.Forall₂ (fun m o => ∃ w,
        ConvertsSurplus r d owner additional m (some w) ∧ o = some w)
        (surplus d properties members) os := by
      refine hos.imp fun m o ⟨extra, hextra, ho⟩ => ?_
      obtain ⟨w, rfl⟩ := exists_some_of_eq_ok hr (convert_eq_convertUnder _ _ _ ▸ ho)
      exact ⟨w, ⟨extra, hextra, ho⟩, rfl⟩
    obtain ⟨ws, hws, hsome⟩ := exists_forall₂_both hpresent
    refine ⟨ws, ?_, hws⟩
    rwa [← List.forall₂_map_right_iff, List.forall₂_eq_eq_eq] at hsome
  have hsurplus := nodup_keys_surplus d properties hkeys
  have hlength : (Table.keys (surplus d properties members)).length = (ws.map some).length := by
    rw [Table.keys, List.length_map, List.length_map, hws.length_eq]
  have hnames : ∀ m ∈ (Table.keys (surplus d properties members)).zip (ws.map some),
      m.1 ∉ properties.map d.targetName := by
    intro m hm
    obtain ⟨u, hu, heq⟩ := List.mem_map.1 (List.of_mem_zip hm).1
    exact heq ▸ hapart u hu
  have hzip : (Table.keys (surplus d properties members)).zip (ws.map some) =
      ((Table.keys (surplus d properties members)).zip ws).map fun e => (e.1, some e.2) := by
    rw [List.zip_map_right]
    rfl
  refine ⟨vs, ws, hvs, hws, ?_⟩
  rw [storeAll_zip_append htarget (by rw [List.length_map, hvs.length_eq]) hnames,
    storeAll_zip hsurplus hlength, hzip, present_map_some, List.map_id']

/-! ## The conversion, row by row -/

section

variable {ρ ε : Type} {rows : List ρ} {property : ρ → Property Schema}
  {before after : ρ → Option Data} {extras : List ε} {key : ε → String} {given made : ε → Data}

/-- The object with the declared values of the rows under one of their names, and the surplus
values behind them. -/
def assembled (name : Property Schema → String) (rows : List ρ) (property : ρ → Property Schema)
    (value : ρ → Option Data) (extras : List ε) (key : ε → String) (surplusValue : ε → Data) :
    Data :=
  .object (present (rows.map fun w => (name (property w), value w)) ++
    extras.map fun e => (key e, surplusValue e))

/-- A declared value is found under its name. -/
theorem find?_assembled {name : Property Schema → String}
    (hnames : (rows.map fun w => name (property w)).Nodup)
    (hother : ∀ e ∈ extras, key e ∉ rows.map fun w => name (property w)) {w : ρ} (hw : w ∈ rows) :
    Table.find? (present (rows.map fun w => (name (property w), before w)) ++
      extras.map fun e => (key e, given e)) (name (property w)) = before w := by
  have hrow : Table.find? (present (rows.map fun w => (name (property w), before w)))
      (name (property w)) = before w := by
    refine find?_present ?_ (List.mem_map.2 ⟨w, hw, rfl⟩)
    rw [List.map_map]
    exact hnames
  have hextra : Table.find? (extras.map fun e => (key e, given e)) (name (property w)) = none := by
    rw [Table.find?_eq_none_iff, Table.keys, List.map_map]
    intro hm
    obtain ⟨e, he, hkey⟩ := List.mem_map.1 hm
    exact hother e he (List.mem_map.2 ⟨w, hw, hkey.symm⟩)
  rw [Table.find?_append, hrow, hextra, Option.or_none]

/-- The surplus members are those behind the declared ones. -/
theorem surplus_assembled
    (hother : ∀ e ∈ extras, key e ∉ rows.map fun w => d.sourceName (property w)) :
    surplus d (rows.map property)
        (present (rows.map fun w => (d.sourceName (property w), before w)) ++
          extras.map fun e => (key e, given e)) =
      extras.map fun e => (key e, given e) := by
  have hnames : (rows.map property).map d.sourceName =
      rows.map fun w => d.sourceName (property w) := List.map_map
  apply surplus_append
  · intro m hm
    obtain ⟨w, hw, heq⟩ := List.mem_map.1 (mem_present hm)
    rw [hnames]
    exact List.mem_map.2 ⟨w, hw, congrArg Prod.fst heq⟩
  · intro m hm
    obtain ⟨e, he, rfl⟩ := List.mem_map.1 hm
    rw [hnames]
    exact hother e he

/-- If every row is a conversion, and every surplus row as well, then so is the whole. -/
theorem convertUnder_assembled
    (hsource : (rows.map fun w => d.sourceName (property w)).Nodup)
    (htarget : (rows.map fun w => d.targetName (property w)).Nodup)
    (hkeys : (extras.map key).Nodup)
    (hothersource : ∀ e ∈ extras, key e ∉ rows.map fun w => d.sourceName (property w))
    (hothertarget : ∀ e ∈ extras, key e ∉ rows.map fun w => d.targetName (property w))
    (hrows : ∀ w ∈ rows, ∀ site, convert r d (before w) site (property w).schema = .ok (after w))
    (hextras : ∀ e ∈ extras, ∃ extra ∈ additional, ∀ site,
      convert r d (some (given e)) site extra = .ok (some (made e))) :
    convertUnder r d owner (some (assembled d.sourceName rows property before extras key given))
        site (.object (rows.map property) additional) =
      .ok (some (assembled d.targetName rows property after extras key made)) := by
  have hnames : ((rows.map property).map d.sourceName).Nodup := by
    rw [List.map_map]
    exact hsource
  refine (convertUnder_object_eq_ok_iff hnames).2 ⟨_, rows.map after,
    extras.map fun e => some (made e), rfl, ?_, ?_, ?_⟩
  · rw [List.forall₂_map_left_iff, List.forall₂_map_right_iff, List.forall₂_same]
    intro w hw
    rw [convertProperty, find?_assembled hsource hothersource hw]
    exact hrows w hw _
  · rw [surplus_assembled hothersource, List.forall₂_map_left_iff, List.forall₂_map_right_iff,
      List.forall₂_same]
    intro e he
    obtain ⟨extra, hextra, hmade⟩ := hextras e he
    exact ⟨extra, hextra, hmade _⟩
  -- what is stored under the target names, declared rows first, is the object assembled from them
  · have hdeclared : ((rows.map property).map d.targetName).zip (rows.map after) =
        rows.map fun w => (d.targetName (property w), after w) := by
      rw [List.map_map, List.zip_map']
      rfl
    have hsurplus : (Table.keys (extras.map fun e => (key e, given e))).zip
        (extras.map fun e => some (made e)) = extras.map fun e => (key e, some (made e)) := by
      rw [Table.keys, List.map_map, List.zip_map']
      rfl
    rw [surplus_assembled hothersource, hdeclared, hsurplus, assembled, ← present_map_some,
      storeAll_of_nodup, storeAll_of_nodup, List.nil_append]
    · rw [Table.keys_nil, List.nil_append, List.map_map]
      exact htarget
    · rw [storeAll_of_nodup (by rw [Table.keys_nil, List.nil_append, List.map_map]; exact htarget),
        List.nil_append, List.map_map]
      refine List.nodup_append.2 ⟨?_, hkeys, ?_⟩
      · refine List.Nodup.sublist (keys_present_sublist _) ?_
        rw [List.map_map]
        exact htarget
      · rintro a ha b hb rfl
        obtain ⟨e, he, rfl⟩ := List.mem_map.1 hb
        have hmem := (keys_present_sublist _).subset ha
        rw [List.map_map] at hmem
        exact hothertarget e he hmem

end

end Agenda.Engine
