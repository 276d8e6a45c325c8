/-
The order of keys.

Two values that differ only in the order of the keys of their objects are converted alike: both into
values that differ in the same way, or neither. The order does matter to how the engine works. The
declared properties are converted in the order of the schema and the other members in the order of
the object, and of two results under one name the later one stays. But the declared ones all come
first and no two of either kind share a name, so what is found under a name does not depend on the
order; and since a reordered part is taken or rejected like the part itself, a union comes to the
same candidate.
-/
import Agenda.Proofs.Conversion.Assembly

set_option autoImplicit false

namespace Agenda

/-- One value is the other with the keys of its objects in some order, at any depth. An object with
a key given twice is reordered to nothing, since then the order would count. -/
inductive Reordered : Data → Data → Prop where
  | null : Reordered .null .null
  | bool (b : Bool) : Reordered (.bool b) (.bool b)
  | number (n : Number) : Reordered (.number n) (.number n)
  | string (s : String) : Reordered (.string s) (.string s)
  | atom (t : Instant) : Reordered (.atom t) (.atom t)
  | array {items others : List Data} (hlength : items.length = others.length)
      (h : ∀ v w, (v, w) ∈ items.zip others → Reordered v w) :
      Reordered (.array items) (.array others)
  | object {members others : Table Data} (hdistinct : (Table.keys members).Nodup)
      (hkeys : (Table.keys members).Perm (Table.keys others))
      (h : ∀ key v w, Table.find? members key = some v → Table.find? others key = some w →
        Reordered v w) :
      Reordered (.object members) (.object others)

namespace Reordered

variable {v w : Data} {items others : List Data}

/-- Elements of arrays keep their places. -/
theorem of_forall₂ (h : List.Forall₂ Reordered items others) :
    Reordered (.array items) (.array others) := by
  rw [List.forall₂_iff_zip] at h
  apply array h.1
  intro v w hvw
  exact h.2 hvw

/-- Being reordered goes both ways. -/
theorem symm (h : Reordered v w) : Reordered w v := by
  induction h with
  | null => exact null
  | bool b => exact bool b
  | number n => exact number n
  | string s => exact string s
  | atom t => exact atom t
  | array hlength _ ih =>
      have hpairs := List.forall₂_iff_zip.2 ⟨hlength, fun {v w} hvw => ih v w hvw⟩
      exact of_forall₂ hpairs.flip
  | object hdistinct hkeys _ ih =>
      apply object (hkeys.nodup_iff.1 hdistinct) hkeys.symm
      intro key v w hv hw
      exact ih key w v hw hv

/-- No key comes twice in an object that may be reordered. -/
theorem nodup_keys {members : Table Data} (h : Reordered (.object members) w) :
    (Table.keys members).Nodup := by
  cases h with
  | object hdistinct _ _ => exact hdistinct

/-- Under each key there is the same up to order on both sides, or nothing on either. -/
theorem rel_find? {members others : Table Data} (h : Reordered (.object members) (.object others))
    (key : String) :
    Option.Rel Reordered (Table.find? members key) (Table.find? others key) := by
  cases h with
  | object _ hkeys h =>
      rw [optionRel_iff]
      constructor
      · rw [Bool.eq_iff_iff, Table.isSome_find?_iff, Table.isSome_find?_iff]
        exact hkeys.mem_iff
      · intro v w hv hw
        exact h key v w hv hw

theorem exists_object {members : Table Data} (h : Reordered (.object members) w) :
    ∃ others, w = .object others := by
  cases h with
  | object _ _ _ => exact ⟨_, rfl⟩

/-- For two given objects it is easiest to compare every member with every member. -/
theorem of_mem {members others : Table Data} (hdistinct : (Table.keys members).Nodup)
    (hkeys : (Table.keys members).Perm (Table.keys others))
    (h : ∀ m ∈ members, ∀ n ∈ others, m.1 = n.1 → Reordered m.2 n.2) :
    Reordered (.object members) (.object others) := by
  apply object hdistinct hkeys
  intro key v w hv hw
  exact h (key, v) (Table.mem_of_find? hv) (key, w) (Table.mem_of_find? hw) rfl

/-- What is found under the keys decides, as long as no key comes twice. Objects that were built up
by storing results are compared in this way. -/
theorem of_rel_find? {members others : Table Data} (hmembers : (Table.keys members).Nodup)
    (hothers : (Table.keys others).Nodup)
    (h : ∀ key, Option.Rel Reordered (Table.find? members key) (Table.find? others key)) :
    Reordered (.object members) (.object others) := by
  apply object hmembers
  · rw [List.perm_ext_iff_of_nodup hmembers hothers]
    intro key
    have hsome := (optionRel_iff.1 (h key)).1
    rw [← Table.isSome_find?_iff, ← Table.isSome_find?_iff, hsome]
  · intro key v w hv hw
    exact (optionRel_iff.1 (h key)).2 v w hv hw

end Reordered

namespace Engine

variable {r : Registry} {d : Direction} {owner : Option String} {x y out : Option Data}
  {site : Site}

/-! ## Two conversions side by side -/

/-- Both conversions come to a result, and the results are related, or both reject. Which rejections
these are is left open: of several faults the first one met is reported, and that depends on the
order. -/
inductive Alike {α : Type} (R : α → α → Prop) :
    Except ConversionError α → Except ConversionError α → Prop where
  | ok {a b : α} (h : R a b) : Alike R (.ok a) (.ok b)
  | rejected (p q : Rejection) : Alike R (.error (.rejected p)) (.error (.rejected q))

section

variable {α β : Type} {R : α → α → Prop} {S : β → β → Prop}

/-- Chains are alike step by step, and a later step is asked only about related results. -/
theorem Alike.bind {a b : Except ConversionError α} {f g : α → Except ConversionError β}
    (h : Alike R a b) (hfg : ∀ v w, R v w → Alike S (f v) (g w)) :
    Alike S (a >>= f) (b >>= g) := by
  cases h with
  | ok hvw => exact hfg _ _ hvw
  | rejected p q => exact .rejected p q

/-- The result on one side has its partner on the other. -/
theorem Alike.exists_ok {a b : Except ConversionError α} (h : Alike R a b) {v : α}
    (hv : a = .ok v) : ∃ w, b = .ok w ∧ R v w := by
  cases h with
  | ok hvw =>
      cases hv
      exact ⟨_, rfl, hvw⟩
  | rejected p q => cases hv

theorem Alike.symm {a b : Except ConversionError α} (h : Alike R a b)
    (hR : ∀ v w, R v w → R w v) : Alike R b a := by
  cases h with
  | ok hvw => exact .ok (hR _ _ hvw)
  | rejected p q => exact .rejected q p

/-- Conversions that settle are alike if each result has a partner. This does away with rejections,
which need not be looked at. -/
theorem alike_of_settles {a b : Except ConversionError α} (ha : Settles a) (hb : Settles b)
    (hab : ∀ v, a = .ok v → ∃ w, b = .ok w ∧ R v w)
    (hba : ∀ w, b = .ok w → ∃ v, a = .ok v ∧ R w v) : Alike R a b := by
  rcases ha with ⟨v, rfl⟩ | ⟨p, rfl⟩
  · obtain ⟨w, rfl, hvw⟩ := hab v rfl
    exact .ok hvw
  · rcases hb with ⟨w, rfl⟩ | ⟨q, rfl⟩
    · obtain ⟨v, hv, _⟩ := hba w rfl
      cases hv
    · exact .rejected p q

end

/-- Values are reordered, or absent on both sides. -/
abbrev Rearranged : Option Data → Option Data → Prop := Option.Rel Reordered

theorem Rearranged.symm (h : Rearranged x y) : Rearranged y x := by
  cases h with
  | none => exact .none
  | some h => exact .some h.symm

/-! ## Kinds and words -/

/-- A kind looks at the constructor of a value and at its text, and neither has an order. -/
theorem Rearranged.admits_eq (h : Rearranged x y) (k : Kind) : admits k x = admits k y := by
  cases h with
  | none => rfl
  | some h =>
      cases h with
      | array _ _ => cases k <;> rfl
      | object _ _ _ => cases k <;> rfl
      | _ => rfl

theorem Rearranged.instantOf?_eq (h : Rearranged x y) : instantOf? x = instantOf? y := by
  cases h with
  | none => rfl
  | some h => cases h <;> rfl

theorem reordered_placeInstant (t : Instant) :
    Reordered (placeInstant d t) (placeInstant d t) := by
  cases d with
  | toInternal => exact .atom t
  | toWire => exact .string _

/-- Kinds and words pass a value or change it as a whole, so nothing in it is converted. -/
theorem exists_ok_kind {k : Kind} (hxy : Rearranged x y)
    (h : convertUnder r d owner x site (.kind k) = .ok out) :
    ∃ out', convertUnder r d owner y site (.kind k) = .ok out' ∧ Rearranged out out' := by
  by_cases hk : k = .timestamp
  · subst hk
    simp only [convertUnder_timestamp_eq_ok_iff] at h ⊢
    rcases h with ⟨rfl, rfl⟩ | ⟨t, ht, rfl⟩
    · cases hxy with
      | some hnull =>
          cases hnull
          exact ⟨_, .inl ⟨rfl, rfl⟩, .some .null⟩
    · rw [hxy.instantOf?_eq] at ht
      exact ⟨_, .inr ⟨t, ht, rfl⟩, .some (reordered_placeInstant t)⟩
  · rw [convertUnder_kind_eq_ok_iff hk] at h
    obtain ⟨hadmits, rfl⟩ := h
    refine ⟨y, ?_, hxy⟩
    rw [convertUnder_kind_eq_ok_iff hk, ← hxy.admits_eq]
    exact ⟨hadmits, rfl⟩

theorem exists_ok_literals {words : List String} {distinct : words.Nodup} (hxy : Rearranged x y)
    (h : convertUnder r d owner x site (.literals words distinct) = .ok out) :
    ∃ out', convertUnder r d owner y site (.literals words distinct) = .ok out' ∧
      Rearranged out out' := by
  simp only [convertUnder_literals_eq_ok_iff] at h ⊢
  obtain ⟨s, hs, rfl, rfl⟩ := h
  refine ⟨y, ?_, hxy⟩
  cases hxy with
  | some hstring =>
      cases hstring
      exact ⟨s, hs, rfl, rfl⟩

/-! ## Arrays and unions -/

/-- Elements are converted in turn, so the walks go wrong at the same place, or not at all. -/
theorem alike_elements {element : Schema} {items others : List Data}
    (h : List.Forall₂ (fun v w => Alike Rearranged (convert r d (some v) site element)
      (convert r d (some w) site element)) items others) :
    Alike (List.Forall₂ Reordered) (elements element site (convertItems r d items))
      (elements element site (convertItems r d others)) := by
  induction h with
  | nil => exact .ok .nil
  | cons hvw _ ih =>
      rw [convertItems, convertItems, elements, elements]
      refine hvw.bind ?_
      intro o o' ho
      refine ih.bind ?_
      intro outs outs' houts
      apply Alike.ok
      refine .cons ?_ houts
      cases ho with
      | none => exact .null
      | some ho => exact ho

/-- Only elements of the same place are compared, and only if the two values are arrays. -/
theorem alike_array {element : Schema} (hxy : Rearranged x y)
    (h : ∀ items others, x = some (.array items) → y = some (.array others) →
      ∀ v w, (v, w) ∈ items.zip others → Reordered v w →
        Alike Rearranged (convert r d (some v) site element) (convert r d (some w) site element)) :
    Alike Rearranged (convertUnder r d owner x site (.array element))
      (convertUnder r d owner y site (.array element)) := by
  by_cases hx : ∃ items, x = some (.array items)
  · obtain ⟨items, rfl⟩ := hx
    cases hxy with
    | some hvw =>
        cases hvw with
        | array hlength hpairs =>
            rw [convertUnder_array, convertUnder_array]
            refine Alike.bind (alike_elements ?_) ?_
            · rw [List.forall₂_iff_zip]
              refine ⟨hlength, ?_⟩
              intro v w hvw
              exact h _ _ rfl rfl v w hvw (hpairs v w hvw)
            · intro outs outs' houts
              exact .ok (.some (.of_forall₂ houts))
  · rw [not_exists] at hx
    have hy : ∀ others, y ≠ some (.array others) := by
      rintro others rfl
      cases hxy with
      | some hvw =>
          cases hvw with
          | array _ _ => exact hx _ rfl
    rw [convertUnder_array_of_ne element hx, convertUnder_array_of_ne element hy]
    exact .rejected _ _

/-- If the candidates are alike one by one, the first that does not reject has the same place. This
is where it counts that both sides reject or none. -/
theorem alike_union {candidates : List Schema}
    (h : ∀ c ∈ candidates, Alike Rearranged (convert r d x site c) (convert r d y site c)) :
    Alike Rearranged (convertUnder r d owner x site (.union candidates))
      (convertUnder r d owner y site (.union candidates)) := by
  simp only [convert_eq_convertUnder] at h
  rw [convertUnder_union, convertUnder_union]
  generalize Schema.describe (.union candidates) = expected
  induction candidates with
  | nil => exact .rejected _ _
  | cons c rest ih =>
      have hrest := ih fun c' hc' => h c' (List.mem_cons_of_mem _ hc')
      have hc := h c List.mem_cons_self
      rw [convertUnder, convertUnder] at hc
      rw [firstOf, firstOf]
      revert hc
      generalize walk _ _ _ _ c = a
      generalize walk _ _ _ _ c = b
      intro hc
      cases hc with
      | ok hvw => exact .ok hvw
      | rejected p q => exact hrest

/-! ## Objects -/

section

variable {properties : List (Property Schema)} {additional : Option Schema}
  {members others : Table Data}

theorem find?_of_find?_surplus {key : String} {v : Data}
    (h : Table.find? (surplus d properties members) key = some v) :
    Table.find? members key = some v := by
  rw [find?_surplus] at h
  split at h
  · cases h
  · exact h

/-- The undeclared members of reordered objects are those under the same keys, since being declared
is a matter of the key. -/
theorem rel_find?_surplus (d : Direction) (properties : List (Property Schema))
    (h : Reordered (.object members) (.object others)) (key : String) :
    Option.Rel Reordered (Table.find? (surplus d properties members) key)
      (Table.find? (surplus d properties others) key) := by
  rw [find?_surplus, find?_surplus]
  by_cases hkey : key ∈ properties.map d.sourceName
  · rw [if_pos hkey, if_pos hkey]
    exact .none
  · rw [if_neg hkey, if_neg hkey]
    exact h.rel_find? key

theorem ConvertsSurplus.unique {m : String × Data} {o o' : Option Data}
    (h : ConvertsSurplus r d owner additional m o)
    (h' : ConvertsSurplus r d owner additional m o') : o = o' := by
  obtain ⟨extra, hextra, ho⟩ := h
  obtain ⟨extra', hextra', ho'⟩ := h'
  obtain rfl := Option.mem_unique hextra hextra'
  exact Except.ok.inj (ho.symm.trans ho')

/-- Under each key, what is there on the one side is converted like what is there on the other. It
is stated over keys, because the members come in different orders. -/
def SurplusAlike (r : Registry) (d : Direction) (owner : Option String)
    (additional : Option Schema) (members others : Table Data) : Prop :=
  ∀ extra ∈ additional, ∀ key v w, Table.find? members key = some v →
    Table.find? others key = some w →
      Alike Rearranged (convert r d (some v) ⟨some key, owner⟩ extra)
        (convert r d (some w) ⟨some key, owner⟩ extra)

namespace SurplusAlike

theorem symm (h : SurplusAlike r d owner additional members others) :
    SurplusAlike r d owner additional others members := by
  intro extra hextra key v w hv hw
  exact (h extra hextra key w v hw hv).symm fun _ _ => Rearranged.symm

theorem exists_converts (h : SurplusAlike r d owner additional members others)
    {key : String} {v w : Data}
    (hv : Table.find? (surplus d properties members) key = some v)
    (hw : Table.find? (surplus d properties others) key = some w) {o : Option Data}
    (ho : ConvertsSurplus r d owner additional (key, v) o) :
    ∃ o', ConvertsSurplus r d owner additional (key, w) o' ∧ Rearranged o o' := by
  obtain ⟨extra, hextra, ho⟩ := ho
  have halike := h extra hextra key v w (find?_of_find?_surplus hv) (find?_of_find?_surplus hw)
  obtain ⟨o', ho', hrel⟩ := halike.exists_ok ho
  exact ⟨o', ⟨extra, hextra, ho'⟩, hrel⟩

/-- Surplus results on one side have partners on the other, found under the same keys. The partners
come in the order of the other object, so they are not paired by place. -/
theorem exists_results (h : SurplusAlike r d owner additional members others)
    (hvw : Reordered (.object members) (.object others)) {ws : List (Option Data)}
    (hws : List.Forall₂ (ConvertsSurplus r d owner additional) (surplus d properties members)
      ws) :
    ∃ ws', List.Forall₂ (ConvertsSurplus r d owner additional) (surplus d properties others) ws' ∧
      ∀ key, Rearranged
        (Table.find? (present ((Table.keys (surplus d properties members)).zip ws)) key)
        (Table.find? (present ((Table.keys (surplus d properties others)).zip ws')) key) := by
  have hkeys := nodup_keys_surplus d properties hvw.nodup_keys
  have hkeys' := nodup_keys_surplus d properties hvw.symm.nodup_keys
  have hrel := rel_find?_surplus d properties hvw
  obtain ⟨ws', hws'⟩ : ∃ ws', List.Forall₂ (ConvertsSurplus r d owner additional)
      (surplus d properties others) ws' := by
    rw [exists_forall₂_iff]
    intro m hm
    have hw := Table.find?_of_mem hkeys' hm
    rcases find?_present_keys hkeys hws m.1 with ⟨v, hv, ho⟩ | ⟨hnone, _⟩
    · obtain ⟨o', ho', _⟩ := h.exists_converts hv hw ho
      exact ⟨o', ho'⟩
    · have hnever := hrel m.1
      rw [hnone, hw] at hnever
      cases hnever
  refine ⟨ws', hws', ?_⟩
  intro key
  have hkey := hrel key
  rcases find?_present_keys hkeys hws key with ⟨v, hv, ho⟩ | ⟨hnone, hpresent⟩
  · rcases find?_present_keys hkeys' hws' key with ⟨w, hw, ho'⟩ | ⟨hnone, _⟩
    · obtain ⟨o, hw', hvw⟩ := h.exists_converts hv hw ho
      rwa [ho'.unique hw']
    · rw [hv, hnone] at hkey
      cases hkey
  · rcases find?_present_keys hkeys' hws' key with ⟨w, hw, _⟩ | ⟨_, hpresent'⟩
    · rw [hnone, hw] at hkey
      cases hkey
    · rw [hpresent, hpresent']
      exact .none

end SurplusAlike

/-- If one object is converted, so is the other, and into the same up to order: the declared results
stand in the order of the schema, and the others are found under their keys. -/
theorem exists_ok_object (hsource : (properties.map d.sourceName).Nodup)
    (htarget : (properties.map d.targetName).Nodup)
    (hvw : Reordered (.object members) (.object others))
    (hproperty : ∀ p ∈ properties, Alike Rearranged (convertProperty r d owner members p)
      (convertProperty r d owner others p))
    (hsurplus : SurplusAlike r d owner additional members others)
    (hout : convertUnder r d owner (some (.object members)) site (.object properties additional) =
      .ok out) :
    ∃ out', convertUnder r d owner (some (.object others)) site (.object properties additional) =
      .ok out' ∧ Rearranged out out' := by
  obtain ⟨_, vs, ws, ⟨⟩, hvs, hws, rfl⟩ := (convertUnder_object_eq_ok_iff hsource).1 hout
  have hkeys := nodup_keys_surplus d properties hvw.nodup_keys
  have hkeys' := nodup_keys_surplus d properties hvw.symm.nodup_keys
  -- the declared members come in the order of the schema on both sides
  obtain ⟨vs', hvs', hdeclared⟩ : ∃ vs', List.Forall₂
      (fun p v => convertProperty r d owner others p = .ok v) properties vs' ∧
        List.Forall₂ Rearranged vs vs' := by
    apply exists_forall₂_both
    apply forall₂_imp_of_mem hvs
    intro p hp v hv
    exact (hproperty p hp).exists_ok hv
  obtain ⟨ws', hws', hundeclared⟩ := hsurplus.exists_results hvw hws
  refine ⟨_, (convertUnder_object_eq_ok_iff hsource).2 ⟨others, vs', ws', rfl, hvs', hws', rfl⟩,
    .some (.of_rel_find? ?_ ?_ ?_)⟩
  · exact nodup_keys_storeAll _ (nodup_keys_storeAll _ List.nodup_nil)
  · exact nodup_keys_storeAll _ (nodup_keys_storeAll _ List.nodup_nil)
  · intro key
    rw [find?_storeAll_zip htarget hkeys, find?_storeAll_zip htarget hkeys']
    · exact optionRel_or (hundeclared key) (rel_find?_present hdeclared key)
    · rw [List.length_map, hvs'.length_eq]
    · rw [Table.keys, List.length_map, hws'.length_eq]
    · rw [List.length_map, hvs.length_eq]
    · rw [Table.keys, List.length_map, hws.length_eq]

/-- Both conversions settle, so only results are left to compare, and being alike in its parts goes
both ways. -/
theorem alike_object (hsource : (properties.map d.sourceName).Nodup)
    (htarget : (properties.map d.targetName).Nodup) (hxy : Rearranged x y)
    (hx : Settles (convertUnder r d owner x site (.object properties additional)))
    (hy : Settles (convertUnder r d owner y site (.object properties additional)))
    (hproperty : ∀ members others, x = some (.object members) →
      Reordered (.object members) (.object others) → ∀ p ∈ properties,
        Alike Rearranged (convertProperty r d owner members p) (convertProperty r d owner others p))
    (hsurplus : ∀ members others, x = some (.object members) →
      Reordered (.object members) (.object others) →
        SurplusAlike r d owner additional members others) :
    Alike Rearranged (convertUnder r d owner x site (.object properties additional))
      (convertUnder r d owner y site (.object properties additional)) := by
  apply alike_of_settles hx hy
  · intro out hout
    obtain ⟨members, _, rfl, _⟩ := exists_object_of_eq_ok hout
    cases hxy with
    | some hvw =>
        obtain ⟨others, rfl⟩ := hvw.exists_object
        exact exists_ok_object hsource htarget hvw (hproperty _ _ rfl hvw) (hsurplus _ _ rfl hvw)
          hout
  · intro out hout
    obtain ⟨others, _, rfl, _⟩ := exists_object_of_eq_ok hout
    cases hxy with
    | some hvw =>
        obtain ⟨members, rfl⟩ := hvw.symm.exists_object
        refine exists_ok_object hsource htarget hvw.symm ?_ (hsurplus _ _ rfl hvw).symm hout
        intro p hp
        exact (hproperty _ _ rfl hvw p hp).symm fun _ _ => Rearranged.symm

end

/-! ## Everything together -/

/-- Reordered values are converted alike under every schema. The induction is on the pair of values
first and then on how far a schema can lead on the same value, as the engine goes. -/
theorem alike_of_rearranged (hacyclic : r.Acyclic) (hsound : r.Sound) (hxy : Rearranged x y)
    {s : Schema} (hs : r.Part s) (owner : Option String) (site : Site) :
    Alike Rearranged (convertUnder r d owner x site s) (convertUnder r d owner y site s) := by
  induction x using Data.parts_induction generalizing y s owner site with
  | step x ihx =>
      have hsettles : ∀ {z : Option Data} {s : Schema}, r.Part s → ∀ owner,
          Settles (convertUnder r d owner z site s) :=
        fun hs owner => settles hacyclic hsound _ hs owner site
      induction s using Registry.Acyclic.induction hacyclic generalizing owner with
      | kind k =>
          apply alike_of_settles (hsettles hs _) (hsettles hs _)
          · intro out h
            exact exists_ok_kind hxy h
          · intro out h
            exact exists_ok_kind hxy.symm h
      | literals words distinct =>
          apply alike_of_settles (hsettles hs _) (hsettles hs _)
          · intro out h
            exact exists_ok_literals hxy h
          · intro out h
            exact exists_ok_literals hxy.symm h
      | array element =>
          apply alike_array hxy
          rintro items others rfl rfl v w hmem hvw
          rw [convert_eq_convertUnder, convert_eq_convertUnder]
          have hv : v ∈ items := (List.of_mem_zip hmem).1
          exact ihx _ (Data.mem_parts_of_mem_items hv) (.some hvw) hs.element none site
      | union candidates ih =>
          apply alike_union
          intro c hc
          rw [convert_eq_convertUnder, convert_eq_convertUnder]
          exact ih c hc (hs.candidate hc) none
      | object properties additional =>
          apply alike_object (hsound.sourceNames hs d) (hsound.targetNames hs d) hxy
            (hsettles hs _) (hsettles hs _)
          · rintro members others rfl hvw p hp
            rw [convertProperty, convertProperty, convert_eq_convertUnder, convert_eq_convertUnder]
            exact ihx _ (Data.find?_mem_parts members _) (hvw.rel_find? _) (hs.property hp) none _
          · rintro members others rfl hvw extra ⟨⟩ key v w hv hw
            have hrel := hvw.rel_find? key
            have hpart := Data.find?_mem_parts members key
            rw [hv, hw] at hrel
            rw [hv] at hpart
            rw [convert_eq_convertUnder, convert_eq_convertUnder]
            exact ihx _ hpart hrel hs.additional none _
      | reference name ih =>
          obtain ⟨s, hname⟩ := hsound.resolves hs
          rw [convertUnder_reference hacyclic hname, convertUnder_reference hacyclic hname]
          exact ih s hname (.registered hname) (some name)

/-- Over a registry without issues in which no schema leads back to itself, two values that differ
by the order of keys are both converted, into values that differ by no more, or both rejected. -/
theorem run_reordered (hissues : r.issues = []) (hacyclic : r.Acyclic) {name : String}
    (hname : name ∈ r.names) {v w : Data} (hvw : Reordered v w) (d : Direction) :
    Alike Reordered (run r d name v) (run r d name w) := by
  have hsound := Registry.sound_of_issues_eq_nil hissues
  obtain ⟨s, hfind⟩ := Registry.mem_names_iff.1 hname
  have halike := alike_of_rearranged (d := d) hacyclic hsound (.some hvw) (.registered hfind)
    (some name) .root
  rw [run, run, convert_eq_convertUnder, convert_eq_convertUnder,
    convertUnder_reference hacyclic hfind, convertUnder_reference hacyclic hfind]
  apply halike.bind
  intro o o' ho
  cases ho with
  | none => exact .ok .null
  | some ho => exact .ok ho

/-- Notes, whose body is a text or another note, and which may have any members besides. -/
def notes : Registry :=
  Registry.ofList [("Note", .object [⟨"written_at", "writtenAt", .kind .timestamp⟩,
    ⟨"body", "body", .union [.kind .string, .reference "Note"]⟩] (some (.kind .any)))]

theorem notes_acyclic : notes.Acyclic := by
  refine Registry.acyclic_of_rank (fun _ => 0) ?_
  intro p hp name hname
  obtain rfl := List.mem_singleton.1 hp
  cases hname

/-- A note about a note. The key that is not declared goes by the name that `written_at` gets. -/
def draft : Data :=
  .object [("writtenAt", .bool true),
    ("body", .object [("body", .string "Read it."), ("written_at", .null)]), ("written_at", .null)]

/-- The same note in another order. -/
def shuffledDraft : Data :=
  .object [("written_at", .null),
    ("body", .object [("written_at", .null), ("body", .string "Read it.")]),
    ("writtenAt", .bool true)]

theorem reordered_shuffledDraft : Reordered draft shuffledDraft := by
  have hbody : Reordered (.object [("body", .string "Read it."), ("written_at", .null)])
      (.object [("written_at", .null), ("body", .string "Read it.")]) := by
    apply Reordered.of_mem (by decide) (by decide)
    simp [Reordered.null, Reordered.string]
  apply Reordered.of_mem (by decide) (by decide)
  simp [Reordered.null, Reordered.bool, hbody]

/-- A note and the note within it, both with their keys in another order. One of the keys is not
declared and goes by the name that a declared one gets, so the order of these two might have
mattered. -/
theorem notes_run_reordered : ∃ v w, run notes .toInternal "Note" draft = .ok v ∧
    run notes .toInternal "Note" shuffledDraft = .ok w ∧ Reordered v w := by
  have halike : Alike Reordered (run notes .toInternal "Note" draft)
      (run notes .toInternal "Note" shuffledDraft) :=
    run_reordered (by decide +kernel) notes_acyclic (by decide) reordered_shuffledDraft .toInternal
  have hok : (run notes .toInternal "Note" draft).isOk = true := by decide +kernel
  cases h : run notes .toInternal "Note" draft with
  | error e =>
      rw [h] at hok
      cases hok
  | ok v =>
      obtain ⟨w, hw, hvw⟩ := halike.exists_ok h
      exact ⟨v, w, rfl, hw, hvw⟩

end Engine

end Agenda
