/-
Texts and the trees that they spell.

A text spells a tree of values in which every number is still the numeral that was written. The
grammar of such spellings follows JSON: white space between tokens, words, numerals, strings, and
arrays and objects of further spellings. A text spells one tree at most, since no numeral goes on
behind a value. Whatever the reader reads is spelled by the text, and what it reads is the tree with
each numeral read as a number; so what stands at some place of a value that was read can be traced
to what was written there.
-/
import Agenda.Proofs.Conversion.Places
import Agenda.Proofs.Json.Numeral
import Agenda.Proofs.Json.String
import Agenda.Proofs.Lists
import Mathlib.Data.List.DropRight

set_option autoImplicit false

namespace Agenda.Json

open Reader

/-- A tree of values as it is written: its leaves are the numerals. -/
abbrev Spelled := Value (List Char)

/-! ## The grammar -/

mutual

/-- A text begins with the spelling of a value, and something is left behind it. -/
inductive Spells : List Char → Spelled → List Char → Prop where
  | null {cs rest : List Char} (h : skipSpace cs = 'n' :: (['u', 'l', 'l'] ++ rest)) :
      Spells cs .null rest
  | true {cs rest : List Char} (h : skipSpace cs = 't' :: (['r', 'u', 'e'] ++ rest)) :
      Spells cs (.bool true) rest
  | false {cs rest : List Char} (h : skipSpace cs = 'f' :: (['a', 'l', 's', 'e'] ++ rest)) :
      Spells cs (.bool false) rest
  | number {cs numeral rest : List Char} (h : skipSpace cs = numeral ++ rest)
      (hnumeral : IsNumeral numeral) : Spells cs (.atom numeral) rest
  | string {cs body rest : List Char} {size : Nat} {s : String}
      (h : skipSpace cs = '"' :: body) (hs : stringBody size body = .ok (s, rest)) :
      Spells cs (.string s) rest
  | array {cs inner rest : List Char} {items : List Spelled} (h : skipSpace cs = '[' :: inner)
      (hitems : SpellsItems .true inner items rest) : Spells cs (.array items) rest
  /-- Of several members with one key the last one counts. -/
  | object {cs inner rest : List Char} {members : List (String × Spelled)}
      (h : skipSpace cs = '{' :: inner) (hmembers : SpellsMembers .true inner members rest) :
      Spells cs (.object (Table.ofList members)) rest

/-- A text goes on with elements up to the bracket; the first one has no comma before it. -/
inductive SpellsItems : Bool → List Char → List Spelled → List Char → Prop where
  | close {first : Bool} {cs rest : List Char} (h : skipSpace cs = ']' :: rest) :
      SpellsItems first cs [] rest
  | first {cs left rest : List Char} {t : Spelled} {ts : List Spelled}
      (ht : Spells (skipSpace cs) t left) (hts : SpellsItems .false left ts rest) :
      SpellsItems .true cs (t :: ts) rest
  | next {cs more left rest : List Char} {t : Spelled} {ts : List Spelled}
      (h : skipSpace cs = ',' :: more) (ht : Spells (skipSpace more) t left)
      (hts : SpellsItems .false left ts rest) : SpellsItems .false cs (t :: ts) rest

/-- A text, behind an opening quote, begins with a key and its value. -/
inductive SpellsMember : List Char → String × Spelled → List Char → Prop where
  | intro {cs colon more rest : List Char} {size : Nat} {key : String} {t : Spelled}
      (hkey : stringBody size cs = .ok (key, colon)) (hcolon : skipSpace colon = ':' :: more)
      (ht : Spells more t rest) : SpellsMember cs (key, t) rest

/-- A text goes on with members up to the brace. -/
inductive SpellsMembers : Bool → List Char → List (String × Spelled) → List Char → Prop where
  | close {first : Bool} {cs rest : List Char} (h : skipSpace cs = '}' :: rest) :
      SpellsMembers first cs [] rest
  | first {cs body left rest : List Char} {m : String × Spelled} {ms : List (String × Spelled)}
      (h : skipSpace cs = '"' :: body) (hm : SpellsMember body m left)
      (hms : SpellsMembers .false left ms rest) : SpellsMembers .true cs (m :: ms) rest
  | next {cs more body left rest : List Char} {m : String × Spelled}
      {ms : List (String × Spelled)} (hcomma : skipSpace cs = ',' :: more)
      (h : skipSpace more = '"' :: body) (hm : SpellsMember body m left)
      (hms : SpellsMembers .false left ms rest) : SpellsMembers .false cs (m :: ms) rest

end

/-- A whole text spells a tree. -/
def IsSpelled (text : String) (t : Spelled) : Prop :=
  ∃ rest, Spells text.toList t rest ∧ skipSpace rest = []

/-! ## One tree -/

section

variable {first : Bool} {cs rest : List Char} {t : Spelled} {ts : List Spelled}
  {m : String × Spelled} {ms : List (String × Spelled)}

theorem skipSpace_skipSpace (cs : List Char) : skipSpace (skipSpace cs) = skipSpace cs :=
  List.dropWhile_idempotent isSpace cs

/-- No numeral goes on where another character comes first, blanks apart. -/
theorem stops_of_skipSpace {c : Char} (h : skipSpace cs = c :: rest) (hc : isNumeric c = false) :
    Stops cs := by
  cases cs with
  | nil => exact stops_nil
  | cons d cs =>
      apply stops_cons
      cases hd : isSpace d with
      | true => exact isNumeric_of_isSpace hd
      | false =>
          rw [skipSpace_of_ne cs hd] at h
          exact (List.cons.inj h).1 ▸ hc

theorem stops_of_skipSpace_eq_nil (h : skipSpace cs = []) : Stops cs := by
  cases cs with
  | nil => exact stops_nil
  | cons d cs =>
      exact stops_cons (isNumeric_of_isSpace (List.dropWhile_eq_nil_iff.1 h d List.mem_cons_self))

theorem SpellsItems.stops (h : SpellsItems false cs ts rest) : Stops cs := by
  cases h with
  | close h => exact stops_of_skipSpace h (by decide)
  | next h => exact stops_of_skipSpace h (by decide)

theorem SpellsMembers.stops (h : SpellsMembers false cs ms rest) : Stops cs := by
  cases h with
  | close h => exact stops_of_skipSpace h (by decide)
  | next h => exact stops_of_skipSpace h (by decide)

/-- A numeral begins with a character of its own. -/
theorem Reader.IsNumeral.isNumeric_head {s more : List Char} {c : Char} (hs : IsNumeral s)
    (h : skipSpace cs = s ++ rest) (h' : skipSpace cs = c :: more) : isNumeric c = true := by
  obtain ⟨d, s, rfl⟩ := List.exists_cons_of_ne_nil hs.ne_nil
  obtain ⟨rfl, -⟩ := List.cons.inj (h'.symm.trans h)
  exact hs.numeric _ List.mem_cons_self

/-- A bracket closes, and begins no value. -/
theorem Spells.ne_close (h : Spells cs t rest) (more : List Char) : skipSpace cs ≠ ']' :: more := by
  intro h'
  cases h with
  | number h hnumeral => exact absurd (hnumeral.isNumeric_head h h') (by decide)
  | _ h => cases h.symm.trans h'

theorem stringWithin_mono {n m : Nat} (hnm : n ≤ m) {p : List Char × List Char}
    (h : stringWithin n cs = .ok p) : stringWithin m cs = .ok p := by
  induction n generalizing m cs p with
  | zero => cases h
  | succ n ih =>
      obtain ⟨m, rfl⟩ := Nat.exists_eq_add_of_lt hnm
      cases cs with
      | nil => cases h
      | cons c cs =>
          rw [stringWithin] at h ⊢
          split
          · rwa [if_pos ‹_›] at h
          · rw [if_neg ‹_›] at h
            split
            · rw [if_pos ‹_›] at h
              obtain ⟨⟨d, left⟩, hd, h⟩ := Result.bind_eq_ok_iff.1 h
              obtain ⟨r, hr, h⟩ := Result.bind_eq_ok_iff.1 h
              simp only [hd, Result.ok_bind, ih (Nat.le_add_right n m) hr]
              exact h
            · rw [if_neg ‹_›] at h
              split
              · rwa [if_pos ‹_›] at h
              · rw [if_neg ‹_›] at h
                obtain ⟨r, hr, h⟩ := Result.bind_eq_ok_iff.1 h
                rw [ih (Nat.le_add_right n m) hr]
                exact h

/-- What a string is read as does not depend on the bound. -/
theorem stringBody_unique {n m : Nat} {p q : String × List Char} (hp : stringBody n cs = .ok p)
    (hq : stringBody m cs = .ok q) : p = q := by
  obtain ⟨u, hu, hp⟩ := Result.bind_eq_ok_iff.1 hp
  obtain ⟨v, hv, hq⟩ := Result.bind_eq_ok_iff.1 hq
  have hu' := stringWithin_mono (le_max_left (n + 1) (m + 1)) hu
  rw [stringWithin_mono (le_max_right (n + 1) (m + 1)) hv] at hu'
  obtain rfl := Except.ok.inj hu'
  exact Except.ok.inj (hp.symm.trans hq)

mutual

/-- A text spells one value at most, and one end of it. -/
theorem Spells.unique {cs rest left : List Char} {t u : Spelled} (ht : Spells cs t rest)
    (hu : Spells cs u left) (hrest : Stops rest) (hleft : Stops left) : t = u ∧ rest = left :=
  -- the first character tells the kinds of values apart, and none of the marks begins a numeral
  match ht with
  | .null h => by
      cases hu with
      | null h' => exact ⟨rfl, List.append_cancel_left (List.cons.inj (h.symm.trans h')).2⟩
      | number h' hnumeral => exact absurd (hnumeral.isNumeric_head h' h) (by decide)
      | _ h' => cases h.symm.trans h'
  | .true h => by
      cases hu with
      | true h' => exact ⟨rfl, List.append_cancel_left (List.cons.inj (h.symm.trans h')).2⟩
      | number h' hnumeral => exact absurd (hnumeral.isNumeric_head h' h) (by decide)
      | _ h' => cases h.symm.trans h'
  | .false h => by
      cases hu with
      | false h' => exact ⟨rfl, List.append_cancel_left (List.cons.inj (h.symm.trans h')).2⟩
      | number h' hnumeral => exact absurd (hnumeral.isNumeric_head h' h) (by decide)
      | _ h' => cases h.symm.trans h'
  | .number h hnumeral => by
      cases hu with
      | number h' hnumeral' =>
          obtain ⟨rfl, rfl⟩ := hnumeral.unique hnumeral' hrest hleft (h.symm.trans h')
          exact ⟨rfl, rfl⟩
      | _ h' => exact absurd (hnumeral.isNumeric_head h h') (by decide)
  | .string h hs => by
      cases hu with
      | string h' hs' =>
          obtain ⟨-, rfl⟩ := List.cons.inj (h.symm.trans h')
          obtain ⟨rfl, rfl⟩ := Prod.mk.inj (stringBody_unique hs hs')
          exact ⟨rfl, rfl⟩
      | number h' hnumeral => exact absurd (hnumeral.isNumeric_head h' h) (by decide)
      | _ h' => cases h.symm.trans h'
  | .array h hitems => by
      cases hu with
      | array h' hitems' =>
          obtain ⟨-, rfl⟩ := List.cons.inj (h.symm.trans h')
          obtain ⟨rfl, rfl⟩ := hitems.unique hitems'
          exact ⟨rfl, rfl⟩
      | number h' hnumeral => exact absurd (hnumeral.isNumeric_head h' h) (by decide)
      | _ h' => cases h.symm.trans h'
  | .object h hmembers => by
      cases hu with
      | object h' hmembers' =>
          obtain ⟨-, rfl⟩ := List.cons.inj (h.symm.trans h')
          obtain ⟨rfl, rfl⟩ := hmembers.unique hmembers'
          exact ⟨rfl, rfl⟩
      | number h' hnumeral => exact absurd (hnumeral.isNumeric_head h' h) (by decide)
      | _ h' => cases h.symm.trans h'
termination_by structural ht

theorem SpellsItems.unique {first : Bool} {cs rest left : List Char} {ts us : List Spelled}
    (hts : SpellsItems first cs ts rest) (hus : SpellsItems first cs us left) :
    ts = us ∧ rest = left :=
  match hts with
  | .close h => by
      cases hus with
      | close h' =>
          obtain ⟨-, rfl⟩ := List.cons.inj (h.symm.trans h')
          exact ⟨rfl, rfl⟩
      | first hu => exact absurd ((skipSpace_skipSpace _).trans h) (hu.ne_close _)
      | next h' => cases h.symm.trans h'
  | .first ht hts => by
      cases hus with
      | close h' => exact absurd ((skipSpace_skipSpace _).trans h') (ht.ne_close _)
      | first hu hus =>
          obtain ⟨rfl, rfl⟩ := ht.unique hu hts.stops hus.stops
          obtain ⟨rfl, rfl⟩ := hts.unique hus
          exact ⟨rfl, rfl⟩
  | .next h ht hts => by
      cases hus with
      | close h' => cases h.symm.trans h'
      | next h' hu hus =>
          obtain ⟨-, rfl⟩ := List.cons.inj (h.symm.trans h')
          obtain ⟨rfl, rfl⟩ := ht.unique hu hts.stops hus.stops
          obtain ⟨rfl, rfl⟩ := hts.unique hus
          exact ⟨rfl, rfl⟩
termination_by structural hts

theorem SpellsMember.unique {cs rest left : List Char} {m n : String × Spelled}
    (hm : SpellsMember cs m rest) (hn : SpellsMember cs n left) (hrest : Stops rest)
    (hleft : Stops left) : m = n ∧ rest = left :=
  match hm with
  | .intro hkey hcolon ht => by
      cases hn with
      | intro hkey' hcolon' hu =>
          obtain ⟨rfl, rfl⟩ := Prod.mk.inj (stringBody_unique hkey hkey')
          obtain ⟨-, rfl⟩ := List.cons.inj (hcolon.symm.trans hcolon')
          obtain ⟨rfl, rfl⟩ := ht.unique hu hrest hleft
          exact ⟨rfl, rfl⟩
termination_by structural hm

theorem SpellsMembers.unique {first : Bool} {cs rest left : List Char}
    {ms ns : List (String × Spelled)} (hms : SpellsMembers first cs ms rest)
    (hns : SpellsMembers first cs ns left) : ms = ns ∧ rest = left :=
  match hms with
  | .close h => by
      cases hns with
      | close h' =>
          obtain ⟨-, rfl⟩ := List.cons.inj (h.symm.trans h')
          exact ⟨rfl, rfl⟩
      | _ h' => cases h.symm.trans h'
  | .first h hm hms => by
      cases hns with
      | close h' => cases h.symm.trans h'
      | first h' hn hns =>
          obtain ⟨-, rfl⟩ := List.cons.inj (h.symm.trans h')
          obtain ⟨rfl, rfl⟩ := hm.unique hn hms.stops hns.stops
          obtain ⟨rfl, rfl⟩ := hms.unique hns
          exact ⟨rfl, rfl⟩
  | .next hcomma h hm hms => by
      cases hns with
      | close h' => cases hcomma.symm.trans h'
      | next hcomma' h' hn hns =>
          obtain ⟨-, rfl⟩ := List.cons.inj (hcomma.symm.trans hcomma')
          obtain ⟨-, rfl⟩ := List.cons.inj (h.symm.trans h')
          obtain ⟨rfl, rfl⟩ := hm.unique hn hms.stops hns.stops
          obtain ⟨rfl, rfl⟩ := hms.unique hns
          exact ⟨rfl, rfl⟩
termination_by structural hms

end

end

/-- A whole text spells one tree at most. -/
theorem IsSpelled.unique {text : String} {t u : Spelled} (ht : IsSpelled text t)
    (hu : IsSpelled text u) : t = u := by
  obtain ⟨rest, ht, hrest⟩ := ht
  obtain ⟨left, hu, hleft⟩ := hu
  exact (ht.unique hu (stops_of_skipSpace_eq_nil hrest) (stops_of_skipSpace_eq_nil hleft)).1

/-! ## A spelling -/

/-- A comma before all parts but the first. -/
def comma (first : Bool) : List Char := if first then [] else [',']

mutual

/-- A tree as text, without white space. -/
def spelling : Spelled → List Char
  | .null => Writer.null
  | .bool b => Writer.bool b
  | .number n => n.text
  | .string s => Writer.quote s
  | .atom numeral => numeral
  | .array ts => '[' :: itemsSpelling .true ts
  | .object ms => '{' :: membersSpelling .true ms

/-- Elements up to the bracket. -/
def itemsSpelling : Bool → List Spelled → List Char
  | _, [] => [']']
  | first, t :: ts => comma first ++ (spelling t ++ itemsSpelling .false ts)

/-- Members up to the brace. -/
def membersSpelling : Bool → List (String × Spelled) → List Char
  | _, [] => ['}']
  | first, (key, t) :: ms =>
    comma first ++ (Writer.quote key ++ ':' :: (spelling t ++ membersSpelling .false ms))

end

mutual

/-- All numbers of a tree are numerals that can be read, and no object has a key twice. -/
def readable : Spelled → Bool
  | .number _ => false
  | .atom numeral => (numeral? numeral).isSome
  | .array ts => readableItems ts
  | .object ms => (Table.keys ms).Nodup && readableMembers ms
  | _ => true

/-- All elements are readable. -/
def readableItems : List Spelled → Bool
  | [] => true
  | t :: ts => readable t && readableItems ts

/-- The values of all members are readable. -/
def readableMembers : List (String × Spelled) → Bool
  | [] => true
  | (_, t) :: ms => readable t && readableMembers ms

end

theorem Spells.skipSpace {cs rest : List Char} {t : Spelled} (h : Spells cs t rest) :
    Spells (skipSpace cs) t rest := by
  have hskip := skipSpace_skipSpace cs
  cases h with
  | null h => exact .null (hskip.trans h)
  | true h => exact .true (hskip.trans h)
  | false h => exact .false (hskip.trans h)
  | number h hnumeral => exact .number (hskip.trans h) hnumeral
  | string h hs => exact .string (hskip.trans h) hs
  | array h hitems => exact .array (hskip.trans h) hitems
  | object h hmembers => exact .object (hskip.trans h) hmembers

theorem skipSpace_numeral {s : List Char} (h : IsNumeral s) (rest : List Char) :
    Reader.skipSpace (s ++ rest) = s ++ rest := by
  obtain ⟨c, s, rfl⟩ := List.exists_cons_of_ne_nil h.ne_nil
  apply skipSpace_of_ne
  by_contra hspace
  have hnumeric := isNumeric_of_isSpace (Bool.not_eq_false _ ▸ hspace)
  rw [h.numeric c List.mem_cons_self] at hnumeric
  cases hnumeric

mutual

theorem spells_spelling (t : Spelled) (h : readable t = true) (rest : List Char) :
    Spells (spelling t ++ rest) t rest :=
  match t with
  | .null => .null rfl
  | .bool true => .true rfl
  | .bool false => .false rfl
  | .number _ => absurd h (by simp [readable])
  | .string s => .string rfl (stringBody_quote le_rfl rfl)
  | .atom numeral => by
      obtain ⟨n, hn⟩ := Option.isSome_iff_exists.1 h
      have hnumeral := isNumeral_of_numeral? hn
      exact .number (skipSpace_numeral hnumeral rest) hnumeral
  | .array ts => .array rfl (spellsItems_spelling .true ts h rest)
  | .object ms => by
      obtain ⟨hnodup, hms⟩ := Bool.and_eq_true_iff.1 h
      have hspells : Spells (spelling (.object ms) ++ rest) (.object (Table.ofList ms)) rest :=
        .object rfl (spellsMembers_spelling .true ms hms rest)
      rwa [Table.ofList_of_nodup (of_decide_eq_true hnodup)] at hspells

theorem spellsItems_spelling (first : Bool) (ts : List Spelled) (h : readableItems ts = true)
    (rest : List Char) : SpellsItems first (itemsSpelling first ts ++ rest) ts rest :=
  match ts with
  | [] => .close rfl
  | t :: ts => by
      obtain ⟨ht, hts⟩ := Bool.and_eq_true_iff.1 h
      have hrest := spellsItems_spelling .false ts hts rest
      have hfirst := (spells_spelling t ht (itemsSpelling .false ts ++ rest)).skipSpace
      rw [← List.append_assoc] at hfirst
      cases first with
      | true => exact .first hfirst hrest
      | false => exact .next rfl hfirst hrest

theorem spellsMembers_spelling (first : Bool) (ms : List (String × Spelled))
    (h : readableMembers ms = true) (rest : List Char) :
    SpellsMembers first (membersSpelling first ms ++ rest) ms rest :=
  match ms with
  | [] => .close rfl
  | (key, t) :: ms => by
      obtain ⟨ht, hms⟩ := Bool.and_eq_true_iff.1 h
      have hrest := spellsMembers_spelling .false ms hms rest
      obtain ⟨left, hleft⟩ : ∃ left, left = membersSpelling .false ms ++ rest := ⟨_, rfl⟩
      obtain ⟨body, hbody⟩ :
          ∃ body, Writer.quote key ++ ':' :: (spelling t ++ left) = '"' :: body := ⟨_, rfl⟩
      have hmember : SpellsMember body (key, t) left :=
        .intro (stringBody_quote le_rfl hbody) rfl (spells_spelling t ht left)
      have htext : membersSpelling first ((key, t) :: ms) ++ rest = comma first ++ '"' :: body := by
        rw [← hbody, hleft, membersSpelling]
        simp only [List.append_assoc, List.cons_append]
      rw [htext]
      rw [← hleft] at hrest
      cases first with
      | true => exact .first rfl hmember hrest
      | false => exact .next rfl rfl hmember hrest

end

/-- Every readable tree has a spelling. -/
theorem isSpelled_spelling {t : Spelled} (h : readable t = true) :
    IsSpelled (String.ofList (spelling t)) t := by
  refine ⟨[], ?_, rfl⟩
  rw [String.toList_ofList, ← List.append_nil (spelling t)]
  exact spells_spelling t h []

/-! ## Reading the numerals of a tree -/

/-- A value is a tree with its numerals read. -/
inductive ReadAs : Spelled → Json → Prop where
  | null : ReadAs .null .null
  | bool (b : Bool) : ReadAs (.bool b) (.bool b)
  | number {numeral : List Char} {n : Number} (h : numeral? numeral = some n) :
      ReadAs (.atom numeral) (.number n)
  | string (s : String) : ReadAs (.string s) (.string s)
  | array {ts : List Spelled} {vs : List Json} (h : ∀ i : Nat, Option.Rel ReadAs ts[i]? vs[i]?) :
      ReadAs (.array ts) (.array vs)
  | object {ts : Table Spelled} {vs : Table Json}
      (h : ∀ key, Option.Rel ReadAs (Table.find? ts key) (Table.find? vs key)) :
      ReadAs (.object ts) (.object vs)

/-- What stands at a place of the value is what is written there, read. -/
theorem ReadAs.at? {t : Spelled} {v : Json} (h : ReadAs t v) (path : Path) :
    Option.Rel ReadAs (t.at? path) (v.at? path) := by
  induction path generalizing t v with
  | nil => exact .some h
  | cons step path ih =>
      have hstep : Option.Rel ReadAs (t.step? step) (v.step? step) := by
        cases h with
        | array h =>
            cases step with
            | key name => exact .none
            | index i => exact h i
        | object h =>
            cases step with
            | key name => exact h name
            | index i => exact .none
        | _ => exact .none
      exact optionRel_bind hstep fun t v h => ih h

/-! ## What is read was spelled -/

namespace Reader

theorem word_eq_ok {value v : Json} {expected cs rest : List Char}
    (h : word value expected cs = .ok (v, rest)) : cs = expected ++ rest := by
  induction expected generalizing cs with
  | nil => exact (Prod.mk.inj (Except.ok.inj h)).2
  | cons e expected ih =>
      cases cs with
      | nil => cases h
      | cons c cs =>
          rw [word] at h
          split at h
          · rename_i heq
            rw [heq, List.cons_append, ih h]
          · cases h

/-- What a reader reads was spelled. -/
def Traces {α β : Type} (r : Reader α) (S : List Char → β → List Char → Prop) (R : β → α → Prop) :
    Prop :=
  ∀ cs a rest, r cs = .ok (a, rest) → ∃ b, S cs b rest ∧ R b a

/-- A part is spelled, and so are the parts behind it. -/
theorem exists_spelled_cons {α β : Type} {first : Reader α} {others : Reader (List α)}
    {S : List Char → β → List Char → Prop} {Ss : List Char → List β → List Char → Prop}
    {R : β → α → Prop} (hfirst : Traces first S R) (hothers : Traces others Ss (List.Forall₂ R))
    {cs rest : List Char} {as : List α} (h : (first cs >>= fun p => others p.2 >>= fun q =>
      (.ok (p.1 :: q.1, q.2) : Except Stop (List α × List Char))) = .ok (as, rest)) :
    ∃ b bs left, S cs b left ∧ Ss left bs rest ∧ List.Forall₂ R (b :: bs) as := by
  obtain ⟨⟨a, left⟩, ha, h⟩ := Result.bind_eq_ok_iff.1 h
  obtain ⟨⟨as', left'⟩, has, h⟩ := Result.bind_eq_ok_iff.1 h
  obtain ⟨rfl, rfl⟩ := Prod.mk.inj (Except.ok.inj h)
  obtain ⟨b, hb, hread⟩ := hfirst _ _ _ ha
  obtain ⟨bs, hbs, hreads⟩ := hothers _ _ _ has
  exact ⟨b, bs, left, hb, hbs, .cons hread hreads⟩

section

variable {item : Reader Json} (hitem : Traces item Spells ReadAs) {size : Nat}

include hitem

theorem traces_elementsWithin (fuel : Nat) (first : Bool) :
    Traces (elementsWithin item fuel first) (SpellsItems first) (List.Forall₂ ReadAs) := by
  induction fuel generalizing first with
  | zero =>
      intro cs vs rest h
      cases h
  | succ fuel ih =>
      intro cs vs rest h
      rw [elementsWithin] at h
      split at h
      · cases h
      · rename_i heq
        obtain ⟨rfl, rfl⟩ := Prod.mk.inj (Except.ok.inj h)
        exact ⟨[], .close heq, .nil⟩
      · rename_i heq
        split at h
        · rename_i hfirst
          obtain rfl := hfirst
          -- a comma is where the first element should begin, which the element itself settles
          obtain ⟨t, ts, left, ht, hts, hreads⟩ := exists_spelled_cons hitem (ih false) h
          exact ⟨t :: ts, .first (heq ▸ ht) hts, hreads⟩
        · rename_i hfirst
          obtain rfl := Bool.eq_false_iff.2 hfirst
          split at h
          · cases h
          · cases h
          · obtain ⟨t, ts, left, ht, hts, hreads⟩ := exists_spelled_cons hitem (ih false) h
            exact ⟨t :: ts, .next heq ht hts, hreads⟩
      · split at h
        · rename_i hfirst
          obtain rfl := hfirst
          obtain ⟨t, ts, left, ht, hts, hreads⟩ := exists_spelled_cons hitem (ih false) h
          exact ⟨t :: ts, .first ht hts, hreads⟩
        · cases h

theorem traces_member : Traces (member size item) SpellsMember fun m n =>
    m.1 = n.1 ∧ ReadAs m.2 n.2 := by
  intro cs m rest h
  obtain ⟨⟨key, colon⟩, hkey, h⟩ := Result.bind_eq_ok_iff.1 h
  simp only at h
  split at h
  · cases h
  · rename_i hcolon
    obtain ⟨⟨v, left⟩, hv, h⟩ := Result.bind_eq_ok_iff.1 h
    obtain ⟨rfl, rfl⟩ := Prod.mk.inj (Except.ok.inj h)
    obtain ⟨t, ht, hread⟩ := hitem _ _ _ hv
    exact ⟨(key, t), .intro hkey hcolon ht, rfl, hread⟩
  · cases h

theorem traces_membersWithin (fuel : Nat) (first : Bool) :
    Traces (membersWithin size item fuel first) (SpellsMembers first) (Table.Paired ReadAs) := by
  have hmember : Traces (member size item) SpellsMember _ := traces_member hitem
  induction fuel generalizing first with
  | zero =>
      intro cs ms rest h
      cases h
  | succ fuel ih =>
      intro cs ms rest h
      rw [membersWithin] at h
      split at h
      · cases h
      · rename_i heq
        obtain ⟨rfl, rfl⟩ := Prod.mk.inj (Except.ok.inj h)
        exact ⟨[], .close heq, .nil⟩
      · rename_i heq
        split at h
        · cases h
        · rename_i hfirst
          obtain rfl := Bool.eq_false_iff.2 hfirst
          split at h
          · cases h
          · rename_i hquote
            obtain ⟨m, ms', left, hm, hms, hreads⟩ := exists_spelled_cons hmember (ih false) h
            exact ⟨m :: ms', .next heq hquote hm hms, hreads⟩
          · cases h
          · cases h
      · rename_i heq
        split at h
        · rename_i hfirst
          obtain rfl := hfirst
          obtain ⟨m, ms', left, hm, hms, hreads⟩ := exists_spelled_cons hmember (ih false) h
          exact ⟨m :: ms', .first heq hm hms, hreads⟩
        · cases h
      · cases h

end

/-- A value is spelled if its parts are, should it have any. -/
theorem traces_valueOver {size : Nat} {item : Option (Reader Json)}
    (hitem : ∀ r ∈ item, Traces r Spells ReadAs) : Traces (valueOver size item) Spells ReadAs := by
  intro cs v rest h
  rw [valueOver] at h
  split at h
  · cases h
  · rename_i heq
    obtain rfl := word_yields h
    exact ⟨.null, .null (heq.trans (congrArg _ (word_eq_ok h))), .null⟩
  · rename_i heq
    obtain rfl := word_yields h
    exact ⟨.bool true, .true (heq.trans (congrArg _ (word_eq_ok h))), .bool true⟩
  · rename_i heq
    obtain rfl := word_yields h
    exact ⟨.bool false, .false (heq.trans (congrArg _ (word_eq_ok h))), .bool false⟩
  · rename_i heq
    obtain ⟨⟨n, left⟩, hn, h⟩ := Result.bind_eq_ok_iff.1 h
    obtain ⟨rfl, rfl⟩ := Prod.mk.inj (Except.ok.inj h)
    obtain ⟨s, hs, hunsigned, hread⟩ := takes_number _ _ _ hn
    refine ⟨.atom ('-' :: s), .number ?_ ⟨s, hunsigned, .inr rfl⟩, .number (numeral?_minus hread)⟩
    rw [heq, hs, List.cons_append]
  · rename_i heq
    obtain ⟨⟨s, left⟩, hs, h⟩ := Result.bind_eq_ok_iff.1 h
    obtain ⟨rfl, rfl⟩ := Prod.mk.inj (Except.ok.inj h)
    exact ⟨.string s, .string heq hs, .string s⟩
  · rename_i heq
    split at h
    · cases h
    · rename_i r
      obtain ⟨⟨vs, left⟩, hvs, h⟩ := Result.bind_eq_ok_iff.1 h
      obtain ⟨rfl, rfl⟩ := Prod.mk.inj (Except.ok.inj h)
      obtain ⟨ts, hts, hreads⟩ := traces_elementsWithin (hitem r rfl) _ _ _ _ _ hvs
      exact ⟨.array ts, .array heq hts, .array (rel_getElem? hreads)⟩
  · rename_i heq
    split at h
    · cases h
    · rename_i r
      obtain ⟨⟨ms, left⟩, hms, h⟩ := Result.bind_eq_ok_iff.1 h
      obtain ⟨rfl, rfl⟩ := Prod.mk.inj (Except.ok.inj h)
      obtain ⟨ts, hts, hreads⟩ := traces_membersWithin (hitem r rfl) _ _ _ _ _ hms
      exact ⟨.object (Table.ofList ts), .object heq hts, .object hreads.ofList.rel_find?⟩
  · rename_i heq
    split at h
    · obtain ⟨⟨n, left⟩, hn, h⟩ := Result.bind_eq_ok_iff.1 h
      obtain ⟨rfl, rfl⟩ := Prod.mk.inj (Except.ok.inj h)
      obtain ⟨s, hs, hunsigned, hread⟩ := takes_number _ _ _ hn
      exact ⟨.atom s, .number (heq.trans hs) ⟨s, hunsigned, .inl rfl⟩,
        .number (numeral?_plain hunsigned hread)⟩
    · cases h

theorem traces_value (size depth : Nat) : Traces (value size depth) Spells ReadAs := by
  induction depth with
  | zero => exact traces_valueOver fun r hr => absurd hr (by simp)
  | succ depth ih =>
      apply traces_valueOver
      rintro r ⟨⟩
      exact ih

end Reader

/-- A text that is read spells one tree, and the value is the tree read numeral by numeral. -/
theorem exists_isSpelled {text : String} {v : Json} (h : read text = .ok v) :
    ∃ t, (∀ u, IsSpelled text u ↔ u = t) ∧ ReadAs t v := by
  obtain ⟨⟨w, rest⟩, hvalue, hrest⟩ := Result.bind_eq_ok_iff.1 (Result.mapError_eq_ok_iff.1 h)
  simp only at hrest
  split at hrest
  · rename_i hend
    obtain rfl := Except.ok.inj hrest
    obtain ⟨t, ht, hread⟩ := Reader.traces_value _ _ _ _ _ hvalue
    have hspelled : IsSpelled text t := ⟨rest, ht, hend⟩
    refine ⟨t, fun u => ⟨fun hu => hu.unique hspelled, ?_⟩, hread⟩
    rintro rfl
    exact hspelled
  · cases hrest

end Agenda.Json
