/-
Written values, read back.

The reader and the writer go along the same tree. Where the writer puts a line break and
indentation, the reader skips white space; where it puts a comma, the reader expects one; and behind
every value stands a character that ends a number. So the text of a value is read, wherever it
stands, as the value with its leaves spelled and its numbers reread. This is one induction over the
value. Arrays and objects are read part by part, which is an induction over the parts behind the
first one.
-/
import Agenda.Proofs.Json.Number
import Agenda.Proofs.Json.String
import Agenda.Proofs.Value

set_option autoImplicit false

namespace Agenda.Json.Reader

/-! ## White space -/

/-- Nothing but white space. -/
def Blank (cs : List Char) : Prop := ∀ c ∈ cs, isSpace c = true

instance (cs : List Char) : Decidable (Blank cs) :=
  decidable_of_iff (cs.all isSpace = true) List.all_eq_true

theorem skipSpace_append {cs : List Char} (h : Blank cs) (rest : List Char) :
    skipSpace (cs ++ rest) = skipSpace rest := by
  rw [skipSpace, skipSpace, List.dropWhile_append_of_pos h]

theorem blank_newLine (level : Nat) : Blank (Writer.newLine level) := by
  intro c hc
  rw [Writer.newLine, List.mem_cons] at hc
  rcases hc with rfl | hc
  · rfl
  · rw [List.eq_of_mem_replicate hc]
    rfl

/-- White space in front of a value is skipped. -/
theorem value_blank {cs : List Char} (h : Blank cs) (size depth : Nat) (rest : List Char) :
    value size depth (cs ++ rest) = value size depth rest := by
  cases depth with
  | zero => rw [value, valueOver, valueOver, skipSpace_append h]
  | succ depth => rw [value, valueOver, valueOver, skipSpace_append h]

/-- A text that begins a value: neither white space nor the end of a part. -/
def Opens (cs : List Char) : Prop :=
  ∃ c more, cs = c :: more ∧ isSpace c = false ∧ c ∉ [',', ']', '}']

theorem Opens.skipSpace {cs : List Char} (h : Opens cs) (rest : List Char) :
    skipSpace (cs ++ rest) = cs ++ rest := by
  obtain ⟨c, more, rfl, hspace, -⟩ := h
  exact skipSpace_of_ne _ hspace

theorem Opens.append {cs : List Char} (h : Opens cs) (rest : List Char) : Opens (cs ++ rest) := by
  obtain ⟨c, more, rfl, hc⟩ := h
  exact ⟨c, more ++ rest, rfl, hc⟩

/-! ## Steps -/

section

variable {item : Reader Json} {size fuel : Nat} {cs rest text : List Char}

/-- A closing bracket ends an array. -/
theorem elementsWithin_close (first : Bool) (h : skipSpace cs = ']' :: rest) :
    elementsWithin item (fuel + 1) first cs = .ok ([], rest) := by
  rw [elementsWithin, h]
  rfl

/-- The first element of an array. -/
theorem elementsWithin_first (hopens : Opens text) (h : skipSpace cs = text) :
    elementsWithin item (fuel + 1) true cs = (item text >>= fun p =>
      elementsWithin item fuel false p.2 >>= fun q => .ok (p.1 :: q.1, q.2)) := by
  obtain ⟨c, more, rfl, -, hc⟩ := hopens
  rw [elementsWithin, h]
  split
  · cases ‹c :: more = []›
  · cases ‹c :: more = _›
    simp at hc
  · cases ‹c :: more = _›
    simp at hc
  · rfl

/-- A further element, behind a comma. -/
theorem elementsWithin_more (hcomma : skipSpace cs = ',' :: rest) (hopens : Opens text)
    (h : skipSpace rest = text) :
    elementsWithin item (fuel + 1) false cs = (item text >>= fun p =>
      elementsWithin item fuel false p.2 >>= fun q => .ok (p.1 :: q.1, q.2)) := by
  obtain ⟨c, more, rfl, -, hc⟩ := hopens
  rw [elementsWithin, hcomma]
  simp only [Bool.false_eq_true, if_false, h]
  split
  · cases ‹c :: more = []›
  · cases ‹c :: more = _›
    simp at hc
  · rfl

/-- A closing brace ends an object. -/
theorem membersWithin_close (first : Bool) (h : skipSpace cs = '}' :: rest) :
    membersWithin size item (fuel + 1) first cs = .ok ([], rest) := by
  rw [membersWithin, h]
  rfl

/-- The first member of an object. -/
theorem membersWithin_first (h : skipSpace cs = '"' :: text) :
    membersWithin size item (fuel + 1) true cs = (member size item text >>= fun p =>
      membersWithin size item fuel false p.2 >>= fun q => .ok (p.1 :: q.1, q.2)) := by
  rw [membersWithin, h]
  rfl

/-- A further member, behind a comma. -/
theorem membersWithin_more (hcomma : skipSpace cs = ',' :: rest)
    (h : skipSpace rest = '"' :: text) :
    membersWithin size item (fuel + 1) false cs = (member size item text >>= fun p =>
      membersWithin size item fuel false p.2 >>= fun q => .ok (p.1 :: q.1, q.2)) := by
  rw [membersWithin, hcomma]
  simp only [Bool.false_eq_true, if_false, h]
  rfl

end

/-! ## Parts one after the other -/

/-- The texts of several parts, each behind a comma. -/
def following (separator : List Char) (texts : List (List Char)) : List Char :=
  texts.flatMap fun t => ',' :: (separator ++ t)

theorem following_cons (separator t : List Char) (texts : List (List Char)) (rest : List Char) :
    following separator (t :: texts) ++ rest =
      ',' :: (separator ++ (t ++ (following separator texts ++ rest))) := by
  simp only [following, List.flatMap_cons, List.cons_append, List.append_assoc]

theorem separated_cons (separator : List Char) (t : List Char) (texts : List (List Char)) :
    Writer.separated separator (t :: texts) = t ++ following separator texts := by
  induction texts generalizing t with
  | nil => rw [Writer.separated, following, List.flatMap_nil, List.append_nil]
  | cons u texts ih =>
      rw [Writer.separated, ih, following, following, List.flatMap_cons, List.cons_append,
        List.append_assoc]
      simp

/-- Behind a part of an array or object no number goes on. -/
theorem stops_following {close : List Char} (hclose : Blank close) {c : Char}
    (hc : isNumeric c = false) (separator : List Char) (texts : List (List Char))
    (rest : List Char) :
    Stops (following separator texts ++ (close ++ c :: rest)) := by
  cases texts with
  | cons t texts => exact stops_cons rfl
  | nil =>
      cases close with
      | nil => exact stops_cons hc
      | cons a close =>
          apply stops_cons
          exact isNumeric_of_isSpace (hclose a List.mem_cons_self)

/-- A part and the parts behind it are read if each of them is. -/
theorem toOption_cons {γ : Type} {first : Reader γ} {others : Reader (List γ)}
    {cs tail rest : List Char} {a : Option γ} {as : Option (List γ)}
    (hfirst : (first cs).toOption = a.map fun v => (v, tail))
    (hothers : (others tail).toOption = as.map fun vs => (vs, rest)) :
    (first cs >>= fun p => others p.2 >>= fun q =>
      (.ok (p.1 :: q.1, q.2) : Except Stop (List γ × List Char))).toOption =
        (a.bind fun v => as.map (v :: ·)).map fun vs => (vs, rest) := by
  rw [Result.toOption_bind, hfirst]
  cases a with
  | none => rfl
  | some v =>
      rw [Option.map_some, Option.bind_some, Result.toOption_bind, hothers]
      cases as <;> rfl

theorem mapM_cons_eq {β γ : Type} (f : β → Option γ) (b : β) (bs : List β) :
    (b :: bs).mapM f = (f b).bind fun v => (bs.mapM f).map (v :: ·) := by
  rw [List.mapM_cons]
  cases f b with
  | none => rfl
  | some v => cases bs.mapM f <;> rfl

theorem mapM_eq_some_map {β γ : Type} {f : β → Option γ} {g : β → γ} {bs : List β}
    (h : ∀ b ∈ bs, f b = some (g b)) : bs.mapM f = some (bs.map g) := by
  induction bs with
  | nil => rfl
  | cons b bs ih =>
      rw [mapM_cons_eq, h b List.mem_cons_self, ih fun b hb => h b (List.mem_cons_of_mem _ hb)]
      rfl

theorem exists_of_mapM_eq_some {β γ : Type} {f : β → Option γ} {bs : List β} {cs : List γ}
    (h : bs.mapM f = some cs) {b : β} (hb : b ∈ bs) : ∃ c, f b = some c := by
  induction bs generalizing cs with
  | nil => cases hb
  | cons a bs ih =>
      rw [mapM_cons_eq, Option.bind_eq_some_iff] at h
      obtain ⟨c, hc, h⟩ := h
      obtain ⟨cs, hcs, -⟩ := Option.map_eq_some_iff.1 h
      rcases List.mem_cons.1 hb with rfl | hb
      · exact ⟨c, hc⟩
      · exact ih hcs hb

/-- Changing what stands under the keys keeps the keys. -/
theorem keys_of_mapM {β γ : Type} {f : β → Option γ} {t : Table β} {u : Table γ}
    (h : t.mapM (fun m => (f m.2).map fun c => (m.1, c)) = some u) :
    Table.keys u = Table.keys t := by
  induction t generalizing u with
  | nil =>
      obtain rfl := Option.some.inj h
      rfl
  | cons m t ih =>
      rw [mapM_cons_eq, Option.bind_eq_some_iff] at h
      obtain ⟨m', hm, h⟩ := h
      obtain ⟨c, -, rfl⟩ := Option.map_eq_some_iff.1 hm
      obtain ⟨u, hu, rfl⟩ := Option.map_eq_some_iff.1 h
      rw [Table.keys_cons, Table.keys_cons, ih hu]

theorem stops_blank {cs : List Char} (h : Blank cs) : Stops cs := fun c hc =>
  isNumeric_of_isSpace (h c (List.mem_of_mem_head? hc))

section

variable {β : Type} {item : Reader Json} {separator close : List Char} {text : β → List Char}
  {result : β → Option Json} {items : List β} {fuel : Nat}
  (hseparator : Blank separator) (hclose : Blank close)
  (hopens : ∀ b ∈ items, Opens (text b))
  (hitem : ∀ b ∈ items, ∀ more, Stops more →
    (item (text b ++ more)).toOption = (result b).map fun v => (v, more))

include hseparator hclose hopens hitem

/-- Elements behind the first one are read one by one, up to the closing bracket. -/
theorem toOption_elementsWithin_following (hfuel : items.length < fuel) (rest : List Char) :
    (elementsWithin item fuel false
      (following separator (items.map text) ++ (close ++ ']' :: rest))).toOption =
        (items.mapM result).map fun vs => (vs, rest) := by
  induction items generalizing fuel with
  | nil =>
      obtain ⟨fuel, rfl⟩ : ∃ k, fuel = k + 1 := ⟨fuel - 1, by omega⟩
      have hbracket : skipSpace (close ++ ']' :: rest) = ']' :: rest := by
        rw [skipSpace_append hclose]
        rfl
      rw [List.map_nil, following, List.flatMap_nil, List.nil_append,
        elementsWithin_close false hbracket]
      rfl
  | cons b items ih =>
      obtain ⟨fuel, rfl⟩ : ∃ k, fuel = k + 1 := ⟨fuel - 1, by omega⟩
      rw [List.length_cons] at hfuel
      have hothers := ih (fun b hb => hopens b (List.mem_cons_of_mem _ hb))
        (fun b hb => hitem b (List.mem_cons_of_mem _ hb)) (show items.length < fuel by omega)
      have hb := hopens b List.mem_cons_self
      have hfirst := hitem b List.mem_cons_self _
        (stops_following hclose (show isNumeric ']' = false from rfl) separator
          (items.map text) rest)
      -- behind the comma the separator is skipped, and the element begins
      have hskip : skipSpace (separator ++ (text b ++ (following separator (items.map text) ++
          (close ++ ']' :: rest)))) =
            text b ++ (following separator (items.map text) ++ (close ++ ']' :: rest)) := by
        rw [skipSpace_append hseparator, hb.skipSpace]
      rw [List.map_cons, following_cons, mapM_cons_eq,
        elementsWithin_more (skipSpace_of_ne _ rfl) (hb.append _) hskip]
      exact toOption_cons hfirst hothers

/-- The elements of an array, the first one among them. -/
theorem toOption_elementsWithin {b : β} {more : List β} (hitems : items = b :: more)
    (hfuel : items.length ≤ fuel) (rest : List Char) :
    (elementsWithin item (fuel + 1) true (separator ++ (text b ++
      (following separator (more.map text) ++ (close ++ ']' :: rest))))).toOption =
        (items.mapM result).map fun vs => (vs, rest) := by
  subst hitems
  have hothers := toOption_elementsWithin_following hseparator hclose
    (fun b hb => hopens b (List.mem_cons_of_mem _ hb))
    (fun b hb => hitem b (List.mem_cons_of_mem _ hb)) hfuel rest
  have hb := hopens b List.mem_cons_self
  have hfirst := hitem b List.mem_cons_self _
    (stops_following hclose (show isNumeric ']' = false from rfl) separator (more.map text) rest)
  rw [mapM_cons_eq, elementsWithin_first (hb.append _)]
  · exact toOption_cons hfirst hothers
  · rw [skipSpace_append hseparator, hb.skipSpace]

end

section

variable {β : Type} {size : Nat} {item : Reader Json} {separator close : List Char}
  {text body : β → List Char} {result : β → Option (String × Json)} {members : List β} {fuel : Nat}
  (hseparator : Blank separator) (hclose : Blank close)
  (htext : ∀ b ∈ members, text b = '"' :: body b)
  (hmember : ∀ b ∈ members, ∀ more, Stops more →
    (member size item (body b ++ more)).toOption = (result b).map fun m => (m, more))

include hseparator hclose htext hmember

/-- Members behind the first one are read one by one, up to the closing brace. -/
theorem toOption_membersWithin_following (hfuel : members.length < fuel) (rest : List Char) :
    (membersWithin size item fuel false
      (following separator (members.map text) ++ (close ++ '}' :: rest))).toOption =
        (members.mapM result).map fun ms => (ms, rest) := by
  induction members generalizing fuel with
  | nil =>
      obtain ⟨fuel, rfl⟩ : ∃ k, fuel = k + 1 := ⟨fuel - 1, by omega⟩
      have hbrace : skipSpace (close ++ '}' :: rest) = '}' :: rest := by
        rw [skipSpace_append hclose]
        rfl
      rw [List.map_nil, following, List.flatMap_nil, List.nil_append,
        membersWithin_close false hbrace]
      rfl
  | cons b members ih =>
      obtain ⟨fuel, rfl⟩ : ∃ k, fuel = k + 1 := ⟨fuel - 1, by omega⟩
      rw [List.length_cons] at hfuel
      have hothers := ih (fun b hb => htext b (List.mem_cons_of_mem _ hb))
        (fun b hb => hmember b (List.mem_cons_of_mem _ hb))
        (show members.length < fuel by omega)
      have hfirst := hmember b List.mem_cons_self _
        (stops_following hclose (show isNumeric '}' = false from rfl) separator
          (members.map text) rest)
      -- behind the comma the separator is skipped, and the key begins with its quote
      have hskip : skipSpace (separator ++ (text b ++ (following separator (members.map text) ++
          (close ++ '}' :: rest)))) =
            '"' :: (body b ++ (following separator (members.map text) ++
              (close ++ '}' :: rest))) := by
        rw [skipSpace_append hseparator, htext b List.mem_cons_self]
        rfl
      rw [List.map_cons, following_cons, mapM_cons_eq,
        membersWithin_more (skipSpace_of_ne _ rfl) hskip]
      exact toOption_cons hfirst hothers

/-- The members of an object, the first one among them. -/
theorem toOption_membersWithin {b : β} {more : List β} (hmembers : members = b :: more)
    (hfuel : members.length ≤ fuel) (rest : List Char) :
    (membersWithin size item (fuel + 1) true (separator ++ (text b ++
      (following separator (more.map text) ++ (close ++ '}' :: rest))))).toOption =
        (members.mapM result).map fun ms => (ms, rest) := by
  subst hmembers
  have hothers := toOption_membersWithin_following hseparator hclose
    (fun b hb => htext b (List.mem_cons_of_mem _ hb))
    (fun b hb => hmember b (List.mem_cons_of_mem _ hb)) hfuel rest
  have hfirst := hmember b List.mem_cons_self _
    (stops_following hclose (show isNumeric '}' = false from rfl) separator (more.map text) rest)
  rw [mapM_cons_eq, htext b List.mem_cons_self, membersWithin_first]
  · exact toOption_cons hfirst hothers
  · rw [skipSpace_append hseparator]
    rfl

end

end Agenda.Json.Reader

namespace Agenda

open Json.Reader

/-! ## Rereading a value -/

namespace Value

variable {α : Type} (spell : α → String)

mutual

/-- The value that is read where a value is written: its leaves are spelled, its numbers reread. -/
def reread? : Value α → Option Json
  | null => some .null
  | bool b => some (.bool b)
  | number n => n.reread?.map .number
  | string s => some (.string s)
  | atom a => some (.string (spell a))
  | array items => (rereadItems? items).map .array
  | object members => (rereadMembers? members).map .object

/-- The same for each element of an array. -/
def rereadItems? : List (Value α) → Option (List Json)
  | [] => some []
  | v :: rest => (reread? v).bind fun w => (rereadItems? rest).map (w :: ·)

/-- The same for each member of an object. -/
def rereadMembers? : List (String × Value α) → Option (List (String × Json))
  | [] => some []
  | (k, v) :: rest =>
    ((reread? v).map fun w => (k, w)).bind fun m => (rereadMembers? rest).map (m :: ·)

end

theorem rereadItems?_eq_mapM (items : List (Value α)) :
    rereadItems? spell items = items.mapM (reread? spell) := by
  induction items with
  | nil => rfl
  | cons v rest ih => rw [rereadItems?, mapM_cons_eq, ih]

theorem rereadMembers?_eq_mapM (members : List (String × Value α)) :
    rereadMembers? spell members =
      members.mapM fun m => (reread? spell m.2).map fun w => (m.1, w) := by
  induction members with
  | nil => rfl
  | cons m rest ih => rw [rereadMembers?, mapM_cons_eq, ih]

end Value

namespace Json.Reader

/-! ## The shape of the text -/

section

variable {α : Type} {spell : α → String}

theorem prettyItems_eq_map (level : Nat) (items : List (Value α)) :
    Writer.prettyItems spell level items = items.map (Writer.pretty spell level) := by
  induction items with
  | nil => rfl
  | cons v rest ih => rw [Writer.prettyItems, ih, List.map_cons]

theorem prettyMembers_eq_map (level : Nat) (members : List (String × Value α)) :
    Writer.prettyMembers spell level members =
      members.map fun m => Writer.quote m.1 ++ ':' :: ' ' :: Writer.pretty spell level m.2 := by
  induction members with
  | nil => rfl
  | cons m rest ih => rw [Writer.prettyMembers, ih, List.map_cons]

/-- A block with parts: each behind a line break, the closing mark on a line of its own. -/
theorem block_cons (opening closing : Char) (level : Nat) (t : List Char)
    (texts : List (List Char)) (rest : List Char) :
    Writer.block opening closing level (t :: texts) ++ rest =
      opening :: (Writer.newLine (level + 1) ++ (t ++
        (following (Writer.newLine (level + 1)) texts ++
          (Writer.newLine level ++ closing :: rest)))) := by
  rw [Writer.block, separated_cons]
  simp only [List.cons_append, List.append_assoc, List.nil_append]

theorem length_following (separator : List Char) (texts : List (List Char)) :
    texts.length ≤ (following separator texts).length ∧
      ∀ t ∈ texts, t.length ≤ (following separator texts).length := by
  induction texts with
  | nil => simp
  | cons u texts ih =>
      have hlength : (following separator (u :: texts)).length =
          1 + separator.length + u.length + (following separator texts).length := by
        rw [← List.append_nil (following separator (u :: texts)), following_cons]
        simp only [List.length_cons, List.length_append, List.length_nil]
        omega
      rw [hlength, List.length_cons]
      refine ⟨by omega, fun t ht => ?_⟩
      rcases List.mem_cons.1 ht with rfl | ht
      · omega
      · have := ih.2 t ht
        omega

/-- A block is longer than any of its parts, and than the number of its parts. -/
theorem length_block (opening closing : Char) (level : Nat) (texts : List (List Char)) :
    texts.length ≤ (Writer.block opening closing level texts).length ∧
      ∀ t ∈ texts, t.length ≤ (Writer.block opening closing level texts).length := by
  cases texts with
  | nil => simp [Writer.block]
  | cons u texts =>
      obtain ⟨hcount, hparts⟩ := length_following (Writer.newLine (level + 1)) texts
      have hlength := congrArg List.length (block_cons opening closing level u texts [])
      simp only [List.append_nil, List.length_cons, List.length_append] at hlength
      rw [List.length_cons]
      refine ⟨by omega, fun t ht => ?_⟩
      rcases List.mem_cons.1 ht with rfl | ht
      · omega
      · have := hparts t ht
        omega

theorem opens_text (n : Number) : Opens n.text := by
  obtain ⟨negative, cs, htext, hcs⟩ := exists_text n
  obtain ⟨c, more, rfl, hc⟩ := hcs.exists_cons
  rw [htext]
  cases negative with
  | true => exact ⟨'-', c :: more, rfl, rfl, by decide⟩
  | false => exact ⟨c, more, rfl, isSpace_of_isFirst hc, notMem_of_isFirst hc rfl⟩

/-- The text of a value begins with a mark of its own. -/
theorem opens_pretty (level : Nat) (v : Value α) : Opens (Writer.pretty spell level v) := by
  cases v with
  | null => exact ⟨_, _, rfl, rfl, by decide⟩
  | bool b => cases b <;> exact ⟨_, _, rfl, rfl, by decide⟩
  | number n => exact opens_text n
  | string s => exact ⟨_, _, rfl, rfl, by decide⟩
  | atom a => exact ⟨_, _, rfl, rfl, by decide⟩
  | array items =>
      rw [Writer.pretty]
      cases Writer.prettyItems spell (level + 1) items <;> exact ⟨_, _, rfl, rfl, by decide⟩
  | object members =>
      rw [Writer.pretty]
      cases Writer.prettyMembers spell (level + 1) members <;> exact ⟨_, _, rfl, rfl, by decide⟩

/-! ## Values -/

theorem exists_valueOver (size depth : Nat) : ∃ item, value size depth = valueOver size item := by
  cases depth with
  | zero => exact ⟨_, rfl⟩
  | succ depth => exact ⟨_, rfl⟩

/-- A string is read at any depth. -/
theorem toOption_value_string {s : String} {size : Nat} (hsize : (Writer.quote s).length ≤ size)
    (depth : Nat) (rest : List Char) :
    (value size depth (Writer.quote s ++ rest)).toOption = some (.string s, rest) := by
  obtain ⟨item, hitem⟩ := exists_valueOver size depth
  obtain ⟨cs, hcs⟩ : ∃ cs, Writer.quote s ++ rest = '"' :: cs := ⟨_, rfl⟩
  have hvalue : valueOver size item ('"' :: cs) =
      (stringBody size cs >>= fun p => .ok (.string p.1, p.2)) := rfl
  rw [hitem, hcs, hvalue, stringBody_quote hsize hcs]
  rfl

/-- An array is read at a depth above that of its elements. -/
theorem value_bracket (size depth : Nat) (cs : List Char) :
    value size (depth + 1) ('[' :: cs) = (elementsWithin (value size depth) (size + 1) true cs >>=
      fun p => .ok (.array p.1, p.2)) := rfl

/-- An object is read at a depth above that of its members. -/
theorem value_brace (size depth : Nat) (cs : List Char) :
    value size (depth + 1) ('{' :: cs) =
      (membersWithin size (value size depth) (size + 1) true cs >>=
        fun p => .ok (.object (Table.ofList p.1), p.2)) := rfl

/-- The key of a member and the value behind it. -/
theorem toOption_member {v : Value α} {key : String} {level size depth : Nat}
    {more : List Char} (hkey : (Writer.quote key).length ≤ size)
    (hvalue : (value size depth (Writer.pretty spell level v ++ more)).toOption =
      (v.reread? spell).map fun w => (w, more)) {body : List Char}
    (hbody : Writer.quote key ++ ':' :: ' ' :: Writer.pretty spell level v = '"' :: body) :
    (member size (value size depth) (body ++ more)).toOption =
      ((v.reread? spell).map fun w => (key, w)).map fun m => (m, more) := by
  have hcs : Writer.quote key ++ (':' :: ' ' :: Writer.pretty spell level v ++ more) =
      '"' :: (body ++ more) := by
    rw [← List.append_assoc, hbody, List.cons_append]
  have hblank : Blank [' '] := by decide
  rw [member, stringBody_quote hkey hcs, Result.ok_bind]
  simp only [List.cons_append, skipSpace_of_ne _ (show isSpace ':' = false from rfl)]
  rw [Result.toOption_bind]
  have hspace := value_blank hblank size depth (Writer.pretty spell level v ++ more)
  rw [List.singleton_append] at hspace
  rw [hspace, hvalue]
  cases v.reread? spell <;> rfl

/-- An array is read if its elements are. -/
theorem toOption_value_array {items : List (Value α)} {level size depth : Nat}
    (hsize : items.length ≤ size)
    (hread : ∀ v ∈ items, ∀ more, Stops more →
      (value size depth (Writer.pretty spell (level + 1) v ++ more)).toOption =
        (v.reread? spell).map fun w => (w, more)) (rest : List Char) :
    (value size (depth + 1) (Writer.pretty spell level (.array items) ++ rest)).toOption =
      ((Value.array items).reread? spell).map fun w => (w, rest) := by
  rw [Value.reread?, Value.rereadItems?_eq_mapM, Writer.pretty, prettyItems_eq_map]
  cases items with
  | nil => rfl
  | cons v more =>
      have hopens : ∀ u ∈ v :: more, Opens (Writer.pretty spell (level + 1) u) :=
        fun u _ => opens_pretty _ u
      have helements := toOption_elementsWithin (blank_newLine (level + 1)) (blank_newLine level)
        hopens hread rfl hsize rest
      rw [List.map_cons, block_cons, value_bracket, Result.toOption_bind, helements]
      cases (v :: more).mapM (Value.reread? spell) <;> rfl

/-- An object is read if its members are, and if no key comes twice it keeps them as they are. -/
theorem toOption_value_object {members : List (String × Value α)} {level size depth : Nat}
    (hsize : members.length ≤ size) (hkeys : (Table.keys members).Nodup)
    (hkey : ∀ m ∈ members, (Writer.quote m.1).length ≤ size)
    (hread : ∀ m ∈ members, ∀ more, Stops more →
      (value size depth (Writer.pretty spell (level + 1) m.2 ++ more)).toOption =
        (m.2.reread? spell).map fun w => (w, more)) (rest : List Char) :
    (value size (depth + 1) (Writer.pretty spell level (.object members) ++ rest)).toOption =
      ((Value.object members).reread? spell).map fun w => (w, rest) := by
  rw [Value.reread?, Value.rereadMembers?_eq_mapM, Writer.pretty, prettyMembers_eq_map]
  cases members with
  | nil => rfl
  | cons m more =>
      have htext : ∀ u ∈ m :: more,
          Writer.quote u.1 ++ ':' :: ' ' :: Writer.pretty spell (level + 1) u.2 =
            '"' :: (Writer.quote u.1 ++ ':' :: ' ' :: Writer.pretty spell (level + 1) u.2).tail :=
        fun u _ => rfl
      have hmembers := toOption_membersWithin (blank_newLine (level + 1)) (blank_newLine level)
        htext (fun u hu rest hrest => toOption_member (hkey u hu) (hread u hu rest hrest) rfl) rfl
        hsize rest
      rw [List.map_cons, block_cons, value_brace, Result.toOption_bind, hmembers]
      cases hms : (m :: more).mapM fun u => (u.2.reread? spell).map fun w => (u.1, w) with
      | none => rfl
      | some ms =>
          -- rereading keeps the keys, so the table that is made of the members is the members
          have hnodup : (Table.keys ms).Nodup := by
            rw [keys_of_mapM hms]
            exact hkeys
          simp only [Option.map_some, Option.bind_some, Table.ofList_of_nodup hnodup]
          rfl

/-- The text of a value is read as its rereading, wherever it stands. -/
theorem toOption_value (v : Value α) {level depth size : Nat} (hdepth : v.depth ≤ depth)
    (htabular : v.Tabular) (hsize : (Writer.pretty spell level v).length ≤ size)
    {rest : List Char} (hrest : Stops rest) :
    (value size depth (Writer.pretty spell level v ++ rest)).toOption =
      (v.reread? spell).map fun w => (w, rest) := by
  -- each level goes one deeper and indents one further, and the parts stand before other texts
  induction v generalizing level depth rest with
  | null =>
      obtain ⟨item, hitem⟩ := exists_valueOver size depth
      rw [hitem]
      rfl
  | bool b =>
      obtain ⟨item, hitem⟩ := exists_valueOver size depth
      rw [hitem]
      cases b <;> rfl
  | number n =>
      obtain ⟨item, hitem⟩ := exists_valueOver size depth
      rw [hitem, Writer.pretty, valueOver_text n hrest, Value.reread?, Option.map_map]
      rfl
  | string s => exact toOption_value_string hsize depth rest
  | atom a => exact toOption_value_string hsize depth rest
  | array items ih =>
      obtain ⟨hpos, hdepth⟩ := Value.depth_array_le.1 hdepth
      obtain ⟨depth, rfl⟩ : ∃ k, depth = k + 1 := ⟨depth - 1, by omega⟩
      rw [Value.tabular_array] at htabular
      rw [Writer.pretty, prettyItems_eq_map] at hsize
      obtain ⟨hcount, hparts⟩ := length_block '[' ']' level
        (items.map (Writer.pretty spell (level + 1)))
      rw [List.length_map] at hcount
      refine toOption_value_array (by omega) (fun v hv more hmore => ?_) rest
      have hpart := hparts _ (List.mem_map.2 ⟨v, hv, rfl⟩)
      exact ih v hv (hdepth v hv) (htabular v hv) (by omega) hmore
  | object members ih =>
      obtain ⟨hpos, hdepth⟩ := Value.depth_object_le.1 hdepth
      obtain ⟨depth, rfl⟩ : ∃ k, depth = k + 1 := ⟨depth - 1, by omega⟩
      obtain ⟨hkeys, htabular⟩ := Value.tabular_object.1 htabular
      rw [Writer.pretty, prettyMembers_eq_map] at hsize
      obtain ⟨hcount, hparts⟩ := length_block '{' '}' level (members.map fun m =>
        Writer.quote m.1 ++ ':' :: ' ' :: Writer.pretty spell (level + 1) m.2)
      rw [List.length_map] at hcount
      -- the size bounds a whole line of the object, so it bounds the key and the value on it
      have hlength : ∀ m ∈ members, (Writer.quote m.1).length ≤ size ∧
          (Writer.pretty spell (level + 1) m.2).length ≤ size := by
        intro m hm
        have hpart := hparts _ (List.mem_map.2 ⟨m, hm, rfl⟩)
        simp only [List.length_append, List.length_cons] at hpart
        omega
      refine toOption_value_object (by omega) hkeys (fun m hm => (hlength m hm).1)
        (fun m hm more hmore => ?_) rest
      exact ih m hm (hdepth m hm) (htabular m hm) (hlength m hm).2 hmore

end

end Json.Reader

/-! ## Whole texts -/

section

variable {α : Type} {spell : α → String}

/-- A text that was written, perhaps with white space behind it, is read as the rereading of the
value. -/
theorem Json.toOption_read_pretty {v : Value α} (hdepth : v.depth ≤ maxDepth)
    (htabular : v.Tabular) {behind : List Char} (hbehind : Blank behind) :
    (Json.read (String.ofList (Writer.pretty spell 0 v ++ behind))).toOption =
      v.reread? spell := by
  have hsize : (Writer.pretty spell 0 v).length ≤ (Writer.pretty spell 0 v ++ behind).length := by
    rw [List.length_append]
    omega
  have hvalue := toOption_value v hdepth htabular hsize (stops_blank hbehind)
  have hend : skipSpace behind = [] := List.dropWhile_eq_nil_iff.2 hbehind
  rw [Json.toOption_read, hvalue]
  cases v.reread? spell with
  | none => rfl
  | some w => rw [Option.map_some, Option.bind_some, if_pos hend]

namespace Value

/-- If each number is reread, then the value is reread as itself, with its leaves spelled and its
numbers reread. -/
theorem reread?_eq_some {v : Value α} {g : Number → Number}
    (h : ∀ n ∈ v.numbers, n.reread? = some (g n)) :
    v.reread? spell = some ((v.graft fun a => .string (spell a)).renumber g) := by
  induction v with
  | null => rfl
  | bool b => rfl
  | number n =>
      rw [reread?, h n (by simp [numbers])]
      rfl
  | string s => rfl
  | atom a => rfl
  | array items ih =>
      have hitems : items.mapM (reread? spell) =
          some (items.map fun v => (v.graft fun a => .string (spell a)).renumber g) :=
        mapM_eq_some_map fun v hv =>
          ih v hv fun n hn => h n (mem_numbers_array.2 ⟨v, hv, hn⟩)
      rw [reread?, rereadItems?_eq_mapM, hitems, graft_array, renumber_array, List.map_map]
      rfl
  | object members ih =>
      have hmembers : members.mapM (fun m => (reread? spell m.2).map fun w => (m.1, w)) =
          some (members.map fun m =>
            (m.1, (m.2.graft fun a => .string (spell a)).renumber g)) := by
        apply mapM_eq_some_map
        intro m hm
        rw [ih m hm fun n hn => h n (mem_numbers_object.2 ⟨m, hm, hn⟩)]
        rfl
      rw [reread?, rereadMembers?_eq_mapM, hmembers, graft_object, renumber_object, List.map_map]
      rfl

/-- Conversely, no number of a value that is reread is out of range. -/
theorem exists_reread? {v : Value α} {w : Json} (h : v.reread? spell = some w) :
    ∀ n ∈ v.numbers, ∃ m, n.reread? = some m := by
  intro n hn
  induction v generalizing w with
  | null => cases hn
  | bool b => cases hn
  | number k =>
      obtain ⟨m, hm, -⟩ := Option.map_eq_some_iff.1 h
      rw [List.mem_singleton.1 hn]
      exact ⟨m, hm⟩
  | string s => cases hn
  | atom a => cases hn
  | array items ih =>
      rw [reread?, rereadItems?_eq_mapM] at h
      obtain ⟨ws, hws, -⟩ := Option.map_eq_some_iff.1 h
      obtain ⟨v, hv, hn⟩ := mem_numbers_array.1 hn
      obtain ⟨u, hu⟩ := exists_of_mapM_eq_some hws hv
      exact ih v hv hu hn
  | object members ih =>
      rw [reread?, rereadMembers?_eq_mapM] at h
      obtain ⟨ms, hms, -⟩ := Option.map_eq_some_iff.1 h
      obtain ⟨m, hm, hn⟩ := mem_numbers_object.1 hn
      obtain ⟨m', hm'⟩ := exists_of_mapM_eq_some hms hm
      obtain ⟨u, hu, -⟩ := Option.map_eq_some_iff.1 hm'
      exact ih m hm hu hn

end Value

/-- What is read where a value was written: the value with its leaves spelled and each number as it
is reread. -/
theorem Json.read_pretty_eq_ok_iff {v : Value α} {w : Json} (hdepth : v.depth ≤ maxDepth)
    (htabular : v.Tabular) {behind : List Char} (hbehind : Blank behind) :
    Json.read (String.ofList (Writer.pretty spell 0 v ++ behind)) = .ok w ↔
      ∃ g : Number → Number, (∀ n ∈ v.numbers, n.reread? = some (g n)) ∧
        w = (v.graft fun a => .string (spell a)).renumber g := by
  rw [← Result.toOption_eq_some_iff, toOption_read_pretty hdepth htabular hbehind]
  constructor
  · intro h
    have hsome : ∀ n ∈ v.numbers, n.reread? = some (n.reread?.getD n) := by
      intro n hn
      obtain ⟨m, hm⟩ := Value.exists_reread? h n hn
      rw [hm, Option.getD_some]
    rw [Value.reread?_eq_some hsome] at h
    exact ⟨_, hsome, (Option.some.inj h).symm⟩
  · rintro ⟨g, hg, rfl⟩
    exact Value.reread?_eq_some hg

end

/-- A JSON value is read where it was written, if each number of it is read back. -/
theorem Json.read_pretty_lift {v : Json} (hdepth : v.depth ≤ maxDepth) (htabular : v.Tabular)
    (hnumbers : ∀ n ∈ v.numbers, n.ReadsBack) : Json.read v.lift.pretty = .ok v := by
  have hblank : Blank [] := by decide
  have hread : Json.read (String.ofList (Writer.pretty Data.spell 0 v.lift ++ [])) = .ok v := by
    refine (read_pretty_eq_ok_iff (depth_lift_le.2 hdepth) (tabular_lift.2 htabular) hblank).2
      ⟨id, fun n hn => Number.readsBack_iff.1 (hnumbers n ?_), ?_⟩
    · rwa [numbers_lift] at hn
    · rw [Value.renumber_id]
      exact (toJson_lift v).symm
  rwa [List.append_nil] at hread

end Agenda
