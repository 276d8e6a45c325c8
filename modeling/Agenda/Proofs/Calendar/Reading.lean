/-
Reading a calendar back.

A reader of calendars undoes the folding, by leaving out every line end with a space behind it,
takes the text apart at its line ends, and follows the components that the lines open and close. A
text value stands with backslashes before some of its characters, and a line feed as two characters.

None of this knows how the writer works. That the two fit together is seen in steps: what the writer
puts on separate lines is taken apart into these lines again, both by the program, which looks for
the line of the product, and by a reader, who joins the pieces of a line first.
-/
import Agenda.Calendar.Text
import Agenda.Proofs.Calendar.Folding
import Agenda.Proofs.Lists

set_option autoImplicit false

namespace Agenda.Calendar

/-! ## The reader -/

/-- Leaves out every line end that a space follows, and the space. -/
def unfold : List Char → List Char
  | [] => []
  | '\r' :: '\n' :: ' ' :: rest => unfold rest
  | c :: rest => c :: unfold rest

/-- The lines of a text, each up to a line end or to the end of the text. -/
def splitLines : List Char → List (List Char)
  | [] => []
  | '\r' :: '\n' :: rest => [] :: splitLines rest
  | c :: rest =>
    match splitLines rest with
    | [] => [[c]]
    | line :: lines => (c :: line) :: lines

/-- The text that a value stands for. A comma and a semicolon have a backslash before them. -/
def unescape? : List Char → Option (List Char)
  | [] => some []
  | '\\' :: c :: rest =>
    if c = 'n' ∨ c = 'N' then (unescape? rest).map ('\n' :: ·)
    else if c = '\\' ∨ c = ',' ∨ c = ';' then (unescape? rest).map (c :: ·)
    else none
  | c :: rest =>
    if c = '\\' ∨ c = ',' ∨ c = ';' then none else (unescape? rest).map (c :: ·)

/-- The value on a line with this name. -/
def value? (name : String) (line : List Char) : Option (List Char) :=
  (property name []).isPrefixOf? line

/-- A part of a calendar that has been read. -/
structure Reading where
  /-- The components that are open, the innermost first, with the lines directly in them. -/
  opened : List (List Char × List (List Char))
  /-- The lines directly in each event that has been closed. -/
  events : List (List (List Char))

/-- Reads one more line. There is none outside of all components, and a component is closed by its
own name. -/
def Reading.step (s : Reading) (line : List Char) : Option Reading :=
  match value? "BEGIN" line, value? "END" line, s.opened with
  | some name, _, opened => some ⟨(name, []) :: opened, s.events⟩
  | none, some name, (top, own) :: below =>
    if name = top then some ⟨below, if top = "VEVENT".toList then s.events ++ [own] else s.events⟩
    else none
  | none, none, (top, own) :: below => some ⟨(top, own ++ [line]) :: below, s.events⟩
  | none, _, [] => none

/-- The lines directly in each event of a calendar, if all components are closed. -/
def events? (lines : List (List Char)) : Option (List (List (List Char))) :=
  match lines.foldlM Reading.step ⟨[], []⟩ with
  | some ⟨[], events⟩ => some events
  | _ => none

/-! ## Names and values -/

section

variable {name other : String} {value : List Char}

theorem isPrefixOf?_cons (cs ds value : List Char) (hcs : ':' ∉ cs) (hds : ':' ∉ ds) :
    (cs ++ [':']).isPrefixOf? (ds ++ ':' :: value) = if cs = ds then some value else none := by
  induction cs generalizing ds with
  | nil =>
      cases ds with
      | nil => simp [List.isPrefixOf?]
      | cons d ds =>
          have hd : (':' == d) = false := by
            rw [beq_eq_false_iff_ne]
            rintro rfl
            exact hds List.mem_cons_self
          simp [List.isPrefixOf?, hd]
  | cons c cs ih =>
      cases ds with
      | nil =>
          have hc : (c == ':') = false := by
            rw [beq_eq_false_iff_ne]
            rintro rfl
            exact hcs List.mem_cons_self
          simp [List.isPrefixOf?, hc]
      | cons d ds =>
          have hrest := ih ds (fun h => hcs (List.mem_cons_of_mem _ h))
            (fun h => hds (List.mem_cons_of_mem _ h))
          simp only [List.cons_append, List.isPrefixOf?, hrest, List.cons.injEq]
          by_cases hcd : c = d
          · simp [hcd]
          · simp [hcd]

/-- A line has a value under its own name only. -/
theorem value?_property (hname : ':' ∉ name.toList) (hother : ':' ∉ other.toList) :
    value? name (property other value) = if name = other then some value else none := by
  rw [value?, property, property, isPrefixOf?_cons _ _ _ hname hother]
  simp only [String.toList_inj]

/-- The values under one name among lines with names. -/
theorem filterMap_value? {properties : List (String × List Char)} (hname : ':' ∉ name.toList)
    (hproperties : ∀ p ∈ properties, ':' ∉ p.1.toList) :
    (properties.map fun p => property p.1 p.2).filterMap (value? name) =
      (properties.filter fun p => name = p.1).map Prod.snd := by
  induction properties with
  | nil => rfl
  | cons p properties ih =>
      have hrest := ih fun q hq => hproperties q (List.mem_cons_of_mem _ hq)
      rw [List.map_cons, List.filterMap_cons,
        value?_property hname (hproperties p List.mem_cons_self), hrest, List.filter_cons]
      by_cases hp : name = p.1
      · simp [hp]
      · simp [hp]

theorem isPrefixOf_eq (cs ds : List Char) : cs.isPrefixOf ds = (cs.isPrefixOf? ds).isSome := by
  induction cs generalizing ds with
  | nil => cases ds <;> rfl
  | cons c cs ih =>
      cases ds with
      | nil => rfl
      | cons d ds =>
          rw [List.isPrefixOf, List.isPrefixOf?, ih]
          by_cases hcd : (c == d) = true
          · simp [hcd]
          · simp [hcd]

end

/-! ## Text values -/

/-- The text that was written is read. -/
theorem unescape?_escape (text : String) : unescape? (escape text) = some text.toList := by
  rw [escape]
  induction text.toList with
  | nil => rfl
  | cons c cs ih =>
      rw [List.flatMap_cons, escapeChar]
      by_cases hspecial : c = '\\' ∨ c = ',' ∨ c = ';'
      · have hn : ¬ (c = 'n' ∨ c = 'N') := by
          rintro (rfl | rfl)
          · exact absurd hspecial (by decide)
          · exact absurd hspecial (by decide)
        rw [if_pos hspecial, List.cons_append, List.singleton_append, unescape?, if_neg hn,
          if_pos hspecial, ih]
        rfl
      · rw [if_neg hspecial]
        by_cases hfeed : c = '\n'
        · rw [if_pos hfeed, List.cons_append, List.singleton_append, unescape?, ih, hfeed]
          rfl
        · rw [if_neg hfeed, List.singleton_append, unescape?, if_neg hspecial, ih]
          · rfl
          · rintro d rest rfl
            exact absurd (.inl rfl) hspecial

theorem notMem_escape (text : String) : '\n' ∉ escape text := by
  intro hmem
  obtain ⟨c, _, hc⟩ := List.mem_flatMap.1 hmem
  rw [escapeChar] at hc
  by_cases hspecial : c = '\\' ∨ c = ',' ∨ c = ';'
  · rw [if_pos hspecial, List.mem_cons, List.mem_singleton] at hc
    rcases hc with hc | rfl
    · exact absurd hc (by decide)
    · exact absurd hspecial (by decide)
  · rw [if_neg hspecial] at hc
    by_cases hfeed : c = '\n'
    · rw [if_pos hfeed] at hc
      exact absurd hc (by decide)
    · rw [if_neg hfeed, List.mem_singleton] at hc
      exact hfeed hc.symm

/-! ## Lines and their ends -/

section

variable {line rest : List Char} {ls : List (List Char)}

theorem head?_append_ne (hline : '\n' ∉ line) (hrest : rest.head? ≠ some '\n') :
    (line ++ rest).head? ≠ some '\n' := by
  cases line with
  | nil => exact hrest
  | cons c line =>
      rw [List.cons_append, List.head?_cons]
      intro h
      obtain rfl := Option.some.inj h
      exact hline List.mem_cons_self

theorem unfold_cons (c : Char) (hrest : rest.head? ≠ some '\n') :
    unfold (c :: rest) = c :: unfold rest := by
  rw [unfold]
  rintro rest' _ rfl
  exact hrest rfl

/-- What has no line feed is left as it is. -/
theorem unfold_append (hline : '\n' ∉ line) (hrest : rest.head? ≠ some '\n') :
    unfold (line ++ rest) = line ++ unfold rest := by
  induction line with
  | nil => rfl
  | cons c line ih =>
      have htail : '\n' ∉ line := fun h => hline (List.mem_cons_of_mem _ h)
      rw [List.cons_append, unfold_cons c (head?_append_ne htail hrest), ih htail, List.cons_append]

theorem unfold_lineEnd (hrest : rest.head? ≠ some ' ') :
    unfold (lineEnd ++ rest) = lineEnd ++ unfold rest := by
  have hfeed : unfold ('\n' :: rest) = '\n' :: unfold rest := by
    rw [unfold]
    rintro rest' h
    cases h
  rw [lineEnd, List.cons_append, List.singleton_append, unfold, hfeed]
  · rfl
  · rintro rest' _ h
    obtain rfl := (List.cons.inj h).2
    exact hrest rfl

theorem unfold_fold : unfold (lineEnd ++ ' ' :: rest) = unfold rest := by
  rw [lineEnd, List.cons_append, List.singleton_append, unfold]

theorem splitLines_cons (c : Char) (hrest : rest.head? ≠ some '\n') :
    splitLines (c :: rest) =
      match splitLines rest with
      | [] => [[c]]
      | line :: lines => (c :: line) :: lines := by
  rw [splitLines]
  rintro rest' _ rfl
  exact hrest rfl

/-- What has no line feed and is ended is one line. -/
theorem splitLines_append (hline : '\n' ∉ line) :
    splitLines (line ++ (lineEnd ++ rest)) = line :: splitLines rest := by
  induction line with
  | nil => rfl
  | cons c line ih =>
      have htail : '\n' ∉ line := fun h => hline (List.mem_cons_of_mem _ h)
      have hhead : (lineEnd ++ rest).head? ≠ some '\n' := by
        intro h
        cases h
      rw [List.cons_append, splitLines_cons c (head?_append_ne htail hhead), ih htail]

/-! ## The lines that the program sees -/

theorem textLinesFrom_append (hline : '\n' ∉ line) (read : List Char) :
    textLinesFrom read (line ++ (lineEnd ++ rest)) =
      (read.reverse ++ line) :: textLinesFrom [] rest := by
  induction line generalizing read with
  | nil => simp [textLinesFrom, lineEnd, dropReturn]
  | cons c line ih =>
      have hc : c ≠ '\n' := by
        rintro rfl
        exact hline List.mem_cons_self
      have htail : '\n' ∉ line := fun h => hline (List.mem_cons_of_mem _ h)
      rw [List.cons_append, textLinesFrom, if_neg hc, ih htail, List.reverse_cons,
        List.append_assoc, List.singleton_append]

/-- Lines that are written one after the other are the lines of the text. -/
theorem textLines_flatMap (hls : ∀ line ∈ ls, '\n' ∉ line) :
    textLines (ls.flatMap (· ++ lineEnd)) = ls := by
  rw [textLines]
  induction ls with
  | nil => rfl
  | cons line ls ih =>
      rw [List.flatMap_cons, List.append_assoc, textLinesFrom_append (hls line List.mem_cons_self),
        ih fun l hl => hls l (List.mem_cons_of_mem _ hl)]
      rfl

end

/-! ## Folded lines -/

/-- The pieces of a line, each on a line of the text; all but the first behind a space. -/
def foldedLines : List (List Char) → List (List Char)
  | [] => []
  | piece :: more => piece :: more.map (' ' :: ·)

/-- A line is given in these pieces. -/
def Spells (line : List Char) (ps : List (List Char)) : Prop := ps ≠ [] ∧ ps.flatten = line

section

variable {line rest out piece : List Char} {ps more : List (List Char)}

theorem intercalate_pieces (piece : List Char) (more : List (List Char)) :
    List.intercalate (lineEnd ++ [' ']) (piece :: more) ++ lineEnd =
      (foldedLines (piece :: more)).flatMap (· ++ lineEnd) := by
  induction more generalizing piece with
  | nil => simp [List.intercalate, foldedLines]
  | cons next more ih =>
      have hnext := ih next
      simp only [List.intercalate, foldedLines, List.intersperse, List.flatten_cons,
        List.flatMap_cons, List.map_cons, List.append_assoc, List.cons_append,
        List.nil_append] at hnext ⊢
      rw [← hnext]

/-- A line that folds is written in its pieces. -/
theorem writeLine_eq_ok_iff : writeLine line = .ok out ↔
    ∃ ps, pieces line = .ok ps ∧ out = (foldedLines ps).flatMap (· ++ lineEnd) := by
  rw [writeLine]
  simp only [Result.bind_eq_ok_iff, Except.ok.injEq]
  refine exists_congr fun ps => and_congr_right fun hps => ?_
  obtain ⟨piece, more, rfl⟩ := List.exists_cons_of_ne_nil (pieces_eq_ok_iff.1 hps).ne_nil
  rw [intercalate_pieces]
  exact eq_comm

theorem spells_of_pieces (h : pieces line = .ok ps) : Spells line ps := by
  rw [pieces_eq_ok_iff] at h
  exact ⟨h.ne_nil, h.flatten_eq⟩

/-- A reader joins the pieces of a line. -/
theorem unfold_foldedLines (hline : '\n' ∉ line) (hps : Spells line ps)
    (hrest : rest.head? ≠ some ' ') :
    unfold ((foldedLines ps).flatMap (· ++ lineEnd) ++ rest) =
      line ++ (lineEnd ++ unfold rest) := by
  obtain ⟨hne, rfl⟩ := hps
  obtain ⟨piece, more, rfl⟩ := List.exists_cons_of_ne_nil hne
  rw [foldedLines, List.flatMap_cons, List.flatten_cons]
  rw [List.flatten_cons] at hline
  clear hne
  induction more generalizing piece with
  | nil =>
      have hpiece : '\n' ∉ piece := fun h => hline (List.mem_append_left _ h)
      have hhead : (lineEnd ++ rest).head? ≠ some '\n' := by
        intro h
        cases h
      simp only [List.map_nil, List.flatMap_nil, List.append_nil, List.flatten_nil,
        List.append_assoc]
      rw [unfold_append hpiece hhead, unfold_lineEnd hrest]
  | cons next more ih =>
      rw [List.mem_append, not_or] at hline
      have hhead : (lineEnd ++ ((' ' :: next) ++ lineEnd ++
          (more.map (' ' :: ·)).flatMap (· ++ lineEnd) ++ rest)).head? ≠ some '\n' := by
        intro h
        cases h
      -- the line end behind the piece and the space before the next one are left out
      have hjoin := ih next hline.2
      simp only [List.map_cons, List.flatMap_cons, List.append_assoc, List.cons_append,
        List.flatten_cons] at hjoin hhead ⊢
      rw [unfold_append hline.1 hhead, unfold_fold, hjoin]

end

/-! ## Whole texts -/

section

variable {ls : List (List Char)} {out : List Char}

/-- Lines are written if each of them folds, one after the other in their pieces. -/
theorem writeLines_eq_ok_iff : writeLines ls = .ok out ↔
    ∃ pss, List.Forall₂ (fun line ps => pieces line = .ok ps) ls pss ∧
      out = (pss.flatMap foldedLines).flatMap (· ++ lineEnd) := by
  induction ls generalizing out with
  | nil =>
      rw [writeLines]
      simp [eq_comm]
  | cons line ls ih =>
      rw [writeLines]
      simp only [Result.bind_eq_ok_iff, writeLine_eq_ok_iff, ih, List.forall₂_cons_left_iff,
        Except.ok.injEq]
      constructor
      · rintro ⟨_, ⟨ps, hps, rfl⟩, _, ⟨pss, hpss, rfl⟩, rfl⟩
        refine ⟨ps :: pss, ⟨ps, pss, hps, hpss, rfl⟩, ?_⟩
        rw [List.flatMap_cons, List.flatMap_append]
      · rintro ⟨_, ⟨ps, pss, hps, hpss, rfl⟩, rfl⟩
        refine ⟨_, ⟨ps, hps, rfl⟩, _, ⟨pss, hpss, rfl⟩, ?_⟩
        rw [List.flatMap_cons, List.flatMap_append]

/-- Lines that a reader can tell apart: none has a line feed or begins with a space. -/
def Separate (ls : List (List Char)) : Prop := ∀ line ∈ ls, '\n' ∉ line ∧ line.head? ≠ some ' '

/-- No line of the text that begins a line begins with a space. -/
theorem head?_foldedLines_ne {pss : List (List (List Char))} (hls : Separate ls)
    (h : List.Forall₂ Spells ls pss) :
    ((pss.flatMap foldedLines).flatMap (· ++ lineEnd)).head? ≠ some ' ' := by
  cases h with
  | nil =>
      intro h
      cases h
  | @cons line ps ls pss hps hpss =>
      obtain ⟨hne, rfl⟩ := hps
      obtain ⟨piece, more, rfl⟩ := List.exists_cons_of_ne_nil hne
      have hline := (hls _ List.mem_cons_self).2
      rw [List.flatMap_cons, foldedLines, List.cons_append, List.flatMap_cons]
      rw [List.flatten_cons] at hline
      cases piece with
      | nil =>
          intro h
          cases h
      | cons c piece => exact hline

/-- A reader finds the lines that were written. -/
theorem splitLines_unfold {pss : List (List (List Char))} (hls : Separate ls)
    (h : List.Forall₂ Spells ls pss) :
    splitLines (unfold ((pss.flatMap foldedLines).flatMap (· ++ lineEnd))) = ls := by
  induction h with
  | nil => rfl
  | @cons line ps ls pss hps hpss ih =>
      have hline := (hls line List.mem_cons_self).1
      have hrest : Separate ls := fun l hl => hls l (List.mem_cons_of_mem _ hl)
      rw [List.flatMap_cons, List.flatMap_append,
        unfold_foldedLines hline hps (head?_foldedLines_ne hrest hpss), splitLines_append hline,
        ih hrest]

/-! ## The product -/

theorem rewriteProduct_flatMap (hls : ∀ line ∈ ls, '\n' ∉ line) :
    rewriteProduct (ls.flatMap (· ++ lineEnd)) =
      (ls.map renameProduct).flatMap (· ++ lineEnd) := by
  rw [rewriteProduct, textLines_flatMap hls, List.flatMap_map]

/-- A line does not begin like that of the product. -/
def NamesNoProduct (line : List Char) : Prop := (property "PRODID" []).isPrefixOf line = false

theorem renameProduct_eq_self {line : List Char} (h : NamesNoProduct line) :
    renameProduct line = line := by
  rw [renameProduct, if_neg]
  rw [h]
  exact Bool.false_ne_true

theorem namesNoProduct_space (line : List Char) : NamesNoProduct (' ' :: line) := rfl

theorem NamesNoProduct.of_append {line rest : List Char} (h : NamesNoProduct (line ++ rest)) :
    NamesNoProduct line := by
  rw [NamesNoProduct, Bool.eq_false_iff] at h ⊢
  intro hprefix
  apply h
  rw [List.isPrefixOf_iff_prefix] at hprefix ⊢
  exact hprefix.trans (List.prefix_append line rest)

/-- A folded line that does not name the product is left alone, its continuations included. -/
theorem map_renameProduct_foldedLines {line : List Char} {ps : List (List Char)}
    (hps : Spells line ps) (hline : NamesNoProduct line) :
    (foldedLines ps).map renameProduct = foldedLines ps := by
  obtain ⟨hne, rfl⟩ := hps
  obtain ⟨piece, more, rfl⟩ := List.exists_cons_of_ne_nil hne
  rw [List.flatten_cons] at hline
  have hmore : (more.map (' ' :: ·)).map renameProduct = more.map (' ' :: ·) := by
    rw [List.map_map, List.map_congr_left]
    intro next _
    exact renameProduct_eq_self (namesNoProduct_space next)
  rw [foldedLines, List.map_cons, renameProduct_eq_self hline.of_append, hmore]

/-- The program may rename the product on a line that is not folded. -/
theorem exists_renamed {pss : List (List (List Char))} (h : List.Forall₂ Spells ls pss)
    (hls : List.Forall₂ (fun line ps => NamesNoProduct line ∨ ps = [line]) ls pss) :
    ∃ pss', (pss.flatMap foldedLines).map renameProduct = pss'.flatMap foldedLines ∧
      List.Forall₂ Spells (ls.map renameProduct) pss' := by
  induction h with
  | nil => exact ⟨[], rfl, .nil⟩
  | @cons line ps ls pss hps hpss ih =>
      cases hls with
      | cons hline hls =>
          obtain ⟨pss', hrest, hspells⟩ := ih hls
          rcases hline with hline | rfl
          · refine ⟨ps :: pss', ?_, .cons ?_ hspells⟩
            · rw [List.flatMap_cons, List.map_append, hrest,
                map_renameProduct_foldedLines hps hline, List.flatMap_cons]
            · rw [renameProduct_eq_self hline]
              exact hps
          · refine ⟨[renameProduct line] :: pss', ?_, .cons ?_ hspells⟩
            · rw [List.flatMap_cons, List.map_append, hrest, List.flatMap_cons]
              rfl
            · exact ⟨by simp, by simp⟩

theorem notMem_of_mem_foldedLines {line : List Char} {ps : List (List Char)}
    (hps : Spells line ps) (hline : '\n' ∉ line) : ∀ l ∈ foldedLines ps, '\n' ∉ l := by
  obtain ⟨hne, rfl⟩ := hps
  obtain ⟨piece, more, rfl⟩ := List.exists_cons_of_ne_nil hne
  have hpiece : ∀ p ∈ piece :: more, '\n' ∉ p := by
    intro p hp hmem
    exact hline (List.mem_flatten.2 ⟨p, hp, hmem⟩)
  intro l hl
  rw [foldedLines, List.mem_cons, List.mem_map] at hl
  rcases hl with rfl | ⟨next, hnext, rfl⟩
  · exact hpiece l List.mem_cons_self
  · rw [List.mem_cons, not_or]
    exact ⟨by decide, hpiece next (List.mem_cons_of_mem _ hnext)⟩

theorem notMem_of_mem_flatMap {pss : List (List (List Char))} (hls : Separate ls)
    (h : List.Forall₂ Spells ls pss) : ∀ l ∈ pss.flatMap foldedLines, '\n' ∉ l := by
  intro l hl
  obtain ⟨ps, hps, hl⟩ := List.mem_flatMap.1 hl
  obtain ⟨line, hmem, hspells⟩ := exists_mem_zip_of_forall₂ h.flip hps
  exact notMem_of_mem_foldedLines hspells (hls line (List.of_mem_zip hmem).2).1 l hl

/-- A short line is written in one piece. -/
theorem eq_singleton_of_pieces {line : List Char} {ps : List (List Char)}
    (h : pieces line = .ok ps) (hline : Bytes.count line ≤ lineLimit) : ps = [line] := by
  rw [pieces_eq_ok_iff.2 (.rest hline)] at h
  exact (Except.ok.inj h).symm

/-- Through folding and the renaming of the product, a reader finds the lines with the product
renamed, if no line is folded that begins like that of the product. -/
theorem splitLines_unfold_rewriteProduct (hls : Separate ls)
    (hrenamed : Separate (ls.map renameProduct))
    (hproduct : ∀ line ∈ ls, NamesNoProduct line ∨ Bytes.count line ≤ lineLimit)
    (h : writeLines ls = .ok out) :
    splitLines (unfold (rewriteProduct out)) = ls.map renameProduct := by
  obtain ⟨pss, hpss, rfl⟩ := writeLines_eq_ok_iff.1 h
  have hspells : List.Forall₂ Spells ls pss := hpss.imp fun _ _ => spells_of_pieces
  have hwhole : List.Forall₂ (fun line ps => NamesNoProduct line ∨ ps = [line]) ls pss := by
    apply forall₂_imp_of_mem hpss
    intro line hline ps hps
    exact (hproduct line hline).imp_right (eq_singleton_of_pieces hps)
  obtain ⟨pss', hmap, hspells'⟩ := exists_renamed hspells hwhole
  rw [rewriteProduct_flatMap (notMem_of_mem_flatMap hls hspells), hmap]
  exact splitLines_unfold hrenamed hspells'

end

end Agenda.Calendar
