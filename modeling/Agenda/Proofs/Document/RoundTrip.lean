/-
Documents as text, there and back.

A document is written by way of one rendering: wire names, and each instant in its canonical text.
The engine makes this rendering of what the form writes exactly if every instant lies in a plain
year, and then nothing else can fail. Reading takes the rendering back: the text gives it with its
numbers reread, the engine puts the instants in place of their texts, and the form makes a document
of it, in which every instant is cut to the millisecond.
-/
import Agenda.Proofs.Document.Reading
import Agenda.Proofs.Json.Accepted
import Agenda.Proofs.Json.Written

set_option autoImplicit false

namespace Agenda.Document

open Engine

variable {w : Document}

/-! ## Texts of documents -/

/-- The document with its numbers replaced. -/
def renumber (g : Number → Number) (w : Document) : Document := form.change id g w

/-- A document as a text shows it that spells its instants in this way. -/
def shown (spelling : Instant → String) (w : Document) : Data :=
  fit.render Property.wireName (fun t => .string (spelling t)) w

/-- The canonical text of an instant, cut to the millisecond. -/
def wireSpelling (t : Instant) : String := Data.spell t.truncate

/-- A document as it is written. -/
def wire (w : Document) : Data := w.shown wireSpelling

/-! ## Writing -/

theorem instantOf?_exactText (t : Instant) :
    instantOf? (some (exactText t)) = if t.IsPlain then some t.truncate else none :=
  Timestamp.read?_exact t

/-- On the way to the wire, the exact text of an instant gives way to the canonical one. -/
theorem replaces_exactText (hplain : ∀ t ∈ w.instants, t.IsPlain) :
    Replaces .toWire exactText (fun t => .string (wireSpelling t)) (form.instants w) := by
  intro t ht
  rw [instants_document] at ht
  exact ⟨t.truncate, by rw [instantOf?_exactText, if_pos (hplain t ht)], rfl⟩

/-- A document whose instants lie in plain years is taken to the wire. -/
theorem uncast_of_plain (hplain : ∀ t ∈ w.instants, t.IsPlain) :
    uncast registry root w.toJson.lift = .ok w.wire := by
  rw [Engine.uncast, run_eq_ok_iff acyclic_registry, toJson, fit.lift_write w]
  exact fit.convertUnder_render acyclic_registry w (replaces_exactText hplain) none .root

/-- And so it is written. -/
theorem write_of_plain (hplain : ∀ t ∈ w.instants, t.IsPlain) : w.write = .ok w.wire.pretty := by
  rw [write, writeData, uncast_of_plain hplain]
  rfl

/-- A document can be written exactly if each of its instants lies in a plain year. -/
theorem exists_write_iff : (∃ s, w.write = .ok s) ↔ ∀ t ∈ w.instants, t.IsPlain := by
  constructor
  · rintro ⟨s, hs⟩ t ht
    obtain ⟨d, hd, -⟩ := Result.bind_eq_ok_iff.1 hs
    have hconvert := Result.mapError_eq_ok_iff.1 hd
    rw [Engine.uncast, run_eq_ok_iff acyclic_registry, toJson, fit.lift_write w] at hconvert
    -- the engine has replaced every exact text, so it found an instant in each
    have hplace : ∀ t, exactText t ≠ .null := fun t => by simp [exactText]
    obtain ⟨u, hu⟩ := fit.exists_instant_of_convertUnder acyclic_registry hplace w none .root
      hconvert t (by rwa [instants_document])
    rw [instantOf?_exactText] at hu
    by_contra hplain
    rw [if_neg hplain] at hu
    cases hu
  · intro hplain
    exact ⟨_, write_of_plain hplain⟩

/-! ## What a document and its texts have in common -/

section

variable {spelling : Instant → String}

/-- A document as a JSON value and its text are made of each other's parts. -/
theorem descends_shown {R : Data → Data → Prop} (hR : Descends R) (w : Document) :
    R w.toJson.lift (w.shown spelling) ∧ R (w.shown spelling) w.toJson.lift := by
  have hto : ∀ t, R (exactText t) (.string (spelling t)) := fun t => hR.text rfl rfl
  have hback : ∀ t, R (.string (spelling t)) (exactText t) := fun t => hR.text rfl rfl
  rw [toJson, fit.lift_write w]
  constructor
  · show R (fit.render Direction.toWire.sourceName _ w)
      (fit.render Direction.toInternal.sourceName _ w)
    exact fit.relate hR hto w
  · show R (fit.render Direction.toInternal.sourceName _ w)
      (fit.render Direction.toWire.sourceName _ w)
    exact fit.relate hR hback w

theorem depth_shown_le {k : Nat} (h : w.toJson.depth ≤ k) : (w.shown spelling).depth ≤ k :=
  (descends_shown descends_depth w).1 k (Json.depth_lift_le.2 h)

theorem tabular_shown (h : w.toJson.Tabular) : (w.shown spelling).Tabular :=
  (descends_shown descends_tabular w).1 (Json.tabular_lift.2 h)

theorem mem_numbers_shown_iff {n : Number} :
    n ∈ (w.shown spelling).numbers ↔ n ∈ w.toJson.numbers := by
  rw [← Json.numbers_lift]
  exact ⟨(descends_shown descends_numbers w).1 n, (descends_shown descends_numbers w).2 n⟩

/-! ## Reading -/

/-- Whatever is done to the numbers of a text is done to those of the document. -/
theorem renumber_shown (g : Number → Number) (w : Document) :
    (w.shown spelling).renumber g = (w.renumber g).shown spelling :=
  fit.map_render (fun v => (Json.renumber_lift g v).symm) (Value.renumber_array g)
    (Value.renumber_object g) w

/-- A text holds no instants, so that nothing changes when it is rendered. -/
theorem lift_toJson_shown (w : Document) : (w.shown spelling).toJson.lift = w.shown spelling := by
  have hlift : ∀ v : Json, v.lift.toJson.lift = Json.lift (v.renumber id) := by
    intro v
    rw [Json.toJson_lift, Value.renumber_id]
  have harray : ∀ vs : List Data, (Data.toJson (.array vs)).lift =
      .array (vs.map fun v => v.toJson.lift) := by
    intro vs
    rw [Data.toJson, Value.graft_array, Json.lift_array, List.map_map]
    rfl
  have hobject : ∀ ms : List (String × Data), (Data.toJson (.object ms)).lift =
      .object (ms.map fun m => (m.1, m.2.toJson.lift)) := by
    intro ms
    rw [Data.toJson, Value.graft_object, Json.lift_object, List.map_map]
    rfl
  have hmap : (w.shown spelling).toJson.lift =
      fit.render Property.wireName (fun t => (Data.toJson (.string (spelling t))).lift)
        (form.change id id w) :=
    fit.map_render (h := fun d : Data => d.toJson.lift) hlift harray hobject w
  rw [fit.change_id] at hmap
  exact hmap

theorem instants_renumber (g : Number → Number) (w : Document) :
    (w.renumber g).instants = w.instants := by
  rw [← instants_document, ← instants_document, renumber]
  exact (fit.instants_change w).trans (List.map_id _)

variable {f : Instant → Instant}
  (hspelling : ∀ t ∈ w.instants, Timestamp.read? (spelling t) = some (f t))

include hspelling

/-- A document is made of its rendering, with every instant as its spelling is read. -/
theorem ofData_cast_shown :
    ((cast registry root (w.shown spelling)).mapError DocumentError.conversion >>= ofData) =
      .ok (w.mapInstants (Instant.wholeMillis ∘ f)) := by
  have hreplaces : Replaces .toInternal (fun t => .string (spelling t)) (.atom ∘ f)
      (form.instants w) := by
    intro t ht
    rw [instants_document] at ht
    exact ⟨f t, hspelling t ht, rfl⟩
  have hconvert : cast registry root (w.shown spelling) =
      .ok (fit.render Property.internalName (.atom ∘ f) w) := by
    rw [Engine.cast, run_eq_ok_iff acyclic_registry]
    exact fit.convertUnder_render acyclic_registry w hreplaces none .root
  have hinstants : ReadsInstants (.atom ∘ f) (Instant.wholeMillis ∘ f) (form.instants w) :=
    fun t _ => ⟨read_atom (f t), by simp⟩
  rw [hconvert, Result.mapError_ok, Result.ok_bind, ofData, fit.read_render w hinstants,
    change_document]
  rfl

/-- What is read where a document was shown: the document with its numbers reread and its instants
as their spellings are read. White space behind the text makes no difference. -/
theorem read_shown_iff {u : Document} (hdepth : w.toJson.depth ≤ Json.maxDepth)
    (htabular : w.toJson.Tabular) {behind : List Char} (hbehind : Json.Reader.Blank behind) :
    read ((w.shown spelling).pretty ++ String.ofList behind) = .ok u ↔
      ∃ g : Number → Number, (∀ n ∈ w.toJson.numbers, n.reread? = some (g n)) ∧
        u = (w.renumber g).mapInstants (Instant.wholeMillis ∘ f) := by
  have htext : (w.shown spelling).pretty ++ String.ofList behind =
      String.ofList (Json.Writer.pretty Data.spell 0 (w.shown spelling) ++ behind) := by
    rw [Data.pretty, String.ofList_append]
  have hnumbers : ∀ g : Number → Number,
      (∀ n ∈ (w.shown spelling).numbers, n.reread? = some (g n)) ↔
        ∀ n ∈ w.toJson.numbers, n.reread? = some (g n) := fun g =>
    forall_congr' fun n => by rw [mem_numbers_shown_iff]
  have hjson : ∀ v, Json.read (String.ofList
      (Json.Writer.pretty Data.spell 0 (w.shown spelling) ++ behind)) = .ok v ↔ _ := fun v =>
    Json.read_pretty_eq_ok_iff (depth_shown_le hdepth) (tabular_shown htabular) hbehind
  -- Whatever the numbers are reread as, the rest goes its way.
  have hrest : ∀ g : Number → Number,
      ((cast registry root (Json.lift ((w.shown spelling).toJson.renumber g))).mapError
        DocumentError.conversion >>= ofData) =
          .ok ((w.renumber g).mapInstants (Instant.wholeMillis ∘ f)) := by
    intro g
    rw [Json.renumber_lift, lift_toJson_shown, renumber_shown]
    exact ofData_cast_shown (by rwa [instants_renumber])
  rw [read, readData, htext, bind_assoc, Result.bind_eq_ok_iff]
  constructor
  · rintro ⟨v, hv, hu⟩
    obtain ⟨g, hg, rfl⟩ := (hjson v).1 (Result.mapError_eq_ok_iff.1 hv)
    exact ⟨g, (hnumbers g).1 hg, Except.ok.inj (hu.symm.trans (hrest g))⟩
  · rintro ⟨g, hg, rfl⟩
    exact ⟨_, Result.mapError_eq_ok_iff.2 ((hjson _).2 ⟨g, (hnumbers g).2 hg, rfl⟩), hrest g⟩

end

theorem renumber_id (w : Document) : w.renumber id = w := fit.change_id w

/-- A document is read where it is shown, if each number of it is read back. -/
theorem read_shown {spelling : Instant → String} {f : Instant → Instant}
    (hspelling : ∀ t ∈ w.instants, Timestamp.read? (spelling t) = some (f t))
    (hdepth : w.toJson.depth ≤ Json.maxDepth) (htabular : w.toJson.Tabular)
    (hnumbers : ∀ n ∈ w.toJson.numbers, n.ReadsBack) :
    read (w.shown spelling).pretty = .ok (w.mapInstants (Instant.wholeMillis ∘ f)) := by
  have hblank : Json.Reader.Blank [] := by decide
  have hread := (read_shown_iff hspelling hdepth htabular hblank).2
    ⟨id, fun n hn => Number.readsBack_iff.1 (hnumbers n hn), rfl⟩
  rwa [String.ofList_nil, String.append_empty, renumber_id] at hread

/-- The canonical text of an instant of a plain year is read as the instant, cut to its
millisecond. -/
theorem read?_wireSpelling {t : Instant} (h : t.IsPlain) :
    Timestamp.read? (wireSpelling t) = some t.truncate := by
  rw [wireSpelling, Timestamp.read?_spell, Instant.truncate_truncate,
    if_pos (Instant.isPlain_truncate_iff.2 h)]

theorem mapInstants_truncate (hplain : ∀ t ∈ w.instants, t.IsPlain) :
    w.mapInstants (Instant.wholeMillis ∘ Instant.truncate) = w.truncate := by
  rw [truncate, ← change_document, ← change_document]
  refine fit.change_congr w fun t ht => ?_
  rw [instants_document] at ht
  rw [Function.comp_apply, Instant.truncate_of_isPlain (hplain t ht),
    Instant.wholeMillis_wholeMillis]

/-- What is read where a document was written. -/
theorem read_wire_iff {u : Document} (hplain : ∀ t ∈ w.instants, t.IsPlain)
    (hdepth : w.toJson.depth ≤ Json.maxDepth) (htabular : w.toJson.Tabular) {behind : List Char}
    (hbehind : Json.Reader.Blank behind) :
    read (w.wire.pretty ++ String.ofList behind) = .ok u ↔
      ∃ g : Number → Number, (∀ n ∈ w.toJson.numbers, n.reread? = some (g n)) ∧
        u = (w.renumber g).truncate := by
  have hsame : ∀ g : Number → Number,
      (w.renumber g).mapInstants (Instant.wholeMillis ∘ Instant.truncate) =
        (w.renumber g).truncate := fun g =>
    mapInstants_truncate (by rwa [instants_renumber])
  simp only [← hsame]
  exact read_shown_iff (fun t ht => read?_wireSpelling (hplain t ht)) hdepth htabular hbehind

/-- A document is read where it was written, cut to the millisecond, if each number of it is read
back. -/
theorem read_wire (hplain : ∀ t ∈ w.instants, t.IsPlain)
    (hdepth : w.toJson.depth ≤ Json.maxDepth) (htabular : w.toJson.Tabular)
    (hnumbers : ∀ n ∈ w.toJson.numbers, n.ReadsBack) : read w.wire.pretty = .ok w.truncate := by
  rw [← mapInstants_truncate hplain]
  exact read_shown (fun t ht => read?_wireSpelling (hplain t ht)) hdepth htabular hnumbers

/-! ## There and back -/

theorem instants_truncate (w : Document) :
    w.truncate.instants = w.instants.map Instant.truncate := by
  rw [← instants_document, ← instants_document, truncate, ← change_document]
  exact fit.instants_change w

theorem isPlain_truncate (hplain : ∀ t ∈ w.instants, t.IsPlain) :
    ∀ t ∈ w.truncate.instants, t.IsPlain := by
  intro t ht
  rw [instants_truncate] at ht
  obtain ⟨u, hu, rfl⟩ := List.mem_map.1 ht
  exact Instant.isPlain_truncate_iff.2 (hplain u hu)

/-- What lies below the milliseconds is not written. -/
theorem wire_truncate (w : Document) : w.truncate.wire = w.wire := by
  rw [wire, wire, shown, shown, truncate, ← change_document, fit.render_change]
  congr 1
  funext t
  rw [Function.comp_apply, wireSpelling, wireSpelling, Instant.truncate_truncate]

/-- A document that nests no deeper than texts may, with instants of plain years and numbers that
are read back, is written, and read back with every instant cut to the millisecond; and writing that
gives the same text again. The free values in it must be ones that could have been built: no object
of them gives a key twice. -/
theorem read_write (w : Document) (hplain : ∀ t ∈ w.instants, t.IsPlain)
    (hdepth : w.toJson.depth ≤ Json.maxDepth) (htabular : w.toJson.Tabular)
    (hnumbers : ∀ n ∈ w.toJson.numbers, n.ReadsBack) :
    ∃ s, w.write = .ok s ∧ read s = .ok w.truncate ∧ w.truncate.write = .ok s := by
  refine ⟨w.wire.pretty, write_of_plain hplain, read_wire hplain hdepth htabular hnumbers, ?_⟩
  rw [write_of_plain (isPlain_truncate hplain), wire_truncate]

/-- A document with one assignment, bare but for its order, the moments at which it is handed in,
its date and when it was made. -/
def single (order : Number) (moments : List Json) (date created : Option Instant) : Document where
  items := [{
    type := .planAssignment, links := [], permissions := [], additionalObjects := {}
    planItem := {
      links := [], permissions := [], additionalObjects := {}, topic := ""
      homeworkType := .homework
      description := "", hasHandInPeriods := false, hasMaterial := false, hasProjectGroups := false
      attachments := [], externalMaterials := [], handInMoments := moments, isShown := true
      noteShownToPupil := false, learningGoals := "" }
    order
    lessonGroup := {
      links := [], permissions := [], additionalObjects := {}, uuid := "", name := ""
      description := ""
      schoolYear := {
        type := .schoolYear, links := [], permissions := [], additionalObjects := {}
        name := .from2024To2025, firstDay := none, lastDay := none, isCurrent := true }
      subject := {
        links := [], permissions := [], additionalObjects := {}, abbreviation := "", name := ""
        uuid := "" }
      hasTutorGroup := false, supportsExamFile := false
      establishment := {
        links := [], permissions := [], additionalObjects := {}, name := .reviusLyceumDoorn
        uuid := "" } }
    date, created }]

/-- A leap second with a part of a millisecond, and a free value with a key that must be escaped. -/
theorem single_read_write :
    let w := single (.integer 3 (by decide))
      [.object [("\n\"", .number (.float ⟨false, 6755399441055744, -52, by decide⟩)), ("", .null)]]
      (some ⟨1483228799, 1000000001, by decide, by decide, by decide, by decide⟩) none
    ∃ s, w.write = .ok s ∧ read s = .ok w.truncate ∧ w.truncate.write = .ok s :=
  read_write _ (by decide +kernel) (by decide +kernel) (by decide +kernel) (by decide +kernel)

/-! ## Documents that were read -/

/-- What a text is read as nests no deeper than the reader goes, its objects are tables, and its
instants have whole milliseconds. -/
structure Readable (w : Document) : Prop where
  depth : w.toJson.depth ≤ Json.maxDepth
  tabular : w.toJson.Tabular
  millis : ∀ t ∈ w.instants, t.wholeMillis = t

theorem readable_of_read {text : String} (h : read text = .ok w) : w.Readable := by
  obtain ⟨d, hd, hw⟩ := Result.bind_eq_ok_iff.1 h
  obtain ⟨v, hv, hcast⟩ := Result.bind_eq_ok_iff.1 hd
  obtain ⟨hdepth, htabular⟩ := Json.fits_of_read (Result.mapError_eq_ok_iff.1 hv)
  obtain ⟨u, hu⟩ := exists_reads_of_cast (Result.mapError_eq_ok_iff.1 hcast)
  -- The document is the one that the form reads, so it is made of parts of the JSON value.
  obtain rfl : form.change Instant.wholeMillis id u = w := by
    rw [ofData, hu.read] at hw
    exact Except.ok.inj hw
  have hmade : ∀ R, Descends R → ∃ d, R v.lift d ∧
      R d (toJson (form.change Instant.wholeMillis id u)).lift := by
    intro R hR
    refine ⟨_, hu.descends R hR, ?_⟩
    rw [toJson, fit.lift_write, fit.render_change]
    -- the document is written with texts where the engine put instants; descent allows for that
    have hplace : ∀ t, R (.atom t) ((exactText ∘ Instant.wholeMillis) t) := fun t =>
      hR.text rfl rfl
    show R (fit.render Direction.toWire.sourceName _ u)
      (fit.render Direction.toWire.sourceName _ u)
    exact fit.relate hR hplace u
  obtain ⟨d₁, hv₁, hw₁⟩ := hmade _ descends_depth
  obtain ⟨d₂, hv₂, hw₂⟩ := hmade _ descends_tabular
  refine ⟨?_, ?_, fun t ht => ?_⟩
  · exact Json.depth_lift_le.1 (hw₁ _ (hv₁ _ (Json.depth_lift_le.2 hdepth)))
  · exact Json.tabular_lift.1 (hw₂ (hv₂ (Json.tabular_lift.2 htabular)))
  · rw [← instants_document, fit.instants_change] at ht
    obtain ⟨t, -, rfl⟩ := List.mem_map.1 ht
    exact t.wholeMillis_wholeMillis

/-- Cutting the instants of such a document changes nothing if they lie in plain years. -/
theorem Readable.truncate_eq (hw : w.Readable) (hplain : ∀ t ∈ w.instants, t.IsPlain) :
    w.truncate = w := by
  have hsame : form.change Instant.truncate id w = form.change id id w := by
    refine fit.change_congr w fun t ht => ?_
    rw [instants_document] at ht
    rw [Instant.truncate_of_isPlain (hplain t ht), hw.millis t ht]
    rfl
  rw [truncate, ← change_document, hsame, fit.change_id]

/-- If rereading the numbers leads back to the document, then each number is read back. -/
theorem eq_of_renumber_truncate {g : Number → Number} (h : w = (w.renumber g).truncate) :
    ∀ n ∈ w.toJson.numbers, g n = n := by
  -- Without its instants the document is itself with its numbers replaced.
  have hbare : fit.render Property.wireName (fun _ => .null) w =
      (fit.render Property.wireName (fun _ => .null) w).renumber g := by
    have hmap : (fit.render Property.wireName (fun _ => .null) w).renumber g =
        fit.render Property.wireName (fun _ => .null) (w.renumber g) :=
      fit.map_render (fun v => (Json.renumber_lift g v).symm) (Value.renumber_array g)
        (Value.renumber_object g) w
    have htruncate : fit.render Property.wireName (fun _ => .null) (w.renumber g).truncate =
        fit.render Property.wireName (fun _ => .null) (w.renumber g) := by
      rw [truncate, ← change_document, fit.render_change]
      rfl
    rw [hmap, ← htruncate, ← h]
  intro n hn
  refine Value.renumber_eq_self_iff.1 hbare.symm n ?_
  rw [← Json.numbers_lift, toJson, fit.lift_write w] at hn
  -- the numbers of a document are those of any rendering, whatever stands for the instants
  have hnumbers : ∀ n ∈ (fit.render Direction.toWire.sourceName exactText w).numbers,
      n ∈ (fit.render Direction.toInternal.sourceName (fun _ => .null) w).numbers :=
    fit.relate descends_numbers (fun t n hn => absurd hn List.not_mem_nil) w
  exact hnumbers n hn

/-- A document that was read can be written exactly if each of its instants lies in a plain year.
The text is read as the same document exactly if, besides, each number of it is read back. -/
theorem Readable.write_read_iff (hw : w.Readable) {behind : List Char}
    (hbehind : Json.Reader.Blank behind) :
    (∃ s, w.write = .ok s ∧ read (s ++ String.ofList behind) = .ok w) ↔
      (∀ t ∈ w.instants, t.IsPlain) ∧ ∀ n ∈ w.toJson.numbers, n.ReadsBack := by
  constructor
  · rintro ⟨s, hs, hread⟩
    have hplain := exists_write_iff.1 ⟨s, hs⟩
    rw [write_of_plain hplain] at hs
    obtain rfl := Except.ok.inj hs
    -- what is read differs from the document at most in its numbers, and here not even there
    obtain ⟨g, hg, heq⟩ := (read_wire_iff hplain hw.depth hw.tabular hbehind).1 hread
    have hsame := eq_of_renumber_truncate heq
    refine ⟨hplain, fun n hn => Number.readsBack_iff.2 ?_⟩
    rw [hg n hn, hsame n hn]
  · rintro ⟨hplain, hnumbers⟩
    refine ⟨_, write_of_plain hplain, ?_⟩
    refine (read_wire_iff hplain hw.depth hw.tabular hbehind).2
      ⟨id, fun n hn => Number.readsBack_iff.1 (hnumbers n hn), ?_⟩
    rw [renumber_id, hw.truncate_eq hplain]

/-! ## A year of five digits -/

/-- The first moment of the year 10000. -/
def tenThousand : Instant :=
  ⟨253402300800, 0, by decide, by decide, Instant.zero_nano_lt, by decide⟩

/-- A document may give it as a date. -/
theorem read?_tenThousand : Timestamp.read? "+10000-01-01" = some tenThousand := by decide +kernel

/-- A document that is set for the year 10000. -/
def far : Document := single (.integer 0 Number.zero_fits) [] (some tenThousand) none

/-- Its text. -/
def farText : String := (far.shown fun _ => "+10000-01-01").pretty

/-- Not every document that can be read can be written: no text of a document has the year 10000 in
its canonical form. -/
theorem far_read_not_written : read farText = .ok far ∧ ∀ s, far.write ≠ .ok s := by
  constructor
  · exact read_shown (fun _ _ => read?_tenThousand) (by decide +kernel) (by decide +kernel)
      (by decide +kernel)
  · intro s hs
    have hplain := exists_write_iff.1 ⟨s, hs⟩
    exact absurd (hplain tenThousand (by decide +kernel)) (by decide +kernel)

end Agenda.Document
