/-
Writing a document again from the command line.

A source that passes the check is a document, and the command that writes it again reads the same
document. From there on only the writing can fail. What is printed is the text of the document and a
line break, which a reader skips.
-/
import Agenda.Proofs.CommandLine.Work
import Agenda.Proofs.Document.RoundTrip

set_option autoImplicit false

namespace Agenda.CommandLine

variable {p : Platform} {s : Surroundings} {arguments : List String} {input : String}
  {source : Source} {w : Document}

/-- A source passes the check exactly if it can be read. The mark says no more than this, in
particular nothing about writing. -/
theorem verdict_iff : verdict source = (true, "✅ " ++ source.label) ↔
    ∃ w, Document.read source.text = .ok w := by
  rw [verdict]
  cases hread : Document.read source.text with
  | error e => simp
  | ok w => simp

/-- Once the source is read, the command comes down to writing the document. Without an output path
the files are not touched. -/
theorem normalize_run (hload : loadSingle p.disk s input = .ok source)
    (hread : Document.read source.text = .ok w) :
    (normalize p s input none).run s.files = match w.write with
      | .ok text => .ok (succeeded (text ++ "\n")) s.files
      | .error e => .error (.unwritableDocument e) s.files := by
  have hdocument : readDocument source = .ok w := Result.mapError_eq_ok_iff.2 hread
  unfold normalize
  rw [look_bind_ok hload, compute_bind_ok hdocument]
  cases hwrite : w.write with
  | ok text =>
      rw [compute_bind_ok (Result.mapError_ok _ text)]
      rfl
  | error e => rw [compute_bind_error (Result.mapError_error _ e)]

/-- The exit code and the output of a command that writes a document again. -/
theorem runOn_normalize
    (harguments : readArguments s.environment arguments = .ok (.normalize input none))
    (hload : loadSingle p.disk s input = .ok source) (hread : Document.read source.text = .ok w) :
    (∃ text, w.write = .ok text ∧ runOn p s arguments = ⟨succeeded (text ++ "\n"), s.files⟩) ∨
      (∀ text, w.write ≠ .ok text) ∧ (runOn p s arguments).code = failureCode := by
  have hnormalize := normalize_run hload hread
  cases hwrite : w.write with
  | ok text =>
      rw [hwrite] at hnormalize
      exact .inl ⟨text, rfl, runOn_of_ok harguments hnormalize⟩
  | error e =>
      rw [hwrite] at hnormalize
      refine .inr ⟨fun text h => by simp at h, ?_⟩
      rw [runOn_of_error harguments hnormalize]
      rfl

/-- A document that passes the check is written again exactly if each of its instants lies in a
plain year: then the command exits with zero, and otherwise it does not. What it prints is read as
the same document exactly if, besides, each number in it is read back. -/
theorem normalize_checked
    (harguments : readArguments s.environment arguments = .ok (.normalize input none))
    (hload : loadSingle p.disk s input = .ok source)
    (hcheck : verdict source = (true, "✅ " ++ source.label)) :
    ∃ w, Document.read source.text = .ok w ∧
      ((∃ text, w.write = .ok text) ↔ ∀ t ∈ w.instants, t.IsPlain) ∧
      ((runOn p s arguments).code = 0 ↔ ∀ t ∈ w.instants, t.IsPlain) ∧
      ((∃ text, w.write = .ok text ∧ Document.read text = .ok w) ↔
        (∀ t ∈ w.instants, t.IsPlain) ∧ ∀ n ∈ w.toJson.numbers, n.ReadsBack) ∧
      ((runOn p s arguments).code = 0 ∧ Document.read (runOn p s arguments).output = .ok w ↔
        (∀ t ∈ w.instants, t.IsPlain) ∧ ∀ n ∈ w.toJson.numbers, n.ReadsBack) := by
  obtain ⟨w, hread⟩ := verdict_iff.1 hcheck
  have hreadable := Document.readable_of_read hread
  have hblank : Json.Reader.Blank [] := by decide
  -- the command ends what it prints with a line break, which a reader skips
  have hline : Json.Reader.Blank ['\n'] := by decide
  have hsame := hreadable.write_read_iff hblank
  have hprinted := hreadable.write_read_iff hline
  simp only [String.ofList_nil, String.append_empty] at hsame
  refine ⟨w, hread, Document.exists_write_iff, ?_, hsame, ?_⟩
  · rw [← Document.exists_write_iff]
    rcases runOn_normalize harguments hload hread with ⟨text, hwrite, hrun⟩ | ⟨hwrite, hcode⟩
    · rw [hrun]
      exact ⟨fun _ => ⟨text, hwrite⟩, fun _ => rfl⟩
    · rw [hcode]
      exact ⟨fun h => absurd h (by decide), fun ⟨text, h⟩ => absurd h (hwrite text)⟩
  · rw [← hprinted]
    rcases runOn_normalize harguments hload hread with ⟨text, hwrite, hrun⟩ | ⟨hwrite, hcode⟩
    · rw [hrun]
      constructor
      · rintro ⟨-, hback⟩
        exact ⟨text, hwrite, hback⟩
      · rintro ⟨text', hwrite', hback⟩
        obtain rfl := Except.ok.inj (hwrite.symm.trans hwrite')
        exact ⟨rfl, hback⟩
    · rw [hcode]
      exact ⟨fun h => absurd h.1 (by decide), fun ⟨text, h, _⟩ => absurd h (hwrite text)⟩

/-- A document that is set for the first moment of 1970, on the standard input. -/
theorem single_normalize_checked :
    let w := Document.single (.integer 1 (by decide)) []
      (some ⟨0, 0, by decide, by decide, by decide, by decide⟩) none
    let s : Surroundings := ⟨[], ⟨.folder [], []⟩, w.wire.pretty, ⟨[], fun _ => []⟩⟩
    (run s ["normalize", "-i", "-"]).code = 0 ∧
      Document.read (run s ["normalize", "-i", "-"]).output = .ok w := by
  intro w s
  have hplain : ∀ t ∈ w.instants, t.IsPlain := by decide +kernel
  have hnumbers : ∀ n ∈ w.toJson.numbers, n.ReadsBack := by decide +kernel
  have hread : Document.read w.wire.pretty = .ok w :=
    Document.read_wire hplain (by decide +kernel) (by decide +kernel) hnumbers
  have hload : loadSingle .willing s "-" = .ok ⟨"<stdin>", w.wire.pretty⟩ := by
    rw [loadSingle, if_pos rfl, standardSource_toUTF8]
  have harguments : readArguments s.environment ["normalize", "-i", "-"] =
      .ok (.normalize "-" none) := rfl
  obtain ⟨v, hv, -, -, -, hprinted⟩ :=
    normalize_checked harguments hload (verdict_iff.2 ⟨w, hread⟩)
  obtain rfl : w = v := Except.ok.inj (hread.symm.trans hv)
  unfold run
  exact hprinted.2 ⟨hplain, hnumbers⟩

end Agenda.CommandLine
