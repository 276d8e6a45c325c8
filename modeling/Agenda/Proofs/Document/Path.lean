/-
The place in a message, read back.

A message names a place by the text of a path: keys set off by points, positions in brackets, and a
point alone for the value itself. Keys that hold no point and no bracket are told apart from what
surrounds them, so the text of a path with such keys says which path it is.
-/
import Agenda.Document.Form
import Agenda.Proofs.Text.Numeral

set_option autoImplicit false

namespace Agenda.Path

open Numeral

/-! ## The reader -/

/-- The position between brackets, given what follows the opening one. -/
def index? (segment : List Char) : Option Nat :=
  if segment.takeWhile isDigit ≠ [] ∧ segment.dropWhile isDigit = [']'] then
    some (value (segment.takeWhile isDigit))
  else none

/-- What stands before the first point or bracket of a text, and the steps from there on. -/
def segments? : List Char → Option (List Char × Path)
  | [] => some ([], [])
  | c :: cs => do
    let (segment, path) ← segments? cs
    if c = '.' then some ([], .key (String.ofList segment) :: path)
    else if c = '[' then (index? segment).map fun i => ([], .index i :: path)
    else some (c :: segment, path)

/-- The path that a text shows. -/
def ofText? (text : String) : Option Path :=
  if text = "." then some []
  else
    match segments? text.toList with
    | some ([], []) => none
    | some ([], path) => some path
    | some (segment, path) => some (.key (String.ofList segment) :: path)
    | none => none

/-! ## Keys that are told apart -/

/-- A key with something in it, and no point or bracket. -/
def isPlainKey (key : String) : Bool :=
  !key.toList.isEmpty && key.toList.all fun c => c ≠ '.' && c ≠ '['

/-- All keys of a path are such. -/
def Plain (path : Path) : Prop := ∀ key, .key key ∈ path → isPlainKey key = true

theorem isPlainKey_iff {key : String} :
    isPlainKey key = true ↔ key.toList ≠ [] ∧ ∀ c ∈ key.toList, c ≠ '.' ∧ c ≠ '[' := by
  simp [isPlainKey]

theorem plain_cons {step : Step} {path : Path} (h : Plain (step :: path)) : Plain path :=
  fun key hkey => h key (List.mem_cons_of_mem _ hkey)

/-! ## Reading a text -/

variable {path : Path} {rest : List Char}

/-- Characters that set nothing off stay before what is set off. -/
theorem segments?_append {segment cs : List Char} (h : ∀ c ∈ cs, c ≠ '.' ∧ c ≠ '[')
    (hrest : segments? rest = some (segment, path)) :
    segments? (cs ++ rest) = some (cs ++ segment, path) := by
  induction cs with
  | nil => exact hrest
  | cons c cs ih =>
      obtain ⟨hpoint, hbracket⟩ := h c List.mem_cons_self
      have ih := ih fun d hd => h d (List.mem_cons_of_mem _ hd)
      rw [List.cons_append, segments?, ih, Option.bind_eq_bind, Option.bind_some]
      simp only [if_neg hpoint, if_neg hbracket, List.cons_append]

theorem index?_ofNat (i : Nat) : index? (ofNat i ++ [']']) = some i := by
  have hdigits : ∀ c ∈ ofNat i, isDigit c = true := fun c hc => isDigit_of_mem_ofNat hc
  have hclose : Ends [']'] := ends_cons rfl
  rw [index?, takeWhile_append hdigits hclose, dropWhile_append hdigits hclose, value_ofNat,
    if_pos ⟨ofNat_ne_nil i, rfl⟩]

/-- What follows the first step is set off from it. -/
theorem segments?_tailText (h : Plain path) :
    segments? (tailText path).toList = some ([], path) := by
  induction path with
  | nil => rfl
  | cons step path ih =>
      have ih := ih (plain_cons h)
      cases step with
      | key name =>
          obtain ⟨-, hname⟩ := isPlainKey_iff.1 (h name List.mem_cons_self)
          have htext : (tailText (.key name :: path)).toList =
              '.' :: (name.toList ++ (tailText path).toList) := by
            simp [tailText]
          rw [htext, segments?, segments?_append hname ih, Option.bind_eq_bind, Option.bind_some]
          simp
      | index i =>
          have htext : (tailText (.index i :: path)).toList =
              '[' :: ((ofNat i ++ [']']) ++ (tailText path).toList) := by
            simp [tailText, ofNat]
          have hindex : ∀ c ∈ ofNat i ++ [']'], c ≠ '.' ∧ c ≠ '[' := by
            intro c hc
            rcases List.mem_append.1 hc with hc | hc
            · have hdigit := isDigit_of_mem_ofNat hc
              constructor
              · rintro rfl
                exact absurd hdigit (by decide)
              · rintro rfl
                exact absurd hdigit (by decide)
            · rw [List.mem_singleton.1 hc]
              decide
          rw [htext, segments?, segments?_append hindex ih, Option.bind_eq_bind, Option.bind_some]
          simp [index?_ofNat]

/-- A path is read back from its text. -/
theorem ofText?_text (h : Plain path) : ofText? path.text = some path := by
  cases path with
  | nil => rfl
  | cons step path =>
      have htail := segments?_tailText (plain_cons h)
      cases step with
      | key name =>
          obtain ⟨hne, hname⟩ := isPlainKey_iff.1 (h name List.mem_cons_self)
          have hsegments : segments? (text (.key name :: path)).toList =
              some (name.toList, path) := by
            rw [text, String.toList_append, segments?_append hname htail, List.append_nil]
          have hroot : text (.key name :: path) ≠ "." := by
            intro htext
            rw [htext] at hsegments
            have hnil : ([] : List Char) = name.toList :=
              congrArg Prod.fst (Option.some.inj hsegments)
            exact hne hnil.symm
          rw [ofText?, if_neg hroot, hsegments]
          obtain ⟨c, cs, hcs⟩ := List.exists_cons_of_ne_nil hne
          simp only [hcs]
          rw [← hcs, String.ofList_toList]
      | index i =>
          have htext : text (.index i :: path) = tailText (.index i :: path) := rfl
          have hsegments := segments?_tailText h
          have hroot : text (.index i :: path) ≠ "." := by
            intro hroot
            rw [← htext, hroot] at hsegments
            have hpath : [Step.key ""] = .index i :: path :=
              congrArg Prod.snd (Option.some.inj hsegments)
            cases hpath
          rw [ofText?, if_neg hroot, htext, hsegments]

example : ofText? "links[1].id" = some [.key "links", .index 1, .key "id"] := by decide +kernel

end Agenda.Path
