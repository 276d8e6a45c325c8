/-
Characters measured in bytes.

Some rules of the formats count bytes although what they apply to are characters: a character takes
one to four of them, and a number of bytes may end inside a character.
-/

set_option autoImplicit false

namespace Agenda.Bytes

/-- The number of bytes that some characters take. -/
def count : List Char → Nat
  | [] => 0
  | c :: cs => c.utf8Size + count cs

/-- Whether so many bytes of a text are whole characters. -/
def isBoundary : List Char → Nat → Bool
  | _, 0 => true
  | [], _ + 1 => false
  | c :: cs, bytes => c.utf8Size ≤ bytes && isBoundary cs (bytes - c.utf8Size)

/-- Splits characters after so many bytes. A character that would be cut in two belongs to the first
part. -/
def split : Nat → List Char → List Char × List Char
  | _, [] => ([], [])
  | bytes, c :: cs =>
    if bytes = 0 then ([], c :: cs)
    else
      let (taken, rest) := split (bytes - c.utf8Size) cs
      (c :: taken, rest)

/-- Both parts of a split make up the whole. -/
theorem split_append (bytes : Nat) (cs : List Char) :
    (split bytes cs).1 ++ (split bytes cs).2 = cs := by
  induction cs generalizing bytes with
  | nil => rfl
  | cons c cs ih => by_cases h : bytes = 0 <;> simp [split, h, ih]

/-- At a boundary the first part takes just as many bytes as were asked for. -/
theorem count_split_of_isBoundary {bytes : Nat} {cs : List Char} (h : isBoundary cs bytes = true) :
    count (split bytes cs).1 = bytes := by
  induction cs generalizing bytes with
  | nil => cases bytes <;> simp_all [isBoundary, split, count]
  | cons c cs ih =>
    cases bytes with
    | zero => simp [split, count]
    | succ n =>
      simp only [isBoundary, Bool.and_eq_true, decide_eq_true_eq] at h
      have hcount : count (split (n + 1 - c.utf8Size) cs).1 = n + 1 - c.utf8Size := ih h.2
      simp only [split, Nat.succ_ne_zero, if_false, count]
      omega

end Agenda.Bytes
