/-
Tables that remember the order in which their keys came.

Objects of the data format, registries of schemas and maps of names all share one rule: a key keeps
the place of its first arrival, and a later arrival under the same key only replaces what stands
there. A table is therefore a list of pairs, and everything it does is a walk along that list.
-/

set_option autoImplicit false

namespace Agenda

/-- Pairs of a key and what it stands for, in the order in which the keys first came. -/
abbrev Table (α : Type) := List (String × α)

namespace Table

variable {α β : Type}

/-- The keys in order. -/
def keys (t : Table α) : List String := t.map Prod.fst

/-- What stands under a key. -/
def find? : Table α → String → Option α
  | [], _ => none
  | (k, a) :: rest, key => if k = key then some a else find? rest key

/-- Puts a value under a key: in the key's place if it has one, at the end otherwise. -/
def insert : Table α → String → α → Table α
  | [], key, a => [(key, a)]
  | (k, b) :: rest, key, a => if k = key then (k, a) :: rest else (k, b) :: insert rest key a

/-- The table that a list of pairs builds up from the left. -/
def ofList (pairs : List (String × α)) : Table α :=
  pairs.foldl (fun t p => insert t p.1 p.2) []

/-! ## What an insertion changes -/

/-- The key that was put in is found. -/
@[simp] theorem find?_insert_self (t : Table α) (key : String) (a : α) :
    find? (insert t key a) key = some a := by
  induction t with
  | nil => simp [insert, find?]
  | cons p rest ih => by_cases h : p.1 = key <;> simp [insert, find?, h, ih]

/-- Every other key is found as before. -/
theorem find?_insert_of_ne (t : Table α) {key other : String} (a : α) (hne : other ≠ key) :
    find? (insert t key a) other = find? t other := by
  induction t with
  | nil => simp [insert, find?, hne.symm]
  | cons p rest ih =>
    by_cases h : p.1 = key
    · have hp : p.1 ≠ other := fun hk => hne (hk.symm.trans h)
      simp [insert, find?, h, h ▸ hp]
    · by_cases ho : p.1 = other <;> simp [insert, find?, h, ho, ih, hne]

/-- Of two insertions under one key only the later one counts. -/
theorem insert_insert (t : Table α) (key : String) (a b : α) :
    insert (insert t key a) key b = insert t key b := by
  induction t with
  | nil => simp [insert]
  | cons p rest ih => by_cases h : p.1 = key <;> simp [insert, h, ih]

/-- A key that is present keeps its place, a new one comes last. -/
theorem keys_insert (t : Table α) (key : String) (a : α) :
    keys (insert t key a) = if key ∈ keys t then keys t else keys t ++ [key] := by
  induction t with
  | nil => simp [insert, keys]
  | cons p rest ih =>
    by_cases h : p.1 = key
    · simp [insert, keys, h]
    · have h' : ¬ key = p.1 := fun hk => h hk.symm
      simp only [keys] at ih
      by_cases hm : key ∈ List.map Prod.fst rest <;> simp_all [insert, keys]

/-- No key comes twice after an insertion if none did before. -/
theorem nodup_keys_insert {t : Table α} (key : String) (a : α) (ht : (keys t).Nodup) :
    (keys (insert t key a)).Nodup := by
  rw [keys_insert]
  split
  · exact ht
  · rename_i hk
    exact List.nodup_append.2 ⟨ht, by simp, by rintro x hx y hy rfl; simp_all⟩

end Table

end Agenda
