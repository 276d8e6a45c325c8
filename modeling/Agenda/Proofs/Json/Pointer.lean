/-
Addresses of places in a document.

The fragment of an address gives the octets of a text: a character that may stand in it gives its
own, and a percent sign with two hexadecimal digits gives one. That text is a pointer. Its tokens
stand behind slashes, with `~1` for a slash and `~0` for a tilde, and each names a member of an
object by its key or an item of an array by its number.

Readers differ in the characters that they let stand in a fragment, so these are left open. Whatever
they are, an address leads to one place at most. If the keys on the way to a place are put behind
slashes as they are, the result is an address of that place only if it needs no escape at all, since
every escape takes more octets than what it stands for.
-/
import Agenda.Json.Reader
import Agenda.Proofs.Conversion.Places

set_option autoImplicit false

namespace Agenda.Pointer

/-! ## Pointers and fragments -/

/-- The octets of a text. A fragment is decoded to octets and not to characters, so the two are
compared there. -/
def octets (cs : List Char) : List UInt8 := cs.flatMap String.utf8EncodeChar

/-- A fragment gives octets, if outside of escapes it has no characters but those that may stand
bare. -/
inductive Gives (bare : Char → Bool) : List Char → List UInt8 → Prop where
  | nil : Gives bare [] []
  | bare {c : Char} {fragment : List Char} {os : List UInt8} (hc : bare c = true) (hne : c ≠ '%')
      (h : Gives bare fragment os) : Gives bare (c :: fragment) (String.utf8EncodeChar c ++ os)
  | escape {c d : Char} {high low : Nat} {fragment : List Char} {os : List UInt8}
      (hc : Json.Reader.hexDigit? c = some high) (hd : Json.Reader.hexDigit? d = some low)
      (h : Gives bare fragment os) :
      Gives bare ('%' :: c :: d :: fragment) (UInt8.ofNat (16 * high + low) :: os)

/-- The characters that stand in the fragment of a URI without an escape. -/
def isFragmentChar (c : Char) : Bool :=
  c.isAlphanum || "-._~!$&\x27()*+,;=:@/?".toList.contains c

/-- A character of a token. -/
def spellChar (c : Char) : List Char :=
  if c = '~' then ['~', '0'] else if c = '/' then ['~', '1'] else [c]

/-- A token as it stands in a pointer. -/
def spellToken (token : String) : List Char := token.toList.flatMap spellChar

/-- The pointer with these tokens. -/
def spell (tokens : List String) : List Char := tokens.flatMap fun t => '/' :: spellToken t

/-- A token names a step from a value to a part of it. -/
def Names (token : String) : Step → Prop
  | .key name => token = name
  | .index i => token = String.ofList (Numeral.ofNat i)

/-- An address leads along a path to a place in a document. -/
def Leads (bare : Char → Bool) (document : Json) (address : String) (path : Path) : Prop :=
  ∃ fragment tokens, address.toList = '#' :: fragment ∧
    Gives bare fragment (octets (spell tokens)) ∧ List.Forall₂ Names tokens path ∧
      (document.at? path).isSome = true

variable {bare : Char → Bool} {fragment cs ds : List Char} {os os' : List UInt8}
  {tokens tokens' : List String}

/-! ## Octets -/

theorem octets_cons (c : Char) (cs : List Char) :
    octets (c :: cs) = String.utf8EncodeChar c ++ octets cs := rfl

theorem octets_append (cs ds : List Char) : octets (cs ++ ds) = octets cs ++ octets ds :=
  List.flatMap_append

/-- Different texts have different octets, so nothing is lost by comparing them. -/
theorem octets_inj (h : octets cs = octets ds) : cs = ds := by
  have hdecoded : cs.utf8Encode.utf8Decode? = ds.utf8Encode.utf8Decode? :=
    congrArg (fun os => os.toByteArray.utf8Decode?) h
  rw [List.utf8Decode?_utf8Encode, List.utf8Decode?_utf8Encode] at hdecoded
  exact List.toArray_inj (Option.some.inj hdecoded)

theorem length_octet_pos (c : Char) : 0 < (String.utf8EncodeChar c).length :=
  List.length_pos_iff.2 String.utf8EncodeChar_ne_nil

/-! ## Fragments -/

/-- A fragment can be decoded in one way, because a percent sign is never a character by itself. -/
theorem Gives.unique (h : Gives bare fragment os) (h' : Gives bare fragment os') : os = os' := by
  induction h generalizing os' with
  | nil =>
      cases h'
      rfl
  | bare hc hne h ih =>
      cases h' with
      | bare _ _ h' => rw [ih h']
      | escape => exact absurd rfl hne
  | escape hc hd h ih =>
      cases h' with
      | bare _ hne => exact absurd rfl hne
      | escape hc' hd' h' =>
          obtain rfl := Option.some.inj (hc.symm.trans hc')
          obtain rfl := Option.some.inj (hd.symm.trans hd')
          rw [ih h']

/-- Without escapes a fragment gives its own octets. -/
theorem gives_octets (h : ∀ c ∈ fragment, bare c = true ∧ c ≠ '%') :
    Gives bare fragment (octets fragment) := by
  induction fragment with
  | nil => exact .nil
  | cons c fragment ih =>
      obtain ⟨hc, hrest⟩ := List.forall_mem_cons.1 h
      exact .bare hc.1 hc.2 (ih hrest)

theorem Gives.eq_octets (h : Gives bare fragment os) (hfragment : '%' ∉ fragment) :
    os = octets fragment := by
  induction h with
  | nil => rfl
  | bare _ _ _ ih => rw [ih (List.not_mem_of_not_mem_cons hfragment), octets_cons]
  | escape => exact absurd List.mem_cons_self hfragment

/-- With one it gives fewer octets than it has. This is a way to see that a text cannot be its own
escape without looking at what the escapes say. -/
theorem Gives.bare_or_lt (h : Gives bare fragment os) :
    (∀ c ∈ fragment, bare c = true ∧ c ≠ '%') ∨ os.length < (octets fragment).length := by
  induction h with
  | nil => exact .inl (by simp)
  | bare hc hne h ih =>
      refine ih.imp (fun hall => List.forall_mem_cons.2 ⟨⟨hc, hne⟩, hall⟩) fun hlt => ?_
      rw [octets_cons, List.length_append, List.length_append]
      omega
  | @escape c d _ _ fragment os hc hd h ih =>
      -- three characters, of an octet each at least, give a single one
      have hle : os.length ≤ (octets fragment).length := by
        rcases ih with hall | hlt
        · rw [h.unique (gives_octets hall)]
        · exact hlt.le
      have hpercent := length_octet_pos '%'
      have hfirst := length_octet_pos c
      right
      simp only [octets_cons, List.length_append, List.length_cons]
      omega

/-! ## Tokens -/

/-- What is the same or longer piece by piece is so as a whole. It is used for characters within a
token and for tokens within a pointer. -/
theorem flatMap_eq_or_lt {α : Type} {f g : α → List Char}
    (h : ∀ a, f a = g a ∨ (octets (f a)).length < (octets (g a)).length) (as : List α) :
    (∀ a ∈ as, f a = g a) ∨
      (octets (as.flatMap f)).length < (octets (as.flatMap g)).length := by
  have hle : ∀ a, (octets (f a)).length ≤ (octets (g a)).length := fun a =>
    (h a).elim (fun heq => by rw [heq]) Nat.le_of_lt
  induction as with
  | nil => exact .inl (by simp)
  | cons a as ih =>
      have hrest : (octets (as.flatMap f)).length ≤ (octets (as.flatMap g)).length := by
        rcases ih with hall | hlt
        · rw [List.flatMap_congr hall]
        · exact hlt.le
      simp only [List.forall_mem_cons, List.flatMap_cons, octets_append, List.length_append]
      rcases h a with heq | hlt
      · refine ih.imp (fun hall => ⟨heq, hall⟩) fun hlt => ?_
        rw [heq]
        omega
      · right
        omega

/-- Two characters are escaped in a token, since one sets tokens off and the other one begins the
escapes. -/
theorem spellChar_cases (c : Char) : (c = '~' ∧ spellChar c = ['~', '0']) ∨
    (c = '/' ∧ spellChar c = ['~', '1']) ∨ c ≠ '~' ∧ c ≠ '/' ∧ spellChar c = [c] := by
  rw [spellChar]
  split
  · exact .inl ⟨‹_›, rfl⟩
  · split
    · exact .inr (.inl ⟨‹_›, rfl⟩)
    · exact .inr (.inr ⟨‹_›, ‹_›, rfl⟩)

theorem spellChar_eq_iff {c : Char} : [c] = spellChar c ↔ c ≠ '~' ∧ c ≠ '/' := by
  rcases spellChar_cases c with ⟨rfl, hc⟩ | ⟨rfl, hc⟩ | ⟨htilde, hslash, hc⟩
  · simp [hc]
  · simp [hc]
  · simp [hc, htilde, hslash]

theorem spellChar_eq_or_lt (c : Char) :
    [c] = spellChar c ∨ (octets [c]).length < (octets (spellChar c)).length := by
  rcases spellChar_cases c with ⟨rfl, -⟩ | ⟨rfl, -⟩ | ⟨-, -, hc⟩
  · exact .inr (by decide)
  · exact .inr (by decide)
  · exact .inl hc.symm

/-- A token is spelled as it is, or it gets longer. -/
theorem spellToken_eq_or_lt (token : String) : (∀ c ∈ token.toList, c ≠ '~' ∧ c ≠ '/') ∨
    (octets token.toList).length < (octets (spellToken token)).length := by
  have h := flatMap_eq_or_lt spellChar_eq_or_lt token.toList
  rw [List.flatMap_singleton'] at h
  exact h.imp_left fun hall c hc => spellChar_eq_iff.1 (hall c hc)

theorem spellToken_eq {token : String} (h : ∀ c ∈ token.toList, c ≠ '~' ∧ c ≠ '/') :
    spellToken token = token.toList := by
  rw [spellToken, ← List.flatMap_congr fun c hc => spellChar_eq_iff.2 (h c hc),
    List.flatMap_singleton']

/-- Tokens as they are, each behind a slash. -/
def join (tokens : List String) : List Char := tokens.flatMap fun t => '/' :: t.toList

theorem spell_eq_join (h : ∀ t ∈ tokens, ∀ c ∈ t.toList, c ≠ '~' ∧ c ≠ '/') :
    spell tokens = join tokens :=
  List.flatMap_congr fun t ht => by rw [spellToken_eq (h t ht)]

/-- So does a whole pointer, and with that its escapes cannot be made up for elsewhere. -/
theorem spell_eq_or_lt (tokens : List String) :
    (∀ t ∈ tokens, ∀ c ∈ t.toList, c ≠ '~' ∧ c ≠ '/') ∨
      (octets (join tokens)).length < (octets (spell tokens)).length := by
  have htoken : ∀ t, '/' :: t.toList = '/' :: spellToken t ∨
      (octets ('/' :: t.toList)).length < (octets ('/' :: spellToken t)).length := by
    intro t
    refine (spellToken_eq_or_lt t).imp (fun hplain => by rw [spellToken_eq hplain]) fun hlt => ?_
    rw [octets_cons, octets_cons, List.length_append, List.length_append]
    omega
  refine (flatMap_eq_or_lt htoken tokens).imp_left fun hall t ht => ?_
  refine (spellToken_eq_or_lt t).resolve_right ?_
  rw [(List.cons.inj (hall t ht)).2]
  exact Nat.lt_irrefl _

/-- Keys that are put behind slashes as they are give the pointer with these tokens exactly if
neither the pointer nor the fragment needs an escape. -/
theorem gives_join_iff : Gives bare (join tokens) (octets (spell tokens)) ↔
    (∀ c ∈ join tokens, bare c = true ∧ c ≠ '%') ∧
      ∀ t ∈ tokens, ∀ c ∈ t.toList, c ≠ '~' ∧ c ≠ '/' := by
  constructor
  · intro h
    -- the fragment gives no more octets than it has, and the pointer has no fewer
    have hspell := spell_eq_or_lt tokens
    rcases h.bare_or_lt with hbare | hlt
    · refine ⟨hbare, hspell.resolve_right fun hlonger => ?_⟩
      rw [h.unique (gives_octets hbare)] at hlonger
      exact absurd hlonger (Nat.lt_irrefl _)
    · rcases hspell with hplain | hlonger
      · rw [spell_eq_join hplain] at hlt
        exact absurd hlt (Nat.lt_irrefl _)
      · omega
  · rintro ⟨hbare, hplain⟩
    rw [spell_eq_join hplain]
    exact gives_octets hbare

/-! ## One place for an address -/

theorem spellChar_append_inj {c d : Char} (h : spellChar c ++ cs = spellChar d ++ ds) :
    c = d ∧ cs = ds := by
  have hcases := spellChar_cases c
  have hcases' := spellChar_cases d
  grind

/-- What stands behind a token is empty or begins with a slash, and no token does, because slashes
are escaped in it. -/
theorem spell_ne_flatMap_append (c : Char) :
    spell tokens ≠ (c :: cs).flatMap spellChar ++ ds := by
  have hhead : ∃ d more, spellChar c = d :: more ∧ d ≠ '/' := by
    rcases spellChar_cases c with ⟨-, hc⟩ | ⟨-, hc⟩ | ⟨-, hslash, hc⟩
    · exact ⟨_, _, hc, by decide⟩
    · exact ⟨_, _, hc, by decide⟩
    · exact ⟨_, _, hc, hslash⟩
  obtain ⟨d, more, hc, hne⟩ := hhead
  rw [List.flatMap_cons, hc]
  cases tokens with
  | nil => simp [spell]
  | cons t tokens =>
      intro h
      exact hne (List.cons.inj h).1.symm

/-- So where a token ends shows in the pointer, and tokens can be compared one after the other. -/
theorem flatMap_spellChar_append_inj
    (h : cs.flatMap spellChar ++ spell tokens = ds.flatMap spellChar ++ spell tokens') :
    cs = ds ∧ spell tokens = spell tokens' := by
  induction cs generalizing ds with
  | nil =>
      cases ds with
      | nil => exact ⟨rfl, h⟩
      | cons d ds => exact absurd h (spell_ne_flatMap_append d)
  | cons c cs ih =>
      cases ds with
      | nil => exact absurd h.symm (spell_ne_flatMap_append c)
      | cons d ds =>
          rw [List.flatMap_cons, List.flatMap_cons, List.append_assoc, List.append_assoc] at h
          obtain ⟨rfl, hrest⟩ := spellChar_append_inj h
          obtain ⟨rfl, htokens⟩ := ih hrest
          exact ⟨rfl, htokens⟩

/-- A pointer has one reading as a list of tokens. -/
theorem spell_inj (h : spell tokens = spell tokens') : tokens = tokens' := by
  induction tokens generalizing tokens' with
  | nil =>
      cases tokens' with
      | nil => rfl
      | cons t' tokens' => cases h
  | cons t tokens ih =>
      cases tokens' with
      | nil => cases h
      | cons t' tokens' =>
          obtain ⟨ht, h⟩ := flatMap_spellChar_append_inj (List.cons.inj h).2
          rw [String.toList_inj.1 ht, ih h]

/-- Where a token may name a step, the value shows which one: a numeral is an index in an array and
a key in an object. -/
theorem Names.unique {token : String} {step step' : Step} {v : Json} (h : Names token step)
    (h' : Names token step') (hv : (v.step? step).isSome = true)
    (hv' : (v.step? step').isSome = true) : step = step' := by
  cases step with
  | key name =>
      cases step' with
      | key name' => rw [← h, ← h']
      | index i => cases v <;> simp [Value.step?] at hv hv'
  | index i =>
      cases step' with
      | key name => cases v <;> simp [Value.step?] at hv hv'
      | index i' =>
          have hi : Numeral.ofNat i = Numeral.ofNat i' := String.ofList_injective (h.symm.trans h')
          rw [← Numeral.value_ofNat i, hi, Numeral.value_ofNat]

theorem path_unique {document : Json} {path path' : Path} (h : List.Forall₂ Names tokens path)
    (h' : List.Forall₂ Names tokens path') (hat : (document.at? path).isSome = true)
    (hat' : (document.at? path').isSome = true) : path = path' := by
  induction h generalizing document path' with
  | nil =>
      cases h'
      rfl
  | @cons token step tokens path hstep hnames ih =>
      cases h' with
      | @cons _ step' _ path' hstep' hnames' =>
          obtain ⟨u, hu⟩ := Option.isSome_iff_exists.1 hat
          obtain ⟨u', hu'⟩ := Option.isSome_iff_exists.1 hat'
          obtain ⟨v, hv, hat⟩ := Option.bind_eq_some_iff.1 hu
          obtain ⟨v', hv', hat'⟩ := Option.bind_eq_some_iff.1 hu'
          obtain rfl := hstep.unique hstep' (Option.isSome_of_eq_some hv)
            (Option.isSome_of_eq_some hv')
          obtain rfl : v = v' := Option.some.inj (hv.symm.trans hv')
          rw [ih hnames' (Option.isSome_of_eq_some hat) (Option.isSome_of_eq_some hat')]

/-- An address leads to one place at most. So if it leads to the right one, it leads nowhere
else. -/
theorem Leads.unique {document : Json} {address : String} {path path' : Path}
    (h : Leads bare document address path) (h' : Leads bare document address path') :
    path = path' := by
  obtain ⟨fragment, tokens, haddress, hgives, hnames, hat⟩ := h
  obtain ⟨fragment', tokens', haddress', hgives', hnames', hat'⟩ := h'
  obtain rfl := (List.cons.inj (haddress.symm.trans haddress')).2
  obtain rfl := spell_inj (octets_inj (hgives.unique hgives'))
  exact path_unique hnames hnames' hat hat'

end Agenda.Pointer
