import StrataShell.Json.Text

/-!
# Quoted Text Is Read Back

There are many ways to write a text between quotation marks. A character may
stand for itself unless it has a meaning for the reader, some have a short
escape, all have a long one, and one beyond the first plane has the long ones of
its two halves. `Spelled` lists these ways, and each character of a text is free
to be written in any of them.

Reading takes one code point at a time and joins the halves afterwards. Both steps
go character by character: in front of any further text, a spelling is read as
code points that stand for the character, whatever code points follow. Everything
about quoted text follows by induction on the characters.

The writer uses one of these ways for each character; `escape_cases` says which.

## Main definitions

* `Spelled`: The ways to write a character.
* `SpelledText`: The ways to write a text.

## Theorems

* `Spelled.read`: A spelling is read as code points that stand for the character.
* `SpelledText.read`: A spelled text is read as that text, up to the closing mark.
* `spelled_escape`: An escape is a spelling.
-/

namespace StrataShell

namespace Json

-- The last two digits of the long form write any control character.
theorem hexUnit?_hexDigit :
    ∀ n, n < 0x20 → hexUnit? '0' '0' (hexDigit (n / 16)) (hexDigit (n % 16)) = some n := by
  decide

/-- A character is written as a short escape, as a long one if it is a control
    character, or as it is if it has no meaning for the reader. -/
theorem escape_cases (c : Char) :
    (∃ letter, escape c = ['\\', letter] ∧ shortEscape? letter = some c.toNat ∧ letter ≠ 'u')
      ∨ (c.toNat < 0x20
        ∧ escape c = ['\\', 'u', '0', '0', hexDigit (c.toNat / 16), hexDigit (c.toNat % 16)])
      ∨ (escape c = [c] ∧ c ≠ '"' ∧ c ≠ '\\' ∧ ¬ c.toNat < 0x20) := by
  by_cases hshort : c ∈ ['"', '\\', '\x08', '\x0c', '\n', '\r', '\t']
  · left
    simp only [List.mem_cons, List.not_mem_nil, or_false] at hshort
    rcases hshort with rfl | rfl | rfl | rfl | rfl | rfl | rfl <;> exact ⟨_, rfl, rfl, by decide⟩
  · right
    simp only [List.mem_cons, List.not_mem_nil, or_false, not_or] at hshort
    rcases hshort with ⟨hquote, hslash, hback, hfeed, hline, hreturn, htab⟩
    rw [escape, if_neg hquote, if_neg hslash, if_neg hback, if_neg hfeed, if_neg hline,
      if_neg hreturn, if_neg htab]
    by_cases hcontrol : c.toNat < 0x20
    · exact Or.inl ⟨hcontrol, if_pos hcontrol⟩
    · exact Or.inr ⟨if_neg hcontrol, hquote, hslash, hcontrol⟩

/-! ### One code point -/

-- One code point is read at a time.
theorem scanUnits?_short {letter : Char} {unit : Nat} (h : shortEscape? letter = some unit)
    (hlong : letter ≠ 'u') (rest : List Char) :
    scanUnits? ('\\' :: letter :: rest)
      = (scanUnits? rest).map (fun found => (unit :: found.1, found.2)) := by
  rw [scanUnits?, h]
  · cases scanUnits? rest <;> rfl
  · intro _ _ _ _ _ hc
    exact absurd hc hlong

theorem scanUnits?_long {a b c d : Char} {unit : Nat} (h : hexUnit? a b c d = some unit)
    (rest : List Char) :
    scanUnits? ('\\' :: 'u' :: a :: b :: c :: d :: rest)
      = (scanUnits? rest).map (fun found => (unit :: found.1, found.2)) := by
  rw [scanUnits?, h]
  cases scanUnits? rest <;> rfl

theorem scanUnits?_plain {c : Char} (hquote : c ≠ '"') (hslash : c ≠ '\\')
    (hcontrol : ¬ c.toNat < 0x20) (rest : List Char) :
    scanUnits? (c :: rest)
      = (scanUnits? rest).map (fun found => (c.toNat :: found.1, found.2)) := by
  rw [scanUnits?, if_neg (not_or.mpr ⟨hslash, hcontrol⟩)]
  · cases scanUnits? rest <;> rfl
  · exact hquote
  · intro _ _ _ _ _ hc
    exact absurd hc hslash
  · intro _ _ hc
    exact absurd hc hslash

-- The two halves of a character are read as that character.
theorem ofUnits?_pair {high low : Nat} (hhigh : isHighHalf high = true)
    (hlow : isLowHalf low = true) (units : List Nat) :
    ofUnits? (high :: low :: units) = (ofUnits? units).map (joinHalves high low :: ·) := by
  rw [ofUnits?, if_pos hhigh, if_pos hlow]

/-- The ways to write a character between quotation marks. -/
inductive Spelled : Char → List Char → Prop
  | plain (c : Char) (quote : c ≠ '"') (slash : c ≠ '\\') (control : ¬ c.toNat < 0x20) :
      Spelled c [c]
  | short (c letter : Char) (h : shortEscape? letter = some c.toNat) : Spelled c ['\\', letter]
  | long (c w x y z : Char) (h : hexUnit? w x y z = some c.toNat) :
      Spelled c ['\\', 'u', w, x, y, z]
  | pair (c w x y z w' x' y' z' : Char) (high low : Nat) (hhigh : hexUnit? w x y z = some high)
      (hlow : hexUnit? w' x' y' z' = some low) (isHigh : isHighHalf high = true)
      (isLow : isLowHalf low = true) (join : joinHalves high low = c) :
      Spelled c ['\\', 'u', w, x, y, z, '\\', 'u', w', x', y', z']

/-- The ways to write a text between quotation marks. -/
inductive SpelledText : List Char → List Char → Prop
  | nil : SpelledText [] []
  | cons {c : Char} {cs text more : List Char} (head : Spelled c cs)
      (tail : SpelledText text more) : SpelledText (c :: text) (cs ++ more)

/-- In front of any text, a spelling is read as code points that stand for the
    character, in front of any others. -/
theorem Spelled.read {c : Char} {cs : List Char} (h : Spelled c cs) :
    ∃ units, (∀ rest, scanUnits? (cs ++ rest)
        = (scanUnits? rest).map (fun found => (units ++ found.1, found.2)))
      ∧ ∀ more, ofUnits? (units ++ more) = (ofUnits? more).map (c :: ·) := by
  cases h with
  | plain hquote hslash hcontrol =>
    exact ⟨[c.toNat], scanUnits?_plain hquote hslash hcontrol, ofUnits?_toNat c⟩
  | short letter h =>
    have hlong : letter ≠ 'u' := fun hc => absurd (hc ▸ h) (by simp [shortEscape?])
    exact ⟨[c.toNat], scanUnits?_short h hlong, ofUnits?_toNat c⟩
  | long w x y z h => exact ⟨[c.toNat], scanUnits?_long h, ofUnits?_toNat c⟩
  | pair w x y z w' x' y' z' high low hhigh hlow isHigh isLow join =>
    refine ⟨[high, low], fun rest => ?_, fun more => join ▸ ofUnits?_pair isHigh isLow more⟩
    -- Each half is read as a unit of its own.
    have hboth := scanUnits?_long hhigh ('\\' :: 'u' :: w' :: x' :: y' :: z' :: rest)
    rw [scanUnits?_long hlow, Option.map_map] at hboth
    exact hboth

/-- A spelled text is read as that text, up to the closing mark. -/
theorem SpelledText.read {text cs : List Char} (h : SpelledText text cs) :
    ∃ units, (∀ rest, scanUnits? (cs ++ '"' :: rest) = some (units, rest))
      ∧ ofUnits? units = some text := by
  induction h with
  | nil =>
    refine ⟨[], fun rest => ?_, rfl⟩
    rw [List.nil_append, scanUnits?]
  | cons head _ ih =>
    rcases head.read with ⟨first, hfirst, hchar⟩
    rcases ih with ⟨units, hunits, htext⟩
    refine ⟨first ++ units, fun rest => ?_, ?_⟩
    · rw [List.append_assoc, hfirst, hunits, Option.map_some]
    · rw [hchar, htext, Option.map_some]

-- Neither the letters of the escapes nor the digits are control characters.
theorem not_control_of_shortEscape? {letter : Char} {unit : Nat}
    (h : shortEscape? letter = some unit) : ¬ letter.toNat < 0x20 := by
  unfold shortEscape? at h
  split at h <;> first | decide | exact absurd h (by simp)

theorem not_control_of_isDigitOf {base : Nat} {c : Char} (h : Text.isDigitOf base c = true) :
    ¬ c.toNat < 0x20 := by
  intro hcontrol
  have hnone : ∀ n, n < 0x20 → Text.hexValue? (Char.ofNat n) = none := by decide
  have hc := hnone c.toNat hcontrol
  rw [Char.ofNat_toNat] at hc
  rw [Text.isDigitOf, hc] at h
  exact Bool.false_ne_true h

theorem not_control_of_hexUnit? {w x y z : Char} {unit : Nat} (h : hexUnit? w x y z = some unit) :
    ∀ c ∈ [w, x, y, z], ¬ c.toNat < 0x20 :=
  fun c hmem => not_control_of_isDigitOf (Text.isDigitOf_of_numberIn? h c hmem)

/-- There is no control character in a spelling. -/
theorem Spelled.not_control {c : Char} {cs : List Char} (h : Spelled c cs) :
    ∀ d ∈ cs, ¬ d.toNat < 0x20 := by
  have hmarks : ∀ d ∈ ['\\', 'u'], ¬ d.toNat < 0x20 :=
    List.forall_mem_cons.mpr ⟨by decide, List.forall_mem_singleton.mpr (by decide)⟩
  cases h with
  | plain _ _ hcontrol => exact List.forall_mem_singleton.mpr hcontrol
  | short letter h =>
    exact List.forall_mem_cons.mpr ⟨by decide,
      List.forall_mem_singleton.mpr (not_control_of_shortEscape? h)⟩
  | long w x y z h => exact List.forall_mem_append.mpr ⟨hmarks, not_control_of_hexUnit? h⟩
  | pair w x y z w' x' y' z' high low hhigh hlow _ _ _ =>
    exact List.forall_mem_append.mpr ⟨hmarks, List.forall_mem_append.mpr
      ⟨not_control_of_hexUnit? hhigh, List.forall_mem_append.mpr
        ⟨hmarks, not_control_of_hexUnit? hlow⟩⟩⟩

theorem SpelledText.not_control {text cs : List Char} (h : SpelledText text cs) :
    ∀ d ∈ cs, ¬ d.toNat < 0x20 := by
  induction h with
  | nil => exact List.forall_mem_nil _
  | cons head _ ih => exact List.forall_mem_append.mpr ⟨head.not_control, ih⟩

theorem spelled_escape (c : Char) : Spelled c (escape c) := by
  rcases escape_cases c with ⟨letter, hescape, hletter, _⟩ | ⟨hcontrol, hescape⟩
    | ⟨hescape, hquote, hslash, hcontrol⟩
  · exact hescape ▸ .short c letter hletter
  · exact hescape ▸ .long c _ _ _ _ (hexUnit?_hexDigit c.toNat hcontrol)
  · exact hescape ▸ .plain c hquote hslash hcontrol

/-- Text is written in one of the ways to write it. -/
theorem spelledText_escape (cs : List Char) : SpelledText cs (cs.flatMap escape) := by
  induction cs with
  | nil => exact .nil
  | cons c rest ih => exact .cons (spelled_escape c) ih

end Json

end StrataShell
