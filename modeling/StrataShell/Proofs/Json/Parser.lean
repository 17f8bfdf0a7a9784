import Mathlib.Data.List.DropRight
import StrataShell.Proofs.Json.Grammar

/-!
# What Is Written Is Read

The reader gives back every value from each of its texts. Such a text ends where
the last mark of the value is, whatever follows, so the reader need not look ahead
to know where to stop.

The reader is given fuel, and its three functions call one another with one
unit less. The proof is one induction on the fuel, for the three of them
together: as many units as the text has characters are enough. `ReadsValues`,
`ReadsItems` and `ReadsFields` are the three statements, and each has a lemma
that derives it from those with one unit less.

## Theorems

* `reads`: With enough fuel every text of a value is read, in front of any other.
* `parse?_document`: A document of a value is read as that value.
* `parse?_render`: So is what the printer makes of a plain value.
* `render_injective`: Plain values of one text are one value.
-/

namespace StrataShell

namespace Json

/-- With so much fuel, values are read from the texts that are no longer. -/
def ReadsValues (fuel : Nat) : Prop :=
  ∀ d cs rest, Written d cs → cs.length ≤ fuel → value? fuel (cs ++ rest) = some (d, rest)

/-- With so much fuel, the values of a list are read behind its opening bracket. -/
def ReadsItems (fuel : Nat) : Prop :=
  ∀ items cs rest, WrittenItems items cs → cs.length ≤ fuel →
    items? fuel (cs ++ rest) = some (items, rest)

/-- With so much fuel, the fields of a record are read behind its opening bracket. -/
def ReadsFields (fuel : Nat) : Prop :=
  ∀ fields cs rest, WrittenFields fields cs → cs.length ≤ fuel →
    fields? fuel (cs ++ rest) = some (fields, rest)

/-! ### Blanks and quoted text -/

theorem skipBlanks_skipBlanks (cs : List Char) : skipBlanks (skipBlanks cs) = skipBlanks cs :=
  List.dropWhile_idempotent isBlank cs

-- The blanks before a value or a field are passed in any case.
theorem items?_skipBlanks (fuel : Nat) (cs : List Char) :
    items? fuel (skipBlanks cs) = items? fuel cs := by
  cases fuel with
  | zero => rfl
  | succ fuel =>
    cases fuel with
    | zero => rfl
    | succ fuel => simp only [items?, value?, skipBlanks_skipBlanks]

theorem fields?_skipBlanks (fuel : Nat) (cs : List Char) :
    fields? fuel (skipBlanks cs) = fields? fuel cs := by
  cases fuel with
  | zero => rfl
  | succ fuel => simp only [fields?, skipBlanks_skipBlanks]

/-- A quoted text is a mark, and what is read behind it is the text. -/
theorem Quoted.read {text : String} {cs : List Char} (h : Quoted text cs) (rest : List Char) :
    ∃ behind, skipBlanks (cs ++ rest) = '"' :: behind
      ∧ scanText? behind = some (some text, rest) := by
  rcases h with ⟨spelling, hspelling, htoken⟩
  rcases hspelling.read with ⟨units, hunits, htext⟩
  refine ⟨_, htoken.skipBlanks (by decide) rest, ?_⟩
  simp only [scanText?, List.append_assoc, List.cons_append, List.nil_append, hunits, bind,
    Option.bind, htext, Option.map_some, String.ofList_toList]

/-! ### One unit of fuel more -/

-- A list that does not end at once is read item by item.
theorem value?_list {items : List Datum} {start cs : List Char} (hstart : Token ['['] start)
    (hitems : WrittenItems items cs) (fuel : Nat) (rest : List Char) :
    value? (fuel + 1) (start ++ (cs ++ rest))
      = (items? fuel (cs ++ rest)).map (fun found => (.list found.1, found.2)) := by
  rcases hitems.starts with ⟨c, token, htoken, hblank, hclose⟩
  rw [← items?_skipBlanks, value?, hstart.skipBlanks (by decide)]
  simp only [List.nil_append, htoken.skipBlanks hblank]
  split
  · rename_i heq
    exact absurd (List.cons.inj heq).1 hclose
  · cases items? fuel (c :: (token ++ rest)) <;> rfl

-- A record in which a name begins is read field by field.
theorem value?_record {start cs token : List Char} (hstart : Token ['\x7b'] start)
    (hname : Token ('"' :: token) cs) (fuel : Nat) (rest : List Char) :
    value? (fuel + 1) (start ++ (cs ++ rest))
      = (fields? fuel (cs ++ rest)).map (fun found => (.record found.1, found.2)) := by
  rw [← fields?_skipBlanks, value?, hstart.skipBlanks (by decide)]
  simp only [List.nil_append, hname.skipBlanks (show isBlank '"' = false by decide)]
  split
  · rename_i heq
    exact absurd (List.cons.inj heq).1 (by decide)
  · cases fields? fuel ('"' :: (token ++ rest)) <;> rfl

/-- A field is read in front of further fields once its value is. -/
theorem fields?_more {name : String} {value : Datum} {fields : List (Option String × Datum)}
    {key colon comma cs later rest : List Char} {fuel : Nat} (hkey : Quoted name key)
    (hcolon : Token [':'] colon) (hvalue : value? fuel cs = some (value, comma ++ later))
    (hcomma : Token [','] comma) (hlater : fields? fuel later = some (fields, rest)) :
    fields? (fuel + 1) (key ++ (colon ++ cs)) = some ((some name, value) :: fields, rest) := by
  rcases hkey.read (colon ++ cs) with ⟨behind, hskip, hscan⟩
  rw [fields?, hskip]
  simp only [bind, Option.bind, hscan, hcolon.skipBlanks (show isBlank ':' = false by decide),
    List.nil_append, hvalue, hcomma.skipBlanks (show isBlank ',' = false by decide), hlater]

theorem readsValues_succ {fuel : Nat} (hitems : ReadsItems fuel) (hfields : ReadsFields fuel) :
    ReadsValues (fuel + 1) := by
  intro d cs rest hd hlength
  cases hd with
  | null word | yes word | no word =>
    rw [value?, word.skipBlanks (by decide)]
    rfl
  | text quoted =>
    rcases quoted.read rest with ⟨behind, hskip, hscan⟩
    rw [value?, hskip]
    simp only [bind, Option.bind, hscan, Option.map_some, Option.getD_some]
  | emptyList hstart hclose | emptyRecord hstart hclose =>
    rw [List.append_assoc, value?, hstart.skipBlanks (by decide)]
    simp only [List.nil_append, hclose.skipBlanks (by decide)]
  | @list items start cs hstart hbody =>
    have hpositive := hstart.length_pos
    rw [List.length_append] at hlength
    rw [List.append_assoc, value?_list hstart hbody, hitems items cs rest hbody (by omega),
      Option.map_some]
  | @record fields start cs hstart hbody =>
    have hpositive := hstart.length_pos
    rw [List.length_append] at hlength
    rcases hbody.starts with ⟨token, hname⟩
    rw [List.append_assoc, value?_record hstart hname, hfields fields cs rest hbody (by omega),
      Option.map_some]

theorem readsItems_succ {fuel : Nat} (hvalues : ReadsValues fuel) (hitems : ReadsItems fuel) :
    ReadsItems (fuel + 1) := by
  intro items cs rest h hlength
  cases h with
  | @last item cs close hitem hclose =>
    have hpositive := hclose.length_pos
    simp only [List.length_append] at hlength
    have hread := hvalues item cs (close ++ rest) hitem (by omega)
    rw [List.append_assoc, items?, hread]
    simp only [bind, Option.bind, hclose.skipBlanks (show isBlank ']' = false by decide),
      List.nil_append]
  | @more item items cs comma later hitem hcomma hlater =>
    have hpositive := hcomma.length_pos
    simp only [List.length_append] at hlength
    have hread := hvalues item cs (comma ++ (later ++ rest)) hitem (by omega)
    have hrest := hitems items later rest hlater (by omega)
    rw [List.append_assoc, List.append_assoc, items?, hread]
    simp only [bind, Option.bind, hcomma.skipBlanks (show isBlank ',' = false by decide),
      List.nil_append, hrest]

theorem readsFields_succ {fuel : Nat} (hvalues : ReadsValues fuel) (hfields : ReadsFields fuel) :
    ReadsFields (fuel + 1) := by
  intro fields cs rest h hlength
  cases h with
  | @last name value key colon cs close hkey hcolon hvalue hclose =>
    have hpositive := hclose.length_pos
    simp only [List.length_append] at hlength
    have hread := hvalues value cs (close ++ rest) hvalue (by omega)
    rcases hkey.read (colon ++ (cs ++ (close ++ rest))) with ⟨behind, hskip, hscan⟩
    simp only [List.append_assoc]
    rw [fields?, hskip]
    simp only [bind, Option.bind, hscan, hcolon.skipBlanks (show isBlank ':' = false by decide),
      List.nil_append, hread, hclose.skipBlanks (show isBlank '\x7d' = false by decide)]
  | @more name value fields key colon cs comma later hkey hcolon hvalue hcomma hlater =>
    have hpositive := hcomma.length_pos
    simp only [List.length_append] at hlength
    have hread := hvalues value cs (comma ++ (later ++ rest)) hvalue (by omega)
    have hrest := hfields fields later rest hlater (by omega)
    simp only [List.append_assoc]
    exact fields?_more hkey hcolon hread hcomma hrest

/-! ### All fuel -/

-- Without fuel nothing is read, but no text is as short as that.
theorem reads_zero : ReadsValues 0 ∧ ReadsItems 0 ∧ ReadsFields 0 := by
  refine ⟨fun d cs rest h hlength => ?_, fun items cs rest h hlength => ?_,
    fun fields cs rest h hlength => ?_⟩
  · rcases h.starts with ⟨c, token, htoken, _⟩
    exact absurd hlength (Nat.not_le.mpr htoken.length_pos)
  · rcases h.starts with ⟨c, token, htoken, _⟩
    exact absurd hlength (Nat.not_le.mpr htoken.length_pos)
  · rcases h.starts with ⟨token, htoken⟩
    exact absurd hlength (Nat.not_le.mpr htoken.length_pos)

/-- As many units of fuel as a text has characters are enough to read it. -/
theorem reads (fuel : Nat) : ReadsValues fuel ∧ ReadsItems fuel ∧ ReadsFields fuel := by
  induction fuel with
  | zero => exact reads_zero
  | succ fuel ih =>
    rcases ih with ⟨hvalues, hitems, hfields⟩
    exact ⟨readsValues_succ hitems hfields, readsItems_succ hvalues hitems,
      readsFields_succ hvalues hfields⟩

/-- A document of a value is read as that value. -/
theorem parse?_document {d : Datum} {document : String} (h : Document d document) :
    parse? document = some d := by
  rcases h with ⟨cs, blanks, hwritten, hblanks, hchars⟩
  have hfuel : cs.length ≤ 2 * (cs ++ blanks).length + 2 := by
    rw [List.length_append]
    omega
  have hread := (reads _).1 d cs blanks hwritten hfuel
  have hend : skipBlanks blanks = [] := List.dropWhile_eq_nil_iff.mpr hblanks
  simp only [parse?, hchars, hread, hend, if_true]

/-- What the printer makes of a plain value is read as that value. -/
theorem parse?_render {d : Datum} (h : d.IsPlain) : parse? (render d) = some d :=
  parse?_document (document_render h)

/-- Plain values of one text are one value. -/
theorem render_injective {d e : Datum} (hd : d.IsPlain) (he : e.IsPlain)
    (h : render d = render e) : d = e := by
  have hparse : some d = some e := by
    rw [← parse?_render hd, ← parse?_render he, h]
  exact Option.some.inj hparse

end Json

end StrataShell
