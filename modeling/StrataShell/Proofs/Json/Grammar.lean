import StrataShell.Json.Parser
import StrataShell.Json.Printer
import StrataShell.Proofs.Datum.Readable
import StrataShell.Proofs.Json.Text

/-!
# The Ways to Write a Value

A value has many texts. Blanks may stand before every token, and the characters of
every text and every name may be spelled in several ways. `Written` says of a text
that it is one of those of a value. A token takes the blanks before it along, so
no rule has to mention blanks, and what is left for a whole document are the blanks
at its end.

Numbers have no rule, since a tree has none and no plain value either. What the
printer makes of a plain value is one of its texts.

## Main definitions

* `Token`: A token with the blanks before it.
* `Quoted`: A text between quotation marks.
* `Written`: The texts of a value.
* `Document`: The documents of a value.

## Theorems

* `Written.starts`: The text of a value begins with a mark of its own.
* `written_renderChars`: The printer writes one of the texts of a plain value.
-/

namespace StrataShell

namespace Json

/-- A token with any blanks before it. -/
def Token (token cs : List Char) : Prop :=
  ∃ blanks : List Char, (∀ c ∈ blanks, isBlank c = true) ∧ cs = blanks ++ token

/-- A text between quotation marks, in any spelling. -/
def Quoted (text : String) (cs : List Char) : Prop :=
  ∃ spelling, SpelledText text.toList spelling ∧ Token ('"' :: (spelling ++ ['"'])) cs

mutual

/-- The texts of a value. -/
inductive Written : Datum → List Char → Prop
  | null {cs : List Char} (word : Token ['n', 'u', 'l', 'l'] cs) : Written .null cs
  | yes {cs : List Char} (word : Token ['t', 'r', 'u', 'e'] cs) : Written (.flag true) cs
  | no {cs : List Char} (word : Token ['f', 'a', 'l', 's', 'e'] cs) : Written (.flag false) cs
  | text {value : String} {cs : List Char} (quoted : Quoted value cs) : Written (.text value) cs
  | emptyList {start close : List Char} (hstart : Token ['['] start) (hclose : Token [']'] close) :
      Written (.list []) (start ++ close)
  | list {items : List Datum} {start cs : List Char} (hstart : Token ['['] start)
      (hitems : WrittenItems items cs) : Written (.list items) (start ++ cs)
  | emptyRecord {start close : List Char} (hstart : Token ['\x7b'] start)
      (hclose : Token ['\x7d'] close) : Written (.record []) (start ++ close)
  | record {fields : List (Option String × Datum)} {start cs : List Char}
      (hstart : Token ['\x7b'] start) (hfields : WrittenFields fields cs) :
      Written (.record fields) (start ++ cs)

/-- The texts of the values of a list, with the commas between them and the closing
    bracket. -/
inductive WrittenItems : List Datum → List Char → Prop
  | last {item : Datum} {cs close : List Char} (hitem : Written item cs)
      (hclose : Token [']'] close) : WrittenItems [item] (cs ++ close)
  | more {item : Datum} {items : List Datum} {cs comma later : List Char} (hitem : Written item cs)
      (hcomma : Token [','] comma) (hlater : WrittenItems items later) :
      WrittenItems (item :: items) (cs ++ (comma ++ later))

/-- The texts of the fields of a record, with the commas between them and the closing
    bracket. -/
inductive WrittenFields : List (Option String × Datum) → List Char → Prop
  | last {name : String} {value : Datum} {key colon cs close : List Char} (hkey : Quoted name key)
      (hcolon : Token [':'] colon) (hvalue : Written value cs) (hclose : Token ['\x7d'] close) :
      WrittenFields [(some name, value)] (key ++ (colon ++ (cs ++ close)))
  | more {name : String} {value : Datum} {fields : List (Option String × Datum)}
      {key colon cs comma later : List Char} (hkey : Quoted name key) (hcolon : Token [':'] colon)
      (hvalue : Written value cs) (hcomma : Token [','] comma)
      (hlater : WrittenFields fields later) :
      WrittenFields ((some name, value) :: fields) (key ++ (colon ++ (cs ++ (comma ++ later))))

end

/-- The documents of a value: one of its texts, and any blanks at the end. -/
def Document (d : Datum) (document : String) : Prop :=
  ∃ cs blanks : List Char, Written d cs ∧ (∀ c ∈ blanks, isBlank c = true)
    ∧ document.toList = cs ++ blanks

/-! ### Tokens -/

-- A token may stand without blanks before it.
theorem token_self (token : List Char) : Token token token :=
  ⟨[], List.forall_mem_nil _, rfl⟩

-- One more blank may stand there as well.
theorem Token.blank {c : Char} {token cs : List Char} (h : Token token cs)
    (hc : isBlank c = true) : Token token (c :: cs) := by
  rcases h with ⟨blanks, hblanks, rfl⟩
  exact ⟨c :: blanks, List.forall_mem_cons.mpr ⟨hc, hblanks⟩, rfl⟩

theorem Token.append {token cs : List Char} (h : Token token cs) (more : List Char) :
    Token (token ++ more) (cs ++ more) := by
  rcases h with ⟨blanks, hblanks, rfl⟩
  exact ⟨blanks, hblanks, List.append_assoc _ _ _⟩

theorem Token.length_pos {c : Char} {token cs : List Char} (h : Token (c :: token) cs) :
    0 < cs.length := by
  rcases h with ⟨blanks, _, rfl⟩
  rw [List.length_append, List.length_cons]
  omega

/-- A token is what is left when the blanks are passed. -/
theorem Token.skipBlanks {c : Char} {token cs : List Char} (h : Token (c :: token) cs)
    (hc : isBlank c = false) (rest : List Char) :
    skipBlanks (cs ++ rest) = c :: (token ++ rest) := by
  rcases h with ⟨blanks, hblanks, rfl⟩
  rw [Json.skipBlanks, List.append_assoc, List.dropWhile_append_of_pos hblanks, List.cons_append,
    List.dropWhile_cons_of_neg (Bool.eq_false_iff.mp hc)]

theorem Quoted.starts {text : String} {cs : List Char} (h : Quoted text cs) :
    ∃ token, Token ('"' :: token) cs := by
  rcases h with ⟨spelling, _, htoken⟩
  exact ⟨_, htoken⟩

/-- The text of a value begins with a mark or a letter, so it is not taken for the
    end of a list. -/
theorem Written.starts {d : Datum} {cs : List Char} (h : Written d cs) :
    ∃ c token, Token (c :: token) cs ∧ isBlank c = false ∧ c ≠ ']' := by
  cases h with
  | null word | yes word | no word => exact ⟨_, _, word, by decide, by decide⟩
  | text quoted =>
    rcases quoted.starts with ⟨token, htoken⟩
    exact ⟨_, token, htoken, by decide, by decide⟩
  | emptyList hstart hclose => exact ⟨_, _, hstart.append _, by decide, by decide⟩
  | list hstart hitems => exact ⟨_, _, hstart.append _, by decide, by decide⟩
  | emptyRecord hstart hclose => exact ⟨_, _, hstart.append _, by decide, by decide⟩
  | record hstart hfields => exact ⟨_, _, hstart.append _, by decide, by decide⟩

theorem WrittenItems.starts {items : List Datum} {cs : List Char} (h : WrittenItems items cs) :
    ∃ c token, Token (c :: token) cs ∧ isBlank c = false ∧ c ≠ ']' := by
  cases h with
  | last hitem _ | more hitem _ _ =>
    rcases hitem.starts with ⟨c, token, htoken, hblank, hclose⟩
    exact ⟨c, _, htoken.append _, hblank, hclose⟩

theorem WrittenFields.starts {fields : List (Option String × Datum)} {cs : List Char}
    (h : WrittenFields fields cs) : ∃ token, Token ('"' :: token) cs := by
  cases h with
  | last hkey _ _ _ | more hkey _ _ _ _ =>
    rcases hkey.starts with ⟨token, htoken⟩
    exact ⟨_, htoken.append _⟩

/-! ### The printer -/

theorem quoted_quote (text : String) : Quoted text (quote text.toList) :=
  ⟨_, spelledText_escape text.toList, token_self _⟩

mutual

/-- The printer writes one of the texts of a plain value. -/
theorem written_renderChars : ∀ d : Datum, d.IsPlain → Written d (renderChars d)
  | .null, _ => .null (token_self _)
  | .flag true, _ => .yes (token_self _)
  | .flag false, _ => .no (token_self _)
  | .text value, _ => .text (quoted_quote value)
  | .list [], _ => .emptyList (token_self ['[']) (token_self [']'])
  | .list (item :: items), h => .list (token_self ['[']) (writtenItems_render item items h.1 h.2)
  | .record [], _ => .emptyRecord (token_self ['\x7b']) (token_self ['\x7d'])
  | .record ((some name, value) :: fields), h =>
    .record (token_self ['\x7b']) (writtenFields_render name value fields h.2.1 h.2.2)
termination_by d => sizeOf d

-- The same for the values of a list.
theorem writtenItems_render : ∀ (item : Datum) (items : List Datum), item.IsPlain →
    Datum.ItemsPlain items → WrittenItems (item :: items) (renderChars item ++ renderItems items)
  | item, [], hitem, _ => .last (written_renderChars item hitem) (token_self [']'])
  | item, next :: items, hitem, h =>
    .more (written_renderChars item hitem) (token_self [','])
      (writtenItems_render next items h.1 h.2)
termination_by item items => sizeOf item + sizeOf items

-- The same for the fields of a record.
theorem writtenFields_render : ∀ (name : String) (value : Datum)
    (fields : List (Option String × Datum)), value.IsPlain → Datum.FieldsPlain fields →
    WrittenFields ((some name, value) :: fields)
      (quote name.toList ++ ':' :: (renderChars value ++ renderFields fields))
  | name, value, [], hvalue, _ =>
    .last (quoted_quote name) (token_self [':']) (written_renderChars value hvalue)
      (token_self ['\x7d'])
  | name, value, (some next, other) :: fields, hvalue, h =>
    .more (quoted_quote name) (token_self [':']) (written_renderChars value hvalue)
      (token_self [',']) (writtenFields_render next other fields h.2.1 h.2.2)
termination_by _ value fields => sizeOf value + sizeOf fields

end

/-- What the printer writes is a document. -/
theorem document_render {d : Datum} (h : d.IsPlain) : Document d (render d) :=
  ⟨renderChars d, [], written_renderChars d h, List.forall_mem_nil _,
    by rw [render, String.toList_ofList, List.append_nil]⟩

end Json

end StrataShell
