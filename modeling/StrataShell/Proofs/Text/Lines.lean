import Mathlib.Data.List.Basic
import StrataShell.Proofs.Text.Blank
import StrataShell.Text.Lines

/-!
# How Lines Are Ended

A line of a byte stream may be ended in two ways, and the last one need not be
ended at all. For a reader who trims what he reads and passes over blank lines
none of this matters. A carriage return is a blank, so it makes no difference
whether it is taken for a part of the ending; and behind the last line feed
stands a blank line if anything.

That the bytes of a line are cut off whole rests on the encoding: the bytes
below 128 stand for one character each and occur in the encoding of no other.

## Main definitions

* `toBytes`: The encoding of a text.
* `splitLines`: The readable texts between the line feeds of a stream.
* `spoken`: What some lines say: those that are not blank, trimmed.
* `Writes`: Some bytes are a way of writing some lines.

## Theorems

* `ofBytes?_eq_some_iff`: Bytes are read as the text that they encode.
* `ofBytes?_concat_return`: A carriage return is read behind the text before it.
* `notMem_toBytes`: An ASCII character has its byte to itself.
* `spoken_textLines`: A stream says what stands between its line feeds.
* `Writes.spoken_splitLines`: However lines are ended, they say the same.
-/

namespace StrataShell

namespace Text

/-! ### Encoding -/

/-- The encoding of a text in UTF-8. -/
def toBytes (s : String) : List UInt8 :=
  s.toList.flatMap String.utf8EncodeChar

theorem toBytes_append (a b : String) : toBytes (a ++ b) = toBytes a ++ toBytes b := by
  rw [toBytes, String.toList_append, List.flatMap_append]
  rfl

theorem toByteArray_toBytes (s : String) : (toBytes s).toByteArray = s.toByteArray :=
  String.utf8Encode_toList

/-- Bytes are read as the text that they encode. -/
theorem ofBytes?_eq_some_iff {bytes : List UInt8} {s : String} :
    ofBytes? bytes = some s ↔ bytes = toBytes s := by
  have hbytes : (⟨bytes.toArray⟩ : ByteArray) = bytes.toByteArray :=
    ByteArray.ext List.data_toByteArray.symm
  rw [← List.toByteArray_inj, toByteArray_toBytes, ofBytes?, hbytes, String.fromUTF8?]
  constructor
  · intro h
    split at h
    · rw [← Option.some.inj h]
      rfl
    · exact absurd h (Option.some_ne_none s).symm
  · intro h
    have hvalid : bytes.toByteArray.IsValidUTF8 := h ▸ s.isValidUTF8
    rw [dif_pos hvalid, Option.some.injEq, ← String.toByteArray_inj, ← h]
    rfl

theorem ofBytes?_toBytes (s : String) : ofBytes? (toBytes s) = some s :=
  ofBytes?_eq_some_iff.mpr rfl

/-- A byte below 128 occurs in the encoding of one character only. -/
theorem toNat_of_mem_utf8EncodeChar {c : Char} {b : UInt8} (hb : b.toNat < 128)
    (h : b ∈ String.utf8EncodeChar c) : c.toNat = b.toNat := by
  have hone : ∀ n : Nat, n < 128 → b = UInt8.ofNat n → n = b.toNat := by
    rintro n hn rfl
    rw [UInt8.toNat_ofNat', Nat.mod_eq_of_lt (by omega)]
  have hhigh : ∀ n : Nat, 128 ≤ n → n < 256 → b ≠ UInt8.ofNat n := by
    rintro n hle hlt rfl
    rw [UInt8.toNat_ofNat', Nat.mod_eq_of_lt hlt] at hb
    omega
  simp only [String.utf8EncodeChar] at h
  split at h
  · exact hone c.val.toNat (by omega) (List.mem_singleton.mp h)
  -- Every byte of a longer encoding is above 127.
  split at h
  · simp only [List.mem_cons, List.not_mem_nil, or_false] at h
    rcases h with h | h <;> exact absurd h (hhigh _ (by omega) (by omega))
  split at h
  · simp only [List.mem_cons, List.not_mem_nil, or_false] at h
    rcases h with h | h | h <;> exact absurd h (hhigh _ (by omega) (by omega))
  · simp only [List.mem_cons, List.not_mem_nil, or_false] at h
    rcases h with h | h | h | h <;> exact absurd h (hhigh _ (by omega) (by omega))

/-- An ASCII character has its byte to itself. -/
theorem notMem_toBytes {c : Char} {b : UInt8} (hb : b.toNat < 128) (hc : c.toNat = b.toNat)
    {s : String} (h : c ∉ s.toList) : b ∉ toBytes s := by
  intro hmem
  rcases List.mem_flatMap.mp hmem with ⟨d, hd, hbyte⟩
  have hsame : d.toNat = c.toNat := (toNat_of_mem_utf8EncodeChar hb hbyte).trans hc.symm
  exact h (Char.toNat_inj.mp hsame ▸ hd)

-- The last byte of an encoding belongs to the last character.
theorem exists_of_concat_return {bytes : List UInt8} {s : String}
    (h : bytes ++ [carriageReturn] = toBytes s) : ∃ front, bytes = toBytes front := by
  rcases List.eq_nil_or_concat s.toList with hnil | ⟨front, c, hchars⟩
  · rw [toBytes, hnil] at h
    exact absurd h (by simp)
  · rw [toBytes, hchars, List.concat_eq_append, List.flatMap_append, List.flatMap_singleton] at h
    have hlast : (String.utf8EncodeChar c).getLast? = some carriageReturn := by
      have hends := congrArg List.getLast? h
      rw [List.getLast?_concat, List.getLast?_append_of_ne_nil _ String.utf8EncodeChar_ne_nil]
        at hends
      exact hends.symm
    have hc : c = '\r' := Char.toNat_inj.mp
      (toNat_of_mem_utf8EncodeChar (by decide) (List.mem_of_getLast? hlast))
    have hreturn : String.utf8EncodeChar '\r' = [carriageReturn] := by decide
    rw [hc, hreturn] at h
    refine ⟨String.ofList front, ?_⟩
    rw [toBytes, String.toList_ofList]
    exact List.append_cancel_right h

/-- A carriage return is read behind the text before it. -/
theorem ofBytes?_concat_return (bytes : List UInt8) :
    ofBytes? (bytes ++ [carriageReturn]) = (ofBytes? bytes).map (· ++ String.singleton '\r') := by
  have hreturn : toBytes (String.singleton '\r') = [carriageReturn] := by decide
  cases hbytes : ofBytes? bytes with
  | some s =>
    rw [Option.map_some, ofBytes?_eq_some_iff, toBytes_append, hreturn,
      ← ofBytes?_eq_some_iff.mp hbytes]
  | none =>
    rw [Option.map_none, Option.eq_none_iff_forall_ne_some]
    intro s hs
    rcases exists_of_concat_return (ofBytes?_eq_some_iff.mp hs) with ⟨front, hfront⟩
    rw [hfront, ofBytes?_toBytes] at hbytes
    exact Option.some_ne_none front hbytes

/-! ### Lines -/

/-- The readable texts between the line feeds of a byte stream, each without one
    carriage return at its end, up to the first that cannot be read. -/
def splitLines (bytes : List UInt8) : List String :=
  leadingSome ((bytes.splitOn lineFeed).map (fun line => ofBytes? (dropReturn line)))

/-- What some lines say: those that are not blank, trimmed. -/
def spoken (lines : List String) : List String :=
  (lines.map trim).filter (fun line => line ≠ "")

/-- Some bytes are a way of writing some lines. Each line is ended by a line feed
    or by a carriage return and a line feed; the last line need not be ended. -/
inductive Writes : List String → List UInt8 → Prop
  | nil : Writes [] []
  | unended (line : String) : Writes [line] (toBytes line)
  | cons (line ending : String) (hending : ending = "\n" ∨ ending = "\r\n") {rest : List String}
      {bytes : List UInt8} (h : Writes rest bytes) :
      Writes (line :: rest) (toBytes (line ++ ending) ++ bytes)

/-- What is understood of a line: its text without the blanks around it. -/
def trimmed? (bytes : List UInt8) : Option String :=
  (ofBytes? bytes).map trim

theorem trimmed?_toBytes (s : String) : trimmed? (toBytes s) = some (trim s) := by
  rw [trimmed?, ofBytes?_toBytes, Option.map_some]

-- The carriage return is a blank.
theorem trimmed?_concat_return (bytes : List UInt8) :
    trimmed? (bytes ++ [carriageReturn]) = trimmed? bytes := by
  rw [trimmed?, trimmed?, ofBytes?_concat_return, Option.map_map]
  exact congrArg (Option.map · (ofBytes? bytes)) (funext fun s => trim_concat s (by decide))

theorem trimmed?_dropReturn (bytes : List UInt8) :
    trimmed? (dropReturn bytes) = trimmed? bytes := by
  rw [dropReturn]
  split
  · rename_i hlast
    rcases List.getLast?_eq_some_iff.mp hlast with ⟨front, hfront⟩
    rw [hfront, List.dropLast_concat, trimmed?_concat_return]
  · rfl

theorem map_leadingSome {α β : Type} (f : α → β) (l : List (Option α)) :
    (leadingSome l).map f = leadingSome (l.map (Option.map f)) := by
  induction l with
  | nil => rfl
  | cons value rest ih =>
    cases value with
    | none => rfl
    | some a => exact congrArg (f a :: ·) ih

-- A value at the end does not count if it is filtered out.
theorem filter_leadingSome_concat {α : Type} {keep : α → Bool} {a : α} (ha : keep a = false)
    (l : List (Option α)) :
    (leadingSome (l ++ [some a])).filter keep = (leadingSome l).filter keep := by
  induction l with
  | nil =>
    simp only [List.nil_append, leadingSome, List.filter_cons, ha, Bool.false_eq_true, if_false]
  | cons value rest ih =>
    cases value with
    | none => rfl
    | some b => simp only [List.cons_append, leadingSome, List.filter_cons, ih]

theorem spoken_leadingSome (f : List UInt8 → List UInt8) (lines : List (List UInt8)) :
    spoken (leadingSome (lines.map (fun line => ofBytes? (f line))))
      = (leadingSome (lines.map (fun line => trimmed? (f line)))).filter
        (fun line => line ≠ "") := by
  rw [spoken, map_leadingSome, List.map_map]
  rfl

/-- What the texts between the line feeds say does not depend on the carriage
    returns. -/
theorem spoken_splitLines (bytes : List UInt8) : spoken (splitLines bytes)
    = (leadingSome ((bytes.splitOn lineFeed).map trimmed?)).filter (fun line => line ≠ "") := by
  rw [splitLines, spoken_leadingSome]
  simp only [trimmed?_dropReturn]

/-- A stream says what the texts between its line feeds say. -/
theorem spoken_textLines (bytes : List UInt8) :
    spoken (textLines bytes) = spoken (splitLines bytes) := by
  rcases List.eq_nil_or_concat (bytes.splitOn lineFeed) with hnil | ⟨finished, last, hcut⟩
  · exact absurd hnil (List.splitOn_ne_nil lineFeed bytes)
  · have hraw : rawLines bytes = finished.map dropReturn ++ (if last = [] then [] else [last]) := by
      simp only [rawLines, hcut, List.concat_eq_append, List.reverse_append, List.reverse_singleton,
        List.singleton_append, List.map_reverse, List.reverse_reverse]
    have hfinished : (finished.map dropReturn).map trimmed? = finished.map trimmed? := by
      rw [List.map_map]
      exact List.map_congr_left fun line _ => trimmed?_dropReturn line
    rw [spoken_splitLines, textLines, spoken_leadingSome (fun line => line), hraw, hcut,
      List.concat_eq_append, List.map_append, List.map_append, hfinished]
    by_cases hlast : last = []
    · -- Behind the last line feed stands nothing, or a blank line.
      rw [if_pos hlast, hlast, List.map_nil, List.append_nil]
      exact (filter_leadingSome_concat (by decide) _).symm
    · rw [if_neg hlast]

theorem spoken_cons (line : String) (rest : List String) :
    spoken (line :: rest) = spoken [line] ++ spoken rest := by
  rw [spoken, ← List.singleton_append, List.map_append, List.filter_append]
  rfl

-- A line feed that a text does not hold cuts it off from what follows.
theorem spoken_splitLines_append {line : List UInt8} {text : String}
    (hline : trimmed? line = some (trim text)) (hfeed : lineFeed ∉ line) (bytes : List UInt8) :
    spoken (splitLines (line ++ lineFeed :: bytes))
      = spoken [text] ++ spoken (splitLines bytes) := by
  rw [spoken_splitLines, spoken_splitLines, List.splitOn_append_cons_self,
    List.splitOn_eq_singleton hfeed, List.map_append, List.map_singleton, hline,
    List.singleton_append, leadingSome, ← List.singleton_append, List.filter_append]
  rfl

/-- However lines are ended, they say the same. -/
theorem Writes.spoken_splitLines {lines : List String} {bytes : List UInt8} (h : Writes lines bytes)
    (hlines : ∀ line ∈ lines, '\n' ∉ line.toList) :
    spoken (splitLines bytes) = spoken lines := by
  induction h with
  | nil => decide
  | unended line =>
    have hfeed : lineFeed ∉ toBytes line :=
      notMem_toBytes (by decide) (by decide) (hlines line List.mem_cons_self)
    rw [Text.spoken_splitLines, List.splitOn_eq_singleton hfeed, List.map_singleton,
      trimmed?_toBytes]
    rfl
  | cons line ending hending h ih =>
    have hfeed : lineFeed ∉ toBytes line :=
      notMem_toBytes (by decide) (by decide) (hlines line List.mem_cons_self)
    rw [spoken_cons, ← ih fun other hmem => hlines other (List.mem_cons_of_mem line hmem)]
    rcases hending with hending | hending
    · have hbytes : toBytes (line ++ ending) = toBytes line ++ [lineFeed] := by
        rw [hending, toBytes_append]
        rfl
      rw [hbytes, List.append_assoc, List.singleton_append,
        spoken_splitLines_append (trimmed?_toBytes line) hfeed]
    · have hbytes : toBytes (line ++ ending) = toBytes line ++ [carriageReturn] ++ [lineFeed] := by
        rw [hending, toBytes_append, List.append_assoc]
        rfl
      have hread : trimmed? (toBytes line ++ [carriageReturn]) = some (trim line) := by
        rw [trimmed?_concat_return, trimmed?_toBytes]
      have hfeed' : lineFeed ∉ toBytes line ++ [carriageReturn] := by
        rw [List.mem_append]
        exact fun hmem => hmem.elim hfeed (by decide)
      rw [hbytes, List.append_assoc _ [lineFeed], List.singleton_append,
        spoken_splitLines_append hread hfeed']

end Text

end StrataShell
