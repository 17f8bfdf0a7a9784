/-!
# Maps in Order of Entry

A map from names to values that remembers the order in which its names came.
Listings show names in that order, so it is part of the value: giving an
existing name a new value keeps its place, and a new name goes to the end.

The representation is the list of entries itself. Nothing in the type forbids
one name to occur twice, and every map built by the operations below is free of
repetitions; `Distinct` says so.

## Main definitions

* `NameMap`: A list of named values.
* `get?`: The value of a name.
* `insert`: Give a name a value, in place or at the end.
* `ofList`: Enter a list of named values one after another.
* `Distinct`: No name occurs twice.

## Theorems

* `get?_insert_self`: A name has the value it was given.
* `get?_insert_of_ne`: Other names keep theirs.
* `names_insert`: A known name keeps its place, a new one goes to the end.
* `insert_of_get?`: Giving a name the value it has changes nothing.
* `Distinct.insert`: Entering a name repeats none.
* `distinct_ofList`: A map entered from a list repeats none.
-/

namespace StrataShell

/-- Values by name, in the order in which the names were entered. -/
abbrev NameMap (α : Type) := List (String × α)

namespace NameMap

variable {α : Type}

/-- The value of a name. -/
def get? (name : String) : NameMap α → Option α
  | [] => none
  | (key, value) :: rest => if key = name then some value else get? name rest

/-- Whether a name has a value. -/
def contains (name : String) (m : NameMap α) : Bool :=
  (get? name m).isSome

/-- The names, in order. -/
def names (m : NameMap α) : List String :=
  m.map Prod.fst

/-- Give a name a value: in its place if the map has it, else at the end. -/
def insert (name : String) (value : α) : NameMap α → NameMap α
  | [] => [(name, value)]
  | (key, old) :: rest =>
    if key = name then (key, value) :: rest else (key, old) :: insert name value rest

/-- Enter named values into a map one after another. -/
def insertAll (m : NameMap α) (entries : List (String × α)) : NameMap α :=
  entries.foldl (fun acc entry => insert entry.1 entry.2 acc) m

/-- The map that a list of named values makes: a repeated name keeps its first
    place and takes its last value. -/
def ofList (entries : List (String × α)) : NameMap α :=
  insertAll [] entries

/-- No name occurs twice. -/
def Distinct (m : NameMap α) : Prop :=
  (names m).Nodup

/-- A name has the value it was given. -/
theorem get?_insert_self (name : String) (value : α) (m : NameMap α) :
    get? name (insert name value m) = some value := by
  induction m with
  | nil => simp only [insert, get?, if_true]
  | cons entry rest ih =>
    by_cases h : entry.1 = name
    · simp only [insert, if_pos h, get?]
    · simp only [insert, if_neg h, get?, ih]

/-- Giving one name a value leaves the others theirs. -/
theorem get?_insert_of_ne {name other : String} (h : other ≠ name) (value : α) (m : NameMap α) :
    get? other (insert name value m) = get? other m := by
  induction m with
  | nil => simp only [insert, get?, if_neg h.symm]
  | cons entry rest ih =>
    by_cases hn : entry.1 = name
    · have ho : ¬ entry.1 = other := fun hc => h (hc.symm.trans hn)
      simp only [insert, if_pos hn, get?, if_neg ho]
    · by_cases ho : entry.1 = other
      · simp only [insert, if_neg hn, get?, if_pos ho]
      · simp only [insert, if_neg hn, get?, if_neg ho, ih]

/-- A name is among the names of a map exactly when it has a value. -/
theorem mem_names_iff {name : String} {m : NameMap α} :
    name ∈ names m ↔ (get? name m).isSome = true := by
  induction m with
  | nil => simp [names, get?]
  | cons entry rest ih =>
    by_cases h : entry.1 = name
    · simp [names, get?, h]
    · have h' : ¬ name = entry.1 := fun hc => h hc.symm
      simp only [names, List.map_cons, List.mem_cons, h', false_or, get?, if_neg h]
      exact ih

/-- A known name keeps its place and a new one goes to the end. -/
theorem names_insert (name : String) (value : α) (m : NameMap α) :
    names (insert name value m) = if name ∈ names m then names m else names m ++ [name] := by
  induction m with
  | nil => rfl
  | cons entry rest ih =>
    by_cases h : entry.1 = name
    · have hm : name ∈ names (entry :: rest) := by simp [names, h]
      rw [if_pos hm]
      simp only [insert, if_pos h, names, List.map_cons]
    · have hne : ¬ name = entry.1 := fun hc => h hc.symm
      have hstep : names (insert name value (entry :: rest))
          = entry.1 :: names (insert name value rest) := by
        simp only [insert, if_neg h, names, List.map_cons]
      have hmem : name ∈ names (entry :: rest) ↔ name ∈ names rest := by
        simp only [names, List.map_cons, List.mem_cons, hne, false_or]
      rw [hstep, ih]
      by_cases hm : name ∈ names rest
      · rw [if_pos hm, if_pos (hmem.mpr hm)]
        rfl
      · rw [if_neg hm, if_neg (fun hc => hm (hmem.mp hc))]
        rfl

/-- Giving a name the value it has already changes nothing. -/
theorem insert_of_get? {m : NameMap α} {name : String} {value : α}
    (h : get? name m = some value) : insert name value m = m := by
  induction m with
  | nil => simp [get?] at h
  | cons entry rest ih =>
    by_cases hn : entry.1 = name
    · simp only [get?, if_pos hn, Option.some.injEq] at h
      simp only [insert, if_pos hn, ← h]
    · simp only [get?, if_neg hn] at h
      simp only [insert, if_neg hn, ih h]

/-- Entering a name repeats none. -/
theorem Distinct.insert {m : NameMap α} (h : Distinct m) (name : String) (value : α) :
    Distinct (NameMap.insert name value m) := by
  unfold Distinct
  rw [names_insert]
  split
  · exact h
  · rename_i hn
    refine List.nodup_append.mpr ⟨h, by simp, ?_⟩
    intro a ha b hb
    simp only [List.mem_singleton] at hb
    subst hb
    exact fun hc => hn (hc ▸ ha)

/-- Entering a list of named values repeats no name. -/
theorem Distinct.insertAll {m : NameMap α} (h : Distinct m) (entries : List (String × α)) :
    Distinct (NameMap.insertAll m entries) := by
  induction entries generalizing m with
  | nil => exact h
  | cons entry rest ih => exact ih (h.insert entry.1 entry.2)

/-- A map entered from a list repeats no name. -/
theorem distinct_ofList (entries : List (String × α)) : Distinct (ofList entries) :=
  Distinct.insertAll (show Distinct [] from List.nodup_nil) entries

end NameMap

end StrataShell
