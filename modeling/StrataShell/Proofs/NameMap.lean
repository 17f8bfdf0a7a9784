import StrataShell.NameMap

/-!
# Looking Up in Maps That Were Entered From Lists

A map is the list of its entries, and entering a list of named values into it
is done one value at a time. Looking a name up afterwards can be said without
the intermediate maps: the list is searched from its end, because a later value
of a name replaces an earlier one, and the map is asked only for names that the
list does not have. For a list without repetitions the direction of the search
makes no difference.

## Theorems

* `insert_of_notMem`: A new name goes to the end with its value.
* `get?_append`: Two lists are searched one after the other.
* `get?_insertAll`: The last value entered under a name is found.
* `mem_names_insertAll`: A map has the names it had and those entered.
* `ofList_concat`: A name that is entered last and for the first time is last.
* `get?_map`: A name keeps its value when all values are changed alike.
* `get?_reverse`: A list without repetitions can be searched from either end.
* `get?_of_mem`: In a list without repetitions every entry is found.
* `eq_of_names_of_get?`: A map is the order of its names and its values.
* `names_insertAll`: New names go to the end in the order of the list.
* `ofList_of_distinct`: A list without repetitions is the map entered from it.
-/

namespace StrataShell

namespace NameMap

variable {α : Type}

instance (m : NameMap α) : Decidable (Distinct m) :=
  inferInstanceAs (Decidable (names m).Nodup)

-- What is found under a name is one of the entries.
theorem mem_of_get? {name : String} {value : α} {m : NameMap α} (h : get? name m = some value) :
    (name, value) ∈ m := by
  induction m with
  | nil => exact absurd h (by simp [get?])
  | cons entry rest ih =>
    by_cases hn : entry.1 = name
    · simp only [get?, if_pos hn, Option.some.injEq] at h
      rw [← hn, ← h]
      exact List.mem_cons_self
    · simp only [get?, if_neg hn] at h
      exact List.mem_cons_of_mem _ (ih h)

theorem get?_eq_none_iff {name : String} {m : NameMap α} : get? name m = none ↔ name ∉ names m := by
  rw [mem_names_iff, Option.not_isSome_iff_eq_none]

theorem not_contains_eq (name : String) (m : NameMap α) :
    (!contains name m) = decide (name ∉ names m) := by
  rw [Bool.eq_iff_iff, decide_eq_true_eq, mem_names_iff, Bool.not_eq_true', Bool.not_eq_true]
  rfl

/-- A new name goes to the end with its value. -/
theorem insert_of_notMem {name : String} {m : NameMap α} (h : name ∉ names m) (value : α) :
    insert name value m = m ++ [(name, value)] := by
  induction m with
  | nil => rfl
  | cons entry rest ih =>
    have hhead : ¬ entry.1 = name := fun hc => h (hc ▸ List.mem_cons_self)
    have htail : name ∉ names rest := fun hc => h (List.mem_cons_of_mem _ hc)
    simp only [insert, if_neg hhead, ih htail, List.cons_append]

-- Two lists are searched one after the other.
theorem get?_append (name : String) (m n : NameMap α) :
    get? name (m ++ n) = (get? name m).or (get? name n) := by
  induction m with
  | nil => rfl
  | cons entry rest ih =>
    by_cases h : entry.1 = name
    · simp only [List.cons_append, get?, if_pos h, Option.some_or]
    · simp only [List.cons_append, get?, if_neg h, ih]

/-- The last value entered under a name is found, and a name that was not
    entered has its former value. -/
theorem get?_insertAll (name : String) (m : NameMap α) (entries : List (String × α)) :
    get? name (insertAll m entries) = (get? name entries.reverse).or (get? name m) := by
  induction entries generalizing m with
  | nil => rfl
  | cons entry rest ih =>
    have hstep : insertAll m (entry :: rest) = insertAll (insert entry.1 entry.2 m) rest := rfl
    have hone : (get? name [entry]).or (get? name m) = get? name (insert entry.1 entry.2 m) := by
      by_cases h : entry.1 = name
      · rw [← h, get?_insert_self]
        simp only [get?, if_true, Option.some_or]
      · rw [get?_insert_of_ne (fun hc => h hc.symm)]
        simp only [get?, if_neg h, Option.none_or]
    rw [hstep, ih, List.reverse_cons, get?_append, Option.or_assoc, hone]

-- Two lists are entered one after the other.
theorem insertAll_append (m : NameMap α) (first later : List (String × α)) :
    insertAll m (first ++ later) = insertAll (insertAll m first) later :=
  List.foldl_append

/-- A map has the names that it had and those that were entered. -/
theorem mem_names_insertAll {name : String} {m : NameMap α} {entries : List (String × α)} :
    name ∈ names (insertAll m entries) ↔ name ∈ names m ∨ name ∈ names entries := by
  have hreverse : name ∈ names entries.reverse ↔ name ∈ names entries := by
    rw [names, List.map_reverse, List.mem_reverse]
    rfl
  rw [mem_names_iff, get?_insertAll, Option.isSome_or, Bool.or_eq_true, ← mem_names_iff,
    ← mem_names_iff, hreverse, or_comm]

theorem mem_names_ofList {name : String} {entries : List (String × α)} :
    name ∈ names (ofList entries) ↔ name ∈ names entries := by
  rw [ofList, mem_names_insertAll]
  exact or_iff_right List.not_mem_nil

/-- A name that is entered last, and for the first time, stands last. -/
theorem ofList_concat {name : String} {entries : List (String × α)} (h : name ∉ names entries)
    (value : α) : ofList (entries ++ [(name, value)]) = ofList entries ++ [(name, value)] := by
  have hnew : name ∉ names (ofList entries) := fun hmem => h (mem_names_ofList.mp hmem)
  have hlast : insertAll (ofList entries) [(name, value)] = insert name value (ofList entries) :=
    rfl
  rw [ofList, insertAll_append, ← ofList, hlast, insert_of_notMem hnew]

-- A map can be filtered by name without looking at the values.
theorem get?_filter (keep : String → Bool) (name : String) (m : NameMap α) :
    get? name (m.filter (fun entry => keep entry.1)) = if keep name then get? name m else none := by
  induction m with
  | nil => simp [get?]
  | cons entry rest ih =>
    by_cases hn : entry.1 = name
    · subst hn
      by_cases hk : keep entry.1 = true
      · simp [hk, get?]
      · simp [hk, ih]
    · by_cases hk : keep entry.1 = true
      · simp [hk, get?, hn, ih]
      · simp [hk, get?, hn, ih]

-- A change of the values that may depend on the name.
theorem get?_mapEntries {β : Type} (f : String → α → β) (name : String) (m : NameMap α) :
    get? name (m.map (fun entry => (entry.1, f entry.1 entry.2))) = (get? name m).map (f name) := by
  induction m with
  | nil => rfl
  | cons entry rest ih =>
    by_cases h : entry.1 = name
    · subst h
      simp only [List.map_cons, get?, if_true, Option.map_some]
    · simp only [List.map_cons, get?, if_neg h, ih]

/-- A name keeps its value, changed, when all values are changed alike. -/
theorem get?_map {β : Type} (f : α → β) (name : String) (m : NameMap α) :
    get? name (m.map (fun entry => (entry.1, f entry.2))) = (get? name m).map f :=
  get?_mapEntries (fun _ => f) name m

/-- A list without repetitions can be searched from either end. -/
theorem get?_reverse {m : NameMap α} (h : Distinct m) (name : String) :
    get? name m.reverse = get? name m := by
  induction m with
  | nil => rfl
  | cons entry rest ih =>
    have hparts : entry.1 ∉ names rest ∧ Distinct rest := List.nodup_cons.mp h
    rw [List.reverse_cons, get?_append, ih hparts.2]
    by_cases hn : entry.1 = name
    · have hnone : get? name rest = none := by
        rw [get?_eq_none_iff, ← hn]
        exact hparts.1
      simp only [hnone, Option.none_or, get?, if_pos hn]
    · simp only [get?, if_neg hn, Option.or_none]

-- No earlier entry of the name comes before it.
theorem get?_of_mem {m : NameMap α} (h : Distinct m) {entry : String × α} (hmem : entry ∈ m) :
    get? entry.1 m = some entry.2 := by
  induction m with
  | nil => exact absurd hmem List.not_mem_nil
  | cons first rest ih =>
    have hparts : first.1 ∉ names rest ∧ Distinct rest := List.nodup_cons.mp h
    rcases List.mem_cons.mp hmem with hfirst | hrest
    · rw [hfirst]
      simp only [get?, if_true]
    · have hne : ¬ first.1 = entry.1 := fun hc => hparts.1 (hc ▸ List.mem_map_of_mem hrest)
      simp only [get?, if_neg hne, ih hparts.2 hrest]

/-- A map without repetitions is the order of its names and what it has under
    each of them. -/
theorem eq_of_names_of_get? {m n : NameMap α} (hm : Distinct m) (hnames : names m = names n)
    (hget : ∀ name, get? name m = get? name n) : m = n := by
  induction m generalizing n with
  | nil => exact (List.map_eq_nil_iff.mp hnames.symm).symm
  | cons entry rest ih =>
    cases n with
    | nil => exact absurd hnames (by simp [names])
    | cons other later =>
      have hparts := List.cons.inj hnames
      have hfresh : entry.1 ∉ names rest ∧ Distinct rest := List.nodup_cons.mp hm
      -- The first entries have one name, under which either map has its first value.
      have hhead : entry = other := by
        have hvalue := hget entry.1
        have hname : other.1 = entry.1 := hparts.1.symm
        simp only [get?, hname, if_true, Option.some.injEq] at hvalue
        exact Prod.ext hparts.1 hvalue
      have htail : rest = later := by
        refine ih hfresh.2 hparts.2 (fun name => ?_)
        by_cases hn : entry.1 = name
        · have hfreshLater : entry.1 ∉ names later := by
            rw [show names later = names rest from hparts.2.symm]
            exact hfresh.1
          rw [← hn, get?_eq_none_iff.mpr hfresh.1, get?_eq_none_iff.mpr hfreshLater]
        · have hvalue := hget name
          rw [← hhead] at hvalue
          simpa only [get?, if_neg hn] using hvalue
      rw [hhead, htail]

-- Of the names that are entered, those that are new go to the end.
theorem names_insertAll {entries : List (String × α)} (h : Distinct entries) (m : NameMap α) :
    names (insertAll m entries)
      = names m ++ (names entries).filter (fun name => !contains name m) := by
  induction entries generalizing m with
  | nil => simp [insertAll, names]
  | cons entry rest ih =>
    have hfresh : entry.1 ∉ names rest ∧ Distinct rest := List.nodup_cons.mp h
    have hstep : insertAll m (entry :: rest) = insertAll (insert entry.1 entry.2 m) rest := rfl
    have hcontains : ∀ name ∈ names rest,
        contains name (insert entry.1 entry.2 m) = contains name m := by
      intro name hmem
      have hne : name ≠ entry.1 := fun hc => hfresh.1 (hc ▸ hmem)
      rw [contains, contains, get?_insert_of_ne hne]
    have hrest : (names rest).filter (fun name => !contains name (insert entry.1 entry.2 m))
        = (names rest).filter (fun name => !contains name m) :=
      List.filter_congr (fun name hmem => by rw [hcontains name hmem])
    have hcons : names (entry :: rest) = entry.1 :: names rest := rfl
    rw [hstep, ih hfresh.2, hrest, names_insert, hcons, List.filter_cons]
    by_cases hm : entry.1 ∈ names m
    · have hin : contains entry.1 m = true := mem_names_iff.mp hm
      rw [if_pos hm, hin]
      rfl
    · have hout : contains entry.1 m = false :=
        Bool.not_eq_true _ ▸ fun hc => hm (mem_names_iff.mpr hc)
      rw [if_neg hm, hout, List.append_assoc]
      rfl

theorem names_ofList {entries : List (String × α)} (h : Distinct entries) :
    names (ofList entries) = names entries := by
  have hall : (names entries).filter (fun name => !contains name ([] : NameMap α))
      = names entries := List.filter_eq_self.mpr (fun _ _ => rfl)
  rw [ofList, names_insertAll h, hall]
  rfl

/-- A list without repetitions is the map that is entered from it. -/
theorem ofList_of_distinct {m : NameMap α} (h : Distinct m) : ofList m = m := by
  refine eq_of_names_of_get? (distinct_ofList m) (names_ofList h) (fun name => ?_)
  rw [ofList, get?_insertAll, get?_reverse h]
  exact Option.or_none

theorem names_map {β : Type} (f : α → β) (m : NameMap α) :
    names (m.map (fun entry => (entry.1, f entry.2))) = names m := by
  rw [names, List.map_map]
  rfl

theorem Distinct.map {β : Type} (f : α → β) {m : NameMap α} (h : Distinct m) :
    Distinct (m.map (fun entry => (entry.1, f entry.2))) := by
  rw [Distinct, names_map]
  exact h

-- From either end the same names are found, if not always with one value.
theorem isSome_get?_reverse (name : String) (m : NameMap α) :
    (get? name m.reverse).isSome = (get? name m).isSome := by
  rw [Bool.eq_iff_iff, ← mem_names_iff, ← mem_names_iff, names, List.map_reverse,
    List.mem_reverse]
  rfl

/-- From the other end, too, only names that are there are found. -/
theorem get?_reverse_eq_none {m : NameMap α} {name : String} (h : get? name m = none) :
    get? name m.reverse = none := by
  rw [← Option.isNone_iff_eq_none, ← Option.not_isSome, isSome_get?_reverse, h]
  rfl

end NameMap

end StrataShell
