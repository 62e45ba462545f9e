import RegisterLang.Emission.Strings
import RegisterLang.SymbolTable

/-! # What tables of names and strings say

A name stands for the last entry that was added for it. When no name was added twice, looking it up is the
plain search through the list of entries. A string keeps the index of its first use.
-/

namespace RegisterLang

open Array

variable {α : Type} {entries : Array (String × α)}

theorem lastNamed_eq_some {name : String} {n i : Nat}
    (found : lastNamed entries name n = some i) : i < n ∧ entries[i]?.map Prod.fst = some name := by
  induction n with
  | zero => cases found
  | succ n ih =>
    rw [lastNamed] at found
    split at found
    · next here =>
      cases found
      exact ⟨Nat.lt_succ_self _, here⟩
    · obtain ⟨lt, here⟩ := ih found
      exact ⟨Nat.lt_succ_of_lt lt, here⟩

theorem lastNamed_eq_none {name : String} {n : Nat} :
    lastNamed entries name n = none ↔ ∀ i < n, entries[i]?.map Prod.fst ≠ some name := by
  induction n with
  | zero => simp [lastNamed]
  | succ n ih =>
    rw [lastNamed]
    split
    · next here =>
      simp only [reduceCtorEq, false_iff]
      exact fun none => none n (Nat.lt_succ_self n) here
    · next other =>
      rw [ih]
      refine ⟨fun none i lt => ?_, fun none i lt => none i (Nat.lt_succ_of_lt lt)⟩
      obtain below | rfl := Nat.lt_succ_iff_lt_or_eq.1 lt
      · exact none i below
      · exact other

namespace SymbolTable

variable {t : SymbolTable α} {name other : String} {a : α} {i : Nat}

/-- The names of a table, in order. -/
def names (t : SymbolTable α) : List String :=
  t.toList.map Prod.fst

theorem entry_of_find? (found : t.find? name = some i) : ∃ a, t.entries[i]? = some (name, a) := by
  rw [find?_eq_lastNamed] at found
  obtain ⟨⟨_, a⟩, entry, rfl⟩ := Option.map_eq_some_iff.1 (lastNamed_eq_some found).2
  exact ⟨a, entry⟩

theorem lt_of_find? (found : t.find? name = some i) : i < t.size := by
  rw [find?_eq_lastNamed] at found
  exact (lastNamed_eq_some found).1

theorem find?_inj (found : t.find? name = some i) (found' : t.find? other = some i) : name = other := by
  obtain ⟨a, entry⟩ := entry_of_find? found
  obtain ⟨a', entry'⟩ := entry_of_find? found'
  rw [entry] at entry'
  cases entry'
  rfl

theorem lookup?_eq_some : t.lookup? name = some a ↔ ∃ i, t.find? name = some i ∧ t.entries[i]? = some (name, a) := by
  rw [lookup?, Option.bind_eq_some_iff]
  refine exists_congr fun i => and_congr_right fun found => ?_
  obtain ⟨a', entry⟩ := entry_of_find? found
  simp [get?, entry]

theorem lookup?_of_find? (found : t.find? name = some i) : ∃ a, t.lookup? name = some a := by
  obtain ⟨a, entry⟩ := entry_of_find? found
  exact ⟨a, lookup?_eq_some.2 ⟨i, found, entry⟩⟩

theorem lookup?_eq_none : t.lookup? name = none ↔ t.find? name = none := by
  refine ⟨fun none => ?_, fun none => by rw [lookup?, none, Option.bind_none]⟩
  cases found : t.find? name with
  | none => rfl
  | some i =>
    obtain ⟨a, here⟩ := lookup?_of_find? found
    rw [none] at here
    cases here

theorem contains_eq_false : t.contains name = false ↔ t.lookup? name = none := by
  rw [lookup?_eq_none, contains]
  cases t.find? name <;> simp

theorem find?_add (t : SymbolTable α) (name other : String) (a : α) :
    (t.add name a).find? other = if other = name then some t.size else t.find? other :=
  NameIndex.find?_insert ..

theorem lookup?_add (t : SymbolTable α) (name other : String) (a : α) :
    (t.add name a).lookup? other = if other = name then some a else t.lookup? other := by
  rw [lookup?, find?_add]
  split
  · simp [get?, add, size]
  · cases found : t.find? other with
    | none => rw [lookup?, found]; rfl
    | some i =>
      have lt : i < t.entries.size := lt_of_find? found
      rw [lookup?, found, Option.bind_some, Option.bind_some, get?, add, get?,
        getElem?_push_lt lt, getElem?_eq_getElem lt]

/-- Changing the entry that a name stands for changes that of no other name. -/
theorem lookup?_modify (found : t.find? name = some i) (f : α → α) (other : String) : (t.modify i f).lookup? other =
      if other = name then (t.lookup? name).map f else t.lookup? other := by
  have same : (t.modify i f).find? other = t.find? other := rfl
  rw [lookup?, same]
  split
  · next here =>
    subst here
    obtain ⟨a, entry⟩ := entry_of_find? found
    simp [lookup?, found, get?, modify, getElem?_modify, entry]
  · next apart =>
    cases found' : t.find? other with
    | none => rw [lookup?, found']; rfl
    | some j =>
      have different : i ≠ j := by
        rintro rfl
        exact apart (find?_inj found' found)
      simp [lookup?, found', get?, modify, getElem?_modify, different]

theorem names_add (t : SymbolTable α) (name : String) (a : α) : (t.add name a).names = t.names ++ [name] := by
  simp [names, toList, add]

theorem toList_add (t : SymbolTable α) (name : String) (a : α) : (t.add name a).toList = t.toList ++ [(name, a)] := by
  simp [toList, add]

theorem mem_names : name ∈ t.names ↔ t.contains name = true := by
  rw [← Decidable.not_iff_not, Bool.not_eq_true, contains_eq_false, lookup?_eq_none, find?_eq_lastNamed,
    lastNamed_eq_none]
  constructor
  · intro absent i lt here
    obtain ⟨⟨_, a⟩, entry, rfl⟩ := Option.map_eq_some_iff.1 here
    refine absent (List.mem_map.2 ⟨_, ?_, rfl⟩)
    exact mem_toList_iff.2 (mem_of_getElem? entry)
  · intro none member
    obtain ⟨⟨_, a⟩, here, rfl⟩ := List.mem_map.1 member
    obtain ⟨i, lt, entry⟩ := mem_iff_getElem.1 (mem_toList_iff.1 here)
    refine none i lt ?_
    rw [getElem?_eq_getElem lt, entry]
    rfl

theorem nodup_names_add (distinct : t.names.Nodup) (new : t.contains name = false) (a : α) :
    (t.add name a).names.Nodup := by
  rw [names_add, List.nodup_append]
  refine ⟨distinct, by simp, ?_⟩
  intro x member y member' same
  have here : y = name := by simpa using member'
  rw [same, here, mem_names, new] at member
  cases member

theorem find?_of_nodup (distinct : t.names.Nodup) (entry : t.entries[i]? = some (name, a)) :
    t.find? name = some i := by
  have at_i : t.names[i]? = some name := by
    simp [names, toList, entry]
  have present : t.contains name = true := mem_names.1 (List.mem_of_getElem? at_i)
  obtain ⟨j, found⟩ := Option.isSome_iff_exists.1 present
  obtain ⟨a', entry'⟩ := entry_of_find? found
  have at_j : t.names[j]? = some name := by
    simp [names, toList, entry']
  have lt := (List.getElem?_eq_some_iff.1 at_i).1
  rw [found, (List.getElem?_inj lt distinct).1 (at_i.trans at_j.symm)]

theorem lookup?_of_mem (distinct : t.names.Nodup) (member : (name, a) ∈ t.toList) : t.lookup? name = some a := by
  obtain ⟨i, entry⟩ := List.getElem?_of_mem member
  have entry : t.entries[i]? = some (name, a) := by
    rw [← getElem?_toList]
    exact entry
  exact lookup?_eq_some.2 ⟨i, find?_of_nodup distinct entry, entry⟩

theorem mem_of_lookup? (found : t.lookup? name = some a) : (name, a) ∈ t.toList := by
  obtain ⟨i, -, entry⟩ := lookup?_eq_some.1 found
  exact mem_toList_iff.2 (mem_of_getElem? entry)

/-- Looking up a name is the plain search through the entries when no name was added twice. -/
theorem lookup?_eq_lookup (distinct : t.names.Nodup) (name : String) : t.lookup? name = t.toList.lookup name := by
  cases found : t.toList.lookup name with
  | some a =>
    obtain ⟨before, after, same, -⟩ := List.lookup_eq_some_iff.1 found
    exact lookup?_of_mem distinct (by simp [same])
  | none =>
    cases found' : t.lookup? name with
    | none => rfl
    | some a =>
      have other := List.lookup_eq_none_iff.1 found (name, a) (mem_of_lookup? found')
      simp at other

end SymbolTable

namespace Emission.Strings

/-- A table of strings to which others were added, none of them too long. -/
structure Grows (table table' : Array String) : Prop where
  append : ∃ more, table' = table ++ more
  short : (∀ t ∈ table, t.utf8ByteSize ≤ maxLength) → ∀ t ∈ table', t.utf8ByteSize ≤ maxLength

variable {text : String} {table : Array String}

namespace Grows

theorem refl (table : Array String) : Grows table table :=
  ⟨⟨#[], by simp⟩, id⟩

theorem trans {table' table'' : Array String} (first : Grows table table')
    (second : Grows table' table'') : Grows table table'' := by
  obtain ⟨more, same⟩ := first.append
  obtain ⟨more', same'⟩ := second.append
  exact ⟨⟨more ++ more', by rw [same', same, append_assoc]⟩,
    fun short => second.short (first.short short)⟩

theorem push (table : Array String) (short : text.utf8ByteSize ≤ maxLength) :
    Grows table (table.push text) := by
  refine ⟨⟨#[text], by simp⟩, fun all t member => ?_⟩
  obtain earlier | rfl := mem_push.1 member
  · exact all t earlier
  · exact short

end Grows

/-- What interning a text gives: its first index in a table that only grows. -/
structure Interned (s : Strings) (text : String) (index : UInt32) (s' : Strings) : Prop where
  report : s'.report = s.report
  table : Grows s.table s'.table
  first : ∃ i, index = UInt32.ofNat i ∧ s'.table.findIdx? (· = text) = some i

theorem totalErrors_intern (s : Strings) (source : SourceText) (text : String) (span : Span) :
    s.report.totalErrors ≤ (s.intern source text span).2.report.totalErrors := by
  have more : s.report.totalErrors ≤
      (if maxLength < text.utf8ByteSize then
        s.report.complain source .limitExceeded
          s!"string of {text.utf8ByteSize} bytes exceeds the {maxLength}-byte limit" span
      else s.report).totalErrors := by
    split
    · exact Nat.le_succ _
    · exact Nat.le_refl _
  rw [intern]
  split
  · exact more
  · exact more

theorem interned {s : Strings} {source : SourceText} {span : Span}
    (clean : (s.intern source text span).2.report.totalErrors = s.report.totalErrors) :
    s.Interned text (s.intern source text span).1 (s.intern source text span).2 := by
  have short : ¬ maxLength < text.utf8ByteSize := by
    intro long
    simp only [intern, if_pos long] at clean
    split at clean
    · exact absurd clean (Nat.succ_ne_self _)
    · exact absurd clean (Nat.succ_ne_self _)
  simp only [intern, if_neg short]
  split
  · next i found => exact ⟨rfl, .refl _, i, rfl, found⟩
  · next missing =>
    refine ⟨rfl, .push _ (Nat.le_of_not_lt short), s.table.size, rfl, ?_⟩
    rw [findIdx?_push, missing]
    simp

theorem findIdx?_append {i : Nat} (found : table.findIdx? (· = text) = some i) (more : Array String) :
    (table ++ more).findIdx? (· = text) = some i := by
  rw [Array.findIdx?_append, found]
  rfl

end Emission.Strings

end RegisterLang
