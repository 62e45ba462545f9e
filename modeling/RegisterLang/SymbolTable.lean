import RegisterLang.NameIndex

/-! # Tables of named entries

An entry keeps the index it was added at, since code refers to entries by index. Adding a name again
makes the name stand for the new entry and leaves the old one in place.
-/

namespace RegisterLang

/-- The largest index below a bound whose entry has a given name. -/
def lastNamed {α : Type} (entries : Array (String × α)) (name : String) : Nat → Option Nat
  | 0 => none
  | n + 1 =>
    if (entries[n]?.map Prod.fst) = some name then some n else lastNamed entries name n

theorem lastNamed_congr {α β : Type} {a : Array (String × α)} {b : Array (String × β)}
    {name : String} {n : Nat} (h : ∀ i < n, a[i]?.map Prod.fst = b[i]?.map Prod.fst) :
    lastNamed a name n = lastNamed b name n := by
  induction n with
  | zero => rfl
  | succ n ih =>
    simp only [lastNamed, h n (Nat.lt_succ_self n)]
    rw [ih fun i hi => h i (Nat.lt_succ_of_lt hi)]

/-- Named entries in the order they were added. -/
structure SymbolTable (α : Type) where
  entries : Array (String × α)
  /-- The last entry of every name. -/
  index : NameIndex
  find?_index : ∀ name, index.find? name = lastNamed entries name entries.size

namespace SymbolTable

variable {α : Type}

def empty : SymbolTable α :=
  ⟨#[], .empty, fun name => by simp [lastNamed]⟩

instance : Inhabited (SymbolTable α) := ⟨empty⟩

instance [Repr α] : Repr (SymbolTable α) := ⟨fun t prec => reprPrec t.entries prec⟩

def size (t : SymbolTable α) : Nat := t.entries.size

def isEmpty (t : SymbolTable α) : Bool := t.entries.isEmpty

theorem lastNamed_push (entries : Array (String × α)) (name other : String) (a : α) :
    lastNamed (entries.push (name, a)) other (entries.push (name, a)).size =
      if other = name then some entries.size else lastNamed entries other entries.size := by
  rw [Array.size_push, lastNamed]
  have below : ∀ i < entries.size,
      (entries.push (name, a))[i]?.map Prod.fst = entries[i]?.map Prod.fst := by
    intro i hi
    rw [Array.getElem?_push, if_neg (Nat.ne_of_lt hi)]
  by_cases h : other = name <;> simp [h, Ne.symm, eq_comm, lastNamed_congr below]

def add (t : SymbolTable α) (name : String) (a : α) : SymbolTable α :=
  let index := t.index.insert name t.entries.size
  ⟨t.entries.push (name, a), index, fun other => by
    rw [NameIndex.find?_insert, lastNamed_push, t.find?_index]⟩

def find? (t : SymbolTable α) (name : String) : Option Nat :=
  t.index.find? name

theorem find?_eq_lastNamed (t : SymbolTable α) (name : String) :
    t.find? name = lastNamed t.entries name t.size :=
  t.find?_index name

def contains (t : SymbolTable α) (name : String) : Bool :=
  (t.find? name).isSome

def get? (t : SymbolTable α) (index : Nat) : Option α :=
  t.entries[index]?.map Prod.snd

def name? (t : SymbolTable α) (index : Nat) : Option String :=
  t.entries[index]?.map Prod.fst

def lookup? (t : SymbolTable α) (name : String) : Option α :=
  (t.find? name).bind t.get?

def modify (t : SymbolTable α) (index : Nat) (f : α → α) : SymbolTable α where
  entries := t.entries.modify index fun (name, a) => (name, f a)
  index := t.index
  find?_index name := by
    rw [t.find?_index, Array.size_modify]
    refine lastNamed_congr fun i _ => ?_
    rw [Array.getElem?_modify]
    split <;> cases t.entries[i]? <;> rfl

def toList (t : SymbolTable α) : List (String × α) :=
  t.entries.toList

end SymbolTable

end RegisterLang
