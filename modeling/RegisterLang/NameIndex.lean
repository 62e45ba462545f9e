/-! # Finding numbers by name

Names are spread over the leaves of a tree of fixed height by a checksum, so that a name among many is found
by looking at few. Main statement: `find?_insert`, what is inserted is found, and nothing else changes.
-/

namespace RegisterLang

/-- A tree whose branches are labelled by digits. -/
inductive DigitTree (α : Type) where
  | node (value : α) (branches : List (Nat × DigitTree α))

namespace DigitTree

variable {α : Type}

/-- The value at the end of a path; a path that leaves the tree has the value `rest`. -/
def get (rest : α) : List Nat → DigitTree α → α
  | [], node value _ => value
  | d :: path, node _ branches =>
    match branches.lookup d with
    | some t => get rest path t
    | none => rest

def setBranch (d : Nat) (t : DigitTree α) : List (Nat × DigitTree α) → List (Nat × DigitTree α)
  | [] => [(d, t)]
  | (e, u) :: branches =>
    if d = e then (d, t) :: branches else (e, u) :: setBranch d t branches

/-- Set the value at the end of a path; new nodes before it have the value `rest`. -/
def set (rest : α) : List Nat → α → DigitTree α → DigitTree α
  | [], a, node _ branches => node a branches
  | d :: path, a, node value branches =>
    let t := (branches.lookup d).getD (node rest [])
    node value (setBranch d (set rest path a t) branches)

theorem lookup_setBranch (d e : Nat) (t : DigitTree α) (branches : List (Nat × DigitTree α)) :
    (setBranch d t branches).lookup e = if e = d then some t else branches.lookup e := by
  induction branches with
  | nil =>
    by_cases h : e = d <;> simp [setBranch, List.lookup_cons, h, beq_eq_false_iff_ne.2]
  | cons b branches ih =>
    obtain ⟨x, u⟩ := b
    by_cases hx : d = x
    · subst hx
      by_cases h : e = d <;> simp [setBranch, List.lookup_cons, h, beq_eq_false_iff_ne.2]
    · by_cases h : e = x
      · subst h
        simp [setBranch, hx, Ne.symm hx]
      · simp [setBranch, hx, List.lookup_cons, beq_eq_false_iff_ne.2 h, ih]

theorem get_node_nil (rest : α) (path : List Nat) : get rest path (node rest []) = rest := by
  cases path <;> simp [get]

/-- Setting the value of one path changes that of no other path of the same length. -/
theorem get_set (rest a : α) {p q : List Nat} (h : p.length = q.length) (t : DigitTree α) :
    get rest q (set rest p a t) = if q = p then a else get rest q t := by
  induction p generalizing q t with
  | nil =>
    obtain ⟨value, branches⟩ := t
    rw [List.length_nil] at h
    rw [List.length_eq_zero_iff.1 h.symm]
    simp [get, set]
  | cons d p ih =>
    obtain ⟨value, branches⟩ := t
    match q, h with
    | e :: q, h =>
      have hl : p.length = q.length := by simpa using h
      by_cases hd : e = d
      · subst hd
        simp only [get, set, lookup_setBranch, if_true, ih hl, List.cons.injEq, true_and]
        cases branches.lookup e <;> simp [get_node_nil]
      · simp [get, set, lookup_setBranch, hd]

end DigitTree

structure NameIndex where
  /-- The names with one checksum, with their numbers. -/
  buckets : DigitTree (List (String × Nat))

namespace NameIndex

def empty : NameIndex := ⟨.node [] []⟩

instance : Inhabited NameIndex := ⟨empty⟩

def checksum (name : String) : Nat :=
  name.toList.foldl (fun n c => (31 * n + c.toNat) % UInt16.size) 0

/-- The path to the names with the checksum of a name. -/
def path (name : String) : List Nat :=
  let n := checksum name
  [n % 16, n / 16 % 16, n / 256 % 16, n / 4096]

def bucket (i : NameIndex) (name : String) : List (String × Nat) :=
  i.buckets.get [] (path name)

def find? (i : NameIndex) (name : String) : Option Nat :=
  (i.bucket name).lookup name

def insert (i : NameIndex) (name : String) (n : Nat) : NameIndex :=
  ⟨i.buckets.set [] (path name) ((name, n) :: i.bucket name)⟩

@[simp] theorem find?_empty (name : String) : empty.find? name = none := by
  simp [find?, bucket, empty, DigitTree.get_node_nil]

theorem bucket_insert (i : NameIndex) (name other : String) (n : Nat) :
    (i.insert name n).bucket other =
      if path other = path name then (name, n) :: i.bucket name else i.bucket other := by
  have hl : (path name).length = (path other).length := rfl
  exact DigitTree.get_set [] ((name, n) :: i.bucket name) hl i.buckets

theorem bucket_eq {i : NameIndex} {name other : String} (h : path other = path name) :
    i.bucket other = i.bucket name := by
  rw [bucket, bucket, h]

theorem find?_insert (i : NameIndex) (name other : String) (n : Nat) :
    (i.insert name n).find? other = if other = name then some n else i.find? other := by
  rw [find?, find?, bucket_insert]
  by_cases h : other = name
  · subst h
    simp
  · by_cases hp : path other = path name
    · rw [if_pos hp, if_neg h, List.lookup_cons, beq_eq_false_iff_ne.2 h, bucket_eq hp]
    · rw [if_neg hp, if_neg h]

end NameIndex

end RegisterLang
