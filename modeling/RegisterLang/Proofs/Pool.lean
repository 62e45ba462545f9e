import Mathlib.Order.Defs.PartialOrder
import RegisterLang.RegisterPool

/-! # Registers in use

A pool is known by which registers it has in use. Taking a register adds one that was free, and giving it
back removes only that one.
-/

namespace RegisterLang.RegisterPool

variable {p p' : RegisterPool} {r : UInt8}

/-- All registers in use in one pool are in use in the other. -/
instance : Preorder RegisterPool where
  le p p' := ∀ q, p.isAllocated q = true → p'.isAllocated q = true
  le_refl _ _ used := used
  le_trans _ _ _ first second q used := second q (first q used)

theorem isAllocated_eq_false_of_le (le : p ≤ p') {q : UInt8} (free : p'.isAllocated q = false) :
    p.isAllocated q = false := by
  cases used : p.isAllocated q with
  | false => rfl
  | true =>
    rw [le q used] at free
    cases free

theorem lt_of_isAllocated {q : UInt8} (used : p.isAllocated q = true) : q.toNat < registerCount := by
  rw [isAllocated] at used
  cases found : p.taken[q.toNat]? with
  | none =>
    rw [found] at used
    cases used
  | some _ => exact (Vector.getElem?_eq_some_iff.1 found).1

theorem isAllocated_mark (p : RegisterPool) (small : r.toNat < registerCount) (inUse : Bool) (q : UInt8) :
    (p.mark r inUse).isAllocated q = if q = r then inUse else p.isAllocated q := by
  rw [isAllocated, mark, Vector.getElem?_setIfInBounds]
  by_cases same : q = r
  · subst same
    simp [small]
  · have apart : r.toNat ≠ q.toNat := fun equal => same (UInt8.toNat.inj equal.symm)
    rw [if_neg apart, if_neg same, isAllocated]

theorem mem_candidates (member : r ∈ candidates) : r.toNat < registerCount ∧ r ≠ returnReg := by
  have all : candidates.all (fun r => r.toNat < registerCount && r != returnReg) = true := by decide
  simpa using List.all_eq_true.1 all r member

theorem allocate?_eq_some (taken : p.allocate? = some (r, p')) : r ∈ candidates ∧ p.isAllocated r = false ∧
      ∀ q, p'.isAllocated q = if q = r then true else p.isAllocated q := by
  rw [allocate?, Option.map_eq_some_iff] at taken
  obtain ⟨reg, found, same⟩ := taken
  cases same
  have member := List.mem_of_find?_eq_some found
  have free := List.find?_some found
  refine ⟨member, by simpa using free, ?_⟩
  exact isAllocated_mark p (mem_candidates member).1 true

theorem isAllocated_free (p : RegisterPool) (small : r.toNat < registerCount) (q : UInt8) :
    (p.free r).isAllocated q = if q = r then false else p.isAllocated q :=
  isAllocated_mark p small false q

/-- Giving back a register that is not in use in `p` leaves those of `p` in use. -/
theorem le_free (le : p ≤ p') (small : r.toNat < registerCount) (spare : p.isAllocated r = false) : p ≤ p'.free r := by
  intro q used
  rw [isAllocated_free p' small]
  split
  · next same => rw [same, spare] at used; cases used
  · exact le q used

theorem mem_allocated {q : UInt8} : q ∈ p.allocated ↔ p.isAllocated q = true := by
  rw [allocated, List.mem_filter]
  refine ⟨And.right, fun used => ⟨?_, used⟩⟩
  have all : ∀ n : Fin registerCount, UInt8.ofNat n.val ∈ (0 :: candidates) := by decide
  have member := all ⟨q.toNat, lt_of_isAllocated used⟩
  simpa using member

theorem nodup_allocated (p : RegisterPool) : p.allocated.Nodup := by
  have distinct : (0 :: candidates).Nodup := by decide
  exact distinct.filter p.isAllocated

end RegisterLang.RegisterPool
