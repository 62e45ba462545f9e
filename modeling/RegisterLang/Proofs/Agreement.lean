import RegisterLang.Ty

/-! # Agreement of types

Two types agree when they have the same shape, or when both are constant strings. Each of the two rules is an
equivalence; one laid over the other is not. A `Byte*` has the shape of a `const Byte*`, which agrees with every
constant array of bytes, and the `Byte*` agrees with none of them. Main statements: `agrees_laws` and
`agrees_not_transitive`.
-/

namespace RegisterLang.Ty

variable {a b c : Ty}

/-- What is compared of two types that are not both constant strings. -/
def shape (t : Ty) : Primitive × Bool × Bool × Nat :=
  (t.primitive, t.isPointer, t.isArray, t.depth)

theorem agrees_iff :
    a.agrees b = true ↔ (a.isConstString = true ∧ b.isConstString = true) ∨ a.shape = b.shape := by
  simp [agrees, shape, and_assoc]

theorem agrees_symm (ab : a.agrees b = true) : b.agrees a = true := by
  rw [agrees_iff] at ab ⊢
  exact ab.imp And.symm Eq.symm

/-- The ends of a chain agree by shape, or because both or neither of them are constant strings. -/
theorem agrees_iff_of_agrees (ab : a.agrees b = true) (bc : b.agrees c = true) :
    a.agrees c = true ↔ a.isConstString = c.isConstString ∨ a.shape = c.shape := by
  rw [agrees_iff] at ab bc ⊢
  constructor
  · rintro (⟨first, last⟩ | same)
    · exact .inl (first.trans last.symm)
    · exact .inr same
  · rintro (both | same)
    · cases string : a.isConstString with
      | true => exact .inl ⟨rfl, both ▸ string⟩
      | false =>
        -- Neither rule for strings applies, so both steps of the chain are by shape.
        have ab := ab.resolve_left fun strings => by simp [string] at strings
        have bc := bc.resolve_left fun strings => by simp [← both, string] at strings
        exact .inr (ab.trans bc)
    · exact .inr same

/-- Agreement is reflexive and symmetric. It is transitive but for chains that lead from a constant string to another
type or back: their ends agree only if they have the same shape. -/
theorem agrees_laws (a b c : Ty) : a.agrees a = true ∧ (a.agrees b = true → b.agrees a = true) ∧
    (a.agrees b = true → b.agrees c = true →
      (a.agrees c = true ↔ a.isConstString = c.isConstString ∨ a.shape = c.shape)) :=
  ⟨agrees_iff.2 (.inr rfl), agrees_symm, agrees_iff_of_agrees⟩

theorem agrees_not_transitive : byte.pointerTo.agrees constString = true ∧
    constString.agrees (byte.constant.arrayOf 12) = true ∧
      byte.pointerTo.agrees (byte.constant.arrayOf 12) = false := by
  decide

end RegisterLang.Ty
