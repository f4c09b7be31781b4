/-!
# Pointers

* `Pointer`: the address of a value of some type;
* `Pointer.null`, `Pointer.isNull`: the null pointer, and whether a pointer is one;
* `Pointer.cast`: the same address, for a value of another type;
* `Pointer.isNull_iff`: null pointers of any type are casts of `Pointer.null`.
-/

namespace ProtectionDomain

/-- The address of a value of a type. -/
structure Pointer (α : Type) where
  address : UInt64

namespace Pointer

variable {α : Type}

/-- The null pointer. -/
def null : Pointer Unit := ⟨0⟩

/-- There is nothing at the address. -/
def isNull (p : Pointer α) : Bool := p.address == 0

/-- The same address, for a value of another type. -/
def cast (p : Pointer α) (β : Type) : Pointer β := ⟨p.address⟩

theorem isNull_iff {p : Pointer α} : p.isNull = true ↔ p = null.cast α := by
  obtain ⟨address⟩ := p
  simp [isNull, cast, null]

end Pointer

end ProtectionDomain
