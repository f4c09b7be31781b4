import ProtectionDomain.Cap

/-!
# Issuing capabilities

* `Cap.Allocator`: issues the ids 1, 2, 3, … up to the largest, and then none;
* `allocate`, `issued`: the next capability, and how many there have been;
* `Cap.Family`: allocators that are made and cloned one from another.
-/

namespace ProtectionDomain.Cap

/-- Issues each id once, in order. -/
structure Allocator where
  /-- The next id, or zero when there is none left. -/
  next : UInt64 := 1
  deriving DecidableEq

namespace Allocator

/-- The next capability. After the largest id there is none. -/
def allocate (a : Allocator) (target : ObjectKind) : Except CapError (Cap target × Allocator) :=
  if a.next = 0 then .error .exhausted else .ok (⟨a.next⟩, ⟨a.next + 1⟩)

/-- The number of capabilities issued. -/
def issued (a : Allocator) : UInt64 := a.next - 1

end Allocator

/-! ## Families -/

/-- Allocators that are made and cloned one from another. -/
abbrev Family := List Allocator

/-- A step of a family. -/
inductive Family.Step
  | new
  | clone (member : Nat)
  | allocate (member : Nat)
  deriving DecidableEq

/-- What a step of a family gives. A member that is not there gives nothing. -/
inductive Family.Outcome
  | made (member : Nat)
  | issued (id : UInt64)
  | failed (error : CapError)
  | nothing
  deriving DecidableEq

/-- One step of a family. -/
def Family.step (f : Family) : Family.Step → Family.Outcome × Family
  | .new => (.made f.length, f ++ [{}])
  | .clone member =>
    match f[member]? with
    | none => (.nothing, f)
    | some a => (.made f.length, f ++ [a])
  | .allocate member =>
    match f[member]? with
    | none => (.nothing, f)
    | some a =>
      match a.allocate .session with
      | .error e => (.failed e, f)
      | .ok (cap, a) => (.issued cap.id, f.set member a)

end ProtectionDomain.Cap
