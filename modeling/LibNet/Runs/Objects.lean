import Mathlib

/-!
# Objects with a lifetime

Objects made with `new` and given back with `delete` are identities: a new object
is none of the earlier ones, and a deleted one never exists again.  Pointers to
objects are their identities, whether or not the object still exists.
-/

namespace LibNet.Runs

/-- The number of objects made so far, and those among them that were deleted. -/
structure Objects where
  made : Nat
  deleted : List Nat

namespace Objects

variable {objects : Objects} {object other : Nat}

/-- The object exists. -/
def Alive (objects : Objects) (object : Nat) : Prop :=
  object < objects.made ∧ object ∉ objects.deleted

instance (objects : Objects) (object : Nat) : Decidable (objects.Alive object) :=
  inferInstanceAs (Decidable (_ ∧ _))

/-- The object the next `new` makes. -/
def fresh (objects : Objects) : Nat := objects.made

/-- `new`. -/
def alloc (objects : Objects) : Objects := { objects with made := objects.made + 1 }

/-- `delete`. -/
def delete (objects : Objects) (object : Nat) : Objects :=
  { objects with deleted := object :: objects.deleted }

theorem Alive.ne_fresh (alive : objects.Alive object) : object ≠ objects.fresh :=
  Nat.ne_of_lt alive.1

theorem Alive.alloc (alive : objects.Alive object) : objects.alloc.Alive object :=
  ⟨Nat.lt_succ_of_lt alive.1, alive.2⟩

/-- Deleting one object leaves the others alone. -/
theorem Alive.delete (alive : objects.Alive object) (different : object ≠ other) :
    (objects.delete other).Alive object := by
  refine ⟨alive.1, ?_⟩
  intro member
  rcases List.mem_cons.mp member with same | earlier
  · exact different same
  · exact alive.2 earlier

end Objects

end LibNet.Runs
