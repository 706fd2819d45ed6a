import Mathlib

/-!
# A lock and what it guards

Any number of threads, a lock with its holder, and a resource that only the holder
touches.  A thread is inside between its lock and its unlock operation, and what it may
count on there depends on how far it has come.  The rules say what a step of one thread
has to show: to enter, to go on inside, to leave, and to move outside.
-/

namespace LibNet.Runs

variable {Thread Control Resource : Type}

/-- How controls stand to the lock: which are inside, what a thread inside finds in the
resource, and what the resource is while the lock is free. -/
structure LockRules (Control Resource : Type) where
  Inside : Control → Prop
  Finds : Control → Resource → Prop
  Idle : Resource → Prop

/-- A thread inside holds the lock and finds what it counts on, and the resource is idle
while the lock is free. -/
structure Guarded (rules : LockRules Control Resource) (threads : Thread → Control)
    (lock : Option Thread) (resource : Resource) : Prop where
  held : ∀ thread, rules.Inside (threads thread) → lock = some thread
  finds : ∀ thread, rules.Inside (threads thread) → rules.Finds (threads thread) resource
  free : lock = none → rules.Idle resource

namespace Guarded

variable {rules : LockRules Control Resource} {threads : Thread → Control} {lock : Option Thread}
  {resource changed : Resource} {thread : Thread} {control : Control}

/-- At the start nobody is inside. -/
theorem start (outside : ∀ thread, ¬ rules.Inside (threads thread)) (idle : rules.Idle resource) :
    Guarded rules threads lock resource :=
  ⟨fun thread inside => absurd inside (outside thread),
    fun thread inside => absurd inside (outside thread), fun _ => idle⟩

/-- Two threads inside are one. -/
theorem same (guarded : Guarded rules threads lock resource) {other : Thread}
    (inside : rules.Inside (threads thread)) (inside' : rules.Inside (threads other)) :
    other = thread :=
  Option.some.inj ((guarded.held other inside').symm.trans (guarded.held thread inside))

variable [DecidableEq Thread]

/-- The lock is held by the only thread that may be inside. -/
theorem single (alone : ∀ other, other ≠ thread → ¬ rules.Inside (threads other))
    (finds : rules.Finds control resource) :
    Guarded rules (Function.update threads thread control) (some thread) resource := by
  refine ⟨?_, ?_, fun free => by cases free⟩
  · refine (Function.forall_update_iff threads
      (p := fun other control => rules.Inside control → some thread = some other)).mpr
      ⟨fun _ => rfl, ?_⟩
    intro other different inside
    exact absurd inside (alone other different)
  · refine (Function.forall_update_iff threads
      (p := fun _ control => rules.Inside control → rules.Finds control resource)).mpr
      ⟨fun _ => finds, ?_⟩
    intro other different inside
    exact absurd inside (alone other different)

/-- A thread that takes the free lock. -/
theorem enter (guarded : Guarded rules threads none resource)
    (finds : rules.Finds control resource) :
    Guarded rules (Function.update threads thread control) (some thread) resource := by
  refine single (fun other _ inside => ?_) finds
  cases guarded.held other inside

/-- The holder goes on and may change the resource. -/
theorem work (guarded : Guarded rules threads lock resource)
    (inside : rules.Inside (threads thread)) (finds : rules.Finds control changed) :
    Guarded rules (Function.update threads thread control) lock changed := by
  rw [guarded.held thread inside]
  exact single (fun other different inside' => different (guarded.same inside inside')) finds

/-- The holder leaves an idle resource. -/
theorem leave (guarded : Guarded rules threads lock resource)
    (inside : rules.Inside (threads thread)) (outside : ¬ rules.Inside control)
    (idle : rules.Idle resource) :
    Guarded rules (Function.update threads thread control) none resource := by
  refine start ?_ idle
  refine (Function.forall_update_iff threads
    (p := fun _ control => ¬ rules.Inside control)).mpr ⟨outside, ?_⟩
  intro other different inside'
  exact different (guarded.same inside inside')

/-- A thread that moves outside. -/
theorem move (guarded : Guarded rules threads lock resource) (outside : ¬ rules.Inside control) :
    Guarded rules (Function.update threads thread control) lock resource := by
  refine ⟨?_, ?_, guarded.free⟩
  · exact (Function.forall_update_iff threads
      (p := fun other control => rules.Inside control → lock = some other)).mpr
      ⟨fun inside => absurd inside outside, fun other _ => guarded.held other⟩
  · exact (Function.forall_update_iff threads
      (p := fun _ control => rules.Inside control → rules.Finds control resource)).mpr
      ⟨fun inside => absurd inside outside, fun other _ => guarded.finds other⟩

end Guarded

end LibNet.Runs
