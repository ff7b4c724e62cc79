/-!
# Assignment of optional fields
-/

namespace Reconcile

/-- What a field holds after `value` was assigned to it.  An absent value leaves the field as it
is, unless the assignment is enforced. -/
def assign {α : Type} (current value : Option α) (enforce : Bool) : Option α :=
  if enforce || value.isSome then value else current

end Reconcile
