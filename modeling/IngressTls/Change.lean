set_option autoImplicit false

/-! # Changes

What happens to an object between two states of a cluster, as it is handed to a handler.
-/

namespace IngressTls

/-- A change of an object. -/
inductive Change (α : Type) where
  /-- The object is new. -/
  | added (object : α)
  /-- The object is a new version of one that was known. -/
  | updated (old new : α)
  /-- The object is gone. -/
  | deleted (object : α)
  deriving DecidableEq, Repr

namespace Change

variable {α β : Type}

/-- The same change of what the objects are seen as. -/
def map (f : α → β) : Change α → Change β
  | added o => added (f o)
  | updated old new => updated (f old) (f new)
  | deleted o => deleted (f o)

/-- Whether the object is gone. -/
def isDeletion : Change α → Bool
  | deleted _ => true
  | _ => false

end Change

end IngressTls
