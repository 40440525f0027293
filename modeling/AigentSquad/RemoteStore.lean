import Mathlib.Logic.Function.Basic
import AigentSquad.PyText

/-!
# A remote key-value store

Keyed values behind a connection that can lose a command before it is applied,
or lose only the answer.
-/

set_option autoImplicit false

namespace AigentSquad.RemoteStore
open AigentSquad.PyText

inductive Reply where
  | ok
  | failed
  | unacknowledged
deriving DecidableEq, Repr

def Reply.applied : Reply → Bool
  | .failed => false
  | _ => true

abbrev Store (V : Type) := Str → Option V

variable {V : Type}

/-- Write or delete the value of one key, if the command gets through. -/
def put (s : Store V) (k : Str) (v : Option V) (reply : Reply) : Store V :=
  if reply.applied then Function.update s k v else s

@[simp] theorem put_same (s : Store V) (k : Str) (v : Option V) (reply : Reply) :
    put s k v reply k = if reply.applied then v else s k := by
  unfold put
  split <;> simp

theorem put_other (s : Store V) (j k : Str) (v : Option V) (reply : Reply) (h : j ≠ k) :
    put s k v reply j = s j := by
  unfold put
  split <;> simp [h]

theorem put_ok (s : Store V) (k : Str) (v : Option V) :
    put s k v .ok = Function.update s k v := rfl

end AigentSquad.RemoteStore
