import SeaRouter.Lib.Run

/-!
# Objects that behave as specified

An object is a state with calls that return something.  A specification says of an
abstract state which calls it allows, what they return and what they make of it.

* `Implements`: every allowed call of the object does what the specification says.
* `Implements.calls`: so does every sequence of allowed calls.
-/

namespace Java

/-- What a method returns. -/
inductive Returned
  | void
  | int (x : Int)
  | boolean (b : Bool)
deriving DecidableEq, Repr

/-- An abstract object with the states `α`. -/
structure Specification (α op : Type) where
  allows : α → op → Prop
  result : α → op → Returned
  next : α → op → α

variable {σ α op : Type}

/-- Calls of an object, one after the other, with what they return. -/
def calls (call : σ → op → Run (Returned × σ)) : List op → σ → Run (List Returned × σ)
  | [], s => return ([], s)
  | o :: os, s => do
    let (r, s) ← call s o
    let (rs, s) ← calls call os s
    return (r :: rs, s)

namespace Specification

variable (S : Specification α op)

/-- Every call is allowed where it is made. -/
def AllowsAll : α → List op → Prop
  | _, [] => True
  | a, o :: os => S.allows a o ∧ AllowsAll (S.next a o) os

def results : α → List op → List Returned
  | _, [] => []
  | a, o :: os => S.result a o :: results (S.next a o) os

def after (a : α) (os : List op) : α := os.foldl S.next a

end Specification

variable {call : σ → op → Run (Returned × σ)} {S : Specification α op} {R : σ → α → Prop}

/-- An allowed call in a state that represents an abstract one. -/
def Implements (call : σ → op → Run (Returned × σ)) (S : Specification α op)
    (R : σ → α → Prop) : Prop :=
  ∀ s a o, R s a → S.allows a o → ∃ s', call s o = .ok (S.result a o, s') ∧ R s' (S.next a o)

theorem Implements.calls (h : Implements call S R) (os : List op) {s : σ} {a : α} (hR : R s a)
    (hall : S.AllowsAll a os) :
    ∃ s', Java.calls call os s = .ok (S.results a os, s') ∧ R s' (S.after a os) := by
  induction os generalizing s a with
  | nil => exact ⟨s, rfl, hR⟩
  | cons o os ih =>
    obtain ⟨s₁, hcall, hR₁⟩ := h s a o hR hall.1
    obtain ⟨s₂, hcalls, hR₂⟩ := ih hR₁ hall.2
    refine ⟨s₂, ?_, hR₂⟩
    rw [Java.calls, hcall, ok_bind]
    show (Java.calls call os s₁ >>= fun r => _) = _
    rw [hcalls]
    rfl

end Java
