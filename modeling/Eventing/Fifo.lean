import Mathlib.Data.List.Basic
import Mathlib.Tactic.Common

/-!
# Queues with their history

A queue that can be cleared, with everything that was ever put into it and everything that
has left it, at its front or by a clear.
-/
namespace Eventing

/-- What has left and then what is still there is what was put in, in this order. -/
structure Fifo (α : Type*) where
  put : List α
  gone : List α
  contents : List α
  balanced : gone ++ contents = put

namespace Fifo

variable {α : Type*}

def empty : Fifo α := ⟨[], [], [], rfl⟩

def push (q : Fifo α) (x : α) : Fifo α where
  put := q.put ++ [x]
  gone := q.gone
  contents := q.contents ++ [x]
  balanced := by rw [← List.append_assoc, q.balanced]

def take (q : Fifo α) : Fifo α where
  put := q.put
  gone := q.gone ++ q.contents.take 1
  contents := q.contents.drop 1
  balanced := by rw [List.append_assoc, List.take_append_drop, q.balanced]

def clear (q : Fifo α) : Fifo α where
  put := q.put
  gone := q.put
  contents := []
  balanced := List.append_nil q.put

@[simp] lemma contents_push (q : Fifo α) (x : α) : (q.push x).contents = q.contents ++ [x] := rfl

@[simp] lemma contents_take (q : Fifo α) : q.take.contents = q.contents.drop 1 := rfl

end Fifo
end Eventing
