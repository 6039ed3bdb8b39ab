import Mathlib

/-!
# Channels

A connection from one sender to one receiver, with its own states. `Reliable` is what a protocol
assumes of it: nothing is lost, repeated or overtaken.
-/

namespace LongCtxSpecDecode.Library

structure Channel (α : Type) where
  State : Type
  connected : State
  Send : State → α → State → Prop
  /-- A move of the transport between a send and a reception. -/
  Transfer : State → State → Prop
  Recv : State → α → State → Prop

namespace Channel

variable {α : Type}

/-- `pending` is what was sent and not received yet, the oldest first. -/
structure Reliable (S : Channel α) (pending : S.State → List α) : Prop where
  connected : pending S.connected = []
  send : ∀ {s a s'}, S.Send s a s' → pending s' = pending s ++ [a]
  transfer : ∀ {s s'}, S.Transfer s s' → pending s' = pending s
  recv : ∀ {s a s'}, S.Recv s a s' → pending s = a :: pending s'

/-- The channel that is its list of messages. -/
def fifo (α : Type) : Channel α where
  State := List α
  connected := []
  Send s a s' := s' = s ++ [a]
  Transfer s s' := s' = s
  Recv s a s' := s = a :: s'

theorem fifo_reliable : (fifo α).Reliable id := ⟨rfl, id, id, id⟩

end Channel

end LongCtxSpecDecode.Library
