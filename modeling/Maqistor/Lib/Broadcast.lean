import Mathlib.Data.List.Perm.Basic

/-! A broadcast channel as one of its receivers sees it. It keeps the last values up to its
capacity: a send to a full channel overwrites the oldest value, and the receiver is told how many it
has missed. -/

/-- The values that the receiver has not read yet, how many it has missed since it was last told,
and the history of the values that were overwritten. -/
structure Broadcast (α : Type*) where
  unread : List α
  missed : Nat
  overwritten : List α

namespace Broadcast

variable {α : Type*}

def empty : Broadcast α := { unread := [], missed := 0, overwritten := [] }

def send (capacity : Nat) (value : α) (channel : Broadcast α) : Broadcast α :=
  if channel.unread.length < capacity then { channel with unread := channel.unread ++ [value] }
  else
    { unread := channel.unread.drop 1 ++ [value]
      missed := channel.missed + 1
      overwritten := channel.overwritten ++ channel.unread.take 1 }

/-- What a receiver gets. -/
inductive Received (α : Type*) where
  | value (value : α)
  | lagged (missed : Nat)
deriving DecidableEq, Repr

/-- The next `recv`, which waits when there is nothing to read. -/
def recv (channel : Broadcast α) : Option (Received α × Broadcast α) :=
  if 0 < channel.missed then some (.lagged channel.missed, { channel with missed := 0 })
  else
    match channel.unread with
    | [] => none
    | value :: rest => some (.value value, { channel with unread := rest })

section Laws

variable {capacity : Nat} {value : α} {channel channel' : Broadcast α}

theorem send_overwritten (capacity : Nat) (value : α) (channel : Broadcast α) :
    (channel.send capacity value).overwritten = channel.overwritten ++
      if channel.unread.length < capacity then [] else channel.unread.take 1 := by
  unfold send
  split
  · exact (List.append_nil _).symm
  · rfl

/-- A send adds its value, and no value goes except to the overwritten ones. -/
theorem send_perm (capacity : Nat) (value : α) (channel : Broadcast α) :
    ((channel.send capacity value).unread ++ (channel.send capacity value).overwritten).Perm
      (value :: (channel.unread ++ channel.overwritten)) := by
  unfold send
  split
  · rw [List.append_assoc]
    exact List.perm_middle
  · have hkept : (channel.unread.drop 1 ++ [value] ++
        (channel.overwritten ++ channel.unread.take 1)).Perm
        (value :: (channel.unread.drop 1 ++ (channel.overwritten ++ channel.unread.take 1))) := by
      rw [List.append_assoc]
      exact List.perm_middle
    refine hkept.trans (.cons value ?_)
    have htail : (channel.unread.drop 1 ++ (channel.overwritten ++ channel.unread.take 1)).Perm
        (channel.unread.take 1 ++ (channel.unread.drop 1 ++ channel.overwritten)) :=
      (List.perm_append_comm.append_left _).trans (List.perm_append_comm_assoc _ _ _)
    rwa [← List.append_assoc (channel.unread.take 1), List.take_append_drop] at htail

/-- The two ways in which a `recv` can return. -/
theorem recv_cases {received : Received α} (h : channel.recv = some (received, channel')) :
    (0 < channel.missed ∧ received = .lagged channel.missed ∧
        channel' = { channel with missed := 0 }) ∨
      ∃ value rest, channel.unread = value :: rest ∧ received = .value value ∧
        channel' = { channel with unread := rest } := by
  unfold recv at h
  split at h
  · next hmissed =>
    obtain ⟨rfl, rfl⟩ := Prod.mk.inj (Option.some.inj h)
    exact Or.inl ⟨hmissed, rfl, rfl⟩
  · split at h
    · cases h
    · next value rest hunread =>
      obtain ⟨rfl, rfl⟩ := Prod.mk.inj (Option.some.inj h)
      exact Or.inr ⟨value, rest, hunread, rfl, rfl⟩

theorem unread_of_recv_none (h : channel.recv = none) : channel.unread = [] := by
  unfold recv at h
  split at h
  · cases h
  · split at h
    · next hunread => exact hunread
    · cases h

end Laws

end Broadcast
