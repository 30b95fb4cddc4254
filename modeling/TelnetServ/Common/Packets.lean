import Mathlib.Data.List.Basic
/-!
# Packets

Messages are collected into packets, packets into batches. A message goes
into the packet being filled, a full packet is closed, and all packets are
taken away at once as a batch, of which a rule on packets may then keep
only a part. `contents` is every message there has been, in order; each of
the operations but `put` only moves it.
-/

/-- **Where the messages are**, from the oldest to the newest. -/
structure Packets (μ : Type*) where
  /-- The batches the rule has been applied to. -/
  settled : List (List (List μ)) := []
  /-- The batch taken last, as long as the rule has not been applied. -/
  batch : List (List μ) := []
  /-- The full packets. -/
  full : List (List μ) := []
  /-- The packet being filled. -/
  filling : List μ := []

namespace Packets

variable {μ : Type*} (q : Packets μ) (m : μ) (keep : List (List μ) → List (List μ))

/-- A message comes in. -/
def put : Packets μ := { q with filling := q.filling ++ [m] }

/-- The packet is full; a new one is begun. -/
def close : Packets μ := { q with full := q.full ++ [q.filling], filling := [] }

/-- All packets are taken away, the one being filled with them. -/
def take : Packets μ := { q with batch := q.full ++ [q.filling], full := [], filling := [] }

/-- The rule is applied to the batch. -/
def settle : Packets μ := { q with settled := q.settled ++ [q.batch], batch := [] }

/-- The packets that have not been taken away. -/
def untaken : List (List μ) := q.full ++ [q.filling]

/-- Every packet, in order. -/
def packets : List (List μ) := q.settled.flatten ++ q.batch ++ q.untaken

/-- **Every message, in order.** -/
def contents : List μ := q.packets.flatten

/-- What the rule has left of the packets taken away. -/
def keptTaken : List (List μ) := q.settled.flatMap keep ++ q.batch

/-- What the rule has left of all packets. -/
def kept : List (List μ) := q.keptTaken keep ++ q.untaken

theorem contents_put : (q.put m).contents = q.contents ++ [m] := by
  simp [contents, packets, untaken, put]

theorem contents_close : q.close.contents = q.contents := by
  simp [contents, packets, untaken, close]

/-- Nothing is lost where the batch before has been settled. -/
theorem contents_take (h : q.batch = []) : q.take.contents = q.contents := by
  simp [contents, packets, untaken, take, h]

theorem contents_settle : q.settle.contents = q.contents := by
  simp [contents, packets, untaken, settle]

theorem keptTaken_settle :
    q.settle.keptTaken keep = q.settled.flatMap keep ++ keep q.batch := by
  simp [keptTaken, settle]

theorem keptTaken_take (h : q.batch = []) :
    q.take.keptTaken keep = q.keptTaken keep ++ q.untaken := by
  simp [keptTaken, take, untaken, h]

/-- **A rule that keeps every batch keeps every message.** -/
theorem flatten_kept (h : ∀ batch ∈ q.settled, keep batch = batch) :
    (q.kept keep).flatten = q.contents := by
  have hsettled : q.settled.flatMap keep = q.settled.flatten := by
    rw [← List.flatMap_id']
    exact List.flatMap_congr h
  rw [kept, keptTaken, hsettled]
  rfl

end Packets
