/-!
# Bounded maps

A cache keeps its blocks in a map from numbers to runs of bytes that may forget entries to make room
(`BlockMap`). What such a map holds of a key is what was stored last under it, and nothing of a key
that was erased since (`LawfulBlockMap`); which entries it forgets, and when, is not said. A map
that keeps all entries as long as they fit is retentive (`RetentiveBlockMap`).

`Recency` is the map that forgets the entry used longest ago. It keeps the entries in the order of
their last use, most recent first.
-/

namespace TaggedImage

/-- A map from numbers to runs of bytes that may forget entries. -/
class BlockMap (μ : Type) where
  /-- A map without entries, with room for `capacity` of them. -/
  empty (capacity : Nat) : μ
  /-- The number of entries that there is room for. -/
  capacity (m : μ) : Nat
  /-- The run held under a key. -/
  get? (m : μ) (key : Nat) : Option ByteArray
  /-- What the map is after a look at the key. -/
  touch (m : μ) (key : Nat) : μ
  /-- The map in which the key has this run. -/
  insert (m : μ) (key : Nat) (data : ByteArray) : μ
  /-- The map without the key. -/
  erase (m : μ) (key : Nat) : μ
  /-- The map without entries. -/
  clear (m : μ) : μ

namespace BlockMap

variable {μ : Type} [BlockMap μ]

/-- The map without the keys from `first` on, `count` of them. -/
def eraseRange (m : μ) (first : Nat) : (count : Nat) → μ
  | 0 => m
  | count + 1 => eraseRange (erase m first) (first + 1) count

end BlockMap

/-- A map that holds of a key what was stored last under it, or nothing. -/
class LawfulBlockMap (μ : Type) [BlockMap μ] : Prop where
  /-- A new map holds nothing. -/
  get?_empty (capacity key : Nat) : BlockMap.get? (BlockMap.empty capacity : μ) key = none
  /-- A look adds nothing. -/
  get?_touch {m : μ} {key k : Nat} {data : ByteArray}
    (h : BlockMap.get? (BlockMap.touch m key) k = some data) : BlockMap.get? m k = some data
  /-- Storing adds nothing but what is stored, and replaces what was there. -/
  get?_insert {m : μ} {key k : Nat} {new data : ByteArray}
    (h : BlockMap.get? (BlockMap.insert m key new) k = some data) :
    (k = key ∧ data = new) ∨ (k ≠ key ∧ BlockMap.get? m k = some data)
  /-- Erasing adds nothing, and the key is gone. -/
  get?_erase {m : μ} {key k : Nat} {data : ByteArray}
    (h : BlockMap.get? (BlockMap.erase m key) k = some data) :
    k ≠ key ∧ BlockMap.get? m k = some data
  /-- A cleared map holds nothing. -/
  get?_clear (m : μ) (key : Nat) : BlockMap.get? (BlockMap.clear m) key = none

/-- A map that forgets nothing as long as there is room. -/
class RetentiveBlockMap (μ : Type) [BlockMap μ] : Prop extends LawfulBlockMap μ where
  /-- A new map has the room that was asked for. -/
  capacity_empty (capacity : Nat) : BlockMap.capacity (BlockMap.empty capacity : μ) = capacity
  /-- A look leaves the room as it is. -/
  capacity_touch (m : μ) (key : Nat) :
    BlockMap.capacity (BlockMap.touch m key) = BlockMap.capacity m
  /-- Storing leaves the room as it is. -/
  capacity_insert (m : μ) (key : Nat) (data : ByteArray) :
    BlockMap.capacity (BlockMap.insert m key data) = BlockMap.capacity m
  /-- A look forgets nothing. -/
  isSome_touch (m : μ) (key k : Nat) :
    (BlockMap.get? (BlockMap.touch m key) k).isSome = (BlockMap.get? m k).isSome
  /-- Storing forgets nothing if there is room for all keys that are held and the new one. -/
  isSome_insert {m : μ} {key : Nat} {held : List Nat}
    (hheld : ∀ k, (BlockMap.get? m k).isSome → k ∈ held)
    (hroom : (held ++ [key]).eraseDups.length ≤ BlockMap.capacity m) (data : ByteArray) (k : Nat) :
    (BlockMap.get? (BlockMap.insert m key data) k).isSome ↔ k = key ∨ (BlockMap.get? m k).isSome

/-- A map from numbers that holds at most `capacity` entries, each under a key of its own. -/
structure Recency (α : Type) where
  /-- The number of entries that are kept. -/
  capacity : Nat
  /-- The entries, most recently used first. -/
  entries : List (Nat × α)
  /-- No key has two entries. -/
  distinct : (entries.map (·.1)).Nodup
  /-- There is room for the entries. -/
  fits : entries.length ≤ capacity

namespace Recency

variable {α : Type}

/-- A map without entries. -/
def empty (capacity : Nat) : Recency α := ⟨capacity, [], .nil, Nat.zero_le _⟩

/-- The value of a key. -/
def get? (m : Recency α) (key : Nat) : Option α := m.entries.lookup key

/-- The map without the key. -/
def erase (m : Recency α) (key : Nat) : Recency α :=
  { m with
    entries := m.entries.filter (·.1 != key)
    distinct := m.distinct.sublist (List.filter_sublist.map _)
    fits := Nat.le_trans (List.length_filter_le _ _) m.fits }

/-- The map in which the key has this value and was used last; what is above the capacity is
dropped from the other end. -/
def insert (m : Recency α) (key : Nat) (value : α) : Recency α :=
  { m with
    entries := ((key, value) :: (m.erase key).entries).take m.capacity
    distinct := by
      refine List.Pairwise.sublist ((List.take_sublist _ _).map _) ?_
      rw [List.map_cons]
      refine List.nodup_cons.2 ⟨fun hmem => ?_, (m.erase key).distinct⟩
      obtain ⟨e, he, hkey⟩ := List.mem_map.1 hmem
      simp [erase, hkey] at he
    fits := List.length_take_le _ _ }

/-- The map in which the key, if it is there, was used last. -/
def touch (m : Recency α) (key : Nat) : Recency α :=
  match m.get? key with
  | some value => m.insert key value
  | none => m

instance : BlockMap (Recency ByteArray) where
  empty := empty
  capacity := capacity
  get? := get?
  touch := touch
  insert := insert
  erase := erase
  clear m := .empty m.capacity

end Recency

end TaggedImage
