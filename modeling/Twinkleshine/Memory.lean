import Twinkleshine.Library.Window

/-!
# Memory blocks

Reference: `source/memory.c` and the `<string.h>` functions the program uses on its blocks.

A block is the list of its bytes, and a pointer into it an offset. `NULL` is the empty block: the
program never asks for a block of zero bytes.
-/

namespace Twinkleshine

open Library

/-- How the allocator answers one `realloc()`: it refuses, or it grants the block, whose new bytes
hold whatever was there. -/
abbrev Realloc := Option (ℕ → UInt8)

/-- `count_realloc`: the block `old` resized to `newSize` bytes, `none` for `NULL`. -/
def countRealloc (realloc : Realloc) (old : List UInt8) (newSize : ℕ) : Option (List UInt8) :=
  realloc.map fun junk => old.take newSize ++ (List.range (newSize - old.length)).map junk

/-- `memcpy`: copy `source` into the block at `destination`. -/
def memcpy (block : List UInt8) (destination : ℕ) (source : List UInt8) : List UInt8 :=
  overwrite block destination source

/-- `memmove` inside one block. -/
def memmove (block : List UInt8) (destination source size : ℕ) : List UInt8 :=
  memcpy block destination ((block.drop source).take size)

/-- A granted block keeps the old bytes in front of the new ones. -/
theorem countRealloc_of_le {realloc : Realloc} {old p : List UInt8} {newSize : ℕ}
    (h : old.length ≤ newSize) (hp : countRealloc realloc old newSize = some p) :
    ∃ junk : List UInt8, p = old ++ junk ∧ junk.length = newSize - old.length := by
  obtain ⟨junk, -, rfl⟩ := Option.map_eq_some_iff.mp hp
  exact ⟨_, by rw [List.take_of_length_le h], by simp⟩

end Twinkleshine
