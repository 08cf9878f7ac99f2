import Twinkleshine.Library.Window

/-!
# Elements of equal size in a block

A block of bytes that holds elements of `e` bytes each: `cell e block i` is the element at index `i`, and
`cells e block n` are the first `n` elements. The lemmas say what an extension of the block and a write
behind the elements leave of them.
-/

namespace Library

variable {α : Type} {e : ℕ} {block : List α}

/-- The element at index `i`. -/
def cell (e : ℕ) (block : List α) (i : ℕ) : List α := (block.drop (i * e)).take e

/-- The first `n` elements. -/
def cells (e : ℕ) (block : List α) (n : ℕ) : List (List α) := (List.range n).map (cell e block)

@[simp] theorem length_cells (e : ℕ) (block : List α) (n : ℕ) : (cells e block n).length = n := by
  rw [cells, List.length_map, List.length_range]

@[simp] theorem cells_zero (e : ℕ) (block : List α) : cells e block 0 = [] := rfl

/-- An element ends where the next one begins. -/
theorem cell_end_le {i n : ℕ} (h : i < n) : i * e + e ≤ n * e := by
  rw [← Nat.succ_mul]
  exact Nat.mul_le_mul_right e h

/-- The first elements of the first elements. -/
theorem take_cells (e : ℕ) (block : List α) (m n : ℕ) :
    (cells e block n).take m = cells e block (min m n) := by
  rw [cells, cells, ← List.map_take, List.take_range]

/-- Blocks that begin alike hold the same elements there. -/
theorem cells_congr {block' : List α} {n : ℕ} (h : block'.take (n * e) = block.take (n * e)) :
    cells e block' n = cells e block n := by
  refine List.map_congr_left fun i hi => ?_
  have hend := cell_end_le (e := e) (List.mem_range.mp hi)
  rw [cell, cell, List.take_drop, List.take_drop]
  have htake : ∀ l : List α, l.take (i * e + e) = (l.take (n * e)).take (i * e + e) := by
    intro l
    rw [List.take_take, Nat.min_eq_left hend]
  rw [htake block', htake block, h]

/-- What follows the elements is not part of them. -/
theorem cells_append {n : ℕ} (h : n * e ≤ block.length) (junk : List α) :
    cells e (block ++ junk) n = cells e block n :=
  cells_congr (List.take_append_of_le_length h)

/-- Elements that stand behind `n` others. -/
theorem cells_add (e : ℕ) (block : List α) (n m : ℕ) :
    cells e block (n + m) = cells e block n ++ cells e (block.drop (n * e)) m := by
  rw [cells, List.range_add, List.map_append, List.map_map, cells, cells]
  refine congrArg _ (List.map_congr_left fun i _ => ?_)
  rw [Function.comp_apply, cell, cell, List.drop_drop, Nat.add_mul]

/-- A block that begins with elements holds them. -/
theorem cells_flatten {data : List (List α)} (hdata : ∀ x ∈ data, x.length = e) (rest : List α) :
    cells e (data.flatten ++ rest) data.length = data := by
  induction data with
  | nil => rfl
  | cons x data ih =>
    obtain ⟨hx, hrest⟩ := List.forall_mem_cons.mp hdata
    have hfirst : cells e ((x :: data).flatten ++ rest) 1 = [x] := by
      rw [cells, List.range_one, List.map_singleton, cell, Nat.zero_mul, List.drop_zero,
        List.flatten_cons, List.append_assoc, List.take_left' hx]
    have hdrop : ((x :: data).flatten ++ rest).drop (1 * e) = data.flatten ++ rest := by
      rw [Nat.one_mul, List.flatten_cons, List.append_assoc, List.drop_left' hx]
    rw [List.length_cons, Nat.add_comm data.length 1, cells_add, hfirst, hdrop, ih hrest,
      List.singleton_append]

theorem length_flatten_of_forall {data : List (List α)} (hdata : ∀ x ∈ data, x.length = e) :
    data.flatten.length = data.length * e := by
  induction data with
  | nil => rw [List.flatten_nil, List.length_nil, List.length_nil, Nat.zero_mul]
  | cons x data ih =>
    obtain ⟨hx, hrest⟩ := List.forall_mem_cons.mp hdata
    rw [List.flatten_cons, List.length_append, hx, ih hrest, List.length_cons, Nat.succ_mul,
      Nat.add_comm]

/-- Elements that are written behind `n` others follow them. -/
theorem cells_overwrite {n : ℕ} {data : List (List α)} (hdata : ∀ x ∈ data, x.length = e)
    (hfit : n * e + data.length * e ≤ block.length) :
    cells e (overwrite block (n * e) data.flatten) (n + data.length) = cells e block n ++ data := by
  have hlength := length_flatten_of_forall hdata
  have hwrite : n * e + data.flatten.length ≤ block.length := by rw [hlength]; exact hfit
  rw [cells_add, drop_overwrite_self hwrite, cells_flatten hdata,
    cells_congr (take_overwrite_of_le hwrite (Nat.le_refl _))]

end Library
