import Mathlib.Data.List.Basic
import Mathlib.Tactic.Common

/-!
# Circular windows and overwritten segments of a list

`window l b n` is the segment of `n` elements that starts at position `b` of the block `l` and
continues at the start of `l` when it runs over the end. It is defined on the doubled block `l ++ l`,
so a segment of a window is again a window, whether or not it crosses the end of the block.

`overwrite l i bs` writes `bs` into `l` from position `i` on, and `overwriteWindow l b bs` writes it
circularly from position `b` on. `window_overwriteWindow` says what a window sees of such a write.
-/

namespace Library

variable {α : Type}

/-! ## Overwriting a segment -/

/-- The list `l` with the elements from position `i` on replaced by `bs`. -/
def overwrite (l : List α) (i : ℕ) (bs : List α) : List α :=
  l.take i ++ bs ++ l.drop (i + bs.length)

@[simp] theorem overwrite_nil (l : List α) (i : ℕ) : overwrite l i [] = l := by
  simp [overwrite]

/-- Overwriting one element. -/
theorem overwrite_singleton {l : List α} {i : ℕ} (h : i < l.length) (a : α) :
    overwrite l i [a] = l.set i a := by
  rw [overwrite, List.set_eq_take_append_cons_drop, if_pos h, List.append_assoc,
    List.singleton_append, List.length_singleton]

@[simp] theorem length_overwrite {l : List α} {i : ℕ} {bs : List α} (h : i + bs.length ≤ l.length) :
    (overwrite l i bs).length = l.length := by
  simp only [overwrite, List.length_append, List.length_take, List.length_drop]
  omega

/-- An overwritten list holds `bs` in the segment and `l` elsewhere. -/
theorem getElem?_overwrite {l : List α} {i : ℕ} {bs : List α} (h : i + bs.length ≤ l.length)
    (j : ℕ) :
    (overwrite l i bs)[j]? = if i ≤ j ∧ j < i + bs.length then bs[j - i]? else l[j]? := by
  have hi : min i l.length = i := by omega
  simp only [overwrite, List.append_assoc, List.getElem?_append, List.length_take,
    List.getElem?_drop, List.getElem?_take, hi]
  split_ifs with h1 h2 h3 <;> first | rfl | omega | skip
  exact congrArg (l[·]?) (by omega)

/-- The elements before an overwritten segment are kept. -/
theorem take_overwrite_of_le {l : List α} {i j : ℕ} {bs : List α} (h : i + bs.length ≤ l.length)
    (hj : j ≤ i) : (overwrite l i bs).take j = l.take j := by
  rw [overwrite, List.append_assoc, List.take_append_of_le_length (by simp; omega), List.take_take,
    Nat.min_eq_left hj]

/-- The elements after an overwritten segment are kept. -/
theorem drop_overwrite_of_le {l : List α} {i j : ℕ} {bs : List α} (h : i + bs.length ≤ l.length)
    (hj : i + bs.length ≤ j) : (overwrite l i bs).drop j = l.drop j := by
  refine List.ext_getElem? fun k => ?_
  rw [List.getElem?_drop, List.getElem?_drop, getElem?_overwrite h, if_neg (by omega)]

/-- From an overwritten segment on, the list begins with it. -/
theorem drop_overwrite_self {l : List α} {i : ℕ} {bs : List α} (h : i + bs.length ≤ l.length) :
    (overwrite l i bs).drop i = bs ++ l.drop (i + bs.length) := by
  have htake : (l.take i).length = i := by
    rw [List.length_take]
    omega
  rw [overwrite, List.append_assoc, List.drop_append_of_le_length (by omega),
    List.drop_eq_nil_of_le (by omega), List.nil_append]

/-- Writing a segment in two pieces. -/
theorem overwrite_append {l : List α} {i : ℕ} {bs cs : List α}
    (h : i + (bs ++ cs).length ≤ l.length) :
    overwrite (overwrite l i bs) (i + bs.length) cs = overwrite l i (bs ++ cs) := by
  rw [List.length_append] at h
  have hbs : i + bs.length ≤ l.length := by omega
  have hcs : i + bs.length + cs.length ≤ (overwrite l i bs).length := by
    rw [length_overwrite hbs]; omega
  refine List.ext_getElem? fun k => ?_
  rw [getElem?_overwrite hcs, getElem?_overwrite hbs,
    getElem?_overwrite (by rw [List.length_append]; omega), List.length_append,
    List.getElem?_append]
  split_ifs <;> first | rfl | omega | exact congrArg (cs[·]?) (by omega)

/-- Writing over the middle of a block. -/
theorem overwrite_middle {a m b bs : List α} (h : bs.length = m.length) :
    overwrite (a ++ (m ++ b)) a.length bs = a ++ (bs ++ b) := by
  rw [overwrite, List.take_left, List.append_assoc, h, List.drop_append, List.drop_eq_nil_of_le
    (by omega), List.nil_append, Nat.add_sub_cancel_left, List.drop_left]

/-! ## Circular windows -/

/-- The `n` elements from position `b` of the block `l` on, continuing at its start. -/
def window (l : List α) (b n : ℕ) : List α := ((l ++ l).drop b).take n

@[simp] theorem window_zero (l : List α) (b : ℕ) : window l b 0 = [] := by simp [window]

@[simp] theorem length_window {l : List α} {b n : ℕ} (hb : b ≤ l.length) (hn : n ≤ l.length) :
    (window l b n).length = n := by
  simp only [window, List.length_take, List.length_drop, List.length_append]
  omega

/-- The element of a window at `i`, by its position in the block. -/
theorem getElem?_window {l : List α} {b n i : ℕ} (hi : i < n) :
    (window l b n)[i]? = if b + i < l.length then l[b + i]? else l[b + i - l.length]? := by
  rw [window, List.getElem?_take, if_pos hi, List.getElem?_drop, List.getElem?_append]

/-- A window that ends before the end of the block. -/
theorem window_of_fits {l : List α} {b n : ℕ} (h : b + n ≤ l.length) :
    window l b n = (l.drop b).take n := by
  rw [window, List.drop_append_of_le_length (by omega),
    List.take_append_of_le_length (by rw [List.length_drop]; omega)]

/-- A window that runs over the end of the block. -/
theorem window_of_wraps {l : List α} {b n : ℕ} (hb : b ≤ l.length) (h : l.length ≤ b + n) :
    window l b n = l.drop b ++ l.take (b + n - l.length) := by
  have hd : (l.drop b).length = l.length - b := List.length_drop
  rw [window, List.drop_append_of_le_length hb, List.take_append, hd,
    List.take_of_length_le (by omega), show n - (l.length - b) = b + n - l.length by omega]

/-- A window that starts past the end of the block. -/
theorem window_of_past {l : List α} {b n : ℕ} (hb : l.length ≤ b) :
    window l b n = (l.drop (b - l.length)).take n := by
  rw [window, List.drop_append, List.drop_eq_nil_of_le hb, List.nil_append]

/-- A segment of a window is a window. -/
theorem take_drop_window {l : List α} {b n i m : ℕ} (h : i + m ≤ n) :
    ((window l b n).drop i).take m = window l (b + i) m := by
  rw [window, window, List.drop_take, List.drop_drop, List.take_take,
    Nat.min_eq_left (by omega)]

/-- The front of a window. -/
theorem take_window {l : List α} {b n m : ℕ} (h : m ≤ n) :
    (window l b n).take m = window l b m := by
  have := take_drop_window (l := l) (b := b) (n := n) (i := 0) (m := m) (by omega)
  simpa using this

/-- The back of a window. -/
theorem drop_window {l : List α} {b n m : ℕ} :
    (window l b n).drop m = window l (b + m) (n - m) := by
  rw [window, window, List.drop_take, List.drop_drop]

/-- A window depends only on its start modulo the length of the block. -/
theorem window_sub_length {l : List α} {b n : ℕ} (hb : l.length ≤ b)
    (h : b - l.length + n ≤ l.length) : window l (b - l.length) n = window l b n := by
  rw [window_of_past hb, window_of_fits (by omega)]

/-- Moving the part of a block behind `b` to the end of a longer block keeps every window that
starts at `b`. -/
theorem window_overwrite_tail {l junk : List α} {b n : ℕ} (hb : b ≤ l.length) (hn : n ≤ l.length) :
    window (overwrite (l ++ junk) (b + junk.length) (l.drop b)) (b + junk.length) n
      = window l b n := by
  have hd : (l.drop b).length = l.length - b := List.length_drop
  have hfit : b + junk.length + (l.drop b).length ≤ (l ++ junk).length := by
    rw [List.length_append, hd]; omega
  have hlen : (overwrite (l ++ junk) (b + junk.length) (l.drop b)).length
      = l.length + junk.length := by
    rw [length_overwrite hfit, List.length_append]
  refine List.ext_getElem? fun i => ?_
  by_cases hi : i < n
  · rw [getElem?_window hi, getElem?_window hi, hlen,
      getElem?_overwrite hfit, getElem?_overwrite hfit, hd]
    split_ifs <;>
      first
        | omega
        | (rw [List.getElem?_drop]; exact congrArg (l[·]?) (by omega))
        | (rw [List.getElem?_append_left (by omega)]; exact congrArg (l[·]?) (by omega))
  · rw [List.getElem?_eq_none (by rw [length_window (by omega) (by omega)]; omega),
      List.getElem?_eq_none (by rw [length_window hb hn]; omega)]

/-! ## Circular writes -/

/-- The block `l` after writing `bs` from position `b` on, continuing at its start. -/
def overwriteWindow (l : List α) (b : ℕ) (bs : List α) : List α :=
  if l.length ≤ b then overwrite l (b - l.length) bs
  else overwrite (overwrite l b (bs.take (l.length - b))) 0 (bs.drop (l.length - b))

@[simp] theorem length_overwriteWindow {l : List α} {b : ℕ} {bs : List α}
    (h : b + bs.length ≤ 2 * l.length) (hbs : bs.length ≤ l.length) :
    (overwriteWindow l b bs).length = l.length := by
  unfold overwriteWindow
  split_ifs with hpast
  · exact length_overwrite (by omega)
  · have hfst : b + (bs.take (l.length - b)).length ≤ l.length := by
      rw [List.length_take]; omega
    rw [length_overwrite, length_overwrite hfst]
    rw [length_overwrite hfst, List.length_drop]
    omega

/-- Where a circular write puts its elements. -/
theorem getElem?_overwriteWindow {l : List α} {b : ℕ} {bs : List α}
    (h : b + bs.length ≤ 2 * l.length) (hbs : bs.length ≤ l.length) (j : ℕ) :
    (overwriteWindow l b bs)[j]?
      = if b ≤ j ∧ j < b + bs.length ∧ j < l.length then bs[j - b]?
        else if b ≤ j + l.length ∧ j + l.length < b + bs.length then bs[j + l.length - b]?
        else l[j]? := by
  unfold overwriteWindow
  split_ifs with hpast h1 h2 h1 h2
  · omega
  · rw [getElem?_overwrite (by omega), if_pos (by omega)]
    exact congrArg (bs[·]?) (by omega)
  · rw [getElem?_overwrite (by omega), if_neg (by omega)]
  all_goals
    have hfst : b + (bs.take (l.length - b)).length ≤ l.length := by
      rw [List.length_take]; omega
    have hsnd : 0 + (bs.drop (l.length - b)).length
        ≤ (overwrite l b (bs.take (l.length - b))).length := by
      rw [length_overwrite hfst, List.length_drop]; omega
    rw [getElem?_overwrite hsnd, getElem?_overwrite hfst, List.length_drop, List.length_take]
  · rw [if_neg (by omega), if_pos (by omega), List.getElem?_take, if_pos (by omega)]
  · rw [if_pos (by omega), List.getElem?_drop]
    exact congrArg (bs[·]?) (by omega)
  · rw [if_neg (by omega), if_neg (by omega)]

/-- A circular write inside a window overwrites the corresponding segment of what the window shows,
and nothing else of it. -/
theorem window_overwriteWindow {l : List α} {b n i : ℕ} {bs : List α} (hb : b ≤ l.length)
    (hn : n ≤ l.length) (h : i + bs.length ≤ n) :
    window (overwriteWindow l (b + i) bs) b n = overwrite (window l b n) i bs := by
  have hw : (window l b n).length = n := length_window hb hn
  have hlen : (overwriteWindow l (b + i) bs).length = l.length :=
    length_overwriteWindow (by omega) (by omega)
  refine List.ext_getElem? fun k => ?_
  rw [getElem?_overwrite (by omega)]
  by_cases hk : k < n
  · rw [getElem?_window hk, hlen, getElem?_window hk,
      getElem?_overwriteWindow (by omega) (by omega),
      getElem?_overwriteWindow (by omega) (by omega)]
    split_ifs <;> first | rfl | omega | exact congrArg (bs[·]?) (by omega)
  · rw [List.getElem?_eq_none (by rw [length_window (by omega) (by omega)]; omega),
      if_neg (by omega), List.getElem?_eq_none (by omega)]

end Library
