import Mathlib.Data.List.GetD
import Mathlib.Data.List.Nodup
import Mathlib.Data.List.Perm.Subperm

/-!
# Numbered packets

A text is cut into pieces of which only the last is empty, and every piece travels on its own, in a packet
with its number. Packets may be lost, and may come late or more than once. A receiver looks for the packet
of the first piece, then for that of the second one, until it finds the empty piece.

`assemble_eq` says that what the receiver puts together is the text, whatever has come, and
`assemble_complete` that it does not fail when every packet has come at least once.
-/

namespace Library

variable {α : Type}

/-- A piece of a text with its number. -/
structure Packet (α : Type) where
  number : ℕ
  data : List α

/-- The data of the first packet that has come with this number. -/
def packetData (received : List (Packet α)) (number : ℕ) : Option (List α) :=
  (received.find? (·.number == number)).map Packet.data

/-- What is put together of the packets from this number on. -/
def assemble (received : List (Packet α)) : ℕ → ℕ → Option (List α)
  | 0, _ => none
  | fuel + 1, number =>
    (packetData received number).bind fun data =>
      if data.isEmpty then some [] else (assemble received fuel (number + 1)).map (data ++ ·)

/-- Only the last piece is empty. -/
def EndsEmpty (pieces : List (List α)) : Prop :=
  ∀ k < pieces.length, pieces.getD k [] = [] ↔ k + 1 = pieces.length

/-- All packets are of these pieces, the first of which has this number. -/
def PacketsOf (first : ℕ) (pieces : List (List α)) (received : List (Packet α)) : Prop :=
  ∀ packet ∈ received, ∃ k < pieces.length, packet = ⟨first + k, pieces.getD k []⟩

section

variable {first k : ℕ} {pieces : List (List α)} {received : List (Packet α)}

/-- A packet that is found is one of the pieces. -/
theorem packetData_eq (h : PacketsOf first pieces received) {data : List α}
    (hdata : packetData received (first + k) = some data) :
    k < pieces.length ∧ data = pieces.getD k [] := by
  obtain ⟨packet, hfind, rfl⟩ := Option.map_eq_some_iff.mp hdata
  obtain ⟨j, hj, rfl⟩ := h packet (List.mem_of_find?_eq_some hfind)
  have hnumber : first + j = first + k := by simpa using List.find?_some hfind
  obtain rfl : j = k := by omega
  exact ⟨hj, rfl⟩

/-- A packet that has come is found. -/
theorem packetData_of_mem (h : PacketsOf first pieces received)
    (hmem : first + k ∈ received.map Packet.number) :
    packetData received (first + k) = some (pieces.getD k []) := by
  obtain ⟨packet, hpacket, hnumber⟩ := List.mem_map.mp hmem
  have hfound : ∃ data, packetData received (first + k) = some data := by
    refine Option.isSome_iff_exists.mp ?_
    rw [packetData, Option.isSome_map, List.find?_isSome]
    exact ⟨packet, hpacket, beq_iff_eq.mpr hnumber⟩
  obtain ⟨data, hdata⟩ := hfound
  rw [hdata, (packetData_eq h hdata).2]

/-- The pieces from one on are this piece and those from the next one on. -/
theorem flatten_drop (hk : k < pieces.length) :
    (pieces.drop k).flatten = pieces.getD k [] ++ (pieces.drop (k + 1)).flatten := by
  rw [List.drop_eq_getElem_cons hk, List.flatten_cons, List.getD_eq_getElem _ _ hk]

/-- What is put together is never anything but the text. -/
theorem assemble_eq (h : PacketsOf first pieces received) (hends : EndsEmpty pieces) {fuel : ℕ}
    {text : List α} (hassembled : assemble received fuel (first + k) = some text) :
    text = (pieces.drop k).flatten := by
  induction fuel generalizing k text with
  | zero => cases hassembled
  | succ fuel ih =>
    obtain ⟨data, hdata, hrest⟩ := Option.bind_eq_some_iff.mp hassembled
    obtain ⟨hk, rfl⟩ := packetData_eq h hdata
    split_ifs at hrest with hempty
    · have hlast : k + 1 = pieces.length := (hends k hk).mp (List.isEmpty_iff.mp hempty)
      rw [flatten_drop hk, List.isEmpty_iff.mp hempty, List.drop_eq_nil_of_le (Nat.le_of_eq hlast.symm)]
      exact (Option.some.inj hrest).symm
    · obtain ⟨rest, htail, rfl⟩ := Option.map_eq_some_iff.mp hrest
      rw [flatten_drop hk, ih (k := k + 1) htail]

/-- When every packet from a number on has come, the text from there on is put together. -/
theorem assemble_complete (h : PacketsOf first pieces received) (hends : EndsEmpty pieces)
    (hcome : ∀ j < pieces.length, first + j ∈ received.map Packet.number) {fuel : ℕ}
    (hk : k < pieces.length) (hfuel : pieces.length ≤ fuel + k) :
    assemble received fuel (first + k) = some (pieces.drop k).flatten := by
  induction fuel generalizing k with
  | zero => omega
  | succ fuel ih =>
    rw [assemble, packetData_of_mem h (hcome k hk), Option.bind_some, flatten_drop hk]
    by_cases hlast : k + 1 = pieces.length
    · rw [(hends k hk).mpr hlast, List.drop_eq_nil_of_le (Nat.le_of_eq hlast.symm)]
      rfl
    · have hpiece : (pieces.getD k []).isEmpty = false := by
        rw [List.isEmpty_eq_false_iff]
        exact fun hnil => hlast ((hends k hk).mp hnil)
      rw [hpiece, if_neg Bool.false_ne_true, Nat.add_assoc, ih (k := k + 1) (by omega) (by omega)]
      rfl

/-- Pieces that all have come are no more than the packets. -/
theorem length_le_of_come (hcome : ∀ j < pieces.length, first + j ∈ received.map Packet.number) :
    pieces.length ≤ received.length := by
  have hnodup : ((List.range pieces.length).map (first + ·)).Nodup :=
    List.nodup_range.map fun _ _ => Nat.add_left_cancel
  have hsubset : (List.range pieces.length).map (first + ·) ⊆ received.map Packet.number := by
    intro number hnumber
    obtain ⟨j, hj, rfl⟩ := List.mem_map.mp hnumber
    exact hcome j (List.mem_range.mp hj)
  have hle := (List.subperm_of_subset hnodup hsubset).length_le
  rwa [List.length_map, List.length_map, List.length_range] at hle

end

end Library
