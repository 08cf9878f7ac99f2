import Twinkleshine.Server.Attendance
import Twinkleshine.Server.Pass

/-!
# The short response stream in every run

Whoever comes, is served, fails or is removed: what the short response stream says it holds can be read
from it, it is empty while it belongs to nobody, and its owner points into the table of clients.
-/

namespace Twinkleshine

open Library

variable {s t : Server}

/-- The short response stream can be read, and its owner is in the table. -/
structure Server.ShortSound (s : Server) : Prop where
  readable : s.Readable
  linked : s.OwnerLinked

/-- The short response stream is the same, and its owner stays where it is or moves with the table. -/
structure ShortKept (s t : Server) : Prop where
  stream : t.shortResponseStream = s.shortResponseStream
  buffers : t.buffers = s.buffers
  owner : t.shortResponseStreamOwner = s.shortResponseStreamOwner ∧ t.clients.p = s.clients.p ∨
    t.shortResponseStreamOwner = s.shortResponseStreamOwner.map (·.moveTo t.clients.p)

theorem ShortKept.refl (s : Server) : ShortKept s s := ⟨rfl, rfl, .inl ⟨rfl, rfl⟩⟩

theorem ShortKept.sound (h : ShortKept s t) (hs : s.ShortSound) : t.ShortSound := by
  refine ⟨⟨?_, fun hnone => ?_⟩, fun owner howner => ?_⟩
  · rw [h.stream, h.buffers]
    exact hs.readable.readable
  · rw [h.stream]
    refine hs.readable.idle ?_
    rcases h.owner with ⟨hsame, -⟩ | hmoved
    · exact hsame.symm.trans hnone
    · exact Option.map_eq_none_iff.mp (hmoved.symm.trans hnone)
  · rcases h.owner with ⟨hsame, hblock⟩ | hmoved
    · exact (hs.linked owner (hsame.symm.trans howner)).trans hblock.symm
    · obtain ⟨old, -, rfl⟩ := Option.map_eq_some_iff.mp (hmoved.symm.trans howner)
      rfl

theorem Unadmitted.shortKept {born : ℕ} {closed : List ℕ} (h : Unadmitted s t born closed) :
    ShortKept s t := by
  refine ⟨h.stream, h.buffers, ?_⟩
  rcases h.owner with hsame | hmoved
  · exact .inl ⟨hsame, h.block⟩
  · rw [h.block]
    exact .inr hmoved

/-- Whoever comes, the short response stream is not touched. -/
theorem SocketServed.shortKept {index : ℕ} {load : ServerLoad} {now : ℤ} {answers : SocketAnswers}
    (h : SocketServed index load now answers s t) : ShortKept s t := by
  rcases h with ⟨rfl, -⟩ | ⟨-, served⟩ | ⟨-, -, -, served⟩
  · exact .refl t
  · rcases served with ⟨-, same⟩ | ⟨-, -, same⟩ | ⟨-, -, -, -, same⟩ | ⟨-, -, -, -, admitted, -⟩
    · exact same.shortKept
    · exact same.shortKept
    · exact same.shortKept
    · exact ⟨admitted.stream, admitted.buffers, .inr admitted.owner⟩
  · rcases served with ⟨rfl⟩ | ⟨same⟩ | ⟨-, -, same, -⟩ | ⟨-, -, -, -, admitted, -⟩
    · exact .refl t
    · exact same.shortKept
    · exact ⟨same.stream, same.buffers, .inl ⟨same.owner, congrArg Buffer.p same.clients⟩⟩
    · exact ⟨admitted.stream, admitted.buffers, .inr admitted.owner⟩

/-- The owner that the compaction leaves behind is there if one was, and in the same block. -/
theorem removeFinalized_owner_block (block : ℕ) (clients : List Client) (polls : List Poll)
    (owner : Option ClientPointer) (i k : ℕ) :
    ((removeFinalized block i k clients polls owner).2.2 = none → owner = none) ∧
      ((∀ pointer, owner = some pointer → pointer.block = block) →
        ∀ pointer, (removeFinalized block i k clients polls owner).2.2 = some pointer →
          pointer.block = block) := by
  induction clients generalizing polls owner i k with
  | nil => cases polls <;> exact ⟨id, id⟩
  | cons client clients ih =>
    rcases polls with _ | ⟨poll, polls⟩
    · exact ⟨id, id⟩
    rw [removeFinalized]
    by_cases hdead : client.dead = true
    · rw [if_pos hdead]
      exact ih polls owner (i + 1) k
    rw [if_neg hdead]
    obtain ⟨hnone, hblock⟩ := ih polls (if some ⟨block, i⟩ = owner then
      some ⟨block, i - (i - k)⟩ else owner) (i + 1) (k + 1)
    by_cases howner : some ⟨block, i⟩ = owner
    · rw [if_pos howner] at hnone hblock
      dsimp only
      rw [if_pos howner]
      refine ⟨fun h => absurd (hnone h) (Option.some_ne_none _), fun _ => hblock fun pointer h => ?_⟩
      rw [← Option.some.inj h]
    · rw [if_neg howner] at hnone hblock
      dsimp only
      rw [if_neg howner]
      exact ⟨hnone, hblock⟩

theorem clientsRemoveFinalized_shortSound (h : s.ShortSound) : (clientsRemoveFinalized s).ShortSound := by
  obtain ⟨hnone, hblock⟩ := removeFinalized_owner_block s.clients.p s.clients.elements
    (s.polls.elements.drop acceptingSockets) s.shortResponseStreamOwner 0 0
  exact ⟨⟨h.readable.readable, fun howner => h.readable.idle (hnone howner)⟩, hblock h.linked⟩

theorem ServerStep.shortSound {state state' : Phase × Server} {input : ServerInput}
    (h : ServerStep state input state') (htabled : Tabled state) (hs : state.2.ShortSound) :
    state'.2.ShortSound := by
  cases h with
  | poll => exact ⟨hs.readable.congr rfl rfl rfl, hs.linked⟩
  | accept returns =>
    exact ((serverAcceptSocket_cases htabled.paired.size _ _ _ _).of_eq_ok returns).shortKept.sound hs
  | shuffle => exact ⟨hs.readable.congr rfl rfl rfl, hs.linked⟩
  | visit returns =>
    have hattended := (serverProcessClient_attended _ _ _ _).of_eq_ok returns
    exact ⟨hattended.readable hs.readable, hattended.linked hs.linked⟩
  | remove => exact clientsRemoveFinalized_shortSound hs

theorem startState_shortSound (polls : Buffer Poll) : (startState polls).2.ShortSound :=
  ⟨Server.readable_zero rfl, fun _ howner => absurd howner (Option.some_ne_none _).symm⟩

end Twinkleshine
