import Mathlib.Data.List.Infix
import Mathlib.Tactic

/-!
# Frames in a byte stream

Messages are encoded one after another into a stream, of which a receiver has
seen some prefix. `Whole` splits that prefix into the frames it contains whole
and the bytes of the frame still in the air. Nothing is assumed of the encoding.
-/

namespace Translib
namespace Framing

variable {α β : Type*} {enc : α → List β}

/-- `done` are the messages whose frames lie wholly in the received bytes, `tail`
the received bytes after the last of these frames. -/
structure Whole (enc : α → List β) (sent : List α) (received : List β) (done : List α)
    (tail : List β) : Prop where
  done_prefix : done <+: sent
  received_eq : received = done.flatMap enc ++ tail
  tail_short : ∀ a, done ++ [a] <+: sent → tail.length < (enc a).length

theorem Whole.cons {a : α} {sent done : List α} {received tail : List β}
    (h : Whole enc sent received done tail) :
    Whole enc (a::sent) (enc a ++ received) (a::done) tail where
  done_prefix := by simpa using h.done_prefix
  received_eq := by simp [h.received_eq]
  tail_short := fun b hb => h.tail_short b (by simpa using hb)

/-- Every prefix of the stream splits. -/
theorem exists_whole {sent : List α} {received : List β} (h : received <+: sent.flatMap enc) :
    ∃ done tail, Whole enc sent received done tail := by
  induction sent generalizing received with
  | nil =>
    have hr : received = [] := by simpa using h
    exact ⟨[],[],by simp,by simp [hr],by simp⟩
  | cons a sent ih =>
    rw [List.flatMap_cons] at h
    by_cases hlen : (enc a).length ≤ received.length
    · obtain ⟨rest,rfl⟩ := (List.prefix_of_prefix_length_le (List.prefix_append _ _) h hlen)
      obtain ⟨done,tail,hw⟩ := ih ((List.prefix_append_right_inj _).mp h)
      exact ⟨a::done,tail,hw.cons⟩
    · refine ⟨[],received,by simp,by simp,fun b hb => ?_⟩
      have hb' : b = a := by simpa using hb
      subst hb'
      omega

theorem Whole.tail_prefix {sent done : List α} {received tail : List β}
    (h : Whole enc sent received done tail) (hp : received <+: sent.flatMap enc) :
    (done = sent ∧ tail = []) ∨ ∃ a, done ++ [a] <+: sent ∧ tail <+: enc a := by
  obtain ⟨rest,rfl⟩ := h.done_prefix
  rw [h.received_eq,List.flatMap_append,List.prefix_append_right_inj] at hp
  cases rest with
  | nil => exact .inl ⟨by simp,by simpa using hp⟩
  | cons a rest =>
    have ha : done ++ [a] <+: done ++ a::rest := ⟨rest,by simp⟩
    refine .inr ⟨a,ha,?_⟩
    rw [List.flatMap_cons] at hp
    exact List.prefix_of_prefix_length_le hp (List.prefix_append _ _) (h.tail_short a ha).le

/-- More bytes arrive: the tail and the new bytes split in the frames still to come. -/
theorem Whole.extend {sent done : List α} {received tail more : List β}
    (h : Whole enc sent received done tail) (hp : received ++ more <+: sent.flatMap enc) :
    ∃ rest next tail', sent = done ++ rest ∧ tail ++ more <+: rest.flatMap enc ∧
      Whole enc rest (tail ++ more) next tail' ∧
      Whole enc sent (received ++ more) (done ++ next) tail' := by
  obtain ⟨rest,rfl⟩ := h.done_prefix
  rw [h.received_eq,List.append_assoc,List.flatMap_append,List.prefix_append_right_inj] at hp
  obtain ⟨next,tail',hw⟩ := exists_whole hp
  refine ⟨rest,next,tail',rfl,hp,hw,?_,?_,?_⟩
  · exact (List.prefix_append_right_inj _).mpr hw.done_prefix
  · rw [h.received_eq,List.append_assoc,hw.received_eq]
    simp [List.append_assoc]
  · intro a ha
    rw [List.append_assoc,List.prefix_append_right_inj] at ha
    exact hw.tail_short a ha

theorem Whole.all {sent done : List α} {tail : List β}
    (h : Whole enc sent (sent.flatMap enc) done tail) : done = sent ∧ tail = [] := by
  rcases h.tail_prefix (List.prefix_rfl) with hd | ⟨a,ha,hta⟩
  · exact hd
  · obtain ⟨rest,hrest⟩ := ha
    have heq := h.received_eq
    have hlt := h.tail_short a ⟨rest,hrest⟩
    rw [← hrest] at heq
    have hlen := congrArg List.length heq
    simp only [List.flatMap_append,List.length_append,List.flatMap_cons,List.flatMap_nil,
      List.append_nil] at hlen
    omega

end Framing
end Translib
