import Translib.Loop
import Translib.TransitionMachine

/-! The destructor of a loop and the thread it deletes, in any interleaving of the owner's
calls with the threads of the loop. -/

namespace Translib
namespace ThreadJoins

open TransitionMachine

inductive Step
  | start | wait | stop (waiting : Bool) | destroy
  | owner
  | run (t : ThreadRef) (haveEvents : Bool)
  deriving DecidableEq, Repr

/-- The owner makes one call at a time, and none once the destructor has begun. -/
def step (l : Loop) : Step → Loop
  | .start => if l.Idle then l.start.2 else l
  | .wait => if l.Idle then l.wait else l
  | .stop waiting => if l.Idle then l.stop waiting else l
  | .destroy => if l.Idle then l.destroy else l
  | .owner => if l.terminated then l else l.owner
  | .run t haveEvents => if l.terminated then l else l.run t haveEvents

theorem step_point {l : Loop} {x : Step} {t : ThreadRef} (ht : t < l.created)
    (hx : ∀ haveEvents, x ≠ .run t haveEvents) :
    ((step l x).threads t).point = (l.threads t).point := by
  cases x with
  | start =>
    simp only [step,Loop.start_eq]
    split_ifs
    · rfl
    · simp [Loop.newThread,Loop.setThread,ht.ne]
    · rfl
  | owner =>
    simp only [step]
    split_ifs
    · rfl
    · exact (l.owner_frame t).1
  | run u haveEvents =>
    have hne : t ≠ u := fun htu => hx haveEvents (by rw [htu])
    simp only [step]
    split_ifs
    · rfl
    · rw [Loop.run_threads_of_ne hne]
  | _ =>
    simp only [step]
    split_ifs <;> rfl

theorem step_created (l : Loop) (x : Step) : l.created ≤ (step l x).created := by
  cases x with
  | start =>
    simp only [step,Loop.start_eq]
    split_ifs
    · exact le_rfl
    · exact Nat.le_succ _
    · exact le_rfl
  | owner =>
    simp only [step]
    split_ifs
    · exact le_rfl
    · exact (l.owner_frame 0).2.2.1.ge
  | run u haveEvents =>
    simp only [step]
    split_ifs
    · exact le_rfl
    · exact (Loop.run_created u haveEvents l).ge
  | _ =>
    simp only [step]
    split_ifs <;> exact le_rfl

/-- The thread `_thread` points to has been joined, if there is one. -/
def Joined (l : Loop) : Prop := ∀ t, l.thread = some t → (l.threads t).joinable = false

/-- A thread that is about to be deleted has been joined. -/
def JoinedBeforeDelete (l : Loop) : Prop := l.todo.head? = some .deleteThread → Joined l

/-- When the destructor tests the status, the thread has not finished yet, or an earlier
`wait` has joined it. -/
def InTime (l : Loop) : Step → Prop
  | .owner => l.terminated = false → l.todo = [.wait,.deleteThread] → l.status ≠ .finished ∨ Joined l
  | _ => True

inductive Calling : List OwnerStmt → Prop
  | idle : Calling []
  | stop (waiting : Bool) : Calling [.stop waiting]
  | loopExit (waiting : Bool) : Calling [.loopExit waiting]
  | wait : Calling [.wait]
  | join : Calling [.join]
  | destroyStop : Calling [.stop true,.wait,.deleteThread]
  | destroyExit : Calling [.loopExit true,.wait,.deleteThread]
  | destroyWait : Calling [.wait,.deleteThread]
  | destroyJoin : Calling [.join,.deleteThread]
  | destroyDelete : Calling [.deleteThread]

/-- The invariant: the calls are taken apart in order, and the destructor only goes through
`wait` when there is a thread. -/
structure Owned (l : Loop) : Prop where
  calling : Calling l.todo
  hasThread : .deleteThread ∈ l.todo → l.thread.isSome

theorem create_owned : Owned .create := ⟨.idle,fun h => by cases h⟩

theorem nothing_to_check {l l' : Loop} (hcalling : Calling l'.todo)
    (hdelete : l'.todo.head? ≠ some .deleteThread) (htodo : l.todo ≠ [.wait,.deleteThread])
    (hthread : .deleteThread ∈ l'.todo → l'.thread.isSome) :
    Owned l' ∧ (JoinedBeforeDelete l' ↔ InTime l .owner) :=
  ⟨⟨hcalling,hthread⟩,fun _ _ h => absurd h htodo,fun _ h => absurd h hdelete⟩

theorem Calling.rest {stmt : OwnerStmt} {rest : List OwnerStmt} (h : Calling (stmt::rest)) :
    Calling rest := by
  cases h with
  | destroyStop => exact .destroyWait
  | destroyExit => exact .destroyWait
  | destroyWait => exact .destroyDelete
  | destroyJoin => exact .destroyDelete
  | _ => exact .idle

/-- `delete _thread` comes after the two statements of `wait`. -/
theorem Calling.before_delete {stmt : OwnerStmt} {rest : List OwnerStmt} (h : Calling (stmt::rest))
    (hdelete : rest.head? = some .deleteThread) : stmt = .wait ∨ stmt = .join := by
  cases h with
  | destroyWait => exact .inl rfl
  | destroyJoin => exact .inr rfl
  | _ => simp at hdelete

theorem owner_step {l : Loop} (h : Owned l) (hrun : l.terminated = false) :
    Owned l.owner ∧ (JoinedBeforeDelete l.owner ↔ InTime l .owner) := by
  obtain ⟨hcalling,hthread⟩ := h
  have hsome {stmt : OwnerStmt} {rest : List OwnerStmt} (htodo : l.todo = stmt::rest)
      (hmem : .deleteThread ∈ rest) : l.thread.isSome :=
    hthread (htodo ▸ List.mem_cons_of_mem stmt hmem)
  have heffect := l.owner_effect
  generalize l.owner = l' at heffect ⊢
  cases heffect with
  | idle htodo => exact nothing_to_check hcalling (by simp [htodo]) (by simp [htodo]) hthread
  | finished waiting rest htodo =>
    rw [htodo] at hcalling
    exact nothing_to_check hcalling.rest (fun hdelete => by simpa using hcalling.before_delete hdelete)
      (by simp [htodo]) (hsome htodo)
  | stop waiting rest htodo =>
    rw [htodo] at hcalling
    have hexit : Calling (.loopExit waiting::rest) := by
      cases hcalling with
      | stop => exact .loopExit waiting
      | destroyStop => exact .destroyExit
    exact nothing_to_check hexit (by simp) (by simp [htodo])
      (fun hmem => hsome htodo (by simpa using hmem))
  | loopExit waiting rest htodo =>
    rw [htodo] at hcalling
    exact nothing_to_check hcalling.rest (fun hdelete => by simpa using hcalling.before_delete hdelete)
      (by simp [htodo]) (hsome htodo)
  | passed rest htodo hnone =>
    rw [htodo] at hcalling
    cases hcalling with
    | wait => exact nothing_to_check .idle (by simp) (by simp [htodo]) (by simp)
    | destroyWait =>
      have hthread := hsome htodo List.mem_cons_self
      -- the one test that can let an unjoined thread through to its deletion
      have hfinished : l.status = .finished := hnone.resolve_left (Option.isSome_iff_ne_none.mp hthread)
      refine ⟨⟨.destroyDelete,fun _ => hthread⟩,fun hjoined _ _ => .inr (hjoined rfl),fun h _ => ?_⟩
      exact (h hrun htodo).resolve_left (fun hne => hne hfinished)
  | wait rest htodo _ hstatus =>
    rw [htodo] at hcalling
    have hjoin : Calling (.join::rest) := by
      cases hcalling with
      | wait => exact .join
      | destroyWait => exact .destroyJoin
    exact ⟨⟨hjoin,fun hmem => hsome htodo (by simpa using hmem)⟩,fun _ _ _ => .inl hstatus,
      fun _ h => by simp at h⟩
  | noThread hnone =>
    have hnot : .deleteThread ∉ l.todo := fun hmem => by simpa [hnone] using hthread hmem
    exact nothing_to_check hcalling (fun hdelete => hnot (List.mem_of_mem_head? hdelete))
      (fun htodo => hnot (by simp [htodo])) hthread
  | throws => exact nothing_to_check .idle (by simp) (by simp [*]) (by simp)
  | joined t rest htodo ht =>
    rw [htodo] at hcalling
    refine ⟨⟨hcalling.rest,hsome htodo⟩,fun _ _ h => ?_,fun _ _ u hu => ?_⟩
    · simp [htodo] at h
    · have htu : t = u := by simpa [Loop.setThread,ht] using hu
      subst htu
      simp [Loop.setThread]
  | blocked rest htodo => exact nothing_to_check hcalling (by simp [htodo]) (by simp [htodo]) hthread
  | deleted t rest htodo =>
    rw [htodo] at hcalling
    exact nothing_to_check hcalling.rest (fun hdelete => by simpa using hcalling.before_delete hdelete)
      (by simp [htodo]) (hsome htodo)

/-- The step lemma: only the destructor's test of the status decides whether the thread is
joined before it is deleted. -/
theorem step_joined {l : Loop} (s : Step) (h : Owned l) (hjoined : JoinedBeforeDelete l) :
    Owned (step l s) ∧ (JoinedBeforeDelete (step l s) ↔ InTime l s) := by
  have hsame (s : Step) (htrue : InTime l s) : Owned l ∧ (JoinedBeforeDelete l ↔ InTime l s) :=
    ⟨h,fun _ => htrue,fun _ => hjoined⟩
  have hcall (l' : Loop) (s : Step) (htrue : InTime l s) (hcalling : Calling l'.todo)
      (hdelete : l'.todo.head? ≠ some .deleteThread)
      (hthread : .deleteThread ∈ l'.todo → l'.thread.isSome) :
      Owned l' ∧ (JoinedBeforeDelete l' ↔ InTime l s) :=
    ⟨⟨hcalling,hthread⟩,fun _ => htrue,fun _ hhead => absurd hhead hdelete⟩
  cases s with
  | start =>
    simp only [step]
    split_ifs with hidle
    · have htodo : l.start.2.todo = [] := by
        rw [← hidle.1]
        unfold Loop.start
        split_ifs <;> rfl
      exact hcall l.start.2 .start trivial (htodo ▸ .idle) (by simp [htodo]) (by simp [htodo])
    · exact hsame .start trivial
  | wait =>
    simp only [step]
    split_ifs with hidle
    · exact hcall l.wait .wait trivial .wait (by simp [Loop.wait]) (by simp [Loop.wait])
    · exact hsame .wait trivial
  | stop waiting =>
    simp only [step]
    split_ifs with hidle
    · exact hcall (l.stop waiting) (.stop waiting) trivial (.stop waiting) (by simp [Loop.stop])
        (by simp [Loop.stop])
    · exact hsame (.stop waiting) trivial
  | destroy =>
    simp only [step]
    split_ifs with hidle
    · cases ht : l.thread with
      | none =>
        have htodo : l.destroy.todo = [] := by simp [Loop.destroy,ht]
        exact hcall l.destroy .destroy trivial (htodo ▸ .idle) (by simp [htodo]) (by simp [htodo])
      | some t =>
        have htodo : l.destroy.todo = [.stop true,.wait,.deleteThread] := by
          simp [Loop.destroy,ht]
        exact hcall l.destroy .destroy trivial (htodo ▸ .destroyStop) (by simp [htodo])
          (fun _ => by simp [Loop.destroy,ht])
    · exact hsame .destroy trivial
  | owner =>
    simp only [step]
    split_ifs with hterminated
    · exact hsame .owner fun hrun => by simp [hterminated] at hrun
    · exact owner_step h (by simpa using hterminated)
  | run t haveEvents =>
    simp only [step]
    split_ifs with hterminated
    · exact hsame (.run t haveEvents) trivial
    · refine ⟨⟨by simpa using h.calling,by simpa using h.hasThread⟩,fun _ => trivial,fun _ hhead => ?_⟩
      intro u hu
      rw [Loop.run_joinable]
      exact hjoined (by simpa using hhead) u (by simpa using hu)

/-- The destructor joins the thread it deletes, in every interleaving in which its test of
the status comes before the thread has finished or after another `wait` has joined it; and
in no other. -/
theorem joined_iff (run : List Step) :
    Always step JoinedBeforeDelete .create run ↔ Along step InTime .create run :=
  always_iff_along (J := Owned) (fun _ s h hjoined _ => step_joined s h hjoined) create_owned
    (fun h => by cases h) (along_true step _ _)

/-- The loop ends by itself as no event is registered, and is then destroyed. -/
theorem finished_not_joined :
    ¬ ∀ run, Always step JoinedBeforeDelete .create run := by
  intro h
  have hdelete := h [.start,.run 0 false,.run 0 false,.run 0 false,.run 0 false,.run 0 false,
    .destroy,.owner,.owner] _ List.prefix_rfl
  exact absurd (hdelete (by decide) 0 (by decide)) (by decide)

end ThreadJoins
end Translib
