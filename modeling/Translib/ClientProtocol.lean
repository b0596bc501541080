import Translib.ClientRuns
import Translib.TransitionMachine

/-! The order of a client's connects and callbacks, in every run. -/

namespace Translib
namespace ClientProtocol

open TransitionMachine ClientRuns Protocol

inductive Phase
  | idle | live
  deriving DecidableEq, Repr

/-- A connection is announced by its connect and ends with `onDisconnected`. -/
def next : Phase → Mark → Option Phase
  | .idle, .connected => some .live
  | .live, .onConnected _ => some .live
  | .live, .onDisconnected => some .idle
  | _, _ => none

/-- A connection is live until its `onDisconnected` is called. -/
def phase (s : System) : Phase :=
  if s.client.socket.bev.isSome ∧ s.callback ≠ some .onDisconnected then .live else .idle

structure Ordered (s : System) : Prop where
  connected : s.client.isConnected = true →
    s.client.socket.bev.isSome ∧ s.callback ≠ some .onDisconnected
  leaving : s.callback = some .onDisconnected → s.client.socket.bev.isSome
  marks : follow next .idle s.marks = some (phase s)

theorem create_ordered : Ordered create :=
  ⟨fun h => absurd h (by decide),fun h => absurd h (by decide),rfl⟩

theorem Ordered.same {s s' : System} (h : Ordered s)
    (hbev : s'.client.socket.bev.isSome = s.client.socket.bev.isSome)
    (hconnected : s'.client.isConnected = s.client.isConnected) (hcallback : s'.callback = s.callback)
    (hmarks : s'.marks = s.marks) : Ordered s' := by
  have hphase : phase s' = phase s := by simp only [phase,hbev,hcallback]
  refine ⟨fun hc => ?_,fun hl => ?_,?_⟩
  · rw [hbev,hcallback]
    exact h.connected (hconnected ▸ hc)
  · rw [hbev]
    exact h.leaving (hcallback ▸ hl)
  · rw [hmarks,hphase]
    exact h.marks

theorem close_isSome (waiting : Bool) (s : TcpSocket) : (s.close waiting).bev.isSome = s.bev.isSome := by
  cases hb : s.bev with
  | none => simp [TcpSocket.close,hb]
  | some b =>
    rw [TcpSocket.close_eq (by simp [hb])]
    split_ifs <;> simp [hb]

theorem writeCallback_isSome (s : TcpSocket) : s.writeCallback.bev.isSome = s.bev.isSome := by
  rw [TcpSocket.writeCallback_eq]
  split_ifs <;> simp [TcpSocket.withBev]

theorem connect_ordered {s : System} (h : Ordered s) (o : ConnectOutcome) :
    Ordered (clientStep s (.connect o)) := by
  rcases s.client.connect_eq o with ⟨fd,hnone,hconnect⟩ | ⟨hfalse,hclient,_⟩
  · have hcallback : s.callback ≠ some .onDisconnected := fun hl => by
      simpa [hnone] using h.leaving hl
    have hphase : phase s = .idle := by simp [phase,hnone]
    simp only [clientStep,record,hconnect,if_true]
    refine ⟨fun _ => ⟨rfl,hcallback⟩,fun _ => rfl,?_⟩
    rw [follow_snoc h.marks,hphase]
    simp [next,phase,hcallback]
  · simp only [clientStep,record,hfalse,hclient]
    exact h.same rfl rfl rfl rfl

theorem event_ordered {s : System} (h : Ordered s) (events : ℕ) (socketError : ℤ) :
    Ordered (clientStep s (.event events socketError)) := by
  by_cases hno : (s.callback.isSome || s.client.socket.bev.isNone) = true
  · simp only [clientStep,hno,if_true]
    exact h
  obtain ⟨hcallback,hbev⟩ : s.callback = none ∧ s.client.socket.bev.isSome := by
    simpa [Option.isNone_iff_eq_none,Option.isSome_iff_ne_none] using hno
  have hphase : phase s = .live := by simp [phase,hcallback,hbev]
  have hmarks := h.marks
  rw [hphase] at hmarks
  have hannounce (isConnected : Bool) (error : ℤ) :
      Ordered { s with
        client := { s.client with isConnected := isConnected }
        callback := some (.onConnected error)
        ended := s.ended || decide (TcpClient.Disconnects events)
        marks := s.marks ++ [.onConnected error]
        ops := s.ops ++ [] } := by
    refine ⟨fun _ => ⟨hbev,by simp⟩,fun _ => hbev,?_⟩
    rw [follow_snoc hmarks]
    simp [next,phase,hbev]
  simp only [clientStep,if_neg hno,record,TcpClient.handleEvent]
  split_ifs
  · refine ⟨fun hc => (by cases hc),fun _ => by simpa [TcpSocket.disable,TcpSocket.withBev] using hbev,?_⟩
    simp only [Option.toList_some,List.map_cons,List.map_nil,markOf]
    rw [follow_snoc hmarks]
    simp [next,phase]
  · exact hannounce true 0
  · exact hannounce s.client.isConnected socketError
  · refine ⟨fun _ => ⟨hbev,by simp⟩,fun _ => hbev,?_⟩
    simp [hmarks,phase,hbev]

theorem returned_ordered {s : System} (h : Ordered s) : Ordered (clientStep s .returned) := by
  cases hcallback : s.callback with
  | none =>
    simp only [clientStep,hcallback]
    exact h
  | some callback =>
    have hmarks := h.marks
    cases callback with
    | onDisconnected =>
      obtain ⟨b,hb⟩ := Option.isSome_iff_exists.mp (h.leaving hcallback)
      have hconnected : s.client.isConnected ≠ true := fun hc => (h.connected hc).2 hcallback
      simp only [phase,hcallback] at hmarks
      simp only [clientStep,hcallback,record,TcpClient.handleEventReturned,TcpClient.freeBev,hb]
      exact ⟨fun hc => absurd hc hconnected,fun hc => absurd hc (by simp),by simpa [phase] using hmarks⟩
    | onConnected error =>
      simp only [phase,hcallback] at hmarks
      simp only [clientStep,hcallback,record,TcpClient.handleEventReturned]
      refine ⟨fun hc => ⟨(h.connected hc).1,by simp⟩,fun hc => absurd hc (by simp),?_⟩
      simpa [phase] using hmarks

theorem clientStep_ordered {s : System} (l : Step) (h : Ordered s)
    (hstep : (clientStep s l).destroyed = false) : Ordered (clientStep s l) := by
  cases l with
  | openOther fd => exact h
  | closeOther fd => exact h
  | connect o => exact connect_ordered h o
  | send ok data => exact h.same (TcpSocket.send_flags ok data _).1 rfl rfl rfl
  | close waiting => exact h.same (close_isSome waiting _) rfl rfl rfl
  | handOver k =>
    by_cases hc : s.callback.isSome = true
    · simpa only [clientStep,if_pos hc] using h
    · simp only [clientStep,if_neg hc]
      exact h.same (TcpSocket.handOver_flags k s.client.socket).1 rfl rfl rfl
  | writeCallback =>
    by_cases hc : s.callback.isSome = true
    · simpa only [clientStep,if_pos hc] using h
    · simp only [clientStep,if_neg hc]
      exact h.same (writeCallback_isSome s.client.socket) rfl rfl rfl
  | event events socketError => exact event_ordered h events socketError
  | returned => exact returned_ordered h
  | destroy =>
    by_cases hc : s.callback = some .onDisconnected
    · simpa only [clientStep,if_pos hc] using h
    · simp [clientStep,if_neg hc,record] at hstep

theorem clientStep_destroyed (s : System) (l : Step) :
    (clientStep s l).destroyed = s.destroyed ∨ (clientStep s l).marks = s.marks := by
  cases l with
  | destroy =>
    simp only [clientStep]
    split_ifs <;> exact .inr rfl
  | handOver k =>
    simp only [clientStep]
    split_ifs <;> exact .inl rfl
  | writeCallback =>
    simp only [clientStep]
    split_ifs <;> exact .inl rfl
  | event events socketError =>
    simp only [clientStep]
    split_ifs <;> exact .inl rfl
  | returned =>
    simp only [clientStep]
    split <;> exact .inl rfl
  | _ => exact .inl rfl

theorem step_kept {s : System} (l : Step)
    (h : (∃ p, follow next .idle s.marks = some p) ∧ (s.destroyed = false → Ordered s)) :
    (∃ p, follow next .idle (step s l).marks = some p) ∧
      ((step s l).destroyed = false → Ordered (step s l)) := by
  rcases step_cases s l with ⟨op,hstep⟩ | hstep | ⟨hd,hstep⟩
  · rw [hstep]
    exact ⟨h.1,fun hd => (h.2 hd).same rfl rfl rfl rfl⟩
  · rw [hstep]
    exact h
  · rw [hstep]
    have hordered := clientStep_ordered l (h.2 hd)
    refine ⟨?_,hordered⟩
    rcases clientStep_destroyed s l with hsame | hmarks
    · exact ⟨_,(hordered (hsame.trans hd)).marks⟩
    · rw [hmarks]
      exact h.1

theorem follow_idle {ms : List Mark} {p : Phase} (h : follow next .idle ms = some p)
    (hnone : .connected ∉ ms) : ms = [] := by
  cases ms with
  | nil => rfl
  | cons m ms => cases m <;> simp [follow,next] at h hnone

/-- A connection has ended if and only if `onDisconnected` was called, and then once. -/
theorem follow_live {ms : List Mark} {p : Phase} (h : follow next .live ms = some p)
    (hnone : .connected ∉ ms) : ms.count .onDisconnected = if p = .idle then 1 else 0 := by
  induction ms with
  | nil =>
    cases h
    rfl
  | cons m ms ih =>
    rw [List.mem_cons,not_or] at hnone
    cases m with
    | connected => exact absurd rfl hnone.1
    | onConnected error =>
      rw [List.count_cons_of_ne (by simp)]
      exact ih h hnone.2
    | onDisconnected =>
      have hrest := follow_idle h hnone.2
      subst hrest
      cases h
      rfl

/-- In every state reached: a connected client has a bufferevent; a connect that returns false
leaves both as they were; two successive connects that return true have one `onDisconnected`
between them; and after `onDisconnected` comes no `onConnected` of the same connection. -/
theorem protocol (run : List Step) :
    ((exec step create run).destroyed = false → (exec step create run).client.isConnected = true →
      (exec step create run).client.socket.bev.isSome) ∧
    (∀ o, ((exec step create run).client.connect o).1 = false →
      ((exec step create run).client.connect o).2.1.socket.bev.isSome =
          (exec step create run).client.socket.bev.isSome ∧
        ((exec step create run).client.connect o).2.1.isConnected =
          (exec step create run).client.isConnected) ∧
    (∀ before between after,
      (exec step create run).marks = before ++ .connected :: (between ++ .connected :: after) →
        .connected ∉ between → between.count .onDisconnected = 1) ∧
    ∀ before between error after,
      (exec step create run).marks =
          before ++ .onDisconnected :: (between ++ .onConnected error :: after) →
        .connected ∈ between := by
  obtain ⟨⟨p,hmarks⟩,hordered⟩ := exec_preserves
    (I := fun s => (∃ p, follow next .idle s.marks = some p) ∧ (s.destroyed = false → Ordered s))
    (fun _ l h => step_kept l h) ⟨⟨_,create_ordered.marks⟩,fun _ => create_ordered⟩ run
  refine ⟨fun hd hc => ((hordered hd).connected hc).1,fun o hfalse => ?_,
    fun before between after hsplit hnone => ?_,fun before between error after hsplit => ?_⟩
  · rcases (exec step create run).client.connect_eq o with ⟨fd,_,hconnect⟩ | ⟨_,hclient,_⟩
    · rw [hconnect] at hfalse
      cases hfalse
    · rw [hclient]
      exact ⟨rfl,rfl⟩
  · rw [hsplit] at hmarks
    obtain ⟨q,_,hrest⟩ := follow_split hmarks
    cases q with
    | live => cases hrest
    | idle =>
      obtain ⟨r,hbetween,hafter⟩ := follow_split (p := Phase.live) hrest
      cases r with
      | live => cases hafter
      | idle => exact follow_live hbetween hnone
  · rw [hsplit] at hmarks
    by_contra hnone
    obtain ⟨q,_,hrest⟩ := follow_split hmarks
    cases q with
    | idle => cases hrest
    | live =>
      obtain ⟨r,hbetween,hafter⟩ := follow_split (p := Phase.idle) hrest
      have hempty := follow_idle hbetween hnone
      subst hempty
      cases hbetween
      cases hafter

end ClientProtocol
end Translib
