import Translib.ClientRuns

/-! The descriptors of a client's connections, among those others open and close. -/

namespace Translib
namespace ClientDescriptors

open TransitionMachine ClientRuns DescriptorTable

/-- The system hands out free numbers, and others close only their own. -/
def Admissible (s : System) : Step → Prop
  | .connect o => ∀ fd, .opened fd ∈ (s.client.connect o).2.2 → table s.ops fd = none
  | .openOther fd => table s.ops fd = none
  | .closeOther fd => table s.ops fd = some .other
  | _ => True

/-- Every close is one of the client's own open descriptors, no shutdown hits a descriptor of
others, and none of the client's is left open. -/
structure Tidy (ops : List (Owner × SocketOp)) : Prop where
  rightful : AllRightful ops
  released : ∀ fd, table ops fd ≠ some .client

def Undisconnected (s : System) : Step → Prop
  | .event events _ => s.destroyed = false → s.callback = none → s.client.socket.bev.isSome →
      ¬ TcpClient.Disconnects events
  | _ => True

structure Held (s : System) : Prop where
  rightful : AllRightful s.ops
  callback : s.callback ≠ some .onDisconnected
  owned : ∀ fd, table s.ops fd = some .client ↔ s.client.socket.descriptor = some fd
  destroyed : s.destroyed = true → s.client.socket.descriptor = none

/-- An operation was wrong, or one will be: a descriptor that is not the client's any more is
going to be closed. -/
def Lost (s : System) : Prop :=
  ¬ AllRightful s.ops ∨ s.callback = some .onDisconnected ∧ s.destroyed = false ∧
    ∃ fd, s.client.socket.descriptor = some fd ∧ table s.ops fd ≠ some .client

theorem create_held : Held create where
  rightful := trivial
  callback := by decide
  owned := fun fd => by simp [create,table,exec,TcpClient.create,TcpSocket.descriptor]
  destroyed := fun _ => rfl

theorem step_ops (s : System) (l : Step) : s.ops <+: (step s l).ops := by
  rcases step_cases s l with ⟨op,hstep⟩ | hstep | ⟨_,hstep⟩
  · rw [hstep]
    exact List.prefix_append _ _
  · rw [hstep]
  · rw [hstep]
    cases l with
    | connect o => exact List.prefix_append _ _
    | send ok data => exact List.prefix_rfl
    | close waiting => exact List.prefix_append _ _
    | handOver k =>
      simp only [clientStep]
      split_ifs <;> exact List.prefix_rfl
    | writeCallback =>
      simp only [clientStep]
      split_ifs
      · exact List.prefix_rfl
      · exact List.prefix_append _ _
    | event events socketError =>
      simp only [clientStep]
      split_ifs
      · exact List.prefix_rfl
      · exact List.prefix_append _ _
    | returned =>
      simp only [clientStep]
      split
      · exact List.prefix_rfl
      · exact List.prefix_append _ _
    | destroy =>
      simp only [clientStep]
      split_ifs
      · exact List.prefix_rfl
      · exact List.prefix_append _ _
    | openOther fd => exact List.prefix_rfl
    | closeOther fd => exact List.prefix_rfl

theorem Held.same {s s' : System} (h : Held s) (hops : s'.ops = s.ops ∨
      ∃ fd, s.client.socket.descriptor = some fd ∧ s'.ops = s.ops ++ [(.client,.shut fd)])
    (hcallback : s'.callback ≠ some .onDisconnected)
    (hdescriptor : s'.client.socket.descriptor = s.client.socket.descriptor)
    (hdestroyed : s'.destroyed = s.destroyed) : Held s' := by
  have htable : table s'.ops = table s.ops := by
    rcases hops with hops | ⟨fd,_,hops⟩
    · rw [hops]
    · rw [hops,table_snoc]
      rfl
  refine ⟨?_,hcallback,fun fd => ?_,fun hd => ?_⟩
  · rcases hops with hops | ⟨fd,hfd,hops⟩
    · exact hops ▸ h.rightful
    · rw [hops,allRightful_snoc]
      refine ⟨h.rightful,fun owner howner => ?_⟩
      rw [(h.owned fd).mpr hfd] at howner
      cases howner
      rfl
  · rw [htable,hdescriptor]
    exact h.owned fd
  · rw [hdescriptor]
    exact h.destroyed (hdestroyed ▸ hd)

theorem Held.other {s : System} (h : Held s) {op : SocketOp}
    (hrightful : Rightful (table s.ops) (.other,op)) :
    Held { s with ops := s.ops ++ [(.other,op)] } := by
  refine ⟨(allRightful_snoc _ _).mpr ⟨h.rightful,hrightful⟩,h.callback,fun fd => ?_,h.destroyed⟩
  rw [table_snoc,apply_other hrightful (by decide)]
  exact h.owned fd

theorem Held.free {s : System} (h : Held s) {fd : SocketFd}
    (hfd : s.client.socket.descriptor = some fd) :
    AllRightful (s.ops ++ [(.client,.closed fd)]) ∧
      ∀ fd', table (s.ops ++ [(.client,.closed fd)]) fd' ≠ some .client := by
  refine ⟨(allRightful_snoc _ _).mpr ⟨h.rightful,(h.owned fd).mpr hfd⟩,fun fd' => ?_⟩
  rw [table_snoc]
  by_cases heq : fd' = fd
  · subst heq
    simp [apply]
  · have hnot : table s.ops fd' ≠ some .client := fun hown => by
      rw [h.owned fd',hfd,Option.some_inj] at hown
      exact heq hown.symm
    simpa [apply,heq] using hnot

theorem connect_held {s : System} (h : Held s) (hd : s.destroyed = false) (o : ConnectOutcome)
    (hkernel : Admissible s (.connect o)) : Held (clientStep s (.connect o)) := by
  have hcases := s.client.connect_eq o
  simp only [Admissible] at hkernel
  rcases hcases with ⟨fd,hnone,hconnect⟩ | ⟨hfalse,hclient,hops⟩
  · have hdescriptor : s.client.socket.descriptor = none := by simp [TcpSocket.descriptor,hnone]
    rw [hconnect] at hkernel
    have hfree : table s.ops fd = none := hkernel fd (by simp)
    simp only [clientStep,record,hconnect,List.map_cons,List.map_nil]
    refine ⟨(allRightful_snoc _ _).mpr ⟨h.rightful,hfree⟩,h.callback,fun fd' => ?_,
      fun hdestroyed => absurd (hd.symm.trans hdestroyed) (by decide)⟩
    rw [table_snoc]
    by_cases heq : fd' = fd
    · subst heq
      simp [apply,TcpSocket.descriptor,Bufferevent.socketNew]
    · have hnot : table s.ops fd' ≠ some .client := fun hown => by
        rw [h.owned fd',hdescriptor] at hown
        cases hown
      simp [apply,heq,hnot,TcpSocket.descriptor,Bufferevent.socketNew,Ne.symm heq]
  · rcases hops with hops | ⟨fd,hnone,hops⟩
    · simp only [clientStep,record,hfalse,hclient,hops]
      exact h.same (.inl (List.append_nil _)) h.callback rfl rfl
    · rw [hops] at hkernel
      have hfree : table s.ops fd = none := hkernel fd (by simp)
      have hsplit : s.ops ++ [(Owner.client,Op.opened fd),(Owner.client,Op.closed fd)] =
          (s.ops ++ [(Owner.client,Op.opened fd)]) ++ [(Owner.client,Op.closed fd)] := by simp
      have hopened : table (s.ops ++ [(Owner.client,Op.opened fd)]) = Function.update (table s.ops) fd
          (some .client) := table_snoc _ _
      have htable : table ((s.ops ++ [(Owner.client,Op.opened fd)]) ++ [(Owner.client,Op.closed fd)]) =
          table s.ops := by
        rw [table_snoc,hopened]
        simp only [apply,Function.update_idem]
        rw [← hfree,Function.update_eq_self]
      simp only [clientStep,record,hfalse,hclient,hops,List.map_cons,List.map_nil,hsplit]
      refine ⟨?_,h.callback,fun fd' => ?_,h.destroyed⟩
      · rw [allRightful_snoc,allRightful_snoc]
        refine ⟨⟨h.rightful,hfree⟩,?_⟩
        rw [hopened]
        exact Function.update_self _ _ _
      · rw [htable]
        exact h.owned fd'

theorem event_held {s : System} (h : Held s) (hd : s.destroyed = false) (events : ℕ)
    (socketError : ℤ) :
    (Held (clientStep s (.event events socketError)) ∧
        Undisconnected s (.event events socketError)) ∨
      ((clientStep s (.event events socketError)).callback = some .onDisconnected ∧
        Lost (clientStep s (.event events socketError)) ∧
        ¬ Undisconnected s (.event events socketError)) := by
  by_cases hno : (s.callback.isSome || s.client.socket.bev.isNone) = true
  · refine .inl ⟨by simpa only [clientStep,if_pos hno] using h,fun _ hc hb => ?_⟩
    simp [hc,Option.isNone_iff_eq_none,Option.isSome_iff_ne_none] at hno hb
    exact absurd hno hb
  obtain ⟨hc,hb⟩ : s.callback = none ∧ s.client.socket.bev.isSome := by
    simpa [Option.isNone_iff_eq_none,Option.isSome_iff_ne_none] using hno
  by_cases hdisconnects : TcpClient.Disconnects events
  · right
    obtain ⟨b,hbev⟩ := Option.isSome_iff_exists.mp hb
    have hfd : s.client.socket.descriptor = some b.fd := by simp [TcpSocket.descriptor,hbev]
    have hsocket : s.client.socket.socket = b.fd := by simp [TcpSocket.socket,hbev]
    have hstep : clientStep s (.event events socketError) =
        { s with
          client := ⟨s.client.socket.disable,false⟩
          callback := some .onDisconnected
          ended := true
          marks := s.marks ++ [.onDisconnected]
          ops := s.ops ++ [(.client,.closed b.fd)] } := by
      simp [clientStep,hc,hbev,record,TcpClient.handleEvent,hdisconnects,markOf,hsocket]
    rw [hstep]
    exact ⟨rfl,.inr ⟨rfl,hd,b.fd,by simpa using hfd,(h.free hfd).2 b.fd⟩,
      fun hno => hno hd hc hb hdisconnects⟩
  · left
    refine ⟨?_,fun _ _ _ => hdisconnects⟩
    simp only [clientStep,if_neg hno,record,TcpClient.handleEvent,if_neg hdisconnects]
    split_ifs <;> exact h.same (.inl (List.append_nil _)) (by simp) rfl rfl

theorem destroy_held {s : System} (h : Held s) : Held (clientStep s .destroy) := by
  simp only [clientStep,if_neg h.callback]
  cases hb : s.client.socket.bev with
  | none =>
    simp only [TcpClient.freeBev,hb,record,List.map_nil,List.append_nil]
    exact ⟨h.rightful,h.callback,h.owned,fun _ => by simp [TcpSocket.descriptor,hb]⟩
  | some b =>
    simp only [TcpClient.freeBev,hb,record,List.map_cons,List.map_nil]
    have hfd : s.client.socket.descriptor = some b.fd := by simp [TcpSocket.descriptor,hb]
    obtain ⟨hrightful,hnone⟩ := h.free hfd
    exact ⟨hrightful,h.callback,fun fd => by simp [hnone fd,TcpSocket.descriptor],fun _ => rfl⟩

theorem clientStep_held {s : System} (l : Step) (h : Held s) (hd : s.destroyed = false)
    (hkernel : Admissible s l) :
    (Held (clientStep s l) ∧ Undisconnected s l) ∨
      ((clientStep s l).callback = some .onDisconnected ∧ Lost (clientStep s l) ∧
        ¬ Undisconnected s l) := by
  cases l with
  | openOther fd => exact .inl ⟨h,trivial⟩
  | closeOther fd => exact .inl ⟨h,trivial⟩
  | connect o => exact .inl ⟨connect_held h hd o hkernel,trivial⟩
  | send ok data =>
    exact .inl ⟨h.same (.inl rfl) h.callback (TcpSocket.send_descriptor ok data _) rfl,trivial⟩
  | close waiting =>
    refine .inl ⟨h.same ?_ h.callback (TcpSocket.close_descriptor waiting _) rfl,trivial⟩
    rcases s.client.socket.closeOps_cases waiting with hops | ⟨fd,hfd,hops⟩
    · exact .inl (by simp [clientStep,record,hops])
    · exact .inr ⟨fd,hfd,by simp [clientStep,record,hops]⟩
  | handOver k =>
    refine .inl ⟨?_,trivial⟩
    by_cases hc : s.callback.isSome = true
    · simpa only [clientStep,if_pos hc] using h
    · simp only [clientStep,if_neg hc]
      exact h.same (.inl rfl) h.callback (TcpSocket.handOver_descriptor k s.client.socket) rfl
  | writeCallback =>
    refine .inl ⟨?_,trivial⟩
    by_cases hc : s.callback.isSome = true
    · simpa only [clientStep,if_pos hc] using h
    · simp only [clientStep,if_neg hc]
      refine h.same ?_ h.callback (TcpSocket.writeCallback_descriptor s.client.socket) rfl
      rcases s.client.socket.writeCallbackOps_cases with hops | ⟨fd,hfd,hops⟩
      · exact .inl (by simp [record,hops])
      · exact .inr ⟨fd,hfd,by simp [record,hops]⟩
  | event events socketError => exact event_held h hd events socketError
  | returned =>
    refine .inl ⟨?_,trivial⟩
    cases hc : s.callback with
    | none => simpa only [clientStep,hc] using h
    | some callback =>
      cases callback with
      | onDisconnected => exact absurd hc h.callback
      | onConnected error =>
        simp only [clientStep,hc,record,TcpClient.handleEventReturned]
        exact h.same (.inl (List.append_nil _)) (by simp) rfl rfl
  | destroy => exact .inl ⟨destroy_held h,trivial⟩

theorem undisconnected_of_destroyed {s : System} (hd : s.destroyed = true) (l : Step) :
    Undisconnected s l := by
  cases l with
  | event events socketError => exact fun hd' => absurd (hd.symm.trans hd') (by decide)
  | _ => trivial

theorem step_held {s : System} (l : Step) (h : Held s) (hkernel : Admissible s l) :
    (Held (step s l) ∧ Undisconnected s l) ∨
      ((step s l).callback = some .onDisconnected ∧ Lost (step s l) ∧ ¬ Undisconnected s l) := by
  cases l with
  | openOther fd => exact .inl ⟨h.other hkernel,trivial⟩
  | closeOther fd => exact .inl ⟨h.other hkernel,trivial⟩
  | _ =>
    cases hd : s.destroyed with
    | false =>
      rw [step_alive hd (by simp)]
      exact clientStep_held _ h hd hkernel
    | true =>
      exact .inl ⟨by simpa only [step,hd,if_true] using h,undisconnected_of_destroyed hd _⟩

theorem step_lost {s : System} (l : Step) (h : Lost s) (hkernel : Admissible s l) :
    Lost (step s l) := by
  rcases h with hwrong | ⟨hc,hd,fd,hfd,hnot⟩
  · exact .inl fun hrightful => hwrong (allRightful_mono (step_ops s l) hrightful)
  have hkeep {s' : System} (hcallback : s'.callback = s.callback) (hdestroyed : s'.destroyed = s.destroyed)
      (hdescriptor : s'.client.socket.descriptor = s.client.socket.descriptor)
      (htable : table s'.ops fd ≠ some .client) : Lost s' :=
    .inr ⟨hcallback.trans hc,hdestroyed.trans hd,fd,hdescriptor.trans hfd,htable⟩
  cases l with
  | openOther fd' =>
    have hrightful : Rightful (table s.ops) (Owner.other,Op.opened fd') := hkernel
    refine hkeep rfl rfl rfl ?_
    rw [step,table_snoc,Ne,apply_other hrightful (by decide)]
    exact hnot
  | closeOther fd' =>
    have hrightful : Rightful (table s.ops) (Owner.other,Op.closed fd') := hkernel
    refine hkeep rfl rfl rfl ?_
    rw [step,table_snoc,Ne,apply_other hrightful (by decide)]
    exact hnot
  | connect o =>
    obtain ⟨b,hb⟩ := Option.map_eq_some_iff.mp hfd
    have hrefused : s.client.connect o = (false,s.client,[]) := by simp [TcpClient.connect,hb.1]
    rw [step_alive hd (by simp)]
    refine hkeep rfl rfl ?_ ?_ <;> simp [clientStep,record,hrefused,hnot]
  | send ok data =>
    rw [step_alive hd (by simp)]
    exact hkeep rfl rfl (TcpSocket.send_descriptor ok data s.client.socket) hnot
  | close waiting =>
    rw [step_alive hd (by simp)]
    refine hkeep rfl rfl (TcpSocket.close_descriptor waiting s.client.socket) ?_
    rcases s.client.socket.closeOps_cases waiting with hops | ⟨fd',_,hops⟩
    · simpa [clientStep,record,hops] using hnot
    · simpa [clientStep,record,hops,table_snoc,apply] using hnot
  | handOver k =>
    have hstep : step s (.handOver k) = s := by simp [step,clientStep,hc]
    rw [hstep]
    exact hkeep rfl rfl rfl hnot
  | writeCallback =>
    have hstep : step s .writeCallback = s := by simp [step,clientStep,hc]
    rw [hstep]
    exact hkeep rfl rfl rfl hnot
  | event events socketError =>
    have hstep : step s (.event events socketError) = s := by simp [step,clientStep,hc]
    rw [hstep]
    exact hkeep rfl rfl rfl hnot
  | destroy =>
    have hstep : step s .destroy = s := by simp [step,clientStep,hc]
    rw [hstep]
    exact hkeep rfl rfl rfl hnot
  | returned =>
    -- the bufferevent is freed, and closes its number once more
    obtain ⟨b,hb,hbfd⟩ := Option.map_eq_some_iff.mp hfd
    have hops : (step s .returned).ops = s.ops ++ [(.client,.closed fd)] := by
      rw [step_alive hd (by simp)]
      simp [clientStep,hc,TcpClient.handleEventReturned,TcpClient.freeBev,hb,record,hbfd]
    refine .inl fun hrightful => ?_
    rw [hops,allRightful_snoc] at hrightful
    exact hnot hrightful.2

/-- Clean so far: nothing wrong was done, and no disconnect is being handled. -/
def Clean (s : System) : Prop := AllRightful s.ops ∧ s.callback ≠ some .onDisconnected

theorem held_of_clean {s : System} (h : Held s ∨ Lost s) (hclean : Clean s) : Held s := by
  rcases h with hheld | hwrong | ⟨hc,_⟩
  · exact hheld
  · exact absurd hclean.1 hwrong
  · exact absurd hc hclean.2

theorem step_held_or_lost {s : System} (l : Step) (h : Held s ∨ Lost s) (hkernel : Admissible s l) :
    Held (step s l) ∨ Lost (step s l) := by
  rcases h with hheld | hlost
  · rcases step_held l hheld hkernel with ⟨hheld',_⟩ | ⟨_,hlost',_⟩
    · exact .inl hheld'
    · exact .inr hlost'
  · exact .inr (step_lost l hlost hkernel)

theorem clean_iff {run : List Step} (h : Along step Admissible create run) :
    Always step Clean create run ↔ Along step Undisconnected create run := by
  refine always_iff_along (J := fun s => Held s ∨ Lost s) (fun s l hs hclean hl => ?_)
    (.inl create_held) ⟨trivial,by decide⟩ h
  refine ⟨step_held_or_lost l hs hl,?_⟩
  rcases step_held l (held_of_clean hs hclean) hl with ⟨hheld,hquiet⟩ | ⟨hc,_,hdisconnected⟩
  · exact ⟨fun _ => hquiet,fun _ => ⟨hheld.rightful,hheld.callback⟩⟩
  · exact ⟨fun hclean' => absurd hc hclean'.2,fun hquiet => absurd hquiet hdisconnected⟩

theorem exec_ops (s : System) (run : List Step) : s.ops <+: (exec step s run).ops :=
  exec_monotone (P := fun _ _ => True) (I := fun _ => True) (R := fun s s' => s.ops <+: s'.ops)
    (fun _ => List.prefix_rfl) (fun _ _ _ => List.IsPrefix.trans)
    (fun s l _ _ => ⟨trivial,step_ops s l⟩) trivial (along_true step s run)

/-- In every run that ends with the destruction of the client, every descriptor opened for it
is closed once, by a close that is its own, and nothing of others is hit, if and only if
no disconnect is handled. -/
theorem tidy_iff {run : List Step} (h : Along step Admissible create run)
    (hend : (exec step create run).destroyed = true) :
    (Tidy (exec step create run).ops ↔ Along step Undisconnected create run) ∧
    (Tidy (exec step create run).ops → ∀ fd,
      (exec step create run).ops.count (.client,.closed fd) =
        (exec step create run).ops.count (.client,.opened fd)) := by
  refine ⟨?_,fun htidy fd => closed_once htidy.rightful (htidy.released fd)⟩
  rw [← clean_iff h]
  have hreached {pre : List Step} (hpre : Along step Admissible create pre) :
      Held (exec step create pre) ∨ Lost (exec step create pre) :=
    exec_invariant (I := fun s => Held s ∨ Lost s) (fun s l hs hl => step_held_or_lost l hs hl)
      (.inl create_held) hpre
  constructor
  · rintro htidy pre ⟨rest,rfl⟩
    rw [along_append] at h
    rw [exec_append] at htidy hend
    have hrightful := allRightful_mono (exec_ops (exec step create pre) rest) htidy.rightful
    refine ⟨hrightful,fun hc => ?_⟩
    have hlost : Lost (exec step create pre) := by
      rcases hreached h.1 with hheld | hlost
      · exact absurd hc hheld.callback
      · exact hlost
    -- the callback returns before the end, and then the number is closed again
    rcases exec_invariant (I := Lost) (fun s l hs hl => step_lost l hs hl) hlost h.2 with
      hwrong | ⟨_,halive,_⟩
    · exact hwrong htidy.rightful
    · rw [hend] at halive
      cases halive
  · intro hclean
    have hheld := held_of_clean (hreached h) (hclean run List.prefix_rfl)
    refine ⟨hheld.rightful,fun fd howned => ?_⟩
    rw [hheld.owned fd,hheld.destroyed hend] at howned
    cases howned

/-- A connection that the destructor closes. -/
theorem tidy_destroyed :
    Tidy (exec step create [.openOther 3,.connect ⟨true,true,.connecting 4⟩,.send true [1],
      .close false,.destroy]).ops := by
  have hkernel : Along step Admissible create [.openOther 3,.connect ⟨true,true,.connecting 4⟩,
      .send true [1],.close false,.destroy] := by
    refine ⟨rfl,fun fd hfd => ?_,trivial,trivial,trivial,trivial⟩
    cases List.mem_singleton.mp hfd
    rfl
  exact (tidy_iff hkernel rfl).1.mpr ⟨trivial,trivial,trivial,trivial,trivial,trivial⟩

/-- The callback opens a file, which gets the number that was just closed, and the bufferevent
closes it. -/
theorem disconnect_closes_other :
    (¬ ∀ run, Along step Admissible create run → (exec step create run).destroyed = true →
      Tidy (exec step create run).ops) ∧
    (exec step create [.connect ⟨true,true,.connecting 4⟩,.event bevEventEof 0,.openOther 4,
      .returned]).ops = [(.client,.opened 4),(.client,.closed 4),(.other,.opened 4),
        (.client,.closed 4)] := by
  refine ⟨fun h => ?_,by decide⟩
  have hkernel : Along step Admissible create [.connect ⟨true,true,.connecting 4⟩,
      .event bevEventEof 0,.openOther 4,.returned,.destroy] := by
    refine ⟨fun fd hfd => ?_,trivial,rfl,trivial,trivial,trivial⟩
    cases List.mem_singleton.mp hfd
    rfl
  have hclose : table [(Owner.client,Op.opened (4 : SocketFd)),(.client,.closed 4),(.other,.opened 4)] 4 =
      some .client := (h _ hkernel rfl).rightful.2.2.2.1
  exact absurd hclose (by decide)

end ClientDescriptors
end Translib
