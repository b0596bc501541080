import Translib.AcceptedConnections
import Translib.RoundRobin

/-! How the connections a server accepts are spread over its IO threads. -/

namespace Translib
namespace AcceptedConnections

open TransitionMachine RoundRobin

def assigned (s : System) (r : DispatcherRef) : ℕ :=
  s.accepted.countP fun c => s.server.getSessionDispatcher c.1 = r

def present (s : System) (r : DispatcherRef) : ℕ :=
  s.accepted.countP fun c =>
    (⟨c.1,c.2⟩ : SessionAction) ∈ (s.server.dispatchers r).actions ∨
      ((s.server.dispatchers r).getSession c.1).isSome

/-- A server after its constructor and further calls of `setThreads`. -/
def prepared (threads : ℕ) (calls : List ℕ) (sessionIdGenerator : ℕ) : TcpServer :=
  calls.foldl (fun server threads => server.setThreads threads)
    (TcpServer.create threads sessionIdGenerator)

/-- Nothing of the server is in use, and its slavers are numbered from one. -/
structure Unused (server : TcpServer) (n : ℕ) : Prop where
  master : server.master = 0
  slavers : server.slavers = (List.range n).map (· + 1)
  dispatchers : ∀ r, server.dispatchers r = .create

theorem setThreads_unused {server : TcpServer} {n : ℕ} (h : Unused server n) (threads : ℕ) :
    Unused (server.setThreads threads) (if n = 0 then threads else n) := by
  unfold TcpServer.setThreads
  split_ifs with hslavers hn hn
  · exact absurd (by rw [h.slavers,hn]; rfl) hslavers
  · exact h
  · refine ⟨h.master,rfl,fun r => ?_⟩
    simp only
    split_ifs
    · rfl
    · exact h.dispatchers r
  · have hnil : n = 0 := by simpa [h.slavers] using hslavers
    exact absurd hnil hn

theorem prepared_unused (threads : ℕ) (calls : List ℕ) (sessionIdGenerator : ℕ) :
    Unused (prepared threads calls sessionIdGenerator)
      (((threads::calls).find? (· ≠ 0)).getD 0) := by
  have hfold (server : TcpServer) (n : ℕ) (h : Unused server n) (calls : List ℕ) :
      Unused (calls.foldl (fun server threads => server.setThreads threads) server)
        (((n::calls).find? (· ≠ 0)).getD 0) := by
    induction calls generalizing server n with
    | nil =>
      by_cases hn : n = 0
      · subst hn
        exact h
      · simpa [hn] using h
    | cons threads calls ih =>
      have hnext := ih _ _ (setThreads_unused h threads)
      by_cases hn : n = 0
      · simpa [hn] using hnext
      · simpa [hn] using hnext
  have hnone : Unused ⟨0,[],fun _ => .create,sessionIdGenerator⟩ 0 := ⟨rfl,rfl,fun _ => rfl⟩
  exact hfold _ threads (setThreads_unused hnone threads) calls

theorem Unused.length {server : TcpServer} {n : ℕ} (h : Unused server n) :
    server.slavers.length = n := by
  simp [h.slavers]

theorem Unused.dispatcher {server : TcpServer} {n : ℕ} (h : Unused server n) (id : SessionId) :
    server.getSessionDispatcher id = if n = 0 then 0 else id % n + 1 := by
  unfold TcpServer.getSessionDispatcher
  by_cases hn : n = 0
  · simp [hn,h.slavers,h.master]
  · have hlt : id % n < n := Nat.mod_lt _ (Nat.pos_of_ne_zero hn)
    simp [hn,h.slavers,hlt]

theorem run_ids {s : System} {run : List Step} (hrun : Along step Admissible s run) :
    (exec step s run).server.sessionIdGenerator =
        s.server.sessionIdGenerator + (sockets run).length ∧
      (exec step s run).accepted.map Prod.fst = s.accepted.map Prod.fst ++
        List.range' (s.server.sessionIdGenerator+1) (sockets run).length := by
  induction run generalizing s with
  | nil => simp [exec,sockets]
  | cons l run ih =>
    obtain ⟨hgenerator,hids⟩ := ih hrun.2
    rw [exec,hgenerator,hids]
    cases l with
    | accept sock =>
      have hid : s.server.nextId = s.server.sessionIdGenerator+1 := Nat.mod_eq_of_lt hrun.1.2
      have haccept : (step s (.accept sock)).server.sessionIdGenerator = s.server.nextId := rfl
      have haccepted : (step s (.accept sock)).accepted = s.accepted ++ [(s.server.nextId,sock)] := rfl
      have hsockets : (sockets (.accept sock::run)).length = (sockets run).length + 1 := by
        simp [sockets]
      rw [haccept,haccepted,hid,hsockets,List.range'_succ]
      refine ⟨by omega,by simp⟩
    | pass r o =>
      have hsame : (step s (.pass r o)).server.sessionIdGenerator = s.server.sessionIdGenerator ∧
          (step s (.pass r o)).accepted = s.accepted := by
        simp only [step]
        cases (s.server.dispatchers r).actions <;> exact ⟨rfl,rfl⟩
      rw [hsame.1,hsame.2]
      exact ⟨rfl,rfl⟩
    | disconnect r id =>
      have hsame : (step s (.disconnect r id)).server.sessionIdGenerator =
          s.server.sessionIdGenerator := TcpServer.handleEvent_generator r id s.server
      rw [hsame]
      exact ⟨rfl,rfl⟩

theorem assigned_eq_share {server : TcpServer} {n : ℕ} (h : Unused server n) (hn : n ≠ 0)
    (run : List Step) (j : ℕ) :
    assigned (exec step (start server) run) (j+1) =
      share n j ((exec step (start server) run).accepted.map Prod.fst) := by
  have hhome (id : SessionId) :
      (exec step (start server) run).server.getSessionDispatcher id = id % n + 1 := by
    rw [exec_home,start,h.dispatcher,if_neg hn]
  simp [assigned,share,hhome,List.countP_map,Function.comp_def]

theorem Conserved.present_le {s : System} (h : Conserved s) (r : DispatcherRef) :
    present s r ≤ assigned s r := by
  refine List.countP_mono_left fun c _ hc => ?_
  have hplaced : (view s c.1).actions r ≠ [] ∨ ((view s c.1).session r).isSome := by
    refine (of_decide_eq_true hc).imp (fun hmem => ?_) fun hsome => hsome
    exact List.ne_nil_of_mem (List.mem_filter.mpr ⟨hmem,by simp⟩)
  exact decide_eq_true (h.placed hplaced).2.symm

/-- The IO threads of a server are as many as the first call that set them asked for. In every
run, each of them gets its equal part of the connections accepted between any two moments,
rounded down or up, and the listening thread gets none; without IO threads it gets all. A
dispatcher has only its own connections in its queue and its map. -/
theorem sessions_balanced (threads : ℕ) (calls : List ℕ) (sessionIdGenerator : ℕ)
    (earlier later : List Step)
    (hrun : Along step Admissible (start (prepared threads calls sessionIdGenerator))
      (earlier ++ later)) :
    let server := prepared threads calls sessionIdGenerator
    let s₀ := exec step (start server) earlier
    let s := exec step s₀ later
    let n := server.slavers.length
    let m := (sockets later).length
    n = ((threads::calls).find? (· ≠ 0)).getD 0 ∧
    (∀ r ∈ server.slavers,
      assigned s₀ r + m/n ≤ assigned s r ∧ assigned s r ≤ assigned s₀ r + (m+n-1)/n) ∧
    assigned s server.master = (if n = 0 then s.accepted.length else 0) ∧
    ∀ r, present s r ≤ assigned s r := by
  intro server s₀ s n m
  have hunused := prepared_unused threads calls sessionIdGenerator
  have hn : n = ((threads::calls).find? (· ≠ 0)).getD 0 := hunused.length
  rw [← hn] at hunused
  obtain ⟨hearlier,hlater⟩ := (along_append step Admissible _ earlier later).mp hrun
  have hexec : s = exec step (start server) (earlier ++ later) := (exec_append step _ _ _).symm
  have hhome (id : SessionId) : s.server.getSessionDispatcher id = if n = 0 then 0 else id % n + 1 := by
    rw [hexec,exec_home]
    exact hunused.dispatcher id
  refine ⟨hn,fun r hr => ?_,?_,fun r => ?_⟩
  · -- the slaver at `j` takes the ids with this residue
    rw [hunused.slavers] at hr
    obtain ⟨j,hj,rfl⟩ := List.mem_map.mp hr
    have hjn : j < n := List.mem_range.mp hj
    have hne : n ≠ 0 := Nat.ne_zero_of_lt hjn
    have hids : s.accepted.map Prod.fst = s₀.accepted.map Prod.fst ++
        List.range' (s₀.server.sessionIdGenerator+1) m := (run_ids hlater).2
    have hassigned : assigned s (j+1) = share n j (s.accepted.map Prod.fst) := by
      rw [hexec]
      exact assigned_eq_share hunused hne (earlier ++ later) j
    have hassigned₀ : assigned s₀ (j+1) = share n j (s₀.accepted.map Prod.fst) :=
      assigned_eq_share hunused hne earlier j
    obtain ⟨hlow,hhigh⟩ := share_bounds hjn (s₀.server.sessionIdGenerator+1) m
    rw [hassigned,hassigned₀,hids,share_append]
    exact ⟨Nat.add_le_add_left hlow _,Nat.add_le_add_left hhigh _⟩
  · rw [hunused.master]
    unfold assigned
    simp only [hhome]
    split_ifs with hzero
    · simp
    · simp
  · rw [hexec]
    exact ((run_conserved (start_conserved hunused.dispatchers) hrun).1).present_le r

theorem sessions_balanced_two :
    let s := exec step (start (prepared 0 [2,5] 7)) [.accept 5,.accept 6,.pass 2 ⟨true,true,[]⟩,.accept 8]
    1 ≤ assigned s 1 ∧ assigned s 1 ≤ 2 := by
  have hbalanced := (sessions_balanced 0 [2,5] 7 []
    [.accept 5,.accept 6,.pass 2 ⟨true,true,[]⟩,.accept 8] ?_).2.1 1 (by decide)
  · exact hbalanced
  · exact ⟨⟨by decide,by decide⟩,⟨by decide,by decide⟩,rfl,⟨by decide,by decide⟩,trivial⟩

end AcceptedConnections
end Translib
