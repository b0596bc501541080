import Translib.TcpServerDispatcher

/-! The server: the dispatchers behind its pointers, and the accepts of its listener. -/

namespace Translib

/-- `dispatchers` is what the pointers point to; `sessionIdGenerator` is shared by all the
servers of the process. -/
structure TcpServer where
  master : DispatcherRef
  slavers : List DispatcherRef
  dispatchers : DispatcherRef → TcpServerDispatcher
  sessionIdGenerator : ℕ

namespace TcpServer

def setThreads (threads : ℕ) (server : TcpServer) : TcpServer :=
  if server.slavers ≠ [] then server
  else
    { server with
      slavers := (List.range threads).map (· + 1)
      dispatchers := fun r =>
        if r ∈ (List.range threads).map (· + 1) then .create else server.dispatchers r }

/-- The constructor; the generator is as the servers before have left it. -/
def create (threads sessionIdGenerator : ℕ) : TcpServer :=
  setThreads threads ⟨0,[],fun _ => .create,sessionIdGenerator⟩

def getSessionDispatcher (id : SessionId) (server : TcpServer) : DispatcherRef :=
  if server.slavers.isEmpty then server.master
  else server.slavers.getD (id % server.slavers.length) server.master

def atDispatcher (r : DispatcherRef) (f : TcpServerDispatcher → TcpServerDispatcher)
    (server : TcpServer) : TcpServer :=
  { server with dispatchers := Function.update server.dispatchers r (f (server.dispatchers r)) }

def nextId (server : TcpServer) : SessionId := (server.sessionIdGenerator+1) % 2^64

def listenEventCallback (sock : SocketFd) (server : TcpServer) : TcpServer :=
  let id := server.nextId
  let server := { server with sessionIdGenerator := id }
  server.atDispatcher (server.getSessionDispatcher id) (.addSession id sock)

/-- The event callback of a session in the map of the dispatcher at `r`: the session asks
the dispatcher it was attached to for its removal. -/
def handleEvent (r : DispatcherRef) (id : SessionId) (server : TcpServer) : TcpServer :=
  match (server.dispatchers r).getSession id with
  | none => server
  | some session =>
    let server := server.atDispatcher r fun d =>
      { d with sessions := Function.update d.sessions id (some session.handleEvent) }
    match session.dispatcher with
    | none => server
    | some dispatcher => server.atDispatcher dispatcher (.removeSession session.id)

theorem handleEvent_generator (r : DispatcherRef) (id : SessionId) (server : TcpServer) :
    (server.handleEvent r id).sessionIdGenerator = server.sessionIdGenerator := by
  unfold handleEvent
  split
  · rfl
  · split <;> rfl

end TcpServer
end Translib
