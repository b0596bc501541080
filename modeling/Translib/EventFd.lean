import Translib.Timer

/-! Event descriptors, and the two classes at their ends. -/

namespace Translib

abbrev EventFds := ℤ → ℕ

namespace EventFds

def valueSize : ℤ := 8

/-- A counter that would go past this refuses the write. -/
def maxCount : ℕ := 2^64-2

def write (fd : ℤ) (value : ℕ) (fds : EventFds) : ℤ × EventFds :=
  if fds fd + value ≤ maxCount then (valueSize,Function.update fds fd (fds fd + value))
  else (-1,fds)

def read (fd : ℤ) (fds : EventFds) : Option ℕ × EventFds :=
  if fds fd = 0 then (none,fds) else (some (fds fd),Function.update fds fd 0)

theorem read_moves (fd : ℤ) (fds : EventFds) :
    ((read fd fds).1.getD 0,(read fd fds).2 fd) = (fds fd,0) := by
  unfold read
  split_ifs with h
  · simp [h]
  · simp

end EventFds

structure EventFdClient where
  eventFd : ℤ
  one : ℕ
  deriving DecidableEq, Repr

namespace EventFdClient

def create (efd : ℤ) : EventFdClient := ⟨efd,1⟩

def send (client : EventFdClient) (fds : EventFds) : Bool × EventFds :=
  let written := fds.write client.eventFd client.one
  (decide (written.1 = EventFds.valueSize),written.2)

theorem send_counts {client : EventFdClient} {fds : EventFds}
    (h : fds client.eventFd + client.one ≤ EventFds.maxCount) :
    client.send fds =
      (true,Function.update fds client.eventFd (fds client.eventFd + client.one)) := by
  simp [send,EventFds.write,h]

end EventFdClient

structure ReadEvent where
  persist : Bool
  pending : Bool
  deriving DecidableEq, Repr

structure EventFdServer where
  eventFd : ℤ
  event : ReadEvent
  deriving DecidableEq, Repr

namespace EventFdServer

def eventNewError : String := "EVENTFD_EVENT_NEW_ERROR"
def eventAddError : String := "EVENTFD_EVENT_ADD_ERROR"

def create (lib : Libevent) (efd : ℤ) : Except String EventFdServer :=
  if !lib.eventNew then .error eventNewError
  else if !lib.eventAdd then .error eventAddError
  else .ok ⟨efd,⟨true,true⟩⟩

def activate (server : EventFdServer) : Option EventFdServer :=
  if server.event.pending then some { server with event.pending := server.event.persist } else none

theorem create_activate {lib : Libevent} {efd : ℤ} {server : EventFdServer}
    (h : create lib efd = .ok server) : server.eventFd = efd ∧ server.activate = some server := by
  unfold create at h
  split_ifs at h
  cases h
  exact ⟨rfl,rfl⟩

end EventFdServer
end Translib
