import Mathlib.Data.List.TakeWhile
import Translib.HttpRequest
import Translib.KeyTable
import Translib.TransitionMachine

/-! The HTTP server: its map of handlers, and libevent's list of callbacks, which point into
the map. -/

namespace Translib

abbrev HttpHandler := EvhttpRequest → List HandlerCall

/-- `cbarg` is the path whose handler in the map it points to. -/
structure EvhttpCallback where
  what : CString
  cbarg : CString
  deriving DecidableEq, Repr

structure Evhttp where
  callbacks : List EvhttpCallback
  hasGencb : Bool
  deriving DecidableEq, Repr

namespace Evhttp

def setCb (allocated : Bool) (path cbarg : CString) (http : Evhttp) : ℤ × Evhttp :=
  if http.callbacks.any fun cb => cb.what = path then (-1,http)
  else if !allocated then (-2,http)
  else (0,{ http with callbacks := http.callbacks ++ [⟨path,cbarg⟩] })

def findCb (path : CString) (http : Evhttp) : Option CString :=
  (http.callbacks.find? fun cb => cb.what = path).map EvhttpCallback.cbarg

theorem setCb_gencb (allocated : Bool) (path cbarg : CString) (http : Evhttp) :
    (http.setCb allocated path cbarg).2.hasGencb = http.hasGencb := by
  unfold setCb
  split_ifs <;> rfl

theorem findCb_setCb (allocated : Bool) (path cbarg path' : CString) (http : Evhttp) :
    (http.setCb allocated path cbarg).2.findCb path' =
      (http.findCb path').or
        (if path' = path ∧ http.findCb path = none ∧ allocated = true then some cbarg else none) := by
  have hany : (http.callbacks.any fun cb => cb.what = path) = (http.findCb path).isSome := by
    rw [findCb,Option.isSome_map,List.isSome_find?]
  unfold setCb
  rw [hany]
  cases hfind : http.findCb path with
  | some cb => simp
  | none =>
    cases allocated with
    | false => simp
    | true =>
      simp only [findCb]
      by_cases hpath : path' = path
      · subst hpath
        have hnone : http.callbacks.find? (fun cb => cb.what = path') = none := by
          simpa [findCb] using hfind
        simp [hnone]
      · simp [hpath,Ne.symm hpath]

end Evhttp

structure HttpServer where
  ip : CString
  port : ℕ
  http : Option Evhttp
  handlers : KeyTable CString HttpHandler

/-- What becomes of a request: nobody listens, a callback has an argument that points to no
handler, libevent replies itself, or a callback of the server has replied. -/
inductive Served
  | refused | dangling | byLibevent
  | replied (req : EvhttpRequest)
  deriving DecidableEq, Repr

namespace HttpServer

def create : HttpServer := ⟨[],0,none,.empty⟩

/-- `made` and `bound` are the outcomes of `evhttp_new` and `evhttp_bind_socket`. -/
def listen (made bound : Bool) (ip : CString) (port : ℕ) (server : HttpServer) : Bool × HttpServer :=
  if server.http.isSome then (false,server)
  else if !made then (false,{ server with http := none })
  else if !bound then (false,{ server with http := none })
  else (true,{ server with ip := ip, port := port, http := some ⟨[],true⟩ })

/-- The result of `evhttp_set_cb` is not looked at. -/
def regHandler (allocated : Bool) (path : CString) (handler : HttpHandler) (server : HttpServer) :
    HttpServer :=
  match server.http with
  | none => server
  | some http =>
    { server with
      handlers := server.handlers.assign path handler
      http := some (http.setCb allocated path path).2 }

def serve (printf : Printf) (path : CString) (req : EvhttpRequest) (server : HttpServer) : Served :=
  match server.http with
  | none => .refused
  | some http =>
    match http.findCb path with
    | none => if http.hasGencb then .replied (genericCallback req) else .byLibevent
    | some cbarg =>
      match server.handlers.find cbarg with
      | none => .dangling
      | some handler => .replied (mainCallback printf (handler req) req)

end HttpServer

namespace HttpRouting

open TransitionMachine HttpServer Evhttp

inductive Step
  | listen (made bound : Bool) (ip : CString) (port : ℕ)
  | regHandler (allocated : Bool) (path : CString) (handler : HttpHandler)
  | request (path : CString) (req : EvhttpRequest)

def step (s : HttpServer) : Step → HttpServer
  | .listen made bound ip port => (s.listen made bound ip port).2
  | .regHandler allocated path handler => s.regHandler allocated path handler
  | .request _ _ => s

/-- A `listen` whose calls of libevent succeed. -/
def opens : Step → Bool
  | .listen made bound _ _ => made && bound
  | _ => false

def Listens (run : List Step) : Prop := run.any opens = true

instance (run : List Step) : Decidable (Listens run) := inferInstanceAs (Decidable (_ = _))

/-- The handler a step registers for a path, and whether libevent could store the callback. -/
def registration (path : CString) : Step → Option (HttpHandler × Bool)
  | .regHandler allocated path' handler => if path' = path then some (handler,allocated) else none
  | _ => none

/-- What is registered for a path while the server listens, in call order. -/
def registered (path : CString) (run : List Step) : List (HttpHandler × Bool) :=
  (run.dropWhile fun l => !opens l).filterMap (registration path)

/-- The handler registered last, if libevent has come to store a callback for its path. -/
def route (path : CString) (run : List Step) : Option HttpHandler :=
  if (registered path run).any Prod.snd then (registered path run).getLast?.map Prod.fst else none

theorem listens_snoc (run : List Step) (l : Step) :
    Listens (run ++ [l]) ↔ Listens run ∨ opens l = true := by
  simp [Listens]

theorem dropWhile_closed (run : List Step) :
    (run.dropWhile fun l => !opens l) = [] ↔ ¬ Listens run := by
  rw [List.dropWhile_eq_nil_iff]
  simp [Listens]

theorem registered_snoc (path : CString) (run : List Step) (l : Step) :
    registered path (run ++ [l]) =
      registered path run ++ if Listens run then (registration path l).toList else [] := by
  have hone : ([l].dropWhile fun l => !opens l).filterMap (registration path) = [] := by
    cases hl : opens l with
    | false => simp [hl]
    | true =>
      cases l with
      | listen made bound ip port => simp [hl,registration]
      | regHandler allocated path' handler => cases hl
      | request path' req => cases hl
  rw [registered,registered,List.dropWhile_append]
  by_cases hrun : Listens run
  · have hne : (run.dropWhile fun l => !opens l) ≠ [] := fun h => (dropWhile_closed run).mp h hrun
    rw [if_neg (by simpa using hne),if_pos hrun,List.filterMap_append]
    cases hreg : registration path l <;> simp [hreg]
  · rw [(dropWhile_closed run).mpr hrun,if_neg hrun]
    simpa using hone

structure Serves (run : List Step) (s : HttpServer) : Prop where
  listens : s.http.isSome = true ↔ Listens run
  gencb : ∀ http, s.http = some http → http.hasGencb = true
  handlers : ∀ path, s.handlers.find path = (registered path run).getLast?.map Prod.fst
  callbacks : ∀ http, s.http = some http → ∀ path,
    http.findCb path = if (registered path run).any Prod.snd then some path else none

theorem create_serves : Serves [] create where
  listens := by simp [create,Listens]
  gencb := fun http h => by cases h
  handlers := fun path => rfl
  callbacks := fun http h => by cases h

theorem registered_of_not_listens {run : List Step} (h : ¬ Listens run) (path : CString) :
    registered path run = [] := by
  rw [registered,(dropWhile_closed run).mpr h]
  rfl

theorem listen_serves {run : List Step} {s : HttpServer} (h : Serves run s) (made bound : Bool)
    (ip : CString) (port : ℕ) :
    Serves (run ++ [.listen made bound ip port]) (step s (.listen made bound ip port)) := by
  have hsame (path : CString) :
      registered path (run ++ [.listen made bound ip port]) = registered path run := by
    rw [registered_snoc]
    simp [registration]
  cases hhttp : s.http with
  | some http =>
    have hlistens : Listens run := h.listens.mp (by rw [hhttp]; rfl)
    have hstep : step s (.listen made bound ip port) = s := by simp [step,HttpServer.listen,hhttp]
    rw [hstep]
    refine ⟨?_,h.gencb,fun path => by rw [hsame]; exact h.handlers path,fun http' hhttp' path => ?_⟩
    · rw [listens_snoc]
      exact ⟨fun _ => .inl hlistens,fun _ => h.listens.mpr hlistens⟩
    · rw [hsame]
      exact h.callbacks http' hhttp' path
  | none =>
    have hclosed : ¬ Listens run := fun hl => by simpa [hhttp] using h.listens.mpr hl
    have hlistens : Listens (run ++ [.listen made bound ip port]) ↔ (made && bound) = true := by
      rw [listens_snoc]
      exact or_iff_right hclosed
    by_cases hopen : (made && bound) = true
    · obtain ⟨rfl,rfl⟩ := Bool.and_eq_true_iff.mp hopen
      have hstep : step s (.listen true true ip port) =
          { s with ip := ip, port := port, http := some ⟨[],true⟩ } := by
        simp [step,HttpServer.listen,hhttp]
      rw [hstep]
      refine ⟨⟨fun _ => hlistens.mpr rfl,fun _ => rfl⟩,fun http hs => by cases hs; rfl,fun path => ?_,
        fun http hs path => ?_⟩
      · rw [hsame]
        exact h.handlers path
      · cases hs
        rw [hsame,registered_of_not_listens hclosed]
        rfl
    · have hstep : (step s (.listen made bound ip port)).http = none ∧
          (step s (.listen made bound ip port)).handlers = s.handlers := by
        cases made <;> cases bound <;> simp_all [step,HttpServer.listen]
      have hclosed' : ∀ http, (step s (.listen made bound ip port)).http ≠ some http := by
        simp [hstep.1]
      refine ⟨?_,fun http hs => absurd hs (hclosed' http),fun path => ?_,
        fun http hs => absurd hs (hclosed' http)⟩
      · rw [hstep.1,hlistens]
        simpa using hopen
      · rw [hsame,hstep.2]
        exact h.handlers path

theorem regHandler_serves {run : List Step} {s : HttpServer} (h : Serves run s) (allocated : Bool)
    (path : CString) (handler : HttpHandler) :
    Serves (run ++ [.regHandler allocated path handler])
      (step s (.regHandler allocated path handler)) := by
  have hlistens : Listens (run ++ [.regHandler allocated path handler]) ↔ Listens run := by
    rw [listens_snoc]
    exact or_iff_left (by simp [opens])
  cases hhttp : s.http with
  | none =>
    have hclosed : ¬ Listens run := fun hl => by simpa [hhttp] using h.listens.mpr hl
    have hstep : step s (.regHandler allocated path handler) = s := by simp [step,regHandler,hhttp]
    have hsame (path' : CString) : registered path' (run ++ [.regHandler allocated path handler]) =
        registered path' run := by
      rw [registered_snoc,if_neg hclosed,List.append_nil]
    rw [hstep]
    refine ⟨h.listens.trans hlistens.symm,h.gencb,fun path' => ?_,fun http hs path' => ?_⟩
    · rw [hsame]
      exact h.handlers path'
    · rw [hsame]
      exact h.callbacks http hs path'
  | some http =>
    have hopen : Listens run := h.listens.mp (by rw [hhttp]; rfl)
    have hstep : step s (.regHandler allocated path handler) =
        { s with
          handlers := s.handlers.assign path handler
          http := some (http.setCb allocated path path).2 } := by
      simp [step,regHandler,hhttp]
    have hreg (path' : CString) : registered path' (run ++ [.regHandler allocated path handler]) =
        registered path' run ++ if path = path' then [(handler,allocated)] else [] := by
      rw [registered_snoc,if_pos hopen,registration]
      split_ifs <;> rfl
    rw [hstep]
    refine ⟨⟨fun _ => hlistens.mpr hopen,fun _ => rfl⟩,fun http' hs => ?_,fun path' => ?_,
      fun http' hs path' => ?_⟩
    · cases hs
      exact (setCb_gencb allocated path path http).trans (h.gencb http hhttp)
    · rw [KeyTable.find_assign,hreg]
      by_cases hpath : path' = path
      · simp [hpath]
      · simp [hpath,Ne.symm hpath,h.handlers]
    · cases hs
      rw [findCb_setCb,h.callbacks http hhttp,h.callbacks http hhttp,hreg]
      by_cases hpath : path' = path
      · subst hpath
        cases hany : (registered path' run).any Prod.snd <;> cases allocated <;> simp [hany]
      · rw [if_neg (Ne.symm hpath),List.append_nil]
        simp [hpath]

theorem run_serves (run : List Step) : Serves run (exec step create run) := by
  induction run using List.reverseRecOn with
  | nil => exact create_serves
  | append_singleton run l ih =>
    rw [exec_append]
    cases l with
    | listen made bound ip port => exact listen_serves ih made bound ip port
    | regHandler allocated path handler => exact regHandler_serves ih allocated path handler
    | request path req =>
      have hsame (path' : CString) :
          registered path' (run ++ [.request path req]) = registered path' run := by
        rw [registered_snoc]
        simp [registration]
      refine ⟨ih.listens.trans ?_,ih.gencb,fun path' => ?_,fun http hs path' => ?_⟩
      · rw [listens_snoc]
        exact (or_iff_left (by simp [opens])).symm
      · rw [hsame]
        exact ih.handlers path'
      · rw [hsame]
        exact ih.callbacks http hs path'

/-- After every run of calls: once a `listen` has succeeded a request is answered by the handler
registered last for its path since then, provided libevent has stored a callback for the path by
any of these calls, and else with 404; before, nobody listens. No callback points to a handler
that is not there, and no further `listen` succeeds. -/
theorem answered_by_last (printf : Printf) (run : List Step) (path : CString) (req : EvhttpRequest) :
    (exec step create run).serve printf path req =
      (if Listens run then
        .replied (match route path run with
          | some handler => mainCallback printf (handler req) req
          | none => genericCallback req)
      else .refused) ∧
    ∀ made bound ip port, ((exec step create run).listen made bound ip port).1 =
      (!decide (Listens run) && made && bound) := by
  have h := run_serves run
  generalize exec step create run = s at h ⊢
  cases hhttp : s.http with
  | none =>
    have hclosed : ¬ Listens run := fun hl => by simpa [hhttp] using h.listens.mpr hl
    refine ⟨by simp [serve,hhttp,hclosed],fun made bound ip port => ?_⟩
    cases made <;> cases bound <;> simp [HttpServer.listen,hhttp,hclosed]
  | some http =>
    have hopen : Listens run := h.listens.mp (by rw [hhttp]; rfl)
    refine ⟨?_,fun made bound ip port => by simp [HttpServer.listen,hhttp,hopen]⟩
    rw [if_pos hopen,serve,hhttp]
    simp only [h.callbacks http hhttp path,route]
    by_cases hany : (registered path run).any Prod.snd = true
    · have hne : registered path run ≠ [] := fun hnil => by simp [hnil] at hany
      simp only [hany,if_true,h.handlers,List.getLast?_eq_some_getLast hne,Option.map_some]
    · simp [hany,h.gencb http hhttp]

end HttpRouting
end Translib
