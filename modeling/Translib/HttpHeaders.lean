import Translib.HttpRequest

/-! The headers a reply is started with. -/

namespace Translib
namespace HttpHeaders

open HttpServer Evhttp KeyedList

def named (name : CString) (headers : List Header) : List Header :=
  withKey nameOf (lower name) headers

def setFor (name : CString) : HandlerCall → Option Header
  | .setHeader key value => if lower key = lower name then some ⟨key,value⟩ else none
  | _ => none

def lastSet (name : CString) (handler : List HandlerCall) : Option Header :=
  (handler.filterMap (setFor name)).getLast?

def lastTrue (name : CString) (results : List (HandlerCall × Bool)) : Option Header :=
  lastSet name ((results.filter Prod.snd).map Prod.fst)

def Single (headers : List Header) : Prop := ∀ name, (named name headers).length ≤ 1

/-- A name that was set has the value of the last call for it that returned true. -/
def LastWins (results : List (HandlerCall × Bool)) (headers : List Header) : Prop :=
  ∀ name set, lastTrue name results = some set → (named name headers).map Header.value = [set.value]

def Accepted (handler : List HandlerCall) : Prop :=
  ∀ name set, lastSet name handler = some set → legal set.key set.value = true

/-- A handler of a request to be kept alive leaves the header `Connection` alone. -/
def LeavesConnection (handler : List HandlerCall) (inputHeaders : List Header) : Prop :=
  keepAlive (.create (requestNew inputHeaders)) = true → lastSet connectionKey handler = none

theorem lastSet_append (name : CString) (handler : List HandlerCall) (c : HandlerCall) :
    lastSet name (handler ++ [c]) = (setFor name c).or (lastSet name handler) := by
  rw [lastSet,List.filterMap_append]
  cases hc : setFor name c with
  | none => simp [List.filterMap_cons_none hc,lastSet]
  | some set => simp [List.filterMap_cons_some hc]

theorem lastSet_congr {name name' : CString} (h : lower name = lower name')
    (handler : List HandlerCall) : lastSet name handler = lastSet name' handler := by
  have hset : setFor name = setFor name' := by
    funext c
    cases c <;> simp only [setFor,h]
  rw [lastSet,lastSet,hset]

theorem lastTrue_handle (name : CString) (printf : Printf) (handler : List HandlerCall)
    (r : HttpRequest) : lastTrue name (handle printf handler r).1 = lastSet name handler := by
  have hall : ((handler.map fun c => (c,true)).filter Prod.snd).map Prod.fst = handler := by
    induction handler with
    | nil => rfl
    | cons c cs ih => simpa using ih
  rw [handle_results,lastTrue,hall]

def expected : Option Header → List Header
  | none => []
  | some set => if legal set.key set.value then [set] else []

theorem expected_length (set : Option Header) : (expected set).length ≤ 1 := by
  cases set with
  | none => exact Nat.zero_le _
  | some set =>
    simp only [expected]
    split_ifs <;> simp

theorem named_addHeader (name key value : CString) (headers : List Header) :
    named name (addHeader key value headers).2 = named name headers ++
      if lower key = lower name then expected (some ⟨key,value⟩) else [] := by
  simp only [addHeader,expected]
  by_cases hlegal : legal key value = true
  · rw [if_pos hlegal,if_pos hlegal,named,withKey_append,withKey_singleton]
    rfl
  · rw [if_neg hlegal,if_neg hlegal]
    simp

theorem named_removeHeader (name key : CString) (headers : List Header) :
    named name (removeHeader key headers) =
      if lower key = lower name then (named name headers).tail else named name headers := by
  split_ifs with hname
  · rw [named,removeHeader,hname]
    exact withKey_removeFirst nameOf (lower name) headers
  · exact withKey_removeFirst_of_ne nameOf (Ne.symm hname) headers

/-- The handler leaves at most one header of a name, the one last set. -/
theorem named_handle (printf : Printf) (handler : List HandlerCall) (inputHeaders : List Header)
    (name : CString) :
    named name (handle printf handler (.create (requestNew inputHeaders))).2.req.outputHeaders =
      expected (lastSet name handler) := by
  induction handler using List.reverseRecOn with
  | nil => rfl
  | append_singleton handler c ih =>
    rw [handle_append,lastSet_append]
    generalize (handle printf handler (.create (requestNew inputHeaders))).2 = r at ih
    cases c with
    | setBody content => exact ih
    | setChunk content => exact ih
    | setHeader key value =>
      have hcall : (handle printf [.setHeader key value] r).2.req.outputHeaders =
          (addHeader key value (removeHeader key r.req.outputHeaders)).2 := rfl
      rw [hcall,named_addHeader,named_removeHeader,ih]
      by_cases hname : lower key = lower name
      · have htail : (expected (lastSet name handler)).tail = [] :=
          List.eq_nil_of_length_eq_zero (by
            have hlength := expected_length (lastSet name handler)
            rw [List.length_tail]
            omega)
        simp [hname,setFor,htail]
      · simp [hname,setFor]

theorem keepAlive_congr {r r' : HttpRequest} (h : r.req.inputHeaders = r'.req.inputHeaders) :
    keepAlive r = keepAlive r' := by
  simp only [keepAlive,HttpRequest.findHeaders,h]

theorem named_atStart (printf : Printf) (handler : List HandlerCall) (inputHeaders : List Header)
    (name : CString) :
    named name (atStart printf handler (requestNew inputHeaders)).req.outputHeaders =
      expected (lastSet name handler) ++
        if keepAlive (.create (requestNew inputHeaders)) = true ∧ lower connectionKey = lower name then
          [⟨connectionKey,connectionValue⟩] else [] := by
  have hkeep : keepAlive (handle printf handler (.create (requestNew inputHeaders))).2 =
      keepAlive (.create (requestNew inputHeaders)) :=
    keepAlive_congr (handle_inputHeaders printf handler _)
  have hlegal : expected (some ⟨connectionKey,connectionValue⟩) =
      [⟨connectionKey,connectionValue⟩] := by decide
  rw [atStart,addConnection,hkeep,← named_handle printf handler inputHeaders name]
  by_cases h : keepAlive (.create (requestNew inputHeaders)) = true
  · simp only [h,if_true,true_and]
    rw [named_addHeader,hlegal]
  · simp [h]

theorem lower_eq_of_lastSet {name : CString} {handler : List HandlerCall} {set : Header}
    (h : lastSet name handler = some set) : lower set.key = lower name := by
  obtain ⟨c,-,hc⟩ := List.mem_filterMap.mp (List.mem_of_getLast? h)
  cases c with
  | setHeader key value =>
    simp only [setFor] at hc
    split_ifs at hc with hname
    cases hc
    exact hname
  | setBody content => cases hc
  | setChunk content => cases hc

theorem keyLegal_of_lower {key : CString} (h : lower key = lower connectionKey) :
    keyLegal key = true := by
  have hlower : (lower connectionKey).all (fun c => !isLineBreak c) = true := by decide
  rw [← h] at hlower
  simp only [lower,List.all_map,List.all_eq_true,keyLegal] at hlower ⊢
  intro c hc
  have hbreak := hlower c hc
  by_cases hr : c = '\r'
  · subst hr
    exact hbreak
  · by_cases hn : c = '\n'
    · subst hn
      exact hbreak
    · simp [isLineBreak,hr,hn]

section
variable {printf : Printf} {handler : List HandlerCall} {inputHeaders : List Header}

theorem accepted_of_lastWins
    (hlast : LastWins (handle printf handler (.create (requestNew inputHeaders))).1
      (atStart printf handler (requestNew inputHeaders)).req.outputHeaders) : Accepted handler := by
  intro name set hset
  have hvalues := hlast name set ((lastTrue_handle name printf handler _).trans hset)
  rw [named_atStart,hset] at hvalues
  by_contra hillegal
  rw [expected,if_neg hillegal,List.nil_append] at hvalues
  split_ifs at hvalues with hconnection
  · -- the header is the one `mainCallback` adds, whose value is accepted
    have hvalue : connectionValue = set.value := List.singleton_injective hvalues
    have hkey : keyLegal set.key = true :=
      keyLegal_of_lower ((lower_eq_of_lastSet hset).trans hconnection.2.symm)
    have hlegal : valueLegal connectionValue = true := by decide
    exact hillegal (by rw [legal,hkey,← hvalue,hlegal]; rfl)
  · simp at hvalues

theorem leavesConnection_of_single
    (hsingle : Single (atStart printf handler (requestNew inputHeaders)).req.outputHeaders)
    (haccepted : Accepted handler) : LeavesConnection handler inputHeaders := by
  intro hkeep
  have hlength := hsingle connectionKey
  rw [named_atStart,if_pos ⟨hkeep,rfl⟩] at hlength
  cases hset : lastSet connectionKey handler with
  | none => rfl
  | some set =>
    rw [hset,expected,if_pos (haccepted connectionKey set hset)] at hlength
    simp at hlength

theorem single_of_leavesConnection (hleaves : LeavesConnection handler inputHeaders) :
    Single (atStart printf handler (requestNew inputHeaders)).req.outputHeaders := by
  intro name
  rw [named_atStart]
  split_ifs with hconnection
  · have hnone : lastSet name handler = none := by
      rw [lastSet_congr hconnection.2.symm handler]
      exact hleaves hconnection.1
    simp [hnone,expected]
  · simpa using expected_length (lastSet name handler)

theorem lastWins_of_accepted (haccepted : Accepted handler)
    (hleaves : LeavesConnection handler inputHeaders) :
    LastWins (handle printf handler (.create (requestNew inputHeaders))).1
      (atStart printf handler (requestNew inputHeaders)).req.outputHeaders := by
  intro name set hset
  rw [lastTrue_handle] at hset
  rw [named_atStart,hset,expected,if_pos (haccepted name set hset)]
  split_ifs with hconnection
  · have hnone : lastSet name handler = none := by
      rw [lastSet_congr hconnection.2.symm handler]
      exact hleaves hconnection.1
    rw [hnone] at hset
    cases hset
  · rfl

end

/-- When the headers of a reply are those the handler set. -/
theorem headers_iff (printf : Printf) (handler : List HandlerCall) (inputHeaders : List Header) :
    (Single (atStart printf handler (requestNew inputHeaders)).req.outputHeaders ∧
      LastWins (handle printf handler (.create (requestNew inputHeaders))).1
        (atStart printf handler (requestNew inputHeaders)).req.outputHeaders) ↔
      Accepted handler ∧ LeavesConnection handler inputHeaders := by
  constructor
  · rintro ⟨hsingle,hlast⟩
    have haccepted := accepted_of_lastWins hlast
    exact ⟨haccepted,leavesConnection_of_single hsingle haccepted⟩
  · rintro ⟨haccepted,hleaves⟩
    exact ⟨single_of_leavesConnection hleaves,lastWins_of_accepted haccepted hleaves⟩

/-- A value that is not accepted takes the one before it away, and true is returned. -/
theorem value_lost : ¬ ∀ (printf : Printf) (handler : List HandlerCall) (inputHeaders : List Header),
    Single (atStart printf handler (requestNew inputHeaders)).req.outputHeaders ∧
      LastWins (handle printf handler (.create (requestNew inputHeaders))).1
        (atStart printf handler (requestNew inputHeaders)).req.outputHeaders := by
  intro h
  obtain ⟨-,hlast⟩ := h ⟨id,fun _ _ => rfl⟩ [.setHeader ['X'] ['a'],.setHeader ['X'] ['\n']] []
  have hvalues := hlast ['X'] ⟨['X'],['\n']⟩ (by decide)
  exact absurd hvalues (by decide)

end HttpHeaders
end Translib
