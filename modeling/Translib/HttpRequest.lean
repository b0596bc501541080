import Translib.KeyedList

/-! The request a handler is given, over libevent's header lists and reply calls. A call of
libevent has its documented result. -/

namespace Translib

abbrev CString := List Char

structure Header where
  key : CString
  value : CString
  deriving DecidableEq, Repr

inductive Reply
  | start (code : ℕ) (reason : CString) (headers : List Header)
  | chunk (data : CString)
  | ended
  deriving DecidableEq, Repr

structure EvhttpRequest where
  inputHeaders : List Header
  outputHeaders : List Header
  replies : List Reply
  deriving DecidableEq, Repr

namespace Evhttp

/-- Names are compared without regard to case. -/
def lower (name : CString) : CString := name.map Char.toLower

def nameOf (h : Header) : CString := lower h.key

def findHeader (headers : List Header) (key : CString) : Option CString :=
  (headers.find? fun h => nameOf h = lower key).map Header.value

def removeHeader (key : CString) (headers : List Header) : List Header :=
  KeyedList.removeFirst nameOf (lower key) headers

def isLineBreak (c : Char) : Bool := c = '\r' || c = '\n'

def keyLegal (key : CString) : Bool := key.all fun c => !isLineBreak c

def valueLegal : CString → Bool
  | [] => true
  | [c] => !isLineBreak c
  | c::d::rest =>
    (!isLineBreak c || isLineBreak d || d = ' ' || d = '\t') && valueLegal (d::rest)

def legal (key value : CString) : Bool := keyLegal key && valueLegal value

def addHeader (key value : CString) (headers : List Header) : ℤ × List Header :=
  if legal key value then (0,headers ++ [⟨key,value⟩]) else (-1,headers)

def requestNew (inputHeaders : List Header) : EvhttpRequest := ⟨inputHeaders,[],[]⟩

def sendReplyStart (code : ℕ) (reason : CString) (req : EvhttpRequest) : EvhttpRequest :=
  { req with replies := req.replies ++ [.start code reason req.outputHeaders] }

def sendReplyChunk (req : EvhttpRequest) (databuf : CString) : EvhttpRequest × CString :=
  ({ req with replies := req.replies ++ [.chunk databuf] },[])

def sendReplyEnd (req : EvhttpRequest) : EvhttpRequest :=
  { req with replies := req.replies ++ [.ended] }

end Evhttp

/-- What a format without arguments prints: itself, where it has no conversion. -/
structure Printf where
  format : CString → CString
  plain : ∀ content, '%' ∉ content → format content = content

structure HttpRequest where
  req : EvhttpRequest
  buffer : CString
  deriving DecidableEq, Repr

namespace HttpRequest

def create (req : EvhttpRequest) : HttpRequest := ⟨req,[]⟩

def findHeaders (key : CString) (r : HttpRequest) : Option CString :=
  Evhttp.findHeader r.req.inputHeaders key

/-- The result of `evhttp_add_header` is not looked at. -/
def setHeader (key value : CString) (r : HttpRequest) : Bool × HttpRequest :=
  let headers := Evhttp.removeHeader key r.req.outputHeaders
  (true,{ r with req.outputHeaders := (Evhttp.addHeader key value headers).2 })

/-- The content is the format of `evbuffer_add_printf`. -/
def setBody (printf : Printf) (content : CString) (r : HttpRequest) : Bool × HttpRequest :=
  (true,{ r with buffer := r.buffer ++ printf.format content })

def setChunk (printf : Printf) (content : CString) (r : HttpRequest) : Bool × HttpRequest :=
  let chunk := Evhttp.sendReplyChunk r.req (r.buffer ++ printf.format content)
  (true,⟨chunk.1,chunk.2⟩)

end HttpRequest

inductive HandlerCall
  | setHeader (key value : CString)
  | setBody (content : CString)
  | setChunk (content : CString)
  deriving DecidableEq, Repr

namespace HttpServer

def httpOk : ℕ := 200
def httpNotFound : ℕ := 404
def connectionKey : CString := ['C','o','n','n','e','c','t','i','o','n']
def connectionValue : CString := ['k','e','e','p','-','a','l','i','v','e']
def okReason : CString := ['O','K']
def notFoundReason : CString := ['n','o','t',' ','f','o','u','n','d']

def call (printf : Printf) : HandlerCall → HttpRequest → Bool × HttpRequest
  | .setHeader key value, r => r.setHeader key value
  | .setBody content, r => r.setBody printf content
  | .setChunk content, r => r.setChunk printf content

/-- The handler: its calls with their results, and the request it leaves. -/
def handle (printf : Printf) : List HandlerCall → HttpRequest → List (HandlerCall × Bool) × HttpRequest
  | [], r => ([],r)
  | c::cs, r =>
    let called := call printf c r
    let rest := handle printf cs called.2
    ((c,called.1)::rest.1,rest.2)

/-- The comparison looks at the first characters only. -/
def keepAlive (r : HttpRequest) : Bool :=
  match r.findHeaders connectionKey with
  | none => false
  | some value => connectionValue.isPrefixOf value

def addConnection (r : HttpRequest) : HttpRequest :=
  if keepAlive r then
    { r with req.outputHeaders :=
        (Evhttp.addHeader connectionKey connectionValue r.req.outputHeaders).2 }
  else r

def atStart (printf : Printf) (handler : List HandlerCall) (req : EvhttpRequest) : HttpRequest :=
  addConnection (handle printf handler (.create req)).2

def mainCallback (printf : Printf) (handler : List HandlerCall) (req : EvhttpRequest) : EvhttpRequest :=
  let request := atStart printf handler req
  let started := Evhttp.sendReplyStart httpOk okReason request.req
  Evhttp.sendReplyEnd (Evhttp.sendReplyChunk started request.buffer).1

def genericCallback (req : EvhttpRequest) : EvhttpRequest :=
  Evhttp.sendReplyEnd (Evhttp.sendReplyStart httpNotFound notFoundReason req)

theorem handle_results (printf : Printf) (cs : List HandlerCall) (r : HttpRequest) :
    (handle printf cs r).1 = cs.map fun c => (c,true) := by
  induction cs generalizing r with
  | nil => rfl
  | cons c cs ih =>
    have hcall : (call printf c r).1 = true := by cases c <;> rfl
    rw [handle,List.map_cons,← ih (call printf c r).2,hcall]

theorem handle_append (printf : Printf) (cs ds : List HandlerCall) (r : HttpRequest) :
    (handle printf (cs++ds) r).2 = (handle printf ds (handle printf cs r).2).2 := by
  induction cs generalizing r with
  | nil => rfl
  | cons c cs ih => exact ih (call printf c r).2

theorem handle_inputHeaders (printf : Printf) (cs : List HandlerCall) (r : HttpRequest) :
    (handle printf cs r).2.req.inputHeaders = r.req.inputHeaders := by
  induction cs generalizing r with
  | nil => rfl
  | cons c cs ih =>
    have hcall : (call printf c r).2.req.inputHeaders = r.req.inputHeaders := by cases c <;> rfl
    exact (ih (call printf c r).2).trans hcall

theorem addConnection_frame (r : HttpRequest) :
    (addConnection r).buffer = r.buffer ∧ (addConnection r).req.replies = r.req.replies ∧
      (addConnection r).req.inputHeaders = r.req.inputHeaders := by
  unfold addConnection
  split_ifs <;> exact ⟨rfl,rfl,rfl⟩

theorem mainCallback_replies (printf : Printf) (handler : List HandlerCall) (req : EvhttpRequest) :
    (mainCallback printf handler req).replies =
      (handle printf handler (.create req)).2.req.replies ++
        [.start httpOk okReason (atStart printf handler req).req.outputHeaders,
          .chunk (handle printf handler (.create req)).2.buffer,.ended] := by
  obtain ⟨hbuffer,hreplies,_⟩ := addConnection_frame (handle printf handler (.create req)).2
  simp [mainCallback,atStart,Evhttp.sendReplyStart,Evhttp.sendReplyChunk,Evhttp.sendReplyEnd,hbuffer,
    hreplies]

end HttpServer
end Translib
