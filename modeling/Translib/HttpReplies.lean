import Translib.HttpRequest

/-! The order of the calls that make up a reply, and the data they send. -/

namespace Translib
namespace HttpReplies

open HttpServer

def Orderly (replies : List Reply) : Prop :=
  ∃ code reason headers, ∃ chunks : List CString,
    replies = .start code reason headers :: (chunks.map Reply.chunk ++ [.ended])

def chunkOf : Reply → Option CString
  | .chunk data => some data
  | _ => none

def sentData (replies : List Reply) : CString := (replies.filterMap chunkOf).flatten

def contentOf : HandlerCall → Option CString
  | .setHeader _ _ => none
  | .setBody content => some content
  | .setChunk content => some content

def contents (handler : List HandlerCall) : List CString := handler.filterMap contentOf

def isChunk : HandlerCall → Bool
  | .setChunk _ => true
  | _ => false

@[simp] theorem sentData_append (replies replies' : List Reply) :
    sentData (replies++replies') = sentData replies ++ sentData replies' := by
  simp [sentData]

@[simp] theorem sentData_chunks (chunks : List CString) :
    sentData (chunks.map Reply.chunk) = chunks.flatten := by
  have hdata : (chunks.map Reply.chunk).filterMap chunkOf = chunks := by
    rw [List.filterMap_map]
    exact List.filterMap_some
  rw [sentData,hdata]

theorem sentData_reply (code : ℕ) (reason : CString) (headers : List Header) (data : CString) :
    sentData [.start code reason headers,.chunk data,.ended] = data :=
  List.append_nil data

theorem handle_sends (printf : Printf) (handler : List HandlerCall) (r : HttpRequest) :
    ∃ chunks : List CString,
      (handle printf handler r).2.req.replies = r.req.replies ++ chunks.map Reply.chunk ∧
      chunks.length = handler.countP isChunk ∧
      chunks.flatten ++ (handle printf handler r).2.buffer =
        r.buffer ++ ((contents handler).map printf.format).flatten := by
  induction handler generalizing r with
  | nil => exact ⟨[],by simp [handle],rfl,by simp [handle,contents]⟩
  | cons c cs ih =>
    obtain ⟨chunks,hreplies,hlength,hdata⟩ := ih (call printf c r).2
    cases c with
    | setHeader key value => exact ⟨chunks,hreplies,hlength,hdata⟩
    | setBody content =>
      refine ⟨chunks,hreplies,hlength,hdata.trans ?_⟩
      simp [call,HttpRequest.setBody,contents,contentOf]
    | setChunk content =>
      refine ⟨(r.buffer ++ printf.format content)::chunks,hreplies.trans ?_,?_,?_⟩
      · simp [call,HttpRequest.setChunk,Evhttp.sendReplyChunk]
      · rw [List.countP_cons_of_pos (show isChunk (.setChunk content) = true from rfl)]
        exact congrArg (· + 1) hlength
      · rw [List.flatten_cons,List.append_assoc]
        exact (congrArg _ hdata).trans (by
          simp [call,HttpRequest.setChunk,Evhttp.sendReplyChunk,contents,contentOf])

theorem map_format {printf : Printf} {contents : List CString}
    (h : ∀ content ∈ contents, '%' ∉ content) : contents.map printf.format = contents := by
  rw [List.map_congr_left fun content hmem => printf.plain content (h content hmem)]
  exact List.map_id' contents

theorem orderly_iff {chunks : List CString} {code : ℕ} {reason : CString} {headers : List Header}
    {data : CString} :
    Orderly (chunks.map Reply.chunk ++ [.start code reason headers,.chunk data,.ended]) ↔
      chunks = [] := by
  constructor
  · rintro ⟨_,_,_,_,horder⟩
    cases chunks with
    | nil => rfl
    | cons chunk rest => cases horder
  · rintro rfl
    exact ⟨code,reason,headers,[data],rfl⟩

theorem genericCallback_orderly (inputHeaders : List Header) :
    Orderly (genericCallback (Evhttp.requestNew inputHeaders)).replies :=
  ⟨_,_,_,[],rfl⟩

theorem sentData_mainCallback (printf : Printf) (handler : List HandlerCall)
    (inputHeaders : List Header) :
    sentData (mainCallback printf handler (Evhttp.requestNew inputHeaders)).replies =
      ((contents handler).map printf.format).flatten := by
  obtain ⟨chunks,hreplies,_,hdata⟩ :=
    handle_sends printf handler (.create (Evhttp.requestNew inputHeaders))
  simp only [HttpRequest.create,Evhttp.requestNew,List.nil_append] at hreplies hdata
  rw [mainCallback_replies,sentData_append,sentData_reply]
  simp only [HttpRequest.create,Evhttp.requestNew,hreplies,sentData_chunks,hdata]

/-- For every request and handler: the calls are in order, and the data sent is what the handler
has given, if and only if the handler makes no call of `setChunk`. -/
theorem replies_iff (printf : Printf) (handler : List HandlerCall) (inputHeaders : List Header) :
    (Orderly (mainCallback printf handler (Evhttp.requestNew inputHeaders)).replies ∧
      ((∀ content ∈ contents handler, '%' ∉ content) →
        sentData (mainCallback printf handler (Evhttp.requestNew inputHeaders)).replies =
          (contents handler).flatten)) ↔
      ∀ content, .setChunk content ∉ handler := by
  obtain ⟨chunks,hreplies,hlength,_⟩ :=
    handle_sends printf handler (.create (Evhttp.requestNew inputHeaders))
  have hnil : chunks = [] ↔ ∀ content, .setChunk content ∉ handler := by
    rw [← List.length_eq_zero_iff,hlength,List.countP_eq_zero]
    constructor
    · intro h content hmem
      exact h _ hmem rfl
    · rintro h (_ | _ | content) hmem hchunk
      · cases hchunk
      · cases hchunk
      · exact h content hmem
  have hall := (mainCallback_replies printf handler (Evhttp.requestNew inputHeaders)).trans
    (congrArg (· ++ _) hreplies)
  simp only [HttpRequest.create,Evhttp.requestNew,List.nil_append] at hall
  have hsent (hplain : ∀ content ∈ contents handler, '%' ∉ content) :
      sentData (mainCallback printf handler (Evhttp.requestNew inputHeaders)).replies =
        (contents handler).flatten := by
    rw [sentData_mainCallback,map_format hplain]
  rw [← hnil,and_iff_left hsent,Evhttp.requestNew,hall]
  exact orderly_iff

def literal : Printf := ⟨id,fun _ _ => rfl⟩

/-- The chunk is sent before the reply is started. -/
theorem chunk_before_start :
    ¬ ∀ (printf : Printf) (handler : List HandlerCall) (inputHeaders : List Header),
      Orderly (mainCallback printf handler (Evhttp.requestNew inputHeaders)).replies := by
  intro h
  obtain ⟨_,_,_,_,horder⟩ := h literal [.setChunk ['a']] []
  cases horder

end HttpReplies
end Translib
