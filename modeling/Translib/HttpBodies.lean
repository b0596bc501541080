import Translib.HttpReplies

/-! The body a handler has built, which the request prints as a format. -/

namespace Translib
namespace HttpBodies

open HttpServer HttpReplies

/-- What a format prints, and nothing where a conversion reads an argument. -/
def expand : CString → Option CString
  | [] => some []
  | '%' :: '%' :: rest => (expand rest).map ('%' :: ·)
  | c::rest => if c = '%' then none else (expand rest).map (c :: ·)

def Documented (printf : Printf) : Prop :=
  ∀ content text, expand content = some text → printf.format content = text

/-- The body is the contents one after another, whatever is printed for a missing argument. -/
def Verbatim (handler : List HandlerCall) (inputHeaders : List Header) : Prop :=
  ∀ printf, Documented printf →
    sentData (mainCallback printf handler (Evhttp.requestNew inputHeaders)).replies =
      (contents handler).flatten

theorem expand_plain {content : CString} (h : '%' ∉ content) : expand content = some content := by
  fun_induction expand content with
  | case1 => rfl
  | case2 rest ih => simp at h
  | case3 rest _ => simp at h
  | case4 c rest _ hc ih =>
    rw [ih fun hmem => h (List.mem_cons_of_mem c hmem)]
    rfl

theorem expand_length {content text : CString} (h : expand content = some text) :
    text.length ≤ content.length ∧ ('%' ∈ content → text.length < content.length) := by
  fun_induction expand content generalizing text with
  | case1 =>
    cases h
    exact ⟨le_rfl,fun hmem => absurd hmem List.not_mem_nil⟩
  | case2 rest ih =>
    obtain ⟨text',htext',rfl⟩ := Option.map_eq_some_iff.mp h
    have hle := (ih htext').1
    simp only [List.length_cons]
    exact ⟨by omega,fun _ => by omega⟩
  | case3 rest _ => cases h
  | case4 c rest _ hc ih =>
    obtain ⟨text',htext',rfl⟩ := Option.map_eq_some_iff.mp h
    obtain ⟨hle,hlt⟩ := ih htext'
    simp only [List.length_cons,List.mem_cons]
    refine ⟨by omega,?_⟩
    rintro (hsame | hmem)
    · exact absurd hsame.symm hc
    · have hshort := hlt hmem
      omega

def silent : Printf := ⟨fun content => (expand content).getD [],fun _ h => by rw [expand_plain h]; rfl⟩

theorem silent_documented : Documented silent := fun content text h => by
  simp only [silent,h,Option.getD_some]

theorem silent_length (content : CString) :
    (silent.format content).length ≤ content.length ∧
      ('%' ∈ content → (silent.format content).length < content.length) := by
  cases h : expand content with
  | some text =>
    simp only [silent,h,Option.getD_some]
    exact expand_length h
  | none =>
    simp only [silent,h,Option.getD_none,List.length_nil]
    exact ⟨Nat.zero_le _,fun hmem => List.length_pos_of_mem hmem⟩

theorem flatten_length_lt {contents : List CString} {content : CString} (hmem : content ∈ contents)
    (hpercent : '%' ∈ content) :
    ((contents.map silent.format).flatten).length < contents.flatten.length := by
  rw [List.length_flatten,List.length_flatten,List.map_map]
  exact List.sum_lt_sum _ _ (fun c _ => (silent_length c).1) ⟨content,hmem,(silent_length content).2 hpercent⟩

/-- For every request and handler: the body is sent verbatim if and only if it contains no
percent sign. -/
theorem bodies_verbatim_iff (handler : List HandlerCall) (inputHeaders : List Header) :
    Verbatim handler inputHeaders ↔ ∀ content ∈ contents handler, '%' ∉ content := by
  constructor
  · intro h content hmem hpercent
    have hsent := h silent silent_documented
    rw [sentData_mainCallback] at hsent
    have hshort := flatten_length_lt hmem hpercent
    rw [hsent] at hshort
    exact absurd hshort (lt_irrefl _)
  · intro h printf _
    rw [sentData_mainCallback,map_format h]

/-- Of `100%%` one percent sign is sent, and `100%` is not a format. -/
theorem percent_sent :
    ¬ Verbatim [.setBody ['1','0','0','%','%']] [] ∧ ¬ Verbatim [.setBody ['1','0','0','%']] [] := by
  constructor <;> exact fun h => absurd (h silent silent_documented) (by decide)

end HttpBodies
end Translib
