import Hss.Http.ContentLength
import Hss.Http.HeaderBlock
import Hss.Lib.Messages

namespace Hss.Client

open Hss.CString Hss.Headers Hss.Response Hss.StreamParser Hss.Messages Hss.Lines Hss.Encoding
  Hss.ContentLength Hss.Meaning Hss.Grammar Hss.HeaderBlock

structure Message where
  statusLine : List UInt8
  headers : List Header
  body : List UInt8
  deriving DecidableEq, Repr

def fieldReply (headers : List Header) (b : List UInt8) :
    Reply UInt8 Unit (List Header ⊕ List Header) :=
  (line 13 10 b).andThen fun l rest =>
    if l = [] then .done (.inr headers) rest
    else
      match headerOf l with
      | none => .reject ()
      | some header => .done (.inl (headers ++ [header])) rest

/-- The length of the body, whatever the case of the letters in the name. -/
def statedLength (headers : List Header) : Option Nat :=
  (headers.find? fun h => SameName h.key lengthName).map fun h => decimal h.value

/-- A receiver that takes as many bytes for the body as the headers state. -/
def clientReply (b : List UInt8) : Reply UInt8 Unit Message :=
  (line 13 10 b).andThen fun statusLine b =>
    (repeated fieldReply [] b).andThen fun headers b =>
      match statedLength headers with
      | none => .reject ()
      | some n => (exactly n b).andThen fun body rest => .done ⟨statusLine, headers, body⟩ rest

variable {headers : List Header} {e : Header} {start : List UInt8}

theorem fieldReply_streaming (headers : List Header) : Streaming (fieldReply headers) := by
  refine line_streaming.andThen fun l rest t _ => ?_
  by_cases hl : l = []
  · rw [if_pos hl, if_pos hl]
    rfl
  · rw [if_neg hl, if_neg hl]
    cases headerOf l <;> rfl

theorem clientReply_streaming : Streaming clientReply := by
  refine line_streaming.andThen fun statusLine =>
    (Streaming.repeated fieldReply_streaming []).andThen fun headers => ?_
  cases statedLength headers with
  | none => exact fun _ _ _ => rfl
  | some n => exact (exactly_streaming n).andThen fun _ _ _ _ => rfl

theorem Encodable.headerText (h : Encodable e.key e.value) : headerText e = (lineOf e).text :=
  headerText_eq ⟨cstr_of_not_mem h.noNul, cstr_of_not_mem h.valueNoNul⟩

theorem fieldReply_headerText (h : Encodable e.key e.value) (before : List Header)
    (rest : List UInt8) : fieldReply before (Encoding.headerText e ++ 13 :: 10 :: rest) =
      .done (.inl (before ++ [e])) rest := by
  have hline := wellFormed_lineOf h
  have hsplit := splitPair_of_not_infix (by decide) hline.oneLine rest
  rw [Encodable.headerText h, fieldReply, line, hsplit]
  simp only [Reply.andThen, text_ne_nil, if_false, headerOf_text hline]
  rfl

theorem fields_headerBlock (h : ∀ e ∈ headers, Encodable e.key e.value) (before : List Header)
    (rest : List UInt8) : repeated fieldReply before (headerBlock headers ++ rest) =
      .done (before ++ headers) rest := by
  induction headers generalizing before with
  | nil =>
    have hend : fieldReply before (13 :: 10 :: rest) = .done (.inr before) rest := rfl
    rw [headerBlock, List.map_nil, joined_nil, List.nil_append, repeated, List.append_nil]
    simp only [List.cons_append, List.nil_append, hend]
  | cons e headers ih =>
    have hblock : headerBlock (e :: headers) ++ rest =
        Encoding.headerText e ++ 13 :: 10 :: (headerBlock headers ++ rest) := by
      simp only [headerBlock, List.map_cons, joined_cons, List.append_assoc, List.cons_append]
    have hshort : (headerBlock headers ++ rest).length <
        (Encoding.headerText e ++ 13 :: 10 :: (headerBlock headers ++ rest)).length := by
      simp only [List.length_append, List.length_cons]
      omega
    have hrest := ih (fun e he => h e (List.mem_cons_of_mem _ he)) (before ++ [e])
    rw [List.append_assoc, List.singleton_append] at hrest
    rw [hblock, repeated, fieldReply_headerText (h e List.mem_cons_self)]
    simp only [if_pos hshort, hrest]

/-- A text whose headers state the length of its body is one message. -/
theorem says_text (hstart : OneLine start) (h : ∀ e ∈ headers, Encodable e.key e.value)
    {body : List UInt8} (hlength : statedLength headers = some body.length) :
    Says clientReply (start ++ 13 :: 10 :: (headerBlock headers ++ body))
      ⟨start, headers, body⟩ where
  ne_nil := by simp
  done := by
    have hinfix : ¬ [13, 10] <:+: start := fun hin => hstart.1 (hin.subset List.mem_cons_self)
    have hsplit := splitPair_of_not_infix (by decide) hinfix (headerBlock headers ++ body)
    have hbody := exactly_append (ε := Unit) body []
    rw [List.append_nil] at hbody
    rw [clientReply, line, hsplit]
    simp only [Reply.andThen, fields_headerBlock h, List.nil_append, hlength, hbody]

end Hss.Client
