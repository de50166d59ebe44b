import Hss.Server.Session

namespace Hss.Sending

open Hss.Request Hss.Response Hss.DescriptorList Hss.Transaction Hss.Loop Hss.Transport
  Hss.ReadLoop Hss.ReceiveBuffer Hss.Connection Hss.Rendering Hss.Acceptance Hss.Transfer Hss.Exchange
  Hss.Session

variable {σ : Type}

def Rendered (sock : Socket σ) (text : List UInt8) (c₁ : ConnectionInformation) : Prop :=
  ∃ (c : ConnectionInformation) (l : Ledger) (fuel : Nat) (env : Environment) (globals : Globals)
    (w : σ) (b : Buffer) (world : Log σ) (code : Headers.HttpErrorCode) (request : HttpRequest)
    (outcome : Outcome),
    Run sock c l ∧ c.state = .waitingRequest ∧
    receive fuel (recorded sock) env.memory c.buffer (w, [], []) = some (.stored b, world) ∧
    httpRequestFromBuffer c.request (b.buffer.drop b.start ++ env.memory.behind)
      (b.end_ - b.start) = some (code, request) ∧
    respond env globals { c with buffer := b } code request = some (c₁, text, outcome)

/-- The connections on which a rendered response is being sent or has been sent,
with the bytes accepted so far: what is left of the call that rendered it, and
then every further call. -/
inductive Replying (sock : Socket σ) (text : List UInt8) :
    ConnectionInformation → List UInt8 → Prop
  | rendered {c : ConnectionInformation} : Rendered sock text c → Replying sock text c []
  | send {c c' : ConnectionInformation} (fuel : Nat) (w : σ) (R : List UInt8) (world : Log σ) :
      Rendered sock text c → writeResponse fuel (recorded sock) c (w, R, []) =
        some (.alive c', world) → Replying sock text c' world.2.2
  | call {c c' : ConnectionInformation} {sent : List UInt8} (fuel : Nat) (env : Environment)
      (globals : Globals) (event : Event) (w : σ) (call : Call (Log σ)) :
      Replying sock text c sent → c.state = .writingResponse →
      handleConnection fuel (recorded sock) env globals event c (w, [], []) = some call →
      call.fate = .alive c' → Replying sock text c' (sent ++ call.world.2.2)

variable {sock : Socket σ} {w : σ} {R S text sent : List UInt8} {fuel : Nat} {env : Environment}
  {globals : Globals} {event : Event} {c c' : ConnectionInformation} {l : Ledger} {v : View}
  {world : Log σ} {call : Call (Log σ)} {b : Buffer}

theorem Rendered.represents (hsock : Honest sock) (h : Rendered sock text c) :
    ∃ held, Represents c ⟨[], text, held⟩ ∧ text ≠ [] := by
  obtain ⟨c₀, l, fuel, env, globals, w, b, world, code, request, outcome, hrun, hstate, hreceive,
    hparse, hrespond⟩ := h
  obtain ⟨v, hrep, -⟩ := hrun.represented hsock
  obtain ⟨data, -, -, hb, rfl⟩ := receive_spec hsock hrep.buffer hreceive
  obtain ⟨d, hparse', hd, -⟩ :=
    fromBuffer_answer hrep.request env.memory.nul (c₀.buffer.window ++ data)
  have hstored : Holds ({ c₀ with buffer := filled c₀.buffer data }).response v.held := hrep.holds
  obtain ⟨a, -, rfl, hready, hrequest⟩ := respond_some hstored hb hrespond
  have htext := responseText_ne_nil a.code (v.held.update a)
  refine ⟨_, Represents.of_ready hready ?_ htext, htext⟩
  simp only [filled, List.drop_zero, Nat.sub_zero] at hparse
  cases hparse'.symm.trans hparse
  rw [hrequest]
  exact hd.destroy

/-- A call in the writing state is a send phase, unless it returns at once. -/
theorem handleConnection_writing (hstate : c.state = .writingResponse)
    (hcall : handleConnection fuel (recorded sock) env globals event c (w, R, S) = some call) :
    call.parsed = none ∧ call.rendered = none ∧
      ((call.fate = .alive c ∧ call.world = (w, R, S)) ∨
        writeResponse fuel (recorded sock) c (w, R, S) = some (call.fate, call.world)) := by
  cases calling_of_handleConnection hcall with
  | skipped => exact ⟨rfl, rfl, .inl ⟨rfl, rfl⟩⟩
  | idle hwaiting | destroyed hwaiting | crashed hwaiting | served hwaiting =>
    cases hstate.symm.trans hwaiting
  | written _ hwrite => exact ⟨rfl, rfl, .inr hwrite⟩

/-- What a send phase changes: the start of the buffer and the state. -/
structure Unchanged (c c' : ConnectionInformation) : Prop where
  buffer : c'.buffer.buffer = c.buffer.buffer
  capability : c'.buffer.capability = c.buffer.capability
  end_ : c'.buffer.end_ = c.buffer.end_
  request : c'.request = c.request
  response : c'.response = c.response

theorem unchanged_afterSending (c : ConnectionInformation) (n : Nat) : Unchanged c (afterSending c n) :=
  ⟨rfl, rfl, rfl, rfl, rfl⟩

theorem View.sent_append {acc : List UInt8} (hacc : acc <+: v.unsent) :
    acc ++ (v.sent acc.length).unsent = v.unsent := by
  obtain ⟨rest, hrest⟩ := hacc
  rw [View.sent, ← hrest, List.drop_left]

theorem Represents.writing_of_unsent (h : Represents c v) (hunsent : v.unsent ≠ []) :
    c.state = .writingResponse := by
  obtain ⟨-, hdone, -⟩ | ⟨hstate, -⟩ := h.phase
  · exact absurd hdone hunsent
  · exact hstate

theorem Represents.waiting_iff (h : Represents c v) : c.state = .waitingRequest ↔ v.unsent = [] := by
  constructor
  · intro hstate
    exact (h.waiting hstate).1
  · intro hdone
    obtain ⟨hstate, -⟩ | ⟨-, hunsent, -⟩ := h.phase
    · exact hstate
    · exact absurd hdone hunsent

theorem Replying.represented (hsock : Honest sock) (h : Replying sock text c sent) :
    ∃ v, Represents c v ∧ sent ++ v.unsent = text := by
  induction h with
  | rendered h =>
    obtain ⟨held, hrep, -⟩ := h.represents hsock
    exact ⟨_, hrep, rfl⟩
  | send fuel w R world h hw =>
    obtain ⟨held, hrep, htext⟩ := h.represents hsock
    have hstate := Represents.writing_of_unsent hrep htext
    obtain ⟨acc, hacc, hlog, halive⟩ := Represents.write hsock hrep hstate hw
    obtain ⟨-, hrep'⟩ := halive _ rfl
    refine ⟨_, hrep', ?_⟩
    rw [hlog, List.nil_append]
    exact View.sent_append hacc
  | call fuel env globals event w call _ hstate hcall halive ih =>
    obtain ⟨v, hrep, hsplit⟩ := ih
    obtain ⟨-, -, ⟨hfate, hworld⟩ | hwrite⟩ := handleConnection_writing hstate hcall
    · cases hfate.symm.trans halive
      refine ⟨v, hrep, ?_⟩
      rw [hworld, List.append_nil]
      exact hsplit
    · obtain ⟨acc, hacc, hlog, hnext⟩ := Represents.write hsock hrep hstate hwrite
      obtain ⟨-, hrep'⟩ := hnext _ halive
      refine ⟨_, hrep', ?_⟩
      rw [hlog, List.nil_append, List.append_assoc, View.sent_append hacc]
      exact hsplit

/-- The response goes out in order during a send phase: whenever the loop goes
round and when it is left. -/
structure GoesOut (sock : Socket σ) (text : List UInt8) (c : ConnectionInformation)
    (sent : List UInt8) : Prop where
  round : ∀ w R s, Reaches (writeStep (recorded sock) c.buffer) ⟨(w, R, []), c.buffer.start⟩ s →
    s.world.2.1 = R ∧ sent ++ s.world.2.2 <+: text
  left : ∀ fuel w R fate world,
    writeResponse fuel (recorded sock) c (w, R, []) = some (fate, world) →
    world.2.1 = R ∧ sent ++ world.2.2 <+: text ∧ ∀ c', fate = .alive c' → Unchanged c c'

theorem prefix_of_split {acc : List UInt8} (hsplit : sent ++ v.unsent = text)
    (hacc : acc <+: v.unsent) : sent ++ acc <+: text := by
  rw [← hsplit]
  exact (List.prefix_append_right_inj sent).mpr hacc

theorem Represents.goesOut (hsock : Honest sock) (h : Represents c v)
    (hstate : c.state = .writingResponse) (hsplit : sent ++ v.unsent = text) :
    GoesOut sock text c sent where
  round w R s hs := by
    obtain ⟨hunsent, hwindow, -⟩ := h.writing hstate
    obtain ⟨acc, hacc⟩ := sending_of_reaches hsock h.buffer (hwindow ▸ hunsent) hs
    obtain ⟨rest, -, hrest⟩ := hacc.left
    rw [hacc.log, List.nil_append]
    exact ⟨rfl, prefix_of_split hsplit ⟨rest, by rw [← hrest, hwindow]⟩⟩
  left fuel w R fate world hw := by
    obtain ⟨acc, hacc, hlog, halive⟩ := Represents.write hsock h hstate hw
    rw [hlog, List.nil_append]
    exact ⟨rfl, prefix_of_split hsplit hacc, fun c' hfate =>
      (halive c' hfate).1 ▸ unchanged_afterSending c _⟩

/-- What a call renders is sent by the rest of it, from its first byte on. -/
theorem rendered_of_call (hsock : Honest sock) (hrun : Run sock c l)
    (hcall : handleConnection fuel (recorded sock) env globals event c (w, [], []) = some call)
    (htext : call.rendered = some text) :
    ∃ c₁ w₁ R, Rendered sock text c₁ ∧
      writeResponse fuel (recorded sock) c₁ (w₁, R, []) = some (call.fate, call.world) := by
  cases calling_of_handleConnection hcall with
  | skipped | idle | destroyed | crashed | written => cases htext
  | @served b world _ hstate hreceive hserving =>
    obtain ⟨v, hrep, -⟩ := hrun.represented hsock
    obtain ⟨data, hlog, -⟩ := receive_spec hsock hrep.buffer hreceive
    obtain ⟨w₁, R, S⟩ := world
    cases hlog
    cases hserving with
    | unparsed | incomplete | unanswered => cases htext
    | @answered code request c₁ rendered outcome _ _ hparse _ hrespond hwrite =>
      cases htext
      exact ⟨c₁, w₁, [] ++ data, ⟨c, l, fuel, env, globals, w, b, _, code, request, outcome, hrun,
        hstate, hreceive, hparse, hrespond⟩, hwrite⟩

/-- A response is sent exactly once and in order, over any number of calls. -/
theorem response_sent_in_order (hsock : Honest sock) (text : List UInt8) :
    (∀ (c : ConnectionInformation) (l : Ledger) (fuel : Nat) (env : Environment)
      (globals : Globals) (event : Event) (w : σ) (call : Call (Log σ)), Run sock c l →
      handleConnection fuel (recorded sock) env globals event c (w, [], []) = some call →
      call.rendered = some text → ∃ c₁ w₁ R, Rendered sock text c₁ ∧
        writeResponse fuel (recorded sock) c₁ (w₁, R, []) = some (call.fate, call.world)) ∧
    ∀ (c : ConnectionInformation) (sent : List UInt8), Replying sock text c sent →
      sent <+: text ∧ (c.state = .waitingRequest ↔ sent = text) ∧
      (c.state = .writingResponse → GoesOut sock text c sent ∧
        (∀ (fuel : Nat) (env : Environment) (globals : Globals) (event : Event) (w : σ)
          (call : Call (Log σ)),
          handleConnection fuel (recorded sock) env globals event c (w, [], []) = some call →
          call.parsed = none ∧ call.rendered = none ∧ call.world.2.1 = [] ∧
            sent ++ call.world.2.2 <+: text ∧ ∀ c', call.fate = .alive c' → Unchanged c c') ∧
        (Accepting sock → ∀ (env : Environment) (globals : Globals) (event : Event) (w : σ),
          ∃ fuel call c',
            handleConnection fuel (recorded sock) env globals event c (w, [], []) = some call ∧
            call.fate = .alive c')) := by
  refine ⟨fun c l fuel env globals event w call => rendered_of_call hsock, ?_⟩
  intro c sent h
  obtain ⟨v, hrep, hsplit⟩ := h.represented hsock
  refine ⟨⟨v.unsent, hsplit⟩, ?_, ?_⟩
  · rw [Represents.waiting_iff hrep, ← hsplit]
    exact List.self_eq_append_right.symm
  intro hstate
  have hout := Represents.goesOut hsock hrep hstate hsplit
  refine ⟨hout, ?_, ?_⟩
  · intro fuel env globals event w call hcall
    obtain ⟨hparsed, hrendered, ⟨hfate, hworld⟩ | hwrite⟩ := handleConnection_writing hstate hcall
    · rw [hworld, List.append_nil]
      refine ⟨hparsed, hrendered, rfl, ⟨v.unsent, hsplit⟩, ?_⟩
      intro c' halive
      cases hfate.symm.trans halive
      exact ⟨rfl, rfl, rfl, rfl, rfl⟩
    · exact ⟨hparsed, hrendered, hout.left fuel w [] _ _ hwrite⟩
  · intro haccepting env globals event w
    obtain ⟨hunsent, hwindow, -⟩ := hrep.writing hstate
    obtain ⟨fuel, c', world, hwrite⟩ := writeResponse_returns (w := w) (R := []) (S := []) hsock
      haccepting hrep.buffer (hwindow ▸ hunsent)
    have hnot : ¬ (event.epollin = false ∧ c.state = .waitingRequest) := by
      rintro ⟨-, hwaiting⟩
      cases hstate.symm.trans hwaiting
    refine ⟨fuel, ?_⟩
    rw [handleConnection, if_neg hnot]
    split
    · exact ⟨_, _, rfl, rfl⟩
    · simp only [hstate, hwrite]
      exact ⟨_, _, rfl, rfl⟩

def narrow : Socket (List UInt8 × Nat) where
  recv w n := if w.1 = [] then (.failed EAGAIN, w) else (.received (w.1.take n), w.1.drop n, w.2)
  send w bytes :=
    if w.2 = 0 then (.failed EAGAIN, w)
    else (.sent (min w.2 bytes.length), w.1, w.2 - bytes.length)

theorem honest_narrow : Honest narrow where
  recv w n bytes h := by
    rw [narrow] at h
    by_cases hempty : w.1 = []
    · simp only [if_pos hempty, reduceCtorEq] at h
    · simp only [if_neg hempty, RecvOutcome.received.injEq] at h
      rw [← h, List.length_take]
      exact Nat.min_le_left _ _
  send w bytes size h := by
    rw [narrow] at h
    by_cases hroom : w.2 = 0
    · simp only [if_pos hroom, reduceCtorEq] at h
    · simp only [if_neg hroom, SendOutcome.sent.injEq] at h
      rw [← h]
      exact Nat.min_le_right _ _

def halfSent : ConnectionInformation :=
  { redirected with state := .writingResponse, buffer := ⟨redirectText, 112, 40, 112⟩ }

def halfCall : Call (Log (List UInt8 × Nat)) :=
  ⟨.alive halfSent, (([], 0), rootRequest, redirectText.take 40), firstGlobals, some rootRequest,
    some redirectText, none⟩

theorem halfCall_eq : handleConnection 9 (recorded narrow) ⟨roomy, smallHost⟩ firstGlobals readable
    (accepted .tcpSocket) ((rootRequest, 40), [], []) = some halfCall := by
  decide +kernel

theorem response_sent_in_order_half :
    redirectText.take 40 <+: redirectText ∧
      (halfSent.state = .waitingRequest ↔ redirectText.take 40 = redirectText) ∧
      ∀ s, Reaches (writeStep (recorded narrow) halfSent.buffer) ⟨(([], 9), [], []), 40⟩ s →
        redirectText.take 40 ++ s.world.2.2 <+: redirectText := by
  obtain ⟨hfirst, hthen⟩ := response_sent_in_order honest_narrow redirectText
  obtain ⟨c₁, w₁, R, hrendered, hwrite⟩ := hfirst (accepted .tcpSocket) .fresh 9 ⟨roomy, smallHost⟩
    firstGlobals readable (rootRequest, 40) halfCall
    (.accepted .tcpSocket freshBlock freshResponse) halfCall_eq rfl
  obtain ⟨hpart, hdone, hwriting⟩ :=
    hthen halfSent (redirectText.take 40) (.send 9 w₁ R halfCall.world hrendered hwrite)
  refine ⟨hpart, hdone, fun s hs => ?_⟩
  exact ((hwriting rfl).1.round ([], 9) [] s hs).2

end Hss.Sending
