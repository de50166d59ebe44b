import Hss.Server.Exchange

namespace Hss.Delivery

open Hss.CString Hss.Request Hss.Response Hss.Transaction Hss.Range Hss.Loop Hss.Meaning
  Hss.Acceptance Hss.Transport Hss.ReadLoop Hss.ReceiveBuffer Hss.Connection Hss.Effects
  Hss.Rendering Hss.Transfer Hss.Exchange

abbrev Queue := Log (List UInt8 × List Nat)

variable {w : List UInt8 × List Nat} {world : Queue} {n : Nat} {bytes data R S : List UInt8}

theorem recv_empty (h : world.1.1 = []) :
    (recorded chunked).recv world n = (.failed EAGAIN, world) := by
  simp only [recorded, chunked, h, if_true]

theorem recv_chunk (h : world.1.1 ≠ []) (hn : 0 < n) :
    ∃ chunk rest sizes, chunk ≠ [] ∧ chunk.length ≤ n ∧ world.1.1 = chunk ++ rest ∧
      (recorded chunked).recv world n =
        (.received chunk, (rest, sizes), world.2.1 ++ chunk, world.2.2) := by
  refine ⟨world.1.1.take (min n (max 1 (world.1.2.headD n))),
    world.1.1.drop (min n (max 1 (world.1.2.headD n))), world.1.2.tail, ?_, ?_, ?_, ?_⟩
  · rw [Ne, List.take_eq_nil_iff]
    rintro (hzero | hnil)
    · omega
    · exact h hnil
  · rw [List.length_take]
    omega
  · rw [List.take_append_drop]
  · simp only [recorded, chunked, if_neg h]

theorem ends_drained {s : ReadState Queue} (hpacked : Packed s data)
    (hsmall : (data ++ s.world.1.1).length < pageTableSize) :
    ∃ s', Ends (readStep (recorded chunked)) s (.drained, s') ∧
      Packed s' (data ++ s.world.1.1) ∧ s'.world.2 = (s.world.2.1 ++ s.world.1.1, s.world.2.2) := by
  induction hk : s.world.1.1.length using Nat.strongRecOn generalizing s data with
  | _ k ih =>
    by_cases hempty : s.world.1.1 = []
    · have hstep := readStep_failed (recv_empty (n := bufferPageSize - s.offset) hempty)
      refine ⟨_, .leave hstep, ?_, ?_⟩
      · rw [hempty, List.append_nil]
        exact ⟨hpacked.table, hpacked.room, hpacked.total, hpacked.inTable⟩
      · rw [hempty, List.append_nil]
    · obtain ⟨chunk, rest, sizes, hne, hle, hqueue, hrecv⟩ :=
        recv_chunk hempty (Nat.sub_pos_of_lt hpacked.room)
      rw [hqueue, ← List.append_assoc] at hsmall
      have hfits : (data ++ chunk).length < pageTableSize := by
        rw [List.length_append] at hsmall
        omega
      have hstep := hpacked.step hrecv hle fun h => absurd h hne
      rw [if_pos hfits] at hstep
      obtain ⟨t, ht, hworld, hpacked'⟩ := hstep
      have hrest : t.world.1.1 = rest := by rw [hworld]
      have hlt : t.world.1.1.length < k := by
        have hpos : 0 < chunk.length := List.length_pos_iff.mpr hne
        rw [hqueue, List.length_append] at hk
        rw [hrest]
        omega
      rw [← hrest] at hsmall
      obtain ⟨s', hends, hdone, hlog⟩ := ih _ hlt hpacked' hsmall rfl
      refine ⟨s', .again ht hends, ?_, ?_⟩
      · rw [hqueue, ← List.append_assoc, ← hrest]
        exact hdone
      · rw [hlog, hworld, hqueue, List.append_assoc]

variable {memory : Memory} {b : Buffer} {fuel fuel' : Nat}

theorem receive_chunked (hb : b.WellFormed) (hne : bytes ≠ [])
    (hsmall : bytes.length < pageTableSize) (sizes : List Nat)
    (hgrant : memory.grants (b.window ++ bytes).length = true) :
    ∃ fuel world, receive fuel (recorded chunked) memory b ((bytes, sizes), R, S) =
      some (.stored (filled b bytes), world) ∧ world.2 = (R ++ bytes, S) := by
  obtain ⟨s, ⟨fuel, hiter⟩, hpacked, hlog⟩ :=
    ends_drained (packed_start (((bytes, sizes), R, S) : Queue)) hsmall
  have hpacked' : Packed s bytes := hpacked
  have hpos : s.totalSize ≠ 0 := by
    rw [hpacked'.total]
    exact fun h0 => hne (List.length_eq_zero_iff.mp h0)
  refine ⟨fuel, s.world, ?_, hlog⟩
  simp only [receive, hiter, Option.bind_eq_bind, Option.bind_some, if_neg hpos,
    stored_eq hb hpacked', hgrant, if_true]

theorem receive_mono {σ : Type} {sock : Socket σ} {w : σ} {received : Received × σ}
    (h : receive fuel sock memory b w = some received) (hle : fuel ≤ fuel') :
    receive fuel' sock memory b w = some received := by
  obtain ⟨exit, hiter, h⟩ := Option.bind_eq_some_iff.mp h
  exact Option.bind_eq_some_iff.mpr ⟨exit, iterate_mono hiter hle, h⟩

variable {c : ConnectionInformation} {v : View} {env : Environment}

theorem writeResponse_chunked (hb : c.buffer.WellFormed) (world : Queue) (fuel : Nat) :
    ∃ c' world', writeResponse (fuel + 1) (recorded chunked) c world = some (.alive c', world') ∧
      c'.state = .waitingRequest ∧ world'.2.1 = world.2.1 := by
  have hlength := length_window hb
  have hend := hb.end_
  have hbound := hb.bound
  have htodo : sizeSub c.buffer.end_ c.buffer.start = c.buffer.window.length := by
    rw [sizeSub_of_le hb.start (by simp only [sizeMax]; omega), hlength]
  have hstep : writeStep (recorded chunked) c.buffer ⟨world, c.buffer.start⟩ =
      .inr (.finished, ⟨(world.1, world.2.1, world.2.2 ++ c.buffer.window),
        sizeAdd c.buffer.start c.buffer.window.length⟩) := by
    simp only [writeStep, readAt_window hb, recorded, chunked, htodo, if_true, List.take_length]
  have hwrite : writeResponse (fuel + 1) (recorded chunked) c world = some (.alive
      { c with
        state := .waitingRequest
        buffer := { c.buffer with start := sizeAdd c.buffer.start c.buffer.window.length } },
      world.1, world.2.1, world.2.2 ++ c.buffer.window) := by
    simp only [writeResponse, iterate_inr hstep, Option.bind_eq_bind, Option.bind_some]
  exact ⟨_, _, hwrite, rfl, rfl⟩

/-- A window that is incomplete, or answered with a response of this size. -/
def Served (env : Environment) (c : ConnectionInformation) (v : View)
    (window : List UInt8) : Prop :=
  verdict (requestReply window) = .incompleteRequest ∨
    ∃ a, answer c.type env.host window = some a ∧
      env.memory.grants (responseText a.code (v.held.update a)).length = true

theorem serve_chunked (globals : Globals) (h : Stored c (v.window bytes) v.held)
    (hserved : Served env c v (v.window bytes)) (world : Queue) (fuel : Nat) :
    ∃ call c', serve (fuel + 1) (recorded chunked) env globals c world = some call ∧
      call.fate = .alive c' ∧ c'.state = .waitingRequest ∧ call.world.2.1 = world.2.1 := by
  obtain ⟨d, hparse, hd, hanswer⟩ :=
    fromBuffer_answer h.request env.memory.nul (v.window bytes)
  have hwindow := h.window
  have hbytes : c.buffer.buffer = v.window bytes := by rw [h.block]
  have hstart : c.buffer.start = 0 := by rw [h.block]
  have hend : c.buffer.end_ = (v.window bytes).length := by rw [h.block]
  simp only [Connection.serve, hwindow, hbytes, hstart, hend, List.drop_zero, Nat.sub_zero, hparse]
  by_cases hmore : verdict (requestReply (v.window bytes)) = .incompleteRequest
  · rw [if_pos hmore]
    exact ⟨_, _, rfl, rfl, h.state, rfl⟩
  · rw [if_neg hmore]
    obtain ⟨a, ha, hgrant⟩ := hserved.resolve_left hmore
    have hreply := (hanswer c.type env.host).trans ha
    obtain ⟨⟨c₁, rendered, outcome⟩, hrespond⟩ :=
      Option.isSome_iff_exists.mp (respond_isSome globals h.holds h.wellFormed hreply hgrant)
    obtain ⟨_, -, -, hready, -⟩ := respond_some h.holds h.wellFormed hrespond
    obtain ⟨c', world', hwrite, hstate, hlog⟩ := writeResponse_chunked hready.buffer world fuel
    rw [hrespond]
    simp only [hwrite, Option.bind_eq_bind, Option.bind_some]
    exact ⟨_, _, rfl, rfl, hstate, hlog⟩

/-- A call on a queue that is served takes all of it and is done. -/
theorem call_chunked (globals : Globals) (h : Represents c v) (hidle : v.unsent = []) (hne : bytes ≠ [])
    (hsmall : bytes.length < pageTableSize) (sizes : List Nat)
    (hgrant : env.memory.grants (v.window bytes).length = true)
    (hserved : Served env c v (v.window bytes)) {event : Event} (hevent : event.epollin = true) :
    ∃ fuel call c', handleConnection fuel (recorded chunked) env globals event c
      ((bytes, sizes), [], []) = some call ∧ call.fate = .alive c' ∧
      c'.state = .waitingRequest ∧ call.world.2.1 = bytes := by
  have hstate : c.state = .waitingRequest := by
    obtain ⟨hstate, -⟩ | ⟨-, hunsent, -⟩ := h.phase
    · exact hstate
    · exact absurd hidle hunsent
  obtain ⟨-, hwindow⟩ := h.waiting hstate
  have hstored : (filled c.buffer bytes) =
      ⟨v.window bytes, (v.window bytes).length, 0, (v.window bytes).length⟩ := by
    rw [filled, hwindow, View.window]
  rw [View.window, ← hwindow] at hgrant
  obtain ⟨fuel, world, hreceive, hlog⟩ :=
    receive_chunked (R := []) (S := []) h.buffer hne hsmall sizes hgrant
  have hready : Stored { c with buffer := filled c.buffer bytes } (v.window bytes) v.held :=
    ⟨hstate, hstored, wellFormed_filled hgrant, h.request, h.holds⟩
  obtain ⟨call, c', hcall, halive, hwaiting, hreceived⟩ :=
    serve_chunked globals hready hserved world fuel
  refine ⟨fuel + 1, call, c', ?_, halive, hwaiting, ?_⟩
  · have hmono := receive_mono hreceive (Nat.le_succ fuel)
    simp only [handleConnection, hstate, hevent, reduceCtorEq, and_false, false_and, if_false, hmono,
      Option.bind_eq_bind, Option.bind_some]
    rw [hstate] at hcall
    exact hcall
  · rw [hreceived, hlog, List.nil_append]

end Hss.Delivery
