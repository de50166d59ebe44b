import Hss.Server.Connection

namespace Hss.Transfer

open Hss.CString Hss.Range Hss.Loop Hss.Transport Hss.ReadLoop Hss.ReceiveBuffer Hss.Connection

abbrev Log (σ : Type) := σ × List UInt8 × List UInt8

variable {σ : Type} {sock : Socket σ} {world world' : Log σ} {w : σ}
  {bytes R S : List UInt8} {n size errno fuel : Nat}

theorem recorded_received (h : (recorded sock).recv world n = (.received bytes, world')) :
    (sock.recv world.1 n).1 = .received bytes ∧ world'.2 = (world.2.1 ++ bytes, world.2.2) := by
  simp only [recorded] at h
  split at h <;> cases h
  rename_i hrecv
  exact ⟨congrArg Prod.fst hrecv, rfl⟩

theorem recorded_recv_failed (h : (recorded sock).recv world n = (.failed errno, world')) :
    world'.2 = world.2 := by
  simp only [recorded] at h
  split at h <;> cases h
  rfl

theorem recorded_sent (h : (recorded sock).send world bytes = (.sent size, world')) :
    (sock.send world.1 bytes).1 = .sent size ∧
      world'.2 = (world.2.1, world.2.2 ++ bytes.take size) := by
  simp only [recorded] at h
  split at h <;> cases h
  rename_i hsend
  exact ⟨congrArg Prod.fst hsend, rfl⟩

theorem recorded_send_failed (h : (recorded sock).send world bytes = (.failed errno, world')) :
    world'.2 = world.2 := by
  simp only [recorded] at h
  split at h <;> cases h
  rfl

/-- The page table holds what the log says was received in the round. -/
def Logged (R S : List UInt8) (s : ReadState (Log σ)) : Prop :=
  ∃ data, Packed s data ∧ s.world.2 = (R ++ data, S)

theorem logged_start : Logged R S (readStart ((w, R, S) : Log σ)) :=
  ⟨[], packed_start _, by rw [List.append_nil]; rfl⟩

theorem Logged.again (hsock : Honest sock) {s s' : ReadState (Log σ)} (h : Logged R S s)
    (hs : readStep (recorded sock) s = .inl s') : Logged R S s' := by
  obtain ⟨data, hpacked, hlog⟩ := h
  have hhonest : ∀ bytes,
      ((recorded sock).recv s.world (bufferPageSize - s.offset)).1 = .received bytes →
      bytes.length ≤ bufferPageSize - s.offset := by
    intro bytes hbytes
    have hrecv : (recorded sock).recv s.world (bufferPageSize - s.offset) =
        (.received bytes, ((recorded sock).recv s.world (bufferPageSize - s.offset)).2) :=
      Prod.ext hbytes rfl
    exact hsock.recv _ _ _ (recorded_received hrecv).1
  obtain ⟨bytes, hrecv, -, hpacked'⟩ := hpacked.again hs hhonest
  refine ⟨data ++ bytes, hpacked', ?_⟩
  rw [(recorded_received hrecv).2, hlog, List.append_assoc]

/-- Every call of `recv` delivers something or finds nothing for now. -/
def Steady (sock : Socket σ) : Prop :=
  ∀ w n, 0 < n → (sock.recv w n).1 = .failed EAGAIN ∨
    ∃ bytes, bytes ≠ [] ∧ (sock.recv w n).1 = .received bytes

/-- Every call of `send` accepts something or finds no room for now. -/
def Accepting (sock : Socket σ) : Prop :=
  ∀ w bytes, bytes ≠ [] → (sock.send w bytes).1 = .failed EAGAIN ∨
    ∃ size, 0 < size ∧ (sock.send w bytes).1 = .sent size

/-- What is known when the receive loop is left, with all that was received. -/
def Leaves (sock : Socket σ) (s : ReadState (Log σ)) (data : List UInt8) : ReadExit → Prop
  | .drained => Packed s data
  | .failed => ¬ Steady sock
  | .closed => ¬ Steady sock
  | .overrun => pageTableSize ≤ data.length

theorem not_steady_failed {n : Nat} (hn : 0 < n) (h : (sock.recv w n).1 = .failed errno)
    (herrno : errno ≠ EAGAIN) : ¬ Steady sock := by
  intro hsteady
  obtain hs | ⟨bytes, -, hs⟩ := hsteady w n hn
  · exact herrno (RecvOutcome.failed.inj (h.symm.trans hs))
  · cases h.symm.trans hs

theorem not_steady_closed {n : Nat} (hn : 0 < n) (h : (sock.recv w n).1 = .received []) :
    ¬ Steady sock := by
  intro hsteady
  obtain hs | ⟨bytes, hne, hs⟩ := hsteady w n hn
  · cases h.symm.trans hs
  · exact hne (RecvOutcome.received.inj (h.symm.trans hs)).symm

theorem not_accepting_failed (hne : bytes ≠ []) (h : (sock.send w bytes).1 = .failed errno)
    (herrno : errno ≠ EAGAIN) : ¬ Accepting sock := by
  intro haccepting
  obtain hs | ⟨size, -, hs⟩ := haccepting w bytes hne
  · exact herrno (SendOutcome.failed.inj (h.symm.trans hs))
  · cases h.symm.trans hs

theorem Accepting.pos (haccepting : Accepting sock) (hne : bytes ≠ [])
    (h : (sock.send w bytes).1 = .sent size) : 0 < size := by
  obtain hs | ⟨n, hn, hs⟩ := haccepting w bytes hne
  · cases h.symm.trans hs
  · rw [SendOutcome.sent.inj (h.symm.trans hs)]
    exact hn

theorem recorded_recv_errno (h : (recorded sock).recv world n = (.failed errno, world')) :
    (sock.recv world.1 n).1 = .failed errno := by
  simp only [recorded] at h
  split at h <;> cases h
  rename_i hrecv
  exact congrArg Prod.fst hrecv

theorem recorded_send_errno (h : (recorded sock).send world bytes = (.failed errno, world')) :
    (sock.send world.1 bytes).1 = .failed errno := by
  simp only [recorded] at h
  split at h <;> cases h
  rename_i hsend
  exact congrArg Prod.fst hsend

theorem Logged.leave (hsock : Honest sock) {s s' : ReadState (Log σ)} {why : ReadExit}
    (h : Logged R S s) (hs : readStep (recorded sock) s = .inr (why, s')) :
    ∃ data, s'.world.2 = (R ++ data, S) ∧ Leaves sock s' data why := by
  obtain ⟨data, hpacked, hlog⟩ := h
  have hroom : 0 < bufferPageSize - s.offset := Nat.sub_pos_of_lt hpacked.room
  rcases hrecv : (recorded sock).recv s.world (bufferPageSize - s.offset) with ⟨outcome, world⟩
  cases outcome with
  | failed errno =>
    have hworld := (recorded_recv_failed hrecv).trans hlog
    rw [readStep_failed hrecv] at hs
    by_cases herrno : errno = EAGAIN
    · rw [if_pos herrno] at hs
      cases hs
      exact ⟨data, hworld, hpacked.table, hpacked.room, hpacked.total, hpacked.inTable⟩
    · rw [if_neg herrno] at hs
      cases hs
      exact ⟨data, hworld, not_steady_failed hroom (recorded_recv_errno hrecv) herrno⟩
  | received bytes =>
    obtain ⟨hinner, hworld⟩ := recorded_received hrecv
    by_cases hclosed : bytes = [] ∧ data = []
    · obtain ⟨rfl, rfl⟩ := hclosed
      rw [readStep_closed hrecv hpacked.total] at hs
      cases hs
      refine ⟨[], ?_, not_steady_closed hroom hinner⟩
      rw [hworld, hlog, List.append_nil]
    · have hstep := hpacked.step hrecv (hsock.recv _ _ _ hinner) fun hb hd => hclosed ⟨hb, hd⟩
      split at hstep
      · obtain ⟨t, ht, -⟩ := hstep
        cases ht.symm.trans hs
      · rename_i hfull
        obtain ⟨-, -, t, ht⟩ := hstep
        cases ht.symm.trans hs
        refine ⟨data ++ bytes, ?_, Nat.le_of_not_lt hfull⟩
        rw [readStep_received hrecv fun hb h0 => hclosed
          ⟨hb, List.length_eq_zero_iff.mp (hpacked.total ▸ h0)⟩] at hs
        split at hs
        · cases hs
        · split at hs <;> cases hs
          rw [hworld, hlog, List.append_assoc]

variable {memory : Memory} {b b' : Buffer} {received : Received}

def filled (b : Buffer) (data : List UInt8) : Buffer :=
  ⟨b.window ++ data, (b.window ++ data).length, 0, (b.window ++ data).length⟩

/-- What the receive phase makes of the bytes received in it. -/
def Explains (sock : Socket σ) (memory : Memory) (b : Buffer) (data : List UInt8) :
    Received → Prop
  | .idle => data = []
  | .destroyed => Steady sock → memory.grants (b.window ++ data).length = false
  | .crashed => pageTableSize ≤ data.length
  | .stored b' => data ≠ [] ∧ b'.WellFormed ∧ b' = filled b data

theorem stored_eq (hb : b.WellFormed) {s : ReadState σ} {data : List UInt8}
    (hpacked : Packed s data) : storeReceived memory b s =
      some (if memory.grants (b.window ++ data).length then some (filled b data) else none) := by
  have hwindow := length_window hb
  have hend := hb.end_
  have hbound := hb.bound
  have htable := hpacked.length_lt
  have hfits : b.window.length + data.length < sizeMax := by
    simp only [pageTableSize, bufferPageSize, bufferListLength] at htable
    simp only [sizeMax]
    omega
  rw [storeReceived_eq hb hpacked hfits, filled, List.length_append]

theorem wellFormed_filled {data : List UInt8}
    (hgrant : memory.grants (b.window ++ data).length = true) : (filled b data).WellFormed where
  start := Nat.zero_le _
  end_ := Nat.le_refl _
  block := rfl
  bound := memory.limit _ hgrant

theorem receive_spec (hsock : Honest sock) (hb : b.WellFormed)
    (h : receive fuel (recorded sock) memory b (w, R, S) = some (received, world)) :
    ∃ data, world.2 = (R ++ data, S) ∧ Explains sock memory b data received := by
  obtain ⟨⟨why, s⟩, hiter, h⟩ := Option.bind_eq_some_iff.mp h
  have hends : Ends (readStep (recorded sock)) (readStart (w, R, S)) (why, s) := ⟨fuel, hiter⟩
  obtain ⟨t, ht, hs⟩ := hends.rule (Logged R S) (fun _ _ => Logged.again hsock) logged_start
  obtain ⟨data, hlog, hleaves⟩ := ht.leave hsock hs
  refine ⟨data, ?_⟩
  cases why with
  | failed =>
    cases h
    exact ⟨hlog, fun hsteady => absurd hsteady hleaves⟩
  | closed =>
    cases h
    exact ⟨hlog, fun hsteady => absurd hsteady hleaves⟩
  | overrun =>
    cases h
    exact ⟨hlog, hleaves⟩
  | drained =>
    have hpacked : Packed s data := hleaves
    have htotal := hpacked.total
    by_cases hdata : data = []
    · have hzero : s.totalSize = 0 := by rw [htotal, hdata]; rfl
      simp only [hzero, if_true] at h
      cases h
      exact ⟨hlog, hdata⟩
    · have hpos : s.totalSize ≠ 0 := fun h0 => hdata (List.length_eq_zero_iff.mp (htotal ▸ h0))
      simp only [if_neg hpos, stored_eq hb hpacked] at h
      by_cases hgrant : memory.grants (b.window ++ data).length = true
      · simp only [hgrant, if_true] at h
        cases h
        exact ⟨hlog, hdata, wellFormed_filled hgrant, rfl⟩
      · simp only [hgrant, if_false, Bool.false_eq_true] at h
        cases h
        exact ⟨hlog, fun _ => Bool.eq_false_iff.mpr hgrant⟩

def advance (b : Buffer) (n : Nat) : Buffer := { b with start := b.start + n }

theorem window_advance (b : Buffer) (n : Nat) : (advance b n).window = b.window.drop n := by
  rw [Buffer.window, Buffer.window, advance, slice, slice, List.drop_drop]

theorem wellFormed_advance (hb : b.WellFormed) {n : Nat} (hn : n ≤ b.window.length) :
    (advance b n).WellFormed := by
  have hstart := hb.start
  rw [length_window hb] at hn
  refine ⟨?_, hb.end_, hb.block, hb.bound⟩
  simp only [advance]
  omega

structure Sending (b : Buffer) (R S sent : List UInt8) (s : WriteState (Log σ)) : Prop where
  start : s.start = b.start + sent.length
  log : s.world.2 = (R, S ++ sent)
  left : ∃ rest, rest ≠ [] ∧ b.window = sent ++ rest

theorem Sending.unread {sent : List UInt8} {s : WriteState (Log σ)} (hb : b.WellFormed)
    (h : Sending b R S sent s) : readAt b.buffer s.start b.end_ = some (b.window.drop sent.length) := by
  obtain ⟨rest, -, hwindow⟩ := h.left
  have hle : sent.length ≤ b.window.length := by
    rw [hwindow, List.length_append]
    exact Nat.le_add_right _ _
  have hadvance := readAt_window (wellFormed_advance hb hle)
  rw [window_advance] at hadvance
  rw [h.start]
  exact hadvance

theorem Sending.step (hsock : Honest sock) (hb : b.WellFormed) {sent : List UInt8}
    {s : WriteState (Log σ)} (h : Sending b R S sent s) :
    (∃ why world, writeStep (recorded sock) b s = .inr (why, { s with world }) ∧
      world.2 = s.world.2 ∧ (why = .failed ∧ ¬ Accepting sock ∨ why = .blocked)) ∨
    ∃ sent' rest' s', s' = ⟨s'.world, b.start + sent'.length⟩ ∧ s'.world.2 = (R, S ++ sent') ∧
      b.window = sent' ++ rest' ∧ (Accepting sock → sent.length < sent'.length) ∧
      writeStep (recorded sock) b s = if rest' = [] then .inr (.finished, s') else .inl s' := by
  obtain ⟨rest, hrest, hwindow⟩ := h.left
  have hread : readAt b.buffer s.start b.end_ = some rest := by
    rw [h.unread hb, hwindow, List.drop_left]
  have hlength := length_window hb
  have hend := hb.end_
  have hbound := hb.bound
  have hstart := h.start
  rw [hwindow, List.length_append] at hlength
  have hpos : 0 < rest.length := List.length_pos_iff.mpr hrest
  have htodo : sizeSub b.end_ s.start = rest.length := by
    rw [hstart, sizeSub_of_le (by omega) (by simp only [sizeMax]; omega)]
    omega
  rcases hsend : (recorded sock).send s.world rest with ⟨outcome, world⟩
  cases outcome with
  | failed errno =>
    have herrno := recorded_send_errno hsend
    by_cases hagain : errno = EAGAIN
    · refine .inl ⟨.blocked, world, ?_, recorded_send_failed hsend, .inr rfl⟩
      simp only [writeStep, hread, hsend, hagain, EWOULDBLOCK, EAGAIN, ne_eq, not_true, and_self,
        if_false]
    · refine .inl ⟨.failed, world, ?_, recorded_send_failed hsend,
        .inl ⟨rfl, not_accepting_failed hrest herrno hagain⟩⟩
      have hwould : errno ≠ EWOULDBLOCK := hagain
      simp only [writeStep, hread, hsend, ne_eq, hagain, hwould, not_false_iff, and_self, if_true]
  | sent size =>
    obtain ⟨hinner, hworld⟩ := recorded_sent hsend
    have hsize : size ≤ rest.length := hsock.send _ _ _ hinner
    have htaken : (sent ++ rest.take size).length = sent.length + size := by
      rw [List.length_append, List.length_take, Nat.min_eq_left hsize]
    have hadd : sizeAdd s.start size = b.start + (sent ++ rest.take size).length := by
      rw [hstart, sizeAdd_of_lt (by simp only [sizeMax]; omega), htaken]
      omega
    refine .inr ⟨sent ++ rest.take size, rest.drop size, ⟨world, sizeAdd s.start size⟩,
      by rw [hadd], ?_, ?_, ?_, ?_⟩
    · rw [hworld, h.log, List.append_assoc]
    · rw [hwindow, List.append_assoc, List.take_append_drop]
    · intro haccepting
      have hsome := haccepting.pos hrest hinner
      omega
    · simp only [writeStep, hread, hsend, htodo, List.drop_eq_nil_iff]
      by_cases hall : size = rest.length
      · rw [if_pos hall, if_pos (Nat.le_of_eq hall.symm)]
      · rw [if_neg hall, if_neg (by omega)]

theorem Sending.again (hsock : Honest sock) (hb : b.WellFormed) {sent : List UInt8}
    {s s' : WriteState (Log σ)} (h : Sending b R S sent s)
    (hs : writeStep (recorded sock) b s = .inl s') :
    ∃ sent', Sending b R S sent' s' ∧ (Accepting sock → sent.length < sent'.length) := by
  obtain ⟨why, world, hstep, -⟩ | ⟨sent', rest', t, ht, hlog, hwindow, hmore, hstep⟩ :=
    h.step hsock hb
  · cases hstep.symm.trans hs
  · rw [hstep] at hs
    split at hs <;> cases hs
    rename_i hrest
    exact ⟨sent', ⟨congrArg WriteState.start ht, hlog, rest', hrest, hwindow⟩, hmore⟩

theorem sending_start (hne : b.window ≠ []) :
    Sending b R S [] (⟨(w, R, S), b.start⟩ : WriteState (Log σ)) :=
  ⟨rfl, by rw [List.append_nil], b.window, hne, rfl⟩

theorem sending_of_reaches (hsock : Honest sock) (hb : b.WellFormed) (hne : b.window ≠ [])
    {s : WriteState (Log σ)}
    (h : Reaches (writeStep (recorded sock) b) ⟨(w, R, S), b.start⟩ s) :
    ∃ sent, Sending b R S sent s := by
  refine h.invariant (fun s => ∃ sent, Sending b R S sent s) ?_ ⟨[], sending_start hne⟩
  rintro s s' ⟨sent, hsending⟩ hs
  obtain ⟨sent', hsending', -⟩ := hsending.again hsock hb hs
  exact ⟨sent', hsending'⟩

variable {c c' : ConnectionInformation} {fate : Fate}

def afterSending (c : ConnectionInformation) (n : Nat) : ConnectionInformation :=
  { c with
    state := if c.buffer.window.drop n = [] then .waitingRequest else c.state
    buffer := advance c.buffer n }

theorem writeResponse_spec (hsock : Honest sock) (hb : c.buffer.WellFormed)
    (hne : c.buffer.window ≠ [])
    (h : writeResponse fuel (recorded sock) c (w, R, S) = some (fate, world)) :
    ∃ sent rest, c.buffer.window = sent ++ rest ∧ world.2 = (R, S ++ sent) ∧
      (fate = .destroyed ∨ fate = .alive (afterSending c sent.length)) := by
  obtain ⟨⟨why, s⟩, hiter, h⟩ := Option.bind_eq_some_iff.mp h
  have hends : Ends (writeStep (recorded sock) c.buffer) ⟨(w, R, S), c.buffer.start⟩ (why, s) :=
    ⟨fuel, hiter⟩
  obtain ⟨t, ⟨sent, ht⟩, hs⟩ := hends.rule (fun s => ∃ sent, Sending c.buffer R S sent s) (by
    rintro s s' ⟨sent, hsending⟩ hs
    obtain ⟨sent', hsending', -⟩ := hsending.again hsock hb hs
    exact ⟨sent', hsending'⟩) ⟨[], sending_start hne⟩
  obtain ⟨why', world', hstep, hlog, hwhy⟩ | ⟨sent', rest', t', ht', hlog, hwindow, -, hstep⟩ :=
    ht.step hsock hb
  · obtain ⟨rest, hrest, hwindow⟩ := ht.left
    cases hstep.symm.trans hs
    refine ⟨sent, rest, hwindow, ?_⟩
    obtain ⟨rfl, -⟩ | rfl := hwhy
    · cases h
      exact ⟨hlog.trans ht.log, .inl rfl⟩
    · cases h
      refine ⟨hlog.trans ht.log, .inr ?_⟩
      rw [afterSending, hwindow, List.drop_left, if_neg hrest, advance, ← ht.start]
  · rw [hstep] at hs
    split at hs <;> cases hs
    rename_i hrest
    cases h
    refine ⟨sent', rest', hwindow, hlog, .inr ?_⟩
    rw [afterSending, hwindow, List.drop_left, if_pos hrest, advance]
    have hstart := congrArg WriteState.start ht'
    simp only at hstart
    rw [hstart]

/-- The send loop ends with the connection alive if `send` always accepts
something or finds no room. -/
theorem writeResponse_returns (hsock : Honest sock) (haccepting : Accepting sock)
    (hb : c.buffer.WellFormed) (hne : c.buffer.window ≠ []) :
    ∃ fuel c' world, writeResponse fuel (recorded sock) c (w, R, S) = some (.alive c', world) := by
  have hends : ∃ exit, Ends (writeStep (recorded sock) c.buffer) ⟨(w, R, S), c.buffer.start⟩ exit :=
    ends_of_variant (fun s => ∃ sent, Sending c.buffer R S sent s)
      (fun s => c.buffer.end_ - s.start) (by
      rintro s s' ⟨sent, hsending⟩ hs
      obtain ⟨sent', hsending', hmore⟩ := hsending.again hsock hb hs
      refine ⟨⟨sent', hsending'⟩, ?_⟩
      have hlt := hmore haccepting
      have hlength := length_window hb
      obtain ⟨rest, hrest, hwindow⟩ := hsending'.left
      have hpos : 0 < rest.length := List.length_pos_iff.mpr hrest
      rw [hwindow, List.length_append] at hlength
      rw [hsending.start, hsending'.start]
      omega) ⟨[], sending_start hne⟩
  obtain ⟨⟨why, s⟩, hend⟩ := hends
  obtain ⟨t, ⟨sent, ht⟩, hs⟩ := hend.rule (fun s => ∃ sent, Sending c.buffer R S sent s) (by
    rintro s s' ⟨sent, hsending⟩ hs
    obtain ⟨sent', hsending', -⟩ := hsending.again hsock hb hs
    exact ⟨sent', hsending'⟩) ⟨[], sending_start hne⟩
  obtain ⟨fuel, hfuel⟩ := hend
  refine ⟨fuel, ?_⟩
  rw [writeResponse, hfuel]
  obtain ⟨why', world', hstep, -, ⟨-, hnot⟩ | rfl⟩ | ⟨sent', rest', t', -, -, -, -, hstep⟩ :=
    ht.step hsock hb
  · exact absurd haccepting hnot
  · cases hstep.symm.trans hs
    exact ⟨_, _, rfl⟩
  · rw [hstep] at hs
    split at hs <;> cases hs
    exact ⟨_, _, rfl⟩

end Hss.Transfer
