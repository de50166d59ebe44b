import Hss.Server.Session

namespace Hss.Edge

open Hss.CString Hss.Request Hss.Response Hss.DescriptorList Hss.Transaction Hss.Range Hss.Loop
  Hss.Acceptance Hss.Transport Hss.ReadLoop Hss.ReceiveBuffer Hss.Connection Hss.Transfer Hss.Exchange
  Hss.Session

/-- What happens on the other side of a connection: bytes arrive, or send space
becomes free; neither happens with no byte. -/
inductive Happening
  | arrival (byte : UInt8) (rest : List UInt8)
  | acknowledgement (more : Nat)
  deriving DecidableEq, Repr

/-- The kernel's side of a registered connection: the receive queue, the free
send space, whether an edge is armed, and what is going to happen before each of
the next system calls. -/
structure Kernel where
  queue : List UInt8
  space : Nat
  edge : Bool
  script : List (List Happening)
  deriving DecidableEq, Repr

def Kernel.apply (k : Kernel) : Happening → Kernel
  | .arrival byte rest => { k with queue := k.queue ++ byte :: rest, edge := true }
  | .acknowledgement more => { k with space := k.space + (more + 1), edge := true }

def Kernel.happen (k : Kernel) (happenings : List Happening) : Kernel :=
  happenings.foldl Kernel.apply k

def Kernel.now (k : Kernel) : Kernel :=
  { k.happen (k.script.headD []) with script := k.script.tail }

def kernel : Socket Kernel where
  recv k n :=
    if k.now.queue = [] then (.failed EAGAIN, k.now)
    else (.received (k.now.queue.take n), { k.now with queue := k.now.queue.drop n })
  send k bytes :=
    if k.now.space = 0 then (.failed EAGAIN, k.now)
    else (.sent (min k.now.space bytes.length),
      { k.now with space := k.now.space - min k.now.space bytes.length })

def Kernel.event (k : Kernel) : Event := ⟨k.queue ≠ [], k.space ≠ 0⟩

def Kernel.deliver (k : Kernel) (script : List (List Happening)) : Kernel :=
  { k with edge := false, script }

def Kernel.Watched (k : Kernel) : Prop := k.edge = false → k.queue = []

theorem honest_kernel : Honest kernel where
  recv k n bytes h := by
    by_cases hempty : k.now.queue = []
    · simp only [kernel, if_pos hempty, reduceCtorEq] at h
    · simp only [kernel, if_neg hempty, RecvOutcome.received.injEq] at h
      rw [← h, List.length_take]
      exact Nat.min_le_left _ _
  send k bytes size h := by
    by_cases hfull : k.now.space = 0
    · simp only [kernel, if_pos hfull, reduceCtorEq] at h
    · simp only [kernel, if_neg hfull, SendOutcome.sent.injEq] at h
      rw [← h]
      exact Nat.min_le_right _ _

variable {k : Kernel} {happenings : List Happening}

theorem edge_apply (k : Kernel) (happening : Happening) : (k.apply happening).edge = true := by
  cases happening <;> rfl

theorem edge_happen (h : k.edge = true ∨ happenings ≠ []) : (k.happen happenings).edge = true := by
  induction happenings generalizing k with
  | nil => exact h.resolve_right fun hne => hne rfl
  | cons first rest ih => exact ih (.inl (edge_apply k first))

theorem now_of_quiet (h : k.script.headD [] = []) : k.now = { k with script := k.script.tail } := by
  rw [Kernel.now, h, Kernel.happen, List.foldl_nil]

theorem watched_now (h : k.Watched ∨ k.script.headD [] ≠ []) : k.now.Watched := by
  by_cases hquiet : k.script.headD [] = []
  · rw [now_of_quiet hquiet]
    exact h.resolve_right fun hne => hne hquiet
  · intro hedge
    have harmed : k.now.edge = true := edge_happen (.inr hquiet)
    rw [harmed] at hedge
    cases hedge

abbrev World := Log Kernel

variable {memory : Memory} {b : Buffer} {world world' : World} {fuel : Nat} {received : Received}

/-- Where the receive loop stops to wait, the queue has been read empty. -/
theorem drained_watched {s s' : ReadState World}
    (h : readStep (recorded kernel) s = .inr (.drained, s')) : s'.world.1.Watched := by
  by_cases hempty : s.world.1.now.queue = []
  · have hrecv : (recorded kernel).recv s.world (bufferPageSize - s.offset) =
        (.failed EAGAIN, s.world.1.now, s.world.2) := by
      simp only [recorded, kernel, if_pos hempty]
    rw [readStep_failed hrecv, if_pos rfl] at h
    cases h
    exact fun _ => hempty
  · simp only [readStep, recorded, kernel, if_neg hempty] at h
    split at h
    · cases h
    · split at h
      · cases h
      · split at h <;> cases h

theorem receive_watched
    (h : receive fuel (recorded kernel) memory b world = some (received, world'))
    (hkept : received ≠ .destroyed) (hsafe : received ≠ .crashed) : world'.1.Watched := by
  obtain ⟨⟨why, s⟩, hiter, h⟩ := Option.bind_eq_some_iff.mp h
  cases why with
  | failed =>
    cases h
    exact absurd rfl hkept
  | closed =>
    cases h
    exact absurd rfl hkept
  | overrun =>
    cases h
    exact absurd rfl hsafe
  | drained =>
    have hends : Ends (readStep (recorded kernel)) (readStart world) (.drained, s) := ⟨fuel, hiter⟩
    obtain ⟨t, -, hstep⟩ := hends.rule (fun _ => True) (fun _ _ _ _ => trivial) trivial
    have hworld : world' = s.world := by
      simp only at h
      split at h
      · cases h
        rfl
      · split at h <;> cases h <;> rfl
    rw [hworld]
    exact drained_watched hstep

variable {bytes : List UInt8} {c c' : ConnectionInformation} {fate : Fate}

theorem writeStep_kernel {s : WriteState World} (hread : readAt b.buffer s.start b.end_ = some bytes) :
    writeStep (recorded kernel) b s =
      if s.world.1.now.space = 0 then .inr (.blocked, ⟨(s.world.1.now, s.world.2), s.start⟩)
      else
        let size := min s.world.1.now.space bytes.length
        let s' : WriteState World :=
          ⟨({ s.world.1.now with space := s.world.1.now.space - size }, s.world.2.1,
            s.world.2.2 ++ bytes.take size), sizeAdd s.start size⟩
        if size = sizeSub b.end_ s.start then .inr (.finished, s') else .inl s' := by
  by_cases hfull : s.world.1.now.space = 0
  · simp only [writeStep, hread, recorded, kernel, if_pos hfull, EAGAIN, EWOULDBLOCK, ne_eq,
      not_true, and_self, if_false]
  · simp only [writeStep, hread, recorded, kernel, if_neg hfull]

structure Short (b : Buffer) (s : WriteState World) : Prop where
  wellFormed : b.WellFormed
  start : b.start ≤ s.start
  left : s.start < b.end_
  space : s.world.1.space < b.end_ - s.start

/-- Sending from here does not end before a change arms an edge, unless nothing
is in the queue. -/
def Safe (b : Buffer) (s : WriteState World) : Prop :=
  s.world.1.Watched ∨ s.world.1.script.headD [] ≠ [] ∨ Short b s

theorem Short.read {s : WriteState World} (h : Short b s) :
    readAt b.buffer s.start b.end_ = some (slice b.buffer s.start b.end_) ∧
      (slice b.buffer s.start b.end_).length = b.end_ - s.start ∧
      sizeSub b.end_ s.start = b.end_ - s.start := by
  have hleft := h.left
  have hend := h.wellFormed.end_
  have hblock := h.wellFormed.block
  have hbound := h.wellFormed.bound
  refine ⟨if_pos ⟨Nat.le_of_lt hleft, by omega⟩, ?_, ?_⟩
  · rw [slice, List.length_drop, List.length_take]
    omega
  · exact sizeSub_of_le (Nat.le_of_lt hleft) (by simp only [sizeMax]; omega)

/-- With too little space and nothing happening, a part is sent and no space left. -/
theorem Short.step {s : WriteState World} (h : Short b s) (hquiet : s.world.1.script.headD [] = []) :
    (∃ s', writeStep (recorded kernel) b s = .inr (.blocked, s')) ∨
      ∃ s', writeStep (recorded kernel) b s = .inl s' ∧ Short b s' := by
  obtain ⟨hread, hlength, hsub⟩ := h.read
  have hspace := h.space
  have hend := h.wellFormed.end_
  have hbound := h.wellFormed.bound
  have hnow : s.world.1.now.space = s.world.1.space := by rw [now_of_quiet hquiet]
  rw [writeStep_kernel hread, hnow, hlength, hsub, Nat.min_eq_left (Nat.le_of_lt hspace)]
  by_cases hfull : s.world.1.space = 0
  · rw [if_pos hfull]
    exact .inl ⟨_, rfl⟩
  · have hpart : s.world.1.space ≠ b.end_ - s.start := Nat.ne_of_lt hspace
    have hadd : sizeAdd s.start s.world.1.space = s.start + s.world.1.space :=
      sizeAdd_of_lt (by simp only [sizeMax]; omega)
    simp only [if_neg hfull, if_neg hpart, hadd]
    refine .inr ⟨_, rfl, h.wellFormed, ?_, ?_, ?_⟩
    · have hstart := h.start
      simp only
      omega
    · simp only
      omega
    · simp only
      omega

theorem watched_step {s : WriteState World} (h : s.world.1.Watched ∨ s.world.1.script.headD [] ≠ []) :
    (∀ s', writeStep (recorded kernel) b s = .inl s' → s'.world.1.Watched) ∧
      ∀ s', writeStep (recorded kernel) b s = .inr (.finished, s') → s'.world.1.Watched := by
  have hnow := watched_now h
  cases hread : readAt b.buffer s.start b.end_ with
  | none => simp only [writeStep, hread, reduceCtorEq, Sum.inr.injEq, Prod.mk.injEq, false_and,
      false_implies, implies_true, and_self]
  | some bytes =>
    rw [writeStep_kernel hread]
    constructor <;> intro s' hs <;> split at hs
    · cases hs
    · simp only at hs
      split at hs <;> cases hs
      exact hnow
    · cases hs
    · simp only at hs
      split at hs <;> cases hs
      exact hnow

theorem writeResponse_watched (hsafe : Safe c.buffer ⟨world, c.buffer.start⟩)
    (hstate : c.state = .writingResponse)
    (h : writeResponse fuel (recorded kernel) c world = some (.alive c', world'))
    (hdone : c'.state = .waitingRequest) : world'.1.Watched := by
  obtain ⟨⟨why, s⟩, hiter, h⟩ := Option.bind_eq_some_iff.mp h
  have hends : Ends (writeStep (recorded kernel) c.buffer) ⟨world, c.buffer.start⟩ (why, s) :=
    ⟨fuel, hiter⟩
  obtain ⟨t, ht, hstep⟩ := hends.rule (Safe c.buffer) (by
    intro s s' hs hstep
    by_cases hcalm : s.world.1.Watched ∨ s.world.1.script.headD [] ≠ []
    · exact .inl ((watched_step hcalm).1 s' hstep)
    · obtain ⟨t, ht⟩ | ⟨t, ht, hshort⟩ := ((or_assoc.mpr hs).resolve_left hcalm).step
        (not_not.mp fun hne => hcalm (.inr hne))
      · cases ht.symm.trans hstep
      · cases ht.symm.trans hstep
        exact .inr (.inr hshort)) hsafe
  cases why with
  | finished =>
    cases h
    by_cases hcalm : t.world.1.Watched ∨ t.world.1.script.headD [] ≠ []
    · exact (watched_step hcalm).2 s hstep
    · obtain ⟨t', ht'⟩ | ⟨t', ht', -⟩ := ((or_assoc.mpr ht).resolve_left hcalm).step
        (not_not.mp fun hne => hcalm (.inr hne))
      · cases ht'.symm.trans hstep
      · cases ht'.symm.trans hstep
  | blocked =>
    cases h
    rw [hstate] at hdone
    cases hdone
  | failed => cases h
  | outside => cases h

theorem writeResponse_at_once (hb : c.buffer.WellFormed) (hne : c.buffer.window ≠ [])
    (hquiet : world.1.script.headD [] = []) (hspace : c.buffer.window.length ≤ world.1.space)
    (h : writeResponse fuel (recorded kernel) c world = some (fate, world')) :
    ∃ c', fate = .alive c' ∧ c'.state = .waitingRequest ∧ world'.1.queue = world.1.queue ∧
      world'.1.edge = world.1.edge := by
  obtain ⟨⟨why, s⟩, hiter, h⟩ := Option.bind_eq_some_iff.mp h
  have hends : Ends (writeStep (recorded kernel) c.buffer) ⟨world, c.buffer.start⟩ (why, s) :=
    ⟨fuel, hiter⟩
  have hpos : 0 < c.buffer.window.length := List.length_pos_iff.mpr hne
  have hend := hb.end_
  have hbound := hb.bound
  have hsub : sizeSub c.buffer.end_ c.buffer.start = c.buffer.window.length := by
    rw [sizeSub_of_le hb.start (by simp only [sizeMax]; omega), length_window hb]
  have hnow : world.1.now.space = world.1.space := by rw [now_of_quiet hquiet]
  have hroom : ¬ world.1.space = 0 := by omega
  have hstep := writeStep_kernel (s := ⟨world, c.buffer.start⟩) (readAt_window hb)
  simp only [hnow, if_neg hroom, Nat.min_eq_right hspace, hsub, if_true] at hstep
  obtain ⟨rfl, rfl⟩ := Prod.mk.inj (hends.unique (.leave hstep))
  cases h
  refine ⟨_, rfl, rfl, ?_, ?_⟩
  · simp only [now_of_quiet hquiet]
  · simp only [now_of_quiet hquiet]

variable {env : Environment} {globals : Globals} {call : Call World}

theorem serve_watched (hwatched : world.1.Watched)
    (h : serve fuel (recorded kernel) env globals c world = some call)
    (halive : call.fate = .alive c') (hdone : c'.state = .waitingRequest) :
    call.world.1.Watched := by
  cases serving_of_serve h with
  | unparsed | unanswered => cases halive
  | incomplete => exact hwatched
  | answered _ _ hrespond hwrite =>
    cases halive
    exact writeResponse_watched (.inl hwatched) (respond_cases hrespond).2.2 hwrite hdone

structure System where
  connection : ConnectionInformation
  kernel : Kernel

def Handled (before : System) (script : List (List Happening)) (after : System) : Prop :=
  before.kernel.edge = true ∧ ∃ fuel env globals call,
    handleConnection fuel (recorded kernel) env globals before.kernel.event before.connection
      (before.kernel.deliver script, [], []) = some call ∧
    call.fate = .alive after.connection ∧ call.world.1 = after.kernel

/-- The connection waits for a request, and what has arrived will be read. -/
def NoLostEdge (s : System) : Prop := s.connection.state = .waitingRequest → s.kernel.Watched

/-- A response is going to be sent completely, with bytes in the queue and
nothing to arm an edge for them. -/
def Hazard (s : System) (script : List (List Happening)) : Prop :=
  s.connection.state = .writingResponse ∧ s.kernel.queue ≠ [] ∧ script.headD [] = [] ∧
    s.connection.buffer.window.length ≤ s.kernel.space

variable {s s' : System} {script : List (List Happening)} {v : View}

theorem handled_waiting (hstate : s.connection.state = .waitingRequest)
    (h : Handled s script s') : NoLostEdge s' := by
  obtain ⟨-, fuel, env, globals, call, hcall, halive, hkernel⟩ := h
  intro hdone
  rw [← hkernel]
  have hin : s.kernel.event.epollin = false → s.kernel.queue = [] := by
    intro hnone
    exact not_not.mp (of_decide_eq_false hnone)
  simp only [handleConnection, hstate, reduceCtorEq, and_true, and_false, if_false] at hcall
  by_cases hread : s.kernel.event.epollin = false
  · rw [if_pos hread] at hcall
    cases hcall
    exact fun _ => hin hread
  · rw [if_neg hread] at hcall
    obtain ⟨⟨received, world⟩, hreceive, hcall⟩ := Option.bind_eq_some_iff.mp hcall
    cases received with
    | idle =>
      cases hcall
      exact receive_watched hreceive (by simp) (by simp)
    | destroyed =>
      cases hcall
      cases halive
    | crashed =>
      cases hcall
      cases halive
    | stored buffer =>
      exact serve_watched (receive_watched hreceive (by simp) (by simp)) hcall halive hdone

theorem handled_writing (hrep : Represents s.connection v)
    (hstate : s.connection.state = .writingResponse) (h : Handled s script s') :
    NoLostEdge s' ↔ ¬ Hazard s script := by
  obtain ⟨-, fuel, env, globals, call, hcall, halive, hkernel⟩ := h
  obtain ⟨hunsent, hwindow, -⟩ := hrep.writing hstate
  have hne : s.connection.buffer.window ≠ [] := hwindow ▸ hunsent
  have hpos : 0 < s.connection.buffer.window.length := List.length_pos_iff.mpr hne
  have hout : s.kernel.event.epollout = false → s.kernel.space = 0 := by
    intro hnone
    exact not_not.mp (of_decide_eq_false hnone)
  simp only [handleConnection, hstate, reduceCtorEq, and_true, and_false, if_false] at hcall
  by_cases hwrite : s.kernel.event.epollout = false
  · rw [if_pos hwrite] at hcall
    cases hcall
    have hsame : s.connection = s'.connection := Fate.alive.inj halive
    constructor
    · rintro - ⟨-, -, -, hspace⟩
      have hzero := hout hwrite
      omega
    · rintro - hdone
      rw [← hsame, hstate] at hdone
      cases hdone
  · rw [if_neg hwrite] at hcall
    obtain ⟨⟨fate, world⟩, hsend, hcall⟩ := Option.bind_eq_some_iff.mp hcall
    cases hcall
    simp only at halive hkernel
    subst halive
    constructor
    · rintro hkept ⟨-, hqueue, hquiet, hspace⟩
      obtain ⟨c', hfate, hdone, hsame, hedge⟩ :=
        writeResponse_at_once hrep.buffer hne hquiet hspace hsend
      cases hfate
      have hnone := hkept hdone (by rw [← hkernel, hedge]; rfl)
      rw [← hkernel, hsame] at hnone
      exact hqueue hnone
    · intro hclear hdone
      rw [← hkernel]
      refine writeResponse_watched ?_ hstate hsend hdone
      by_cases hqueue : s.kernel.queue = []
      · exact .inl fun _ => hqueue
      · by_cases hquiet : script.headD [] = []
        · have hspace : s.kernel.space < s.connection.buffer.window.length :=
            Nat.lt_of_not_le fun hle => hclear ⟨hstate, hqueue, hquiet, hle⟩
          rw [length_window hrep.buffer] at hspace hpos
          exact .inr (.inr ⟨hrep.buffer, Nat.le_refl _, by simp only; omega, hspace⟩)
        · exact .inr (.inl hquiet)

theorem handled_iff (hrep : Represents s.connection v) (h : Handled s script s') :
    NoLostEdge s' ↔ ¬ Hazard s script := by
  cases hstate : s.connection.state with
  | waitingRequest =>
    refine iff_of_true (handled_waiting hstate h) ?_
    rintro ⟨hwriting, -⟩
    rw [hstate] at hwriting
    cases hwriting
  | writingResponse => exact handled_writing hrep hstate h

theorem handled_represents (hrep : Represents s.connection v) (h : Handled s script s') :
    ∃ v', Represents s'.connection v' := by
  obtain ⟨-, fuel, env, globals, call, hcall, halive, -⟩ := h
  obtain ⟨_, sent, _, -, -, -, hnext⟩ := call_turn honest_kernel hrep hcall
  obtain ⟨-, v', -, -, hrep'⟩ := hnext _ halive
  exact ⟨v'.sent sent.length, hrep'⟩

/-- A call of `handle_connection`: where it is entered, what happens in it and
where it returns. -/
structure Visit where
  before : System
  script : List (List Happening)
  after : System

/-- Any order of happenings and calls since the connection was registered. -/
inductive Run : System → List Visit → Prop
  | registered (type : FileDescriptorType) (request : HttpRequest) (response : HttpResponse)
      (queue : List UInt8) (space : Nat) :
      Run ⟨initializeConnectionInformation type request response, ⟨queue, space, true, []⟩⟩ []
  | happen {s : System} {visits : List Visit} (happening : Happening) : Run s visits →
      Run ⟨s.connection, s.kernel.apply happening⟩ visits
  | handle {s s' : System} {visits : List Visit} {script : List (List Happening)} : Run s visits →
      Handled s script s' → Run s' (visits ++ [⟨s, script, s'⟩])

def Visit.Clear (v : Visit) : Prop := ¬ Hazard v.before v.script

variable {visits : List Visit}

theorem Run.represented (h : Run s visits) : ∃ v, Represents s.connection v := by
  induction h with
  | registered type request response _ _ =>
    exact ⟨.fresh, represents_fresh type request response⟩
  | happen happening _ ih => exact ih
  | handle _ hhandled ih =>
    obtain ⟨v, hrep⟩ := ih
    exact handled_represents hrep hhandled

theorem Run.visit (h : Run s visits) :
    ∀ v ∈ visits, NoLostEdge v.after ↔ v.Clear := by
  induction h with
  | registered =>
    intro visit hvisit
    cases hvisit
  | happen _ _ ih => exact ih
  | handle hrun hhandled ih =>
    intro visit hvisit
    obtain hvisit | hvisit := List.mem_append.mp hvisit
    · exact ih visit hvisit
    · obtain ⟨v, hrep⟩ := hrun.represented
      rw [List.mem_singleton.mp hvisit]
      exact handled_iff hrep hhandled

theorem Run.reached (h : Run s visits) (hclear : ∀ v ∈ visits, v.Clear) : NoLostEdge s := by
  induction h with
  | registered => exact fun _ hedge => by cases hedge
  | happen happening _ _ =>
    intro _ hedge
    cases (edge_apply _ happening).symm.trans hedge
  | @handle s s' visits script hrun hhandled _ =>
    have hlast : ⟨s, script, s'⟩ ∈ visits ++ [⟨s, script, s'⟩] :=
      List.mem_append_right visits (List.mem_singleton_self _)
    exact ((Run.handle hrun hhandled).visit _ hlast).mpr (hclear _ hlast)

/-- No read edge is lost in a run, exactly if no call sends the rest of a
response with bytes in the queue and no change to arm an edge. -/
theorem no_lost_edge_iff (h : Run s visits) :
    ((∀ v ∈ visits, NoLostEdge v.after) ↔ ∀ v ∈ visits, v.Clear) ∧
      ((∀ v ∈ visits, v.Clear) → NoLostEdge s) := by
  refine ⟨?_, h.reached⟩
  constructor
  · intro hkept v hv
    exact (h.visit v hv).mp (hkept v hv)
  · intro hclear v hv
    exact (h.visit v hv).mpr (hclear v hv)

def requested (space : Nat) : System := ⟨accepted .tcpSocket, ⟨rootRequest, space, true, []⟩⟩

theorem run_requested (space : Nat) : Run (requested space) [] :=
  .registered .tcpSocket freshBlock freshResponse rootRequest space

def handleNow (s : System) : Option (Call World) :=
  handleConnection 9 (recorded kernel) ⟨roomy, smallHost⟩ firstGlobals s.kernel.event s.connection
    (s.kernel.deliver [], [], [])

theorem handled_now {call : Call World} (hedge : s.kernel.edge = true)
    (hcall : handleNow s = some call) {c : ConnectionInformation} (halive : call.fate = .alive c) :
    Handled s [] ⟨c, call.world.1⟩ :=
  ⟨hedge, 9, ⟨roomy, smallHost⟩, firstGlobals, call, hcall, halive, rfl⟩

theorem now_redirected : handleNow (requested 1000) = some ⟨.alive redirected,
    (⟨[], 888, false, []⟩, rootRequest, redirectText), firstGlobals, some rootRequest,
    some redirectText, none⟩ := by
  decide +kernel

theorem no_lost_edge_one_request : NoLostEdge ⟨redirected, ⟨[], 888, false, []⟩⟩ := by
  have hhandled := handled_now (s := requested 1000) rfl now_redirected rfl
  refine (no_lost_edge_iff ((run_requested 1000).handle hhandled)).2 ?_
  intro v hv
  rw [List.mem_singleton.mp hv]
  rintro ⟨hwriting, -⟩
  cases hwriting

def blocked : ConnectionInformation :=
  { redirected with state := .writingResponse, buffer := ⟨redirectText, 112, 5, 112⟩ }

theorem now_blocked : handleNow (requested 5) = some ⟨.alive blocked,
    (⟨[], 0, false, []⟩, rootRequest, redirectText.take 5), firstGlobals, some rootRequest,
    some redirectText, none⟩ := by
  decide +kernel

theorem now_lost : handleNow ⟨blocked, ⟨rootRequest, 1000, true, []⟩⟩ = some ⟨.alive redirected,
    (⟨rootRequest, 893, false, []⟩, [], redirectText.drop 5), firstGlobals, none, none, none⟩ := by
  decide +kernel

/-- The event that reports both the next request and new space is used up by the
rest of the response. -/
theorem request_left_behind : ∃ s visits, Run s visits ∧ ¬ NoLostEdge s ∧
    s.kernel.queue = rootRequest := by
  have hblocked := (run_requested 5).handle (handled_now rfl now_blocked rfl)
  have harrived := (hblocked.happen (.arrival 71 rootRequest.tail)).happen (.acknowledgement 999)
  refine ⟨_, _, harrived.handle (handled_now rfl now_lost rfl), ?_, rfl⟩
  intro hkept
  have hempty := hkept rfl rfl
  cases hempty

end Hss.Edge
