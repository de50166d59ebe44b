import Hss.Http.Building
import Hss.Http.HeaderHeap
import Hss.Lib.Simulation

namespace Hss.ResponseHeap

open Hss.CString Hss.Headers Hss.Response Hss.Heap Hss.HeaderHeap Hss.Encoding
  Hss.Simulation

structure Object where
  code : HttpResponseCode
  description : Option Address
  descriptionLength : Nat
  headerList : Option Address
  body : Option Address
  bodyLength : Nat

structure State where
  object : Object
  heap : Blocks Block

def httpResponseInitialize (object : Object) : Object where
  code := object.code
  description := none
  descriptionLength := 0
  headerList := none
  body := none
  bodyLength := 0

def freeOldDescription (s : State) : Option State :=
  if s.object.description ≠ none then
    (free s.object.description s.heap).map fun heap =>
      ⟨{ s.object with descriptionLength := 0 }, heap⟩
  else some s

def httpResponseSetCode (alloc : Allocator Block) (s : State) (code : HttpResponseCode)
    (description : Option (List UInt8)) : Option State :=
  (freeOldDescription s).map fun s =>
    match description.orElse fun _ => getDefaultDescription code with
    | some text =>
      let (target, heap) := malloc alloc (.text (cstr text)) s.heap
      ⟨{ s.object with code, descriptionLength := strlen text, description := some target }, heap⟩
    | none => { s with object := { s.object with code } }

def setHeader (alloc : Allocator Block) (m : Memory) (key value : List UInt8) : Option Memory := do
  let (target, prev) ← lookupHeader m key
  match target with
  | some target =>
    match m.heap.lookup target with
    | some (.header key old next) =>
      let heap ← free old m.heap
      let (value, heap) := malloc alloc (.text (cstr value)) heap
      let heap ← Heap.store target (.header key (some value) next) heap
      some { m with heap }
    | _ => none
  | none =>
    let (target, heap) ← newHeader alloc ⟨cstr key, cstr value⟩ m.heap
    let m := { m with heap }
    let m ← m.store (← m.load prev) (.next target)
    m.store (some target) prev

def httpResponseSetHeader (alloc : Allocator Block) (s : State) (key value : List UInt8) :
    Option State :=
  (setHeader alloc ⟨s.object.headerList, s.heap⟩ key value).map fun m =>
    ⟨{ s.object with headerList := m.headerList }, m.heap⟩

def httpResponseSetBody (alloc : Allocator Block) (s : State) (memory : List UInt8)
    (length : Option Nat) : Option State := do
  let heap ← free s.object.body s.heap
  let length := length.getD (strlen memory)
  if memory.length < length then none
  else
    let (body, heap) := malloc alloc (.text (memory.take length)) heap
    let s : State := ⟨{ s.object with body := some body, bodyLength := length }, heap⟩
    httpResponseSetHeader alloc s (ascii "Content-Length") (decimalText length)

def copied (heap : Blocks Block) (p : Option Address) (n : Nat) : Option (List UInt8) :=
  if n = 0 then some []
  else (textAt heap p).bind fun contents =>
    if contents.length < n then none else some (contents.take n)

def measureResponseSize (s : State) : Option Nat :=
  let startLine :=
    if s.object.descriptionLength ≠ 0 then
      httpVersion.length + stateCodeLength + s.object.descriptionLength + 4
    else httpVersion.length + stateCodeLength + 3
  (foldHeaders ⟨s.object.headerList, s.heap⟩
    (fun size h => size + (strlen h.key + strlen h.value + 4)) startLine).map fun size =>
      size + 2 + s.object.bodyLength

def renderedBytes (s : State) : Option (List UInt8) := do
  let description ← copied s.heap s.object.description s.object.descriptionLength
  let startLine := httpVersion ++ ascii " " ++
    (getRepresentativeStateCode s.object.code).take stateCodeLength ++
    (if s.object.descriptionLength ≠ 0 then ascii " " ++ description else []) ++ ascii "\r\n"
  let head ← foldHeaders ⟨s.object.headerList, s.heap⟩ (fun bytes h => bytes ++ renderHeader h)
    startLine
  let body ← copied s.heap s.object.body s.object.bodyLength
  some (head ++ ascii "\r\n" ++ body)

abbrev Reply := HttpErrorCode × List UInt8 × Nat

def httpResponseRender (alloc : Allocator Block) (s : State) (buffer : Option Nat) :
    Option (Reply × State) :=
  let settled :=
    if s.object.bodyLength = 0 then
      httpResponseSetHeader alloc s (ascii "Content-Length") (ascii "0")
    else some s
  settled.bind fun s => (measureResponseSize s).bind fun size =>
    match buffer with
    | none => some ((.succeed, [], size), s)
    | some length =>
      if length < size then some ((.insufficientBufferSize, [], size), s)
      else (renderedBytes s).map fun bytes => ((.succeed, bytes, size), s)

def httpResponseDestroy (s : State) : Option State := do
  let heap ← free s.object.description s.heap
  let headers ← destroyHeaders ⟨s.object.headerList, heap⟩
  let heap ← free s.object.body headers.heap
  some ⟨httpResponseInitialize s.object, heap⟩

/-- The pointer `description`. One that dangles owns nothing. -/
inductive Described : Option Address → Description → List Cell → Prop
  | null : Described none .null []
  | live (a : Address) (text : List UInt8) : Described (some a) (.live text) [(a, .text text)]
  | freed (a : Address) : Described (some a) .freed []

/-- The object stands for a response; its blocks are the given ones. -/
structure Represents (o : Object) (r : HttpResponse) (cells : List Cell) : Prop where
  code : o.code = r.stateLine.code
  descriptionLength : o.descriptionLength = r.stateLine.descriptionLength
  bodyLength : o.bodyLength = r.body.length
  blocks : ∃ description headers body, cells = description ++ (headers ++ body) ∧
    Described o.description r.stateLine.description description ∧
    Linked o.headerList r.headers headers ∧ Owned o.body r.body.body body

def Tracks (rest : List Cell) (r : HttpResponse) (s : State) : Prop :=
  ∃ cells, Represents s.object r cells ∧ Holds s.heap (cells ++ rest)

variable {alloc : Allocator Block} {rest cells : List Cell} {r r' : HttpResponse} {s : State}

theorem setHeader_of_target {headers : List Header} {key value : List UInt8} {e : Header}
    (h : (Headers.lookupHeader headers key).target = some e) :
    Response.setHeader headers key value = (Headers.lookupHeader headers key).passed ++
      { e with value := cstr value } :: (Headers.lookupHeader headers key).rest.tail := by
  simp only [Response.setHeader, h]

theorem setHeader_of_not_target {headers : List Header} {key value : List UInt8}
    (h : (Headers.lookupHeader headers key).target = none) :
    Response.setHeader headers key value = (Headers.lookupHeader headers key).passed ++
      ⟨cstr key, cstr value⟩ :: (Headers.lookupHeader headers key).rest := by
  simp only [Response.setHeader, h]

theorem replaceValue {m : Memory} {a key old : Address} {next : Option Address} {e : Header}
    (hholds : Holds m.heap (node a key old next e ++ rest)) (alloc : Allocator Block)
    (value : List UInt8) : ∃ heap₁ new heap₂ heap₃, free (some old) m.heap = some heap₁ ∧
      malloc alloc (.text value) heap₁ = (new, heap₂) ∧
      Heap.store a (.header (some key) (some new) next) heap₂ = some heap₃ ∧
      Holds heap₃ (node a key new next { e with value } ++ rest) := by
  have hold : (node a key old next e ++ rest).Perm ((old, .text e.value) ::
      (a, .header (some key) (some old) next) :: (key, .text e.key) :: rest) := by
    refine List.perm_iff_count.mpr fun c => ?_
    simp only [node, List.cons_append, List.nil_append, List.count_cons]
    omega
  obtain ⟨heap₁, hfree, h₁⟩ := (hholds.perm hold).free
  obtain ⟨new, heap₂, hmalloc, h₂⟩ := h₁.malloc alloc (.text value)
  obtain ⟨heap₃, hstore, h₃⟩ :=
    (h₂.perm (.swap _ _ _)).store (.header (some key) (some new) next)
  exact ⟨heap₁, new, heap₂, heap₃, hfree, hmalloc, hstore, h₃.perm (.cons _ (.swap _ _ _))⟩

theorem setHeader_spec {m : Memory} {headers : List Header}
    (h : Linked m.headerList headers cells) (hholds : Holds m.heap (cells ++ rest))
    (alloc : Allocator Block) (key value : List UInt8) :
    ∃ m' cells', setHeader alloc m key value = some m' ∧
      Linked m'.headerList (Response.setHeader headers key value) cells' ∧
      Holds m'.heap (cells' ++ rest) := by
  obtain ⟨link, q, cells₁, cells₂, rfl, hload, hpassed, hbehind, hlookup⟩ :=
    lookupHeader_spec h hholds key
  simp only [setHeader, hlookup, Option.bind_eq_bind, Option.bind_some]
  cases htarget : (Headers.lookupHeader headers key).target with
  | some e =>
    obtain ⟨tail, hrest⟩ := rest_of_target htarget
    rw [hrest] at hbehind
    obtain ⟨final, hbehind⟩ := hbehind
    cases hbehind with
    | @node _ a k old next _ _ cells₂ _ _ hbehind =>
      have hfront : Holds m.heap (node a k old next e ++ (cells₁ ++ cells₂ ++ rest)) := by
        refine hholds.perm (List.perm_iff_count.mpr fun c => ?_)
        simp only [node, List.cons_append, List.nil_append, List.count_append, List.count_cons]
        omega
      obtain ⟨heap₁, new, heap₂, heap₃, hfree, hmalloc, hstore, hheld⟩ :=
        replaceValue hfront alloc (cstr value)
      have hlookup' : m.heap.lookup a = some (.header (some k) (some old) next) :=
        hfront.load List.mem_cons_self
      have hseg : Segment link (some a) ({ e with value := cstr value } :: tail)
          (node a k new next { e with value := cstr value } ++ cells₂) final none := .node hbehind
      rw [setHeader_of_target htarget, hrest]
      refine ⟨{ m with heap := heap₃ }, _, ?_, ⟨final, hpassed.append hseg⟩, hheld.perm ?_⟩
      · simp only [Option.bind_some, hlookup', hfree, hmalloc, hstore]
      · refine List.perm_iff_count.mpr fun c => ?_
        simp only [node, List.cons_append, List.nil_append, List.count_append, List.count_cons]
        omega
  | none =>
    obtain ⟨a, k, v, heap, hnew, hheld⟩ := newHeader_spec hholds alloc ⟨cstr key, cstr value⟩
    have hbeside : Holds heap (cells₁ ++ cells₂ ++
        (node a k v none ⟨cstr key, cstr value⟩ ++ rest)) := by
      refine hheld.perm (List.perm_iff_count.mpr fun c => ?_)
      simp only [List.count_append]
      omega
    obtain ⟨m₁, m', cells', hnext, hstore, hlinked, hheld'⟩ :=
      link_in (m := { m with heap }) hpassed hbehind hbeside
    have hload' : Memory.load { m with heap } link = some q := by
      refine Segment.load (m := { m with heap }) hpassed fun b c hmem => hbeside.load ?_
      exact List.mem_append_left _ (List.mem_append_left _ hmem)
    rw [setHeader_of_not_target htarget]
    refine ⟨m', cells', ?_, hlinked, hheld'⟩
    simp only [Option.bind_none, hnew, hload', hnext, hstore, Option.bind_some]

theorem Tracks.setHeader (h : Tracks rest r s) (alloc : Allocator Block) (key value : List UInt8) :
    ∃ s', httpResponseSetHeader alloc s key value = some s' ∧
      Tracks rest (Response.httpResponseSetHeader r key value) s' := by
  obtain ⟨cells, hrep, hholds⟩ := h
  obtain ⟨description, headers, body, rfl, hdescription, hlinked, hbody⟩ := hrep.blocks
  have hfront : Holds s.heap (headers ++ (description ++ body ++ rest)) := by
    refine hholds.perm (List.perm_iff_count.mpr fun c => ?_)
    simp only [List.count_append]
    omega
  obtain ⟨m, headers', hset, hlinked', hheld⟩ :=
    setHeader_spec (m := ⟨s.object.headerList, s.heap⟩) hlinked hfront alloc key value
  refine ⟨⟨{ s.object with headerList := m.headerList }, m.heap⟩, ?_, _, ⟨hrep.code,
    hrep.descriptionLength, hrep.bodyLength, description, headers', body, rfl, hdescription,
    hlinked', hbody⟩, hheld.perm (List.perm_iff_count.mpr fun c => ?_)⟩
  · rw [httpResponseSetHeader, hset, Option.map_some]
  · simp only [List.count_append]
    omega

/-- Freeing a description that is not freed already leaves a pointer that owns nothing. -/
theorem Described.free {p : Option Address} {d : Description} {heap : Blocks Block}
    (h : Described p d cells) (hfree : freeDescription d = some ())
    (hholds : Holds heap (cells ++ rest)) :
    ∃ heap', Heap.free p heap = some heap' ∧ Holds heap' rest ∧ (p = none ↔ d = .null) := by
  cases h with
  | null => exact ⟨heap, rfl, hholds, fun _ => rfl, fun _ => rfl⟩
  | live a text =>
    rw [List.singleton_append] at hholds
    obtain ⟨heap', hfreed, hheld⟩ := hholds.free
    exact ⟨heap', hfreed, hheld, nofun, nofun⟩
  | freed a => cases hfree

theorem Described.not_live {p : Option Address} {d : Description} (h : Described p d cells)
    (hd : ∀ text, d ≠ .live text) : cells = [] := by
  cases h with
  | null => rfl
  | live a text => exact absurd rfl (hd text)
  | freed a => rfl

/-- The state line between the two parts of `http_response_set_code`. -/
def withoutText (stateLine : StateLine) : StateLine :=
  if stateLine.description = .null then stateLine
  else { stateLine with description := .freed, descriptionLength := 0 }

theorem Tracks.freeOld (h : Tracks rest r s)
    (hfree : freeDescription r.stateLine.description = some ()) :
    ∃ s', freeOldDescription s = some s' ∧
      Tracks rest { r with stateLine := withoutText r.stateLine } s' := by
  obtain ⟨cells, hrep, hholds⟩ := h
  obtain ⟨text, headers, body, rfl, hdescribed, hlinked, hbody⟩ := hrep.blocks
  rw [List.append_assoc] at hholds
  obtain ⟨heap, hfreed, hheld, hnull⟩ := hdescribed.free hfree hholds
  rw [freeOldDescription, withoutText]
  by_cases hnone : s.object.description = none
  · rw [if_neg (not_not.mpr hnone), if_pos (hnull.mp hnone)]
    rw [hnone] at hfreed
    cases hfreed
    refine ⟨s, rfl, headers ++ body, ⟨hrep.code, hrep.descriptionLength, hrep.bodyLength, [],
      headers, body, rfl, ?_, hlinked, hbody⟩, hheld⟩
    rw [hnone, hnull.mp hnone]
    exact .null
  · rw [if_pos hnone, if_neg (fun heq => hnone (hnull.mpr heq)), hfreed]
    obtain ⟨a, ha⟩ := Option.ne_none_iff_exists'.mp hnone
    refine ⟨_, rfl, headers ++ body, ⟨hrep.code, rfl, hrep.bodyLength, [], headers, body, rfl, ?_,
      hlinked, hbody⟩, hheld⟩
    rw [ha]
    exact .freed a

theorem Tracks.setText (h : Tracks rest { r with stateLine := withoutText r.stateLine } s)
    (alloc : Allocator Block) (code : HttpResponseCode) (text : List UInt8) :
    ∃ a heap, malloc alloc (.text text) s.heap = (a, heap) ∧
      Tracks rest { r with stateLine := ⟨code, .live text, text.length⟩ }
        ⟨{ s.object with code, descriptionLength := text.length, description := some a }, heap⟩ := by
  obtain ⟨cells, hrep, hholds⟩ := h
  obtain ⟨description, headers, body, rfl, hdescribed, hlinked, hbody⟩ := hrep.blocks
  obtain rfl : description = [] := by
    refine hdescribed.not_live fun t ht => ?_
    by_cases hnull : r.stateLine.description = .null
    · rw [withoutText, if_pos hnull, hnull] at ht
      cases ht
    · rw [withoutText, if_neg hnull] at ht
      cases ht
  obtain ⟨a, heap, hmalloc, hheld⟩ := hholds.malloc alloc (.text text)
  exact ⟨a, heap, hmalloc, _, ⟨rfl, rfl, hrep.bodyLength, [(a, .text text)], headers, body, rfl,
    .live a text, hlinked, hbody⟩, hheld⟩

theorem Tracks.setCode (h : Tracks rest r s) (alloc : Allocator Block) {code : HttpResponseCode}
    {description : Option (List UInt8)}
    (hset : Response.httpResponseSetCode r code description = some r') :
    ∃ s', httpResponseSetCode alloc s code description = some s' ∧ Tracks rest r' s' := by
  obtain ⟨⟨⟩, hfree, hset⟩ := Option.bind_eq_some_iff.mp hset
  obtain ⟨s₁, hs₁, h₁⟩ := h.freeOld hfree
  simp only [httpResponseSetCode, hs₁, Option.map_some]
  cases hset
  cases description.orElse fun _ => getDefaultDescription code with
  | some text =>
    obtain ⟨a, heap, hmalloc, htracks⟩ := h₁.setText alloc code (cstr text)
    simp only [hmalloc]
    exact ⟨_, rfl, htracks⟩
  | none =>
    obtain ⟨cells, hrep, hholds⟩ := h₁
    exact ⟨_, rfl, cells, ⟨rfl, hrep.descriptionLength, hrep.bodyLength, hrep.blocks⟩, hholds⟩

theorem Tracks.setBody (h : Tracks rest r s) (alloc : Allocator Block) {memory : List UInt8}
    {length : Option Nat} (hset : Response.httpResponseSetBody r memory length = some r') :
    ∃ s', httpResponseSetBody alloc s memory length = some s' ∧ Tracks rest r' s' := by
  obtain ⟨cells, hrep, hholds⟩ := h
  obtain ⟨description, headers, body, rfl, hdescribed, hlinked, hbody⟩ := hrep.blocks
  have hfront : Holds s.heap (body ++ (description ++ headers ++ rest)) := by
    refine hholds.perm (List.perm_iff_count.mpr fun c => ?_)
    simp only [List.count_append]
    omega
  obtain ⟨heap, hfree, hheld⟩ := hbody.free hfront
  rw [Response.httpResponseSetBody] at hset
  simp only [httpResponseSetBody, hfree, Option.bind_eq_bind, Option.bind_some]
  split at hset
  · cases hset
  · rename_i hle
    cases hset
    rw [if_neg hle]
    obtain ⟨a, heap', hmalloc, hheld'⟩ :=
      hheld.malloc alloc (.text (memory.take (length.getD (strlen memory))))
    simp only [hmalloc]
    have hbodied : Tracks rest { r with body := ⟨some (memory.take (length.getD (strlen memory))),
        length.getD (strlen memory)⟩ } ⟨{ s.object with
          body := some a
          bodyLength := length.getD (strlen memory) }, heap'⟩ := by
      refine ⟨_, ⟨hrep.code, hrep.descriptionLength, rfl, description, headers, _, rfl, hdescribed,
        hlinked, .block a _⟩, hheld'.perm (List.perm_iff_count.mpr fun c => ?_)⟩
      simp only [List.count_append, List.count_cons, List.count_nil]
      omega
    exact hbodied.setHeader alloc _ _

theorem Tracks.destroy (h : Tracks rest r s) (hdestroy : Response.httpResponseDestroy r = some r') :
    ∃ s', httpResponseDestroy s = some s' ∧ Tracks rest r' s' := by
  obtain ⟨⟨⟩, hfree, hdestroy⟩ := Option.bind_eq_some_iff.mp hdestroy
  cases hdestroy
  obtain ⟨cells, hrep, hholds⟩ := h
  obtain ⟨description, headers, body, rfl, hdescribed, hlinked, hbody⟩ := hrep.blocks
  simp only [List.append_assoc] at hholds
  obtain ⟨heap₁, hfree₁, h₁, -⟩ := hdescribed.free hfree hholds
  obtain ⟨heap₂, hdestroy, h₂⟩ :=
    destroyHeaders_spec (m := ⟨s.object.headerList, heap₁⟩) hlinked h₁
  obtain ⟨heap₃, hfree₃, h₃⟩ := hbody.free h₂
  refine ⟨⟨httpResponseInitialize s.object, heap₃⟩, ?_, [], ⟨hrep.code, rfl, rfl, [], [], [], rfl,
    .null, ⟨.headerList, .nil _ none⟩, .null⟩, h₃⟩
  simp only [httpResponseDestroy, hfree₁, hdestroy, hfree₃, Option.bind_eq_bind, Option.bind_some]

theorem foldl_add (g : Header → Nat) (headers : List Header) (n : Nat) :
    headers.foldl (fun size h => size + g h) n = n + (headers.map g).sum := by
  induction headers generalizing n with
  | nil => rfl
  | cons header headers ih =>
    rw [List.foldl_cons, ih, List.map_cons, List.sum_cons, Nat.add_assoc]

theorem foldl_append (g : Header → List UInt8) (headers : List Header) (bytes : List UInt8) :
    headers.foldl (fun bytes h => bytes ++ g h) bytes = bytes ++ headers.flatMap g := by
  induction headers generalizing bytes with
  | nil => exact (List.append_nil bytes).symm
  | cons header headers ih =>
    rw [List.foldl_cons, ih, List.flatMap_cons, List.append_assoc]

theorem Tracks.measure (h : Tracks rest r s) :
    measureResponseSize s = some (Response.measureResponseSize r) := by
  obtain ⟨cells, hrep, hholds⟩ := h
  obtain ⟨description, headers, body, rfl, -, hlinked, -⟩ := hrep.blocks
  have hfront : Holds s.heap (headers ++ (description ++ body ++ rest)) := by
    refine hholds.perm (List.perm_iff_count.mpr fun c => ?_)
    simp only [List.count_append]
    omega
  have hfold := fun f start => foldHeaders_spec (α := Nat) (m := ⟨s.object.headerList, s.heap⟩)
    hlinked hfront f start
  simp only [measureResponseSize, hfold, foldl_add, Option.map_some, hrep.descriptionLength,
    hrep.bodyLength, Response.measureResponseSize]

theorem copied_text {heap : Blocks Block} {a : Address} {contents : List UInt8}
    (h : heap.lookup a = some (.text contents)) :
    copied heap (some a) contents.length = some contents := by
  rw [copied]
  split
  · rename_i hzero
    rw [List.length_eq_zero_iff.mp hzero]
  · rw [textAt_text h, Option.bind_some, if_neg (Nat.lt_irrefl _), List.take_length]

theorem Described.copied {p : Option Address} {d : Description} {heap : Blocks Block}
    (h : Described p d cells) (hread : Reads heap cells) :
    copied heap p d.text.length = some d.text := by
  cases h with
  | null | freed => rfl
  | live a text => exact copied_text (hread a _ (List.mem_singleton.mpr rfl))

theorem copied_owned {p : Option Address} {contents : Option (List UInt8)} {heap : Blocks Block}
    (h : Owned p contents cells) (hread : Reads heap cells) :
    copied heap p (contents.getD []).length = some (contents.getD []) := by
  cases h with
  | null => rfl
  | block a contents => exact copied_text (hread a _ (List.mem_singleton.mpr rfl))

theorem Tracks.renderedBytes (h : Tracks rest r s) (hsound : Sound r) :
    renderedBytes s = some (Response.renderedBytes r) := by
  obtain ⟨cells, hrep, hholds⟩ := h
  obtain ⟨description, headers, body, rfl, hdescribed, hlinked, hbody⟩ := hrep.blocks
  have hread := reads_of_holds hholds
  have hfront : Holds s.heap (headers ++ (description ++ body ++ rest)) := by
    refine hholds.perm (List.perm_iff_count.mpr fun c => ?_)
    simp only [List.count_append]
    omega
  have hdescription := hdescribed.copied fun a b hmem => hread a b (List.mem_append_left _ hmem)
  have hcopy := copied_owned hbody fun a b hmem =>
    hread a b (List.mem_append_right _ (List.mem_append_right _ hmem))
  have hfold := fun f start => foldHeaders_spec (α := List UInt8)
    (m := ⟨s.object.headerList, s.heap⟩) hlinked hfront f start
  simp only [ResponseHeap.renderedBytes, hrep.code, hrep.descriptionLength, hrep.bodyLength,
    hsound.description, hsound.body, hdescription, hfold, foldl_append, hcopy,
    Response.renderedBytes, List.take_length, Option.bind_eq_bind, Option.bind_some]

theorem sound_settle (h : Sound r) : Sound (settleBody r) where
  description := by
    rw [settleBody_stateLine]
    exact h.description
  body := by
    rw [settleBody_body]
    exact h.body

theorem Tracks.render (h : Tracks rest r s) (hsound : Sound r) (alloc : Allocator Block)
    (buffer : Option Nat) :
    ∃ s', httpResponseRender alloc s buffer = some (((Response.httpResponseRender r buffer).code,
        (Response.httpResponseRender r buffer).bytes,
        (Response.httpResponseRender r buffer).length), s') ∧
      Tracks rest (Response.httpResponseRender r buffer).response s' := by
  obtain ⟨s₁, hs₁, h₁⟩ : ∃ s₁,
      (if s.object.bodyLength = 0 then
        httpResponseSetHeader alloc s (ascii "Content-Length") (ascii "0")
      else some s) = some s₁ ∧ Tracks rest (settleBody r) s₁ := by
    have hlength : s.object.bodyLength = r.body.length := by
      obtain ⟨cells, hrep, -⟩ := h
      exact hrep.bodyLength
    rw [hlength, settleBody]
    split
    · exact h.setHeader alloc _ _
    · exact ⟨s, rfl, h⟩
  have hbytes := h₁.renderedBytes (sound_settle hsound)
  refine ⟨s₁, ?_, ?_⟩
  · simp only [httpResponseRender, hs₁, h₁.measure, Option.bind_some, Response.httpResponseRender]
    cases buffer with
    | none => rfl
    | some length =>
      dsimp only
      split
      · rfl
      · rw [hbytes, Option.map_some]
  · rw [render_response]
    exact h₁

inductive Operation
  | call (call : Call)
  | destroy

def silent : Reply := (.succeed, [], 0)

def perform (r : HttpResponse) : Operation → Option (Reply × HttpResponse)
  | .call (.render buffer) =>
    let rendering := Response.httpResponseRender r buffer
    some ((rendering.code, rendering.bytes, rendering.length), rendering.response)
  | .call call => (call.run r).map (silent, ·)
  | .destroy => (Response.httpResponseDestroy r).map (silent, ·)

def performAt (alloc : Allocator Block) (s : State) : Operation → Option (Reply × State)
  | .call (.setCode code description) =>
    (httpResponseSetCode alloc s code description).map (silent, ·)
  | .call (.setHeader key value) => (httpResponseSetHeader alloc s key value).map (silent, ·)
  | .call (.setBody memory length) => (httpResponseSetBody alloc s memory length).map (silent, ·)
  | .call (.render buffer) => httpResponseRender alloc s buffer
  | .destroy => (httpResponseDestroy s).map (silent, ·)

def textBlocks : Description → Nat
  | .live _ => 1
  | _ => 0

def blockCount (r : HttpResponse) : Nat :=
  textBlocks r.stateLine.description + 3 * r.headers.length + r.body.body.toList.length

theorem Described.length_eq {p : Option Address} {d : Description} (h : Described p d cells) :
    cells.length = textBlocks d := by
  cases h <;> rfl

theorem Represents.length_eq {o : Object} (h : Represents o r cells) :
    cells.length = blockCount r := by
  obtain ⟨description, headers, body, rfl, hdescribed, ⟨link, hheaders⟩, hbody⟩ := h.blocks
  rw [blockCount, ← hdescribed.length_eq, List.length_append, List.length_append, hheaders.length,
    hbody.length_eq]
  omega

def Used (others : List Cell) (r : HttpResponse) (s : State) : Prop := Sound r ∧ Tracks others r s

theorem performAt_follows (alloc : Allocator Block) {others : List Cell} (h : Used others r s)
    {operation : Operation} {reply : Reply} {r' : HttpResponse}
    (hrun : perform r operation = some (reply, r')) :
    ∃ s', performAt alloc s operation = some (reply, s') ∧ Used others r' s' := by
  obtain ⟨hsound, htracks⟩ := h
  cases operation with
  | call call =>
    cases call with
    | setCode code description =>
      obtain ⟨r₁, hset, heq⟩ := Option.map_eq_some_iff.mp hrun
      cases heq
      obtain ⟨s', hset', htracks'⟩ := htracks.setCode alloc hset
      obtain ⟨stateLine, hkept, rfl⟩ := setCode_cases hsound hset
      exact ⟨s', by rw [performAt, hset', Option.map_some], hkept, htracks'⟩
    | setHeader key value =>
      cases hrun
      obtain ⟨s', hset, htracks'⟩ := htracks.setHeader alloc key value
      exact ⟨s', by rw [performAt, hset, Option.map_some],
        ⟨hsound.description, hsound.body⟩, htracks'⟩
    | setBody memory length =>
      obtain ⟨r₁, hset, heq⟩ := Option.map_eq_some_iff.mp hrun
      cases heq
      obtain ⟨s', hset', htracks'⟩ := htracks.setBody alloc hset
      obtain ⟨body, hbody, rfl⟩ := setBody_cases hset
      exact ⟨s', by rw [performAt, hset', Option.map_some],
        ⟨hsound.description, hbody⟩, htracks'⟩
    | render buffer =>
      cases hrun
      obtain ⟨s', hrender, htracks'⟩ := htracks.render hsound alloc buffer
      refine ⟨s', hrender, ?_, htracks'⟩
      rw [render_response]
      exact sound_settle hsound
  | destroy =>
    obtain ⟨r₁, hdestroy, heq⟩ := Option.map_eq_some_iff.mp hrun
    cases heq
    obtain ⟨s', hdestroy', htracks'⟩ := htracks.destroy hdestroy
    obtain ⟨⟨⟩, -, hdestroy⟩ := Option.bind_eq_some_iff.mp hdestroy
    cases hdestroy
    exact ⟨s', by rw [performAt, hdestroy', Option.map_some], ⟨rfl, rfl⟩, htracks'⟩

def fresh (code : HttpResponseCode) : HttpResponse := ⟨⟨code, .null, 0⟩, [], ⟨none, 0⟩⟩

/-- As long as no description is freed twice, the object gives the replies of the response
it stands for, whatever the allocator does: no block is read, written or freed that is not
allocated. The other blocks stay as they are, and there are no more blocks than those of
the object. -/
theorem response_memory (alloc : Allocator Block) (block : Object) (heap : Blocks Block)
    (operations : List Operation) {replies : List Reply} {r : HttpResponse}
    (h : performAll perform (fresh block.code) operations = some (replies, r)) :
    ∃ s, performAll (performAt alloc) ⟨httpResponseInitialize block, heap⟩ operations =
        some (replies, s) ∧
      (∀ a b, heap.lookup a = some b → s.heap.lookup a = some b) ∧
      s.heap.keys.card = heap.keys.card + blockCount r := by
  obtain ⟨others, hothers⟩ := exists_holds heap
  have hstart : Used others (fresh block.code) ⟨httpResponseInitialize block, heap⟩ :=
    ⟨⟨rfl, rfl⟩, [], ⟨rfl, rfl, rfl, [], [], [], rfl, .null, ⟨.headerList, .nil _ none⟩, .null⟩,
      hothers⟩
  obtain ⟨s, hrun, -, cells, hrep, hholds⟩ := performAll_follows
    (R := fun (_ : List Reply) => Used others) (l := []) (fun _ => True) hstart h
    (fun _ _ => trivial) fun _ _ _ _ _ _ h hop _ => performAt_follows alloc h hop
  refine ⟨s, hrun, fun a b hmem => hholds.load ?_, ?_⟩
  · exact List.mem_append_right _ ((hothers.lookup a b).mp hmem)
  · rw [hholds.card, hothers.card, List.length_append, hrep.length_eq, Nat.add_comm]

def freshObject : Object := ⟨.ok, none, 0, none, none, 0⟩

/-- A page whose type is set twice has a description, two headers and a body. -/
theorem response_memory_page :
    ∃ replies s, performAll (performAt above)
        ⟨httpResponseInitialize freshObject, ∅⟩
        [.call (.setCode .ok none), .call (.setBody (ascii "<p>") (some 3)),
          .call (.setHeader (ascii "Content-Type") (ascii "text/plain")),
          .call (.setHeader (ascii "Content-Type") (ascii "text/html")),
          .call (.render none)] = some (replies, s) ∧
      s.heap.keys.card = 8 := by
  have hcount : (performAll perform (fresh .ok)
      [.call (.setCode .ok none), .call (.setBody (ascii "<p>") (some 3)),
        .call (.setHeader (ascii "Content-Type") (ascii "text/plain")),
        .call (.setHeader (ascii "Content-Type") (ascii "text/html")),
        .call (.render none)]).map (fun v => blockCount v.2) = some 8 := by decide +kernel
  obtain ⟨⟨replies, r⟩, hperform, hblocks⟩ := Option.map_eq_some_iff.mp hcount
  obtain ⟨s, hperformAt, -, hcard⟩ :=
    response_memory above freshObject ∅ _ hperform
  refine ⟨replies, s, hperformAt, ?_⟩
  rw [hcard, hblocks]
  rfl

end Hss.ResponseHeap
