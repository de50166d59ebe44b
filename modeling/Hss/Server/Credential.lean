import Hss.Server.TlsConnection

namespace Hss.Credential

open Hss.Tls

/-- What is asked of GnuTLS and of `atexit`, with the handle it is about. -/
inductive Event
  | allocate (credential : Nat)
  | load (credential : Nat)
  | atexit
  | free (credential : Option Nat)
  deriving DecidableEq, Repr

/-- The static variables of `get_credential`, with its flag `initialize`, the next handle, how often
`destroy_credential` is registered, and what has been asked so far. -/
structure Process where
  credential : Option Nat
  toInitialize : Bool
  next : Nat
  handlers : Nat
  events : List Event
  deriving DecidableEq, Repr

def started : Process := ⟨none, true, 0, 0, []⟩

def Process.load (process : Process) : Process where
  credential := some process.next
  toInitialize := true
  next := process.next + 1
  handlers := process.handlers + 1
  events := process.events ++ [.allocate process.next, .load process.next, .atexit]

/-- `none` is the exit of the program when a call fails. -/
def loadCredential (setup : Setup) (process : Process) : Option Process :=
  if setup.certificateAllocateCredentials ≠ 0 then none
  else if setup.certificateSetX509KeyFile2 ≠ 0 then none
  else some process.load

def getCredential (setup : Setup) (destroy : Bool) (process : Process) :
    Option (Option Nat × Process) := do
  if destroy && process.toInitialize then
    some (none, process)
  else
    let process := if destroy then
      { process with events := process.events ++ [.free process.credential] } else process
    let process ← if process.toInitialize then loadCredential setup process else some process
    some (process.credential, process)

def destroyCredential (setup : Setup) (process : Process) : Option Process :=
  (getCredential setup true process).map (·.2)

/-- One call for every connection, with the handles they get. -/
def connect : List Setup → Process → Option (List (Option Nat) × Process)
  | [], process => some ([], process)
  | setup :: setups, process => do
    let (credential, process) ← getCredential setup false process
    let (credentials, process) ← connect setups process
    some (credential :: credentials, process)

/-- The exit handlers, which are all `destroy_credential`. -/
def runHandlers (setup : Setup) : Nat → Process → Option Process
  | 0, process => some process
  | n + 1, process => (destroyCredential setup process).bind (runHandlers setup n)

def Event.isAllocate : Event → Bool
  | allocate _ => true
  | _ => false

def Event.isLoad : Event → Bool
  | load _ => true
  | _ => false

def Event.isFree : Event → Bool
  | free _ => true
  | _ => false

structure LoadedOnce (credentials : List (Option Nat)) (events : List Event) : Prop where
  allocated : events.countP Event.isAllocate = 1
  loaded : events.countP Event.isLoad = 1
  registered : events.count .atexit = 1
  freed : ∃ before credential, events = before ++ [.free (some credential)] ∧
    before.countP Event.isFree = 0 ∧ ∀ c ∈ credentials, c = some credential

def Loads (setup : Setup) : Prop :=
  setup.certificateAllocateCredentials = 0 ∧ setup.certificateSetX509KeyFile2 = 0

variable {setup : Setup} {setups : List Setup} {process process' : Process} {n : Nat}

/-- A call loads a credential of its own, and the flag that makes it do so stays set. -/
theorem getCredential_loads (hload : Loads setup) (h : process.toInitialize = true) :
    getCredential setup false process = some (some process.next, process.load) := by
  simp only [getCredential, Bool.false_and, Bool.false_eq_true, if_false, h, if_true, loadCredential,
    hload.1, hload.2, ne_eq, not_true, Option.bind_eq_bind, Option.bind_some]
  rfl

theorem getCredential_isSome (setup : Setup) (h : process.toInitialize = true) :
    (getCredential setup false process).isSome = (Tls.getCredential setup).isSome := by
  simp only [getCredential, Bool.false_and, Bool.false_eq_true, if_false, h, if_true, loadCredential,
    Tls.getCredential]
  split
  · rfl
  · split <;> rfl

theorem destroyCredential_keeps (setup : Setup) (h : process.toInitialize = true) :
    destroyCredential setup process = some process := by
  simp only [destroyCredential, getCredential, h, Bool.and_self, if_true, Option.map_some]

theorem runHandlers_keeps (setup : Setup) (h : process.toInitialize = true) (n : Nat) :
    runHandlers setup n process = some process := by
  induction n with
  | zero => rfl
  | succ n ih => rw [runHandlers, destroyCredential_keeps setup h, Option.bind_some, ih]

structure Adds (n : Nat) (process process' : Process) : Prop where
  toInitialize : process'.toInitialize = true
  handlers : process'.handlers = process.handlers + n
  allocated : process'.events.countP Event.isAllocate = process.events.countP Event.isAllocate + n
  loaded : process'.events.countP Event.isLoad = process.events.countP Event.isLoad + n
  registered : process'.events.count .atexit = process.events.count .atexit + n
  freed : process'.events.countP Event.isFree = process.events.countP Event.isFree

theorem Adds.load (h : Adds n process.load process') : Adds (n + 1) process process' := by
  obtain ⟨hflag, hhandlers, hallocated, hloaded, hregistered, hfreed⟩ := h
  refine ⟨hflag, ?_, ?_, ?_, ?_, ?_⟩
  · rw [hhandlers, Process.load, Nat.add_right_comm, Nat.add_assoc]
  · rw [hallocated, Process.load, List.countP_append, Nat.add_right_comm, Nat.add_assoc]
    rfl
  · rw [hloaded, Process.load, List.countP_append, Nat.add_right_comm, Nat.add_assoc]
    rfl
  · rw [hregistered, Process.load, List.count_append, Nat.add_right_comm, Nat.add_assoc]
    rfl
  · rw [hfreed, Process.load, List.countP_append]
    rfl

theorem connect_adds (hload : ∀ setup ∈ setups, Loads setup) (h : process.toInitialize = true) :
    ∃ process', connect setups process =
        some ((List.range' process.next setups.length).map some, process') ∧
      Adds setups.length process process' := by
  induction setups generalizing process with
  | nil => exact ⟨process, rfl, ⟨h, rfl, rfl, rfl, rfl, rfl⟩⟩
  | cons setup setups ih =>
    rw [List.forall_mem_cons] at hload
    have hfirst := getCredential_loads hload.1 h
    have hflag : process.load.toInitialize = true := rfl
    obtain ⟨process', hrest, hadds⟩ := ih hload.2 hflag
    refine ⟨process', ?_, hadds.load⟩
    simp only [connect, hfirst, hrest, Option.bind_eq_bind, Option.bind_some, List.length_cons,
      List.range'_succ, List.map_cons]
    rfl

/-- However many connections there are, each loads a credential of its own, and none is freed. -/
theorem never_loaded_once (exitSetup : Setup) (hload : ∀ setup ∈ setups, Loads setup) :
    ∃ credentials process process',
    connect setups started = some (credentials, process) ∧
      runHandlers exitSetup process.handlers process = some process' ∧
      credentials = (List.range setups.length).map some ∧
      process'.events.countP Event.isAllocate = setups.length ∧
      process'.events.countP Event.isLoad = setups.length ∧
      process'.events.count .atexit = setups.length ∧
      process'.events.countP Event.isFree = 0 ∧ ¬ LoadedOnce credentials process'.events := by
  obtain ⟨process, hconnect, hadds⟩ := connect_adds hload (rfl : started.toInitialize = true)
  have hfreed : process.events.countP Event.isFree = 0 := hadds.freed
  refine ⟨_, process, process, hconnect, runHandlers_keeps exitSetup hadds.toInitialize _, ?_,
    hadds.allocated.trans (Nat.zero_add _), hadds.loaded.trans (Nat.zero_add _),
    hadds.registered.trans (Nat.zero_add _), hfreed, fun h => ?_⟩
  · rw [List.range_eq_range']
    rfl
  · obtain ⟨before, credential, hevents, -⟩ := h.freed
    rw [hevents, List.countP_append] at hfreed
    exact absurd hfreed (Nat.succ_ne_zero _)

def successful : Setup := ⟨0, 0, 0, 0, 0⟩

theorem never_loaded_once_one : ∃ credentials process process',
    connect [successful] started = some (credentials, process) ∧
      runHandlers successful process.handlers process = some process' ∧
      ¬ LoadedOnce credentials process'.events := by
  have hload : ∀ setup ∈ [successful], Loads setup := by
    intro setup hsetup
    rw [List.mem_singleton.mp hsetup]
    exact ⟨rfl, rfl⟩
  obtain ⟨credentials, process, process', hconnect, hexit, -, -, -, -, -, hnot⟩ :=
    never_loaded_once successful hload
  exact ⟨credentials, process, process', hconnect, hexit, hnot⟩

/-- Two connections load two credentials, and the exit handlers free neither of them. -/
theorem loaded_twice : ∃ process,
    connect [successful, successful] started = some ([some 0, some 1], process) ∧
      runHandlers successful process.handlers process = some process ∧
      process.events = [.allocate 0, .load 0, .atexit, .allocate 1, .load 1, .atexit] ∧
      ¬ LoadedOnce [some 0, some 1] process.events :=
  ⟨_, rfl, rfl, rfl, fun h => absurd h.allocated (by decide)⟩

end Hss.Credential
