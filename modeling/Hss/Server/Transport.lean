import Mathlib.Data.List.Basic
import Mathlib.Tactic.Common

namespace Hss.Transport

/-- A return value of `recv`: a size with that many bytes, of which none means
end-of-file, or -1 with `errno`. -/
inductive RecvOutcome
  | received (bytes : List UInt8)
  | failed (errno : Nat)
  deriving DecidableEq, Repr

inductive SendOutcome
  | sent (size : Nat)
  | failed (errno : Nat)
  deriving DecidableEq, Repr

def EAGAIN : Nat := 11

def EWOULDBLOCK : Nat := 11

/-- The function pointers `connection->recv` and `connection->send`, over the
state of everything behind them. -/
structure Socket (σ : Type) where
  recv : σ → Nat → RecvOutcome × σ
  send : σ → List UInt8 → SendOutcome × σ

variable {σ : Type}

/-- What `recv` and `send` promise: no size above the one asked for. -/
structure Honest (sock : Socket σ) : Prop where
  recv : ∀ w n bytes, (sock.recv w n).1 = .received bytes → bytes.length ≤ n
  send : ∀ w bytes size, (sock.send w bytes).1 = .sent size → size ≤ bytes.length

/-- The same socket with a record of the bytes received and of those accepted
for sending. -/
def recorded (sock : Socket σ) : Socket (σ × List UInt8 × List UInt8) where
  recv w n :=
    match sock.recv w.1 n with
    | (.received bytes, w') => (.received bytes, w', w.2.1 ++ bytes, w.2.2)
    | (.failed errno, w') => (.failed errno, w', w.2)
  send w bytes :=
    match sock.send w.1 bytes with
    | (.sent size, w') => (.sent size, w', w.2.1, w.2.2 ++ bytes.take size)
    | (.failed errno, w') => (.failed errno, w', w.2)

/-- A fixed sequence of outcomes; the state counts the calls made. -/
def scripted (outcomes : Nat → RecvOutcome) : Socket Nat where
  recv i _ := (outcomes i, i + 1)
  send i bytes := (.sent bytes.length, i)

/-- A receive queue that is delivered in chunks of the given sizes, and then as
much as is asked for; everything is accepted for sending. -/
def chunked : Socket (List UInt8 × List Nat) where
  recv w n :=
    let size := min n (max 1 (w.2.headD n))
    if w.1 = [] then (.failed EAGAIN, w)
    else (.received (w.1.take size), w.1.drop size, w.2.tail)
  send w bytes := (.sent bytes.length, w)

theorem honest_chunked : Honest chunked where
  recv w n bytes h := by
    rw [chunked] at h
    by_cases hempty : w.1 = []
    · simp only [if_pos hempty, reduceCtorEq] at h
    · simp only [if_neg hempty, RecvOutcome.received.injEq] at h
      rw [← h, List.length_take]
      omega
  send w bytes size h := by
    rw [chunked] at h
    exact Nat.le_of_eq (SendOutcome.sent.inj h).symm

end Hss.Transport
