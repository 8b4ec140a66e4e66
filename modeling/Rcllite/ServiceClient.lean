import Rcllite.Lib.Transition
import Rcllite.ServiceHeader

/-! `rcl::Client`: the threads inside `send_request` and `call`, the dispatching
thread, and the `pending_` map they share. A step is one critical section under
`pending_mtx_` or one of the statements between them. -/
namespace Rcllite

/-- An entry of `pending_`. A stack promise is named by the sequence number of
the `call()` whose frame holds it. -/
structure Pending where
  onResponse : Bool
  syncPromise : Option (BitVec 64)
deriving DecidableEq, Repr

/-- How far the thread that asked for a response has got. -/
inductive Phase where
  | allocated   -- has its sequence number
  | writing     -- registered, inside `request_writer_->write`
  | failed      -- `write` returned false
  | sent        -- `send_request` returned; a `call()` is in `wait_for`
  | expired     -- `wait_for` gave up
  | erased      -- the entry is revoked, the exception is about to be thrown
  | raised      -- the exception has left `send_request` or `call`
  | returned    -- `call()` returned its response
deriving DecidableEq, Repr

/-- Past the registration and not yet past the `pending_.erase(seq)` of a failed
write or a timeout. -/
def Phase.Holds (p : Phase) : Prop := p ≠ .allocated ∧ p ≠ .erased ∧ p ≠ .raised

/-- One `async_send_request` or `call`; `ready` is the state of its promise. -/
structure Call (Request : Type) where
  request : Request
  sync : Bool
  onResponse : Bool
  phase : Phase
  ready : Bool

/-- `Pending{std::move(on_response), sync_promise}` as registered under `seq`. -/
def Call.entry {Request : Type} (call : Call Request) (seq : BitVec 64) : Pending :=
  ⟨call.onResponse, if call.sync then some seq else none⟩

/-- An entry that `dispatch` took out, with the response it is completed with. -/
structure Completion (Response : Type) where
  sequence : BitVec 64
  entry : Pending
  response : Response

structure ClientState (Request Response : Type) where
  nextSequence : BitVec 64
  pending : BitVec 64 → Option Pending
  calls : BitVec 64 → Option (Call Request)
  inHand : List (Completion Response)      -- moved out, not yet completed
  completed : List (Completion Response)   -- promise set, callback run

namespace ClientState
variable {Request Response : Type}

def new : ClientState Request Response := ⟨0, fun _ => none, fun _ => none, [], []⟩

/-- Every entry that ever left `pending_` towards a completion. -/
def taken (cs : ClientState Request Response) : List (Completion Response) := cs.inHand ++ cs.completed

def takenSeqs (cs : ClientState Request Response) : List (BitVec 64) :=
  cs.taken.map Completion.sequence

def setCall (cs : ClientState Request Response) (seq : BitVec 64) (call : Call Request) :
    ClientState Request Response :=
  { cs with calls := Function.update cs.calls seq (some call) }

/-- `pending_[seq] = Pending{...}`. -/
def insertPending (cs : ClientState Request Response) (seq : BitVec 64) (p : Pending) :
    ClientState Request Response :=
  { cs with pending := Function.update cs.pending seq (some p) }

/-- `pending_.erase(seq)`. -/
def erasePending (cs : ClientState Request Response) (seq : BitVec 64) : ClientState Request Response :=
  { cs with pending := Function.update cs.pending seq none }

/-- `dispatch` on one sample, up to the end of its critical section. -/
def take (codec : MsgCodec Response) (clientId : BitVec 64) (b : List UInt8)
    (cs : ClientState Request Response) : ClientState Request Response :=
  match openSample b with
  | none => cs
  | some (h, r) =>
    if h.clientId ≠ clientId then cs   -- response to some other client
    else match readBody codec r with
      | none => cs
      | some resp => match cs.pending h.sequence with
        | none => cs
        | some p => { cs.erasePending h.sequence with inHand := ⟨h.sequence, p, resp⟩ :: cs.inHand }

/-- `p.sync_promise->set_value(resp)`: the promise is looked up where the
pointer says, whether or not its frame still exists. -/
def setValue (cs : ClientState Request Response) : Option (BitVec 64) → ClientState Request Response
  | none => cs
  | some f =>
    let call' := (cs.calls f).map (fun call => { call with ready := true })
    { cs with calls := Function.update cs.calls f call' }

/-- `dispatch` after its critical section: set the promise, run the callback. -/
def complete (cs : ClientState Request Response) (l : List (Completion Response)) (t : Completion Response) :
    ClientState Request Response :=
  { cs.setValue t.entry.syncPromise with inHand := l, completed := t :: cs.completed }

end ClientState

inductive ClientAction (Request Response : Type) where
  | allocate (request : Request) (sync onResponse : Bool)
  | register (seq : BitVec 64)
  | writeOk (seq : BitVec 64)
  | writeFail (seq : BitVec 64)
  | expire (seq : BitVec 64)
  | erase (seq : BitVec 64)
  | throw (seq : BitVec 64)
  | ret (seq : BitVec 64)
  | take (b : List UInt8)
  | complete (t : Completion Response)

section Step
variable {Request Response : Type} (codec : MsgCodec Response) (clientId : BitVec 64)

/-- The steps of one client. Any thread may move next, and any bytes may be
what the reader hands to `dispatch`. -/
inductive ClientStep : ClientState Request Response → ClientAction Request Response →
    ClientState Request Response → Prop
  -- `seq = ++next_sequence_`, with fewer than 2^63 requests in all
  | allocate {cs : ClientState Request Response} (request : Request) (sync onResponse : Bool)
      (hn : cs.nextSequence.toNat + 1 < 2^63) :
      ClientStep cs (.allocate request sync onResponse)
        { cs.setCall (cs.nextSequence + 1) ⟨request, sync, onResponse, .allocated, false⟩ with
          nextSequence := cs.nextSequence + 1 }
  | register {cs : ClientState Request Response} (seq : BitVec 64) (call : Call Request)
      (hc : cs.calls seq = some call) (hp : call.phase = .allocated) :
      ClientStep cs (.register seq)
        ((cs.setCall seq { call with phase := .writing }).insertPending seq (call.entry seq))
  | writeOk {cs : ClientState Request Response} (seq : BitVec 64) (call : Call Request)
      (hc : cs.calls seq = some call) (hp : call.phase = .writing) :
      ClientStep cs (.writeOk seq) (cs.setCall seq { call with phase := .sent })
  | writeFail {cs : ClientState Request Response} (seq : BitVec 64) (call : Call Request)
      (hc : cs.calls seq = some call) (hp : call.phase = .writing) :
      ClientStep cs (.writeFail seq) (cs.setCall seq { call with phase := .failed })
  -- `future.wait_for(timeout) != std::future_status::ready`
  | expire {cs : ClientState Request Response} (seq : BitVec 64) (call : Call Request)
      (hc : cs.calls seq = some call) (hs : call.sync = true) (hp : call.phase = .sent)
      (hr : call.ready = false) :
      ClientStep cs (.expire seq) (cs.setCall seq { call with phase := .expired })
  -- the critical section of the failure path of `send_request` and of the timeout
  | erase {cs : ClientState Request Response} (seq : BitVec 64) (call : Call Request)
      (hc : cs.calls seq = some call) (hp : call.phase = .failed ∨ call.phase = .expired) :
      ClientStep cs (.erase seq) ((cs.setCall seq { call with phase := .erased }).erasePending seq)
  | throw {cs : ClientState Request Response} (seq : BitVec 64) (call : Call Request)
      (hc : cs.calls seq = some call) (hp : call.phase = .erased) :
      ClientStep cs (.throw seq) (cs.setCall seq { call with phase := .raised })
  -- `return future.get()`
  | ret {cs : ClientState Request Response} (seq : BitVec 64) (call : Call Request)
      (hc : cs.calls seq = some call) (hs : call.sync = true) (hp : call.phase = .sent)
      (hr : call.ready = true) :
      ClientStep cs (.ret seq) (cs.setCall seq { call with phase := .returned })
  | take {cs : ClientState Request Response} (b : List UInt8) (hb : b.length < 2^64) :
      ClientStep cs (.take b) (cs.take codec clientId b)
  | complete {cs : ClientState Request Response} (l₁ l₂ : List (Completion Response))
      (t : Completion Response) (hh : cs.inHand = l₁ ++ t :: l₂) :
      ClientStep cs (.complete t) (cs.complete (l₁ ++ l₂) t)

/-- One client on its own, whatever arrives. -/
def clientSystem : Transition.System (ClientState Request Response) (ClientAction Request Response) where
  init cs := cs = .new
  step := ClientStep codec clientId

end Step

end Rcllite
