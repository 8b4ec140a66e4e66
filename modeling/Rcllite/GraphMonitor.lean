import Rcllite.Lib.AssocMap
import Rcllite.DdsReader

/-! `rcl::GraphMonitor`: the maps its thread keeps and the `poll_*` steps that
fill them. The two message types are schemas; the monitor needs of them that
the first carries a participant's guid. -/
namespace Rcllite

/-- `dds_guid_t`. -/
abbrev Guid := List.Vector UInt8 16

/-- A sample of the participant builtin topic; `userData` is what
`dds_qget_userdata` finds. -/
structure ParticipantSample where
  key : Guid
  alive : Bool
  userData : Option (List UInt8)

/-- A sample of the publication or subscription builtin topic. -/
structure EndpointSample where
  key : Guid
  alive : Bool
  participantKey : Guid
  topicName : Option (List UInt8)
  typeName : Option (List UInt8)

structure EndpointInfo where
  participant : Guid
  topic : List UInt8
  type : List UInt8
  writer : Bool

/-- What follows the first occurrence of `pat`. -/
def afterFirst (pat : List UInt8) : List UInt8 → Option (List UInt8)
  | [] => if pat.isEmpty then some [] else none
  | c :: cs => if pat.isPrefixOf (c :: cs) then some ((c :: cs).drop pat.length) else afterFirst pat cs

/-- `"enclave=/ns/name;"` gives `"/ns/name"`, and nothing gives `""`. -/
def parseEnclave (userData : List UInt8) : List UInt8 :=
  match afterFirst "enclave=".toUTF8.data.toList userData with
  | none => []
  | some rest => rest.takeWhile (fun c => c ≠ 0x3b)

def kMaxLogs : ℕ := 512

structure Monitor (info log : Members) where
  participants : AssocMap Guid (List UInt8)
  endpoints : AssocMap Guid EndpointInfo
  discovery : AssocMap Guid info.Val
  logs : List log.Val

namespace Monitor
variable {info log : Members} (gid : info.Val → Guid)

def new : Monitor info log := ⟨.empty, .empty, .empty, []⟩

/-- One turn of the loop in `poll_participants`. A departed participant takes
its discovery entry and endpoints with it. -/
def onParticipant (s : ParticipantSample) (m : Monitor info log) : Monitor info log :=
  if s.alive then
    { m with participants := m.participants.insert s.key (parseEnclave (s.userData.getD [])) }
  else
    { m with
      participants := m.participants.erase s.key
      discovery := m.discovery.erase s.key
      endpoints := m.endpoints.eraseIf (fun e => e.2.participant = s.key) }

/-- One turn of the loop in `poll_builtin`. -/
def onEndpoint (writer : Bool) (s : EndpointSample) (m : Monitor info log) : Monitor info log :=
  if s.alive then
    let entry : EndpointInfo := ⟨s.participantKey, s.topicName.getD [], s.typeName.getD [], writer⟩
    { m with endpoints := m.endpoints.insert s.key entry }
  else { m with endpoints := m.endpoints.erase s.key }

def recordDiscovery (msg : info.Val) (m : Monitor info log) : Monitor info log :=
  { m with discovery := m.discovery.insert (gid msg) msg }

/-- `push_back`, then `pop_front` while there are more than `kMaxLogs`. -/
def recordLog (msg : log.Val) (m : Monitor info log) : Monitor info log :=
  { m with logs := (m.logs ++ [msg]).drop ((m.logs ++ [msg]).length - kMaxLogs) }

/-- The callback of `poll_discovery`: `false` ends it quietly, an exception of
the reader leaves it. -/
def onDiscovery (payload : List UInt8) (m : Monitor info log) : Except Failure (Monitor info log) :=
  match info.decode true payload with
  | .ok (msg, _) => .ok (m.recordDiscovery gid msg)
  | .error .returnFalse => .ok m
  | .error e => .error e

/-- The callback of `poll_rosout`. -/
def onRosout (payload : List UInt8) (m : Monitor info log) : Except Failure (Monitor info log) :=
  match log.decode true payload with
  | .ok (msg, _) => .ok (m.recordLog msg)
  | .error .returnFalse => .ok m
  | .error e => .error e

end Monitor

/-- One case of the `switch` in `run`, with what the reader has for it. -/
inductive Poll where
  | participants (batch : List ParticipantSample)
  | builtin (writer : Bool) (batch : List EndpointSample)
  | discovery (queue : List Sample)
  | rosout (queue : List Sample)

/-- A sample as it reaches the monitor's maps. -/
inductive MonitorSample where
  | participant (s : ParticipantSample)
  | endpoint (writer : Bool) (s : EndpointSample)
  | discovery (payload : List UInt8)
  | rosout (payload : List UInt8)

/-- The payloads `take` hands to its callback. -/
def validPayloads (queue : List Sample) : List (List UInt8) :=
  (queue.filter Sample.validData).map Sample.payload

def Poll.samples : Poll → List MonitorSample
  | .participants batch => batch.map .participant
  | .builtin writer batch => batch.map (.endpoint writer)
  | .discovery queue => (validPayloads queue).map .discovery
  | .rosout queue => (validPayloads queue).map .rosout

namespace Monitor
variable {info log : Members} (gid : info.Val → Guid)

def poll (m : Monitor info log) : Poll → Monitor info log × Option Failure
  | .participants batch => (batch.foldl (fun m s => m.onParticipant s) m, none)
  | .builtin writer batch => (batch.foldl (fun m s => m.onEndpoint writer s) m, none)
  | .discovery queue =>
    let (m', _, thrown) := Reader.take (fun payload m => m.onDiscovery gid payload) queue m
    (m', thrown)
  | .rosout queue =>
    let (m', _, thrown) := Reader.take (fun payload m => m.onRosout payload) queue m
    (m', thrown)

/-- The loop of `run`. There is no handler: an exception ends the thread, and
with it the process. -/
def run : List Poll → Monitor info log → Monitor info log × Option Failure
  | [], m => (m, none)
  | p :: ps, m =>
    match m.poll gid p with
    | (m', some e) => (m', some e)
    | (m', none) => run ps m'

/-- What a single sample does. -/
def process (m : Monitor info log) : MonitorSample → Except Failure (Monitor info log)
  | .participant s => .ok (m.onParticipant s)
  | .endpoint writer s => .ok (m.onEndpoint writer s)
  | .discovery payload => m.onDiscovery gid payload
  | .rosout payload => m.onRosout payload

def processAll : List MonitorSample → Monitor info log → Monitor info log × Option Failure
  | [], m => (m, none)
  | x :: xs, m =>
    match m.process gid x with
    | .ok m' => processAll xs m'
    | .error e => (m, some e)

theorem processAll_append (xs ys : List MonitorSample) (m : Monitor info log) :
    processAll gid (xs ++ ys) m =
      match processAll gid xs m with
      | (m', some e) => (m', some e)
      | (m', none) => processAll gid ys m' := by
  induction xs generalizing m with
  | nil => rfl
  | cons x xs ih =>
    simp only [List.cons_append, processAll]
    cases m.process gid x with
    | error e => rfl
    | ok m' => exact ih m'

/-- Steps that cannot fail are folded. -/
theorem processAll_map_ok {T : Type} (f : T → MonitorSample) (step : Monitor info log → T → Monitor info log)
    (hstep : ∀ m t, Monitor.process gid m (f t) = .ok (step m t)) (l : List T) (m : Monitor info log) :
    processAll gid (l.map f) m = (l.foldl step m, none) := by
  induction l generalizing m with
  | nil => rfl
  | cons t l ih =>
    rw [List.map_cons, processAll, hstep]
    exact ih _

theorem processAll_map_take (f : List UInt8 → MonitorSample)
    (fn : List UInt8 → Monitor info log → Except Failure (Monitor info log))
    (hfn : ∀ m payload, Monitor.process gid m (f payload) = fn payload m) (queue : List Sample)
    (m : Monitor info log) : processAll gid ((validPayloads queue).map f) m = takeBatch fn queue m := by
  induction queue generalizing m with
  | nil => rfl
  | cons x xs ih =>
    rw [takeBatch]
    by_cases hx : x.validData
    · rw [if_pos hx, validPayloads, List.filter_cons_of_pos hx, List.map_cons, List.map_cons, processAll, hfn]
      cases fn x.payload m with
      | error e => rfl
      | ok m' => exact ih m'
    · rw [if_neg hx, validPayloads, List.filter_cons_of_neg hx]
      exact ih m

theorem poll_eq (p : Poll) (m : Monitor info log) : m.poll gid p = processAll gid p.samples m := by
  cases p with
  | participants batch => exact (processAll_map_ok gid _ _ (fun _ _ => rfl) batch m).symm
  | builtin writer batch => exact (processAll_map_ok gid _ _ (fun _ _ => rfl) batch m).symm
  | discovery queue =>
    have hall := processAll_map_take gid .discovery (fun payload (m : Monitor info log) =>
      m.onDiscovery gid payload) (fun _ _ => rfl) queue m
    exact (Reader.take_eq _ queue m).trans hall.symm
  | rosout queue =>
    have hall := processAll_map_take gid .rosout (fun payload (m : Monitor info log) =>
      m.onRosout payload) (fun _ _ => rfl) queue m
    exact (Reader.take_eq _ queue m).trans hall.symm

/-- A run of the thread is the processing of its samples, one by one. -/
theorem run_eq (ps : List Poll) (m : Monitor info log) :
    run gid ps m = processAll gid (ps.flatMap Poll.samples) m := by
  induction ps generalizing m with
  | nil => rfl
  | cons p ps ih =>
    rw [run, List.flatMap_cons, processAll_append, ← poll_eq]
    rcases m.poll gid p with ⟨m', _ | e⟩
    · exact ih m'
    · rfl

end Monitor

end Rcllite
