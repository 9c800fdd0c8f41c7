import Mathlib.Data.List.DropRight
import Setdns.Config.Config
import Setdns.Effects.Implementation
import Setdns.Effects.Transcript

/-!
The DNS server of the test runner. It answers the overlay names itself and hands every other
query on, unread, to the parents in turn, until one answers. Its counters are the histogram of
the queries that it has received, modulo `2 ^ 64` and up to the one that it is at, and no overlay
name ever leaves it.

The message format is a parameter, and so is the network.
-/

namespace Setdns.TestRunner.TestDns

open Text Effects Effects.Program Simulation

inductive RecordType where
  | a
  | aaaa
  | any
  | other (code : UInt16)
  deriving DecidableEq, Repr

inductive MessageType where
  | query
  | response
  deriving DecidableEq, Repr

inductive ResponseCode where
  | noError
  | formErr
  deriving DecidableEq, Repr

inductive RData where
  | a (addr : Ipv4Addr)
  | aaaa (addr : Ipv6Addr)
  deriving DecidableEq, Repr

structure Query (Name : Type) where
  name : Name
  queryType : RecordType

structure Record (Name : Type) where
  name : Name
  ttl : UInt32
  data : RData

structure Message (Name : Type) where
  id : UInt16
  messageType : MessageType
  opCode : UInt8
  recursionDesired : Bool
  recursionAvailable : Bool
  authoritative : Bool
  responseCode : ResponseCode
  queries : List (Query Name)
  answers : List (Record Name)

/-- The messages of the DNS library, and how it writes them, their names and their types. -/
structure Codec (Name : Type) where
  new (id : UInt16) (messageType : MessageType) (opCode : UInt8) : Message Name
  errorMsg (id : UInt16) (opCode : UInt8) (code : ResponseCode) : Message Name
  fromVec : Bytes → Option (Message Name)
  toVec : Message Name → Option Bytes
  toAscii : Name → Bytes
  typeText : RecordType → Bytes

variable {Name : Type}

structure SocketAddr where
  ip : IpAddr
  port : UInt16
  deriving DecidableEq, Repr

abbrev DNS_PORT : UInt16 := 53
abbrev MAX_DNS_PACKET : Nat := 512
/-- In seconds. -/
abbrev FORWARD_TIMEOUT : Nat := 5
abbrev TEST_RECORD_TTL : UInt32 := 0

def OVERLAY_IPV4 : Ipv4Addr := ⟨198, 18, 0, 10⟩
def OVERLAY_IPV6 : Ipv6Addr := ⟨[0xfd00, 0x7365, 0x7464, 0x6e73, 0, 0, 0, 0x10], rfl⟩

/-- The server's own socket, and those that it opens to ask a parent. -/
inductive UdpCall where
  | recvFrom (size : Nat)
  | sendTo (response : Bytes) (peer : SocketAddr)
  | bind (addr : SocketAddr)
  | ask (packet : Bytes) (parent : SocketAddr)
  | await (size limit : Nat)

abbrev UdpCall.Ret : UdpCall → Type
  | .recvFrom _ => Except Unit (Bytes × SocketAddr)
  | .await _ _ => Option Bytes
  | _ => Except Unit Unit

/-- The locked sections. -/
inductive CounterCall where
  | query (name : Bytes) (recordType : RecordType)
  | overlay (name : Bytes)
  | forwarded (name : Bytes)

abbrev CounterCall.Ret (_ : CounterCall) : Type := Unit

/-- A count starts again from zero after `2 ^ 64` queries. -/
@[ext] structure Counters where
  overlayAnswers : UInt64
  forwardedQueries : UInt64
  overlayByName : Bytes → UInt64
  forwardedByName : Bytes → UInt64
  byName : Bytes → UInt64
  byType : Bytes → UInt64

def increment (counts : Bytes → UInt64) (key : Bytes) : Bytes → UInt64 :=
  Function.update counts key (counts key + 1)

def Counters.zero : Counters := ⟨0, 0, fun _ => 0, fun _ => 0, fun _ => 0, fun _ => 0⟩

abbrev Call : Type := UdpCall ⊕ CounterCall
abbrev Call.Ret : Call → Type := Joint UdpCall.Ret CounterCall.Ret

abbrev Io (α : Type) : Type := Program Call Call.Ret α

inductive HandleError where
  | decode
  | encode
  | encodeError
  | parents
  deriving DecidableEq, Repr

abbrev Result (α : Type) : Type := ExceptT HandleError (Program Call Call.Ret) α

def udp (c : UdpCall) : Io (UdpCall.Ret c) := .call (.inl c) .ret
def count (c : CounterCall) : Io Unit := .call (.inr c) .ret

section Server

variable (codec : Codec Name) (parentDns : List IpAddr) (overlayNames : List Bytes)

def normalizeName (name : Name) : Bytes :=
  toAsciiLowercase ((codec.toAscii name).rdropWhile fun byte => byte = dot)

def incrementQueryCounters (counters : Counters) (name : Bytes) (recordType : RecordType) :
    Counters :=
  { counters with
    byName := increment counters.byName name
    byType := increment counters.byType (codec.typeText recordType) }

def incrementOverlayCounter (counters : Counters) (name : Bytes) : Counters :=
  { counters with
    overlayAnswers := counters.overlayAnswers + 1
    overlayByName := increment counters.overlayByName name }

def incrementForwardedCounter (counters : Counters) (name : Bytes) : Counters :=
  { counters with
    forwardedQueries := counters.forwardedQueries + 1
    forwardedByName := increment counters.forwardedByName name }

def perform : Handler CounterCall CounterCall.Ret Counters
  | counters, .query name recordType => ((), incrementQueryCounters codec counters name recordType)
  | counters, .overlay name => ((), incrementOverlayCounter counters name)
  | counters, .forwarded name => ((), incrementForwardedCounter counters name)

def errorResponse (request : Message Name) (code : ResponseCode) : Result Bytes :=
  match codec.toVec (codec.errorMsg request.id request.opCode code) with
  | some response => pure response
  | none => throw .encodeError

def addOverlayAnswers (response : Message Name) (name : Name) (recordType : RecordType) :
    Message Name :=
  let ipv4 : List (Record Name) :=
    if recordType = .a ∨ recordType = .any then [⟨name, TEST_RECORD_TTL, .a OVERLAY_IPV4⟩] else []
  let ipv6 : List (Record Name) :=
    if recordType = .aaaa ∨ recordType = .any then [⟨name, TEST_RECORD_TTL, .aaaa OVERLAY_IPV6⟩]
    else []
  { response with answers := response.answers ++ ipv4 ++ ipv6 }

def overlayResponse (request : Message Name) (query : Query Name) : Message Name :=
  addOverlayAnswers
    { codec.new request.id .response request.opCode with
      recursionDesired := request.recursionDesired
      recursionAvailable := true
      authoritative := true
      queries := [query] } query.name query.queryType

/-- An address of the parent's family that the system chooses. -/
def bindAddr : IpAddr → SocketAddr
  | .v6 _ => ⟨.v6 ⟨[0, 0, 0, 0, 0, 0, 0, 0], rfl⟩, 0⟩
  | .v4 _ => ⟨.v4 ⟨0, 0, 0, 0⟩, 0⟩

/-- What arrives first is taken for the parent's answer. -/
def forwardQuery (packet : Bytes) : List IpAddr → Result Bytes
  | [] => throw .parents
  | parent :: rest => do
      match ← (liftM (udp (.bind (bindAddr parent))) : Result (Except Unit Unit)) with
      | .error _ => forwardQuery packet rest
      | .ok _ =>
          match ← (liftM (udp (.ask packet ⟨parent, DNS_PORT⟩)) : Result (Except Unit Unit)) with
          | .error _ => forwardQuery packet rest
          | .ok _ =>
              match ← (liftM (udp (.await MAX_DNS_PACKET FORWARD_TIMEOUT)) :
                Result (Option Bytes)) with
              | some response => pure response
              | none => forwardQuery packet rest

def overlayContains (name : Bytes) : Bool := overlayNames.any fun overlay => overlay = name

def handleQuery (packet : Bytes) : Result Bytes :=
  match codec.fromVec packet with
  | none => throw .decode
  | some request =>
      match request.queries.head? with
      | none => errorResponse codec request .formErr
      | some query => do
          let name := normalizeName codec query.name
          liftM (count (.query name query.queryType))
          if overlayContains overlayNames name then do
            liftM (count (.overlay name))
            match codec.toVec (overlayResponse codec request query) with
            | some response => pure response
            | none => throw .encode
          else do
            liftM (count (.forwarded name))
            forwardQuery packet parentDns

/-- One round of `run_dns_loop`. Errors are logged. -/
def serveOne : Io Unit := do
  match ← udp (.recvFrom MAX_DNS_PACKET) with
  | .error _ => pure ()
  | .ok (packet, peer) =>
      match ← (handleQuery codec parentDns overlayNames packet).run with
      | .error _ => pure ()
      | .ok response => do
          let _ ← udp (.sendTo response peer)
          pure ()

end Server

section Histories

variable (codec : Codec Name) (parentDns : List IpAddr) (overlayNames : List Bytes)

/-- A call on the network with its answer. -/
abbrev Event : Type := Sigma UdpCall.Ret

def received : Event → Option (Bytes × SocketAddr)
  | ⟨.recvFrom _, .ok packet⟩ => some packet
  | _ => none

/-- What a packet asks for, if it is a query. -/
def asked (packet : Bytes) : Option (Bytes × RecordType) :=
  (codec.fromVec packet).bind fun request =>
    request.queries.head?.map fun query => (normalizeName codec query.name, query.queryType)

def queriesOf (events : List Event) : List (Bytes × RecordType) :=
  events.filterMap fun event => (received event).bind fun packet => asked codec packet.1

def lastReceived (events : List Event) : Option (Bytes × SocketAddr) :=
  events.reverse.findSome? received

/-- How many queries there are, as far as 64 bits tell. -/
def counting (p : Bytes × RecordType → Bool) (queries : List (Bytes × RecordType)) : UInt64 :=
  .ofNat (queries.countP p)

/-- The histogram of queries. -/
def tally (queries : List (Bytes × RecordType)) : Counters where
  overlayAnswers := counting (fun query => overlayContains overlayNames query.1) queries
  forwardedQueries := counting (fun query => !overlayContains overlayNames query.1) queries
  overlayByName name :=
    if overlayContains overlayNames name then counting (fun query => query.1 = name) queries else 0
  forwardedByName name :=
    if overlayContains overlayNames name then 0 else counting (fun query => query.1 = name) queries
  byName name := counting (fun query => query.1 = name) queries
  byType text := counting (fun query => codec.typeText query.2 = text) queries

/-- The counters are those of the queries, of which the last one may not be counted yet or only
in part. -/
inductive Accounts : List (Bytes × RecordType) → Counters → Prop
  | settled (queries : List (Bytes × RecordType)) :
      Accounts queries (tally codec overlayNames queries)
  | uncounted (queries : List (Bytes × RecordType)) (name : Bytes) (recordType : RecordType) :
      Accounts (queries ++ [(name, recordType)]) (tally codec overlayNames queries)
  | pending (queries : List (Bytes × RecordType)) (name : Bytes) (recordType : RecordType) :
      Accounts (queries ++ [(name, recordType)])
        (incrementQueryCounters codec (tally codec overlayNames queries) name recordType)

/-- Why the packet has this response. -/
inductive Replies (front : List Event) (packet response : Bytes) : Prop
  | formErr {request : Message Name} (decoded : codec.fromVec packet = some request)
      (empty : request.queries = [])
      (encoded : codec.toVec (codec.errorMsg request.id request.opCode .formErr) = some response)
  | overlay {request : Message Name} {query : Query Name}
      (decoded : codec.fromVec packet = some request)
      (first : request.queries.head? = some query)
      (inside : overlayContains overlayNames (normalizeName codec query.name) = true)
      (encoded : codec.toVec (overlayResponse codec request query) = some response)
  | forwarded {name : Bytes} {recordType : RecordType}
      (query : asked codec packet = some (name, recordType))
      (outside : overlayContains overlayNames name = false)
      (answer : front.getLast? = some ⟨.await MAX_DNS_PACKET FORWARD_TIMEOUT, some response⟩)

/-- What the server may send after what has happened so far. -/
def Fits (front : List Event) : Event → Prop
  | ⟨.ask packet addr, _⟩ =>
      (∃ peer, lastReceived front = some (packet, peer)) ∧
      (∃ parent ∈ parentDns, addr = ⟨parent, DNS_PORT⟩) ∧
      ∃ name recordType, asked codec packet = some (name, recordType) ∧
        overlayContains overlayNames name = false
  | ⟨.sendTo response peer, _⟩ =>
      ∃ packet, lastReceived front = some (packet, peer) ∧
        Replies codec overlayNames front packet response
  | _ => True

/-- Every entry fits what comes before it. -/
def AllFit (events : List Event) : Prop :=
  ∀ front event back, events = front ++ event :: back → Fits codec parentDns overlayNames front event

variable {codec parentDns overlayNames} {events : List Event} {event : Event}
  {queries : List (Bytes × RecordType)} {name : Bytes} {recordType : RecordType}

theorem AllFit.snoc (fit : AllFit codec parentDns overlayNames events)
    (last : Fits codec parentDns overlayNames events event) :
    AllFit codec parentDns overlayNames (events ++ [event]) := by
  intro front other back same
  cases List.append_eq_append_iff.mp same with
  | inl longer =>
      obtain ⟨piece, rfl, rest⟩ := longer
      cases piece with
      | nil =>
          cases rest
          rwa [List.append_nil]
      | cons first piece => simp at rest
  | inr shorter =>
      obtain ⟨piece, rfl, rest⟩ := shorter
      cases piece with
      | nil =>
          cases rest
          simpa using last
      | cons first piece =>
          obtain ⟨rfl, rfl⟩ := List.cons.inj rest
          exact fit front _ piece rfl

@[simp] theorem queriesOf_snoc :
    queriesOf codec (events ++ [event]) =
      queriesOf codec events ++
        ((received event).bind fun packet => asked codec packet.1).toList := by
  rw [queriesOf, List.filterMap_append]
  congr 1

@[simp] theorem lastReceived_snoc :
    lastReceived (events ++ [event]) = (received event).or (lastReceived events) := by
  simp only [lastReceived, List.reverse_append, List.reverse_singleton, List.singleton_append,
    List.findSome?_cons]
  cases received event <;> rfl

@[simp] theorem counting_nil (p : Bytes × RecordType → Bool) : counting p [] = 0 := rfl

@[simp] theorem counting_snoc (p : Bytes × RecordType → Bool) (query : Bytes × RecordType) :
    counting p (queries ++ [query]) = counting p queries + if p query then 1 else 0 := by
  unfold counting
  rw [List.countP_append, List.countP_singleton, UInt64.ofNat_add]
  cases p query <;> rfl

theorem tally_nil : tally codec overlayNames [] = .zero := by
  ext <;> simp [tally, Counters.zero]

theorem increment_apply (counts : Bytes → UInt64) (key text : Bytes) :
    increment counts key text = counts text + if key = text then 1 else 0 := by
  unfold increment
  by_cases same : key = text
  · subst same
    simp
  · rw [Function.update_of_ne (Ne.symm same), if_neg same, UInt64.add_zero]

/-- A counter by name that is kept for some names only. -/
theorem side_snoc (side : Bytes → Bool) (text : Bytes) :
    (if side text then counting (fun query => query.1 = text) (queries ++ [(name, recordType)])
      else 0) =
    (if side text then counting (fun query => query.1 = text) queries else 0) +
      if side name then (if name = text then 1 else 0) else 0 := by
  by_cases same : name = text
  · subst same
    cases side name <;> simp
  · cases side text <;> simp [same]

/-- A query is counted by name and by type, and either as answered or as forwarded. -/
theorem tally_snoc : tally codec overlayNames (queries ++ [(name, recordType)]) =
    if overlayContains overlayNames name then
      incrementOverlayCounter
        (incrementQueryCounters codec (tally codec overlayNames queries) name recordType) name
    else
      incrementForwardedCounter
        (incrementQueryCounters codec (tally codec overlayNames queries) name recordType) name := by
  have overlay := @side_snoc queries name recordType (overlayContains overlayNames)
  have forwarded := @side_snoc queries name recordType
    fun text => !overlayContains overlayNames text
  simp only [Bool.not_eq_true', ← Bool.not_eq_true, ite_not] at forwarded
  cases inside : overlayContains overlayNames name with
  | true =>
      simp only [inside, ite_true] at overlay forwarded ⊢
      ext text : 2
      case true.overlayByName =>
        simp only [incrementOverlayCounter, increment_apply]
        exact overlay text
      case true.forwardedByName => exact (forwarded text).trans (UInt64.add_zero _)
      all_goals simp [tally, incrementOverlayCounter, incrementQueryCounters, increment_apply,
        inside]
  | false =>
      simp only [inside, Bool.false_eq_true, ite_false] at overlay forwarded ⊢
      ext text : 2
      case false.overlayByName => exact (overlay text).trans (UInt64.add_zero _)
      case false.forwardedByName =>
        simp only [incrementForwardedCounter, increment_apply]
        exact forwarded text
      all_goals simp [tally, incrementForwardedCounter, incrementQueryCounters, increment_apply,
        inside]

end Histories

section Rounds

variable {σ : Type} (W : World UdpCall UdpCall.Ret σ) (codec : Codec Name)
  (parentDns : List IpAddr) (overlayNames : List Bytes)

/-- The state of the network with all that the server has done there, and the counters. -/
abbrev State (σ : Type) : Type := (σ × List Event) × Counters

/-- Any network, beside the counters. -/
abbrev world : World Call Call.Ret (State σ) := W.recorded.both (World.of (perform codec))

/-- The counters account for what was received, and all that was sent is in order. -/
def Moment (t : State σ) : Prop :=
  AllFit codec parentDns overlayNames t.1.2 ∧
    Accounts codec overlayNames (queriesOf codec t.1.2) t.2

/-- The same with the queries, the packet and the counters of now. -/
structure Now (queries : List (Bytes × RecordType)) (last : Option (Bytes × SocketAddr))
    (counters : Counters) (t : State σ) : Prop where
  fit : AllFit codec parentDns overlayNames t.1.2
  queries : queriesOf codec t.1.2 = queries
  last : lastReceived t.1.2 = last
  counters : t.2 = counters

variable {W codec parentDns overlayNames} {s s' : σ} {events : List Event}
  {queries : List (Bytes × RecordType)} {last : Option (Bytes × SocketAddr)}
  {counters n : Counters} {name packet : Bytes} {recordType : RecordType} {peer : SocketAddr}

theorem Now.moment {t : State σ}
    (now : Now codec parentDns overlayNames queries last counters t)
    (accounts : Accounts codec overlayNames queries counters) :
    Moment codec parentDns overlayNames t := by
  refine ⟨now.fit, ?_⟩
  rw [now.queries, now.counters]
  exact accounts

/-- A call on the network that is not the next packet. -/
theorem udp_safe {c : UdpCall} {Q : UdpCall.Ret c → State σ → Prop}
    (now : Now codec parentDns overlayNames queries last counters ((s, events), n))
    (accounts : Accounts codec overlayNames queries counters)
    (silent : ∀ r, received ⟨c, r⟩ = none)
    (fits : ∀ r, Fits codec parentDns overlayNames events ⟨c, r⟩)
    (next : ∀ r s', Now codec parentDns overlayNames queries last counters
      ((s', events ++ [⟨c, r⟩]), n) → Q r ((s', events ++ [⟨c, r⟩]), n)) :
    Safe (world W codec) (Moment codec parentDns overlayNames) Q (udp c) ((s, events), n) := by
  refine ⟨now.moment accounts, fun t cut => ?_, fun r t answer => ?_⟩
  · obtain ⟨⟨s', events'⟩, n'⟩ := t
    obtain ⟨⟨-, record⟩, same⟩ := cut
    obtain rfl : events' = events := record
    obtain rfl : n' = n := same
    exact Now.moment ⟨now.fit, now.queries, now.last, now.counters⟩ accounts
  · obtain ⟨⟨s', events'⟩, n'⟩ := t
    obtain ⟨⟨-, record⟩, same⟩ := answer
    obtain rfl : events' = events ++ [⟨c, r⟩] := record
    obtain rfl : n' = n := same
    have asks : queriesOf codec (events ++ [⟨c, r⟩]) = queries := by
      rw [queriesOf_snoc, silent r]
      simpa using now.queries
    have packet : lastReceived (events ++ [⟨c, r⟩]) = last := by
      rw [lastReceived_snoc, silent r]
      exact now.last
    have after : Now codec parentDns overlayNames queries last counters
        ((s', events ++ [⟨c, r⟩]), n') := ⟨now.fit.snoc (fits r), asks, packet, now.counters⟩
    exact ⟨after.moment accounts, next r s' after⟩

theorem count_safe {c : CounterCall} {raised : Counters} {Q : Unit → State σ → Prop}
    (now : Now codec parentDns overlayNames queries last counters ((s, events), n))
    (accounts : Accounts codec overlayNames queries counters)
    (performed : (perform codec counters c).2 = raised)
    (accounts' : Accounts codec overlayNames queries raised)
    (next : ∀ n', Now codec parentDns overlayNames queries last raised ((s, events), n') →
      Q () ((s, events), n')) :
    Safe (world W codec) (Moment codec parentDns overlayNames) Q (count c) ((s, events), n) := by
  refine ⟨now.moment accounts, fun t cut => cut.1.elim, fun r t answer => ?_⟩
  obtain ⟨⟨s', events'⟩, n'⟩ := t
  obtain ⟨answered, same⟩ := answer
  obtain ⟨rfl, rfl⟩ := Prod.mk.inj same
  obtain rfl : n = counters := now.counters
  have after : Now codec parentDns overlayNames queries last raised ((s', events'), n') :=
    ⟨now.fit, now.queries, now.last, (Prod.mk.inj answered).2.symm.trans performed⟩
  exact ⟨after.moment accounts', next n' after⟩

theorem perform_overlay (inside : overlayContains overlayNames name = true) :
    (perform codec (perform codec (tally codec overlayNames queries) (.query name recordType)).2
      (.overlay name)).2 = tally codec overlayNames (queries ++ [(name, recordType)]) := by
  rw [tally_snoc, if_pos inside]
  rfl

theorem perform_forwarded (outside : overlayContains overlayNames name = false) :
    (perform codec (perform codec (tally codec overlayNames queries) (.query name recordType)).2
      (.forwarded name)).2 = tally codec overlayNames (queries ++ [(name, recordType)]) := by
  rw [tally_snoc, if_neg (by rw [outside]; exact Bool.false_ne_true)]
  rfl

/-- The parents are asked for a query that is not the server's. -/
theorem forwardQuery_safe (parents : List IpAddr) (known : ∀ parent ∈ parents, parent ∈ parentDns)
    (now : Now codec parentDns overlayNames queries (some (packet, peer)) counters
      ((s, events), n))
    (accounts : Accounts codec overlayNames queries counters)
    (query : asked codec packet = some (name, recordType))
    (outside : overlayContains overlayNames name = false) :
    Safe (world W codec) (Moment codec parentDns overlayNames)
      (fun r t => Now codec parentDns overlayNames queries (some (packet, peer)) counters t ∧
        ∀ response, r = .ok response →
          t.1.2.getLast? = some ⟨.await MAX_DNS_PACKET FORWARD_TIMEOUT, some response⟩)
      (forwardQuery packet parents).run ((s, events), n) := by
  induction parents generalizing s events with
  | nil => exact ⟨now.moment accounts, now, by simp⟩
  | cons parent rest ih =>
      obtain ⟨here, later⟩ := List.forall_mem_cons.mp known
      refine Safe.lift (udp_safe now accounts (fun _ => rfl) (fun _ => trivial)
        fun bound s₁ now₁ => ?_)
      cases bound with
      | error _ => exact ih later now₁
      | ok _ =>
          have fits : ∀ r, Fits codec parentDns overlayNames _ ⟨.ask packet ⟨parent, DNS_PORT⟩, r⟩ :=
            fun r => ⟨⟨peer, now₁.last⟩, ⟨parent, here, rfl⟩, name, recordType, query, outside⟩
          refine Safe.lift (udp_safe now₁ accounts (fun _ => rfl) fits fun sent s₂ now₂ => ?_)
          cases sent with
          | error _ => exact ih later now₂
          | ok _ =>
              refine Safe.lift (udp_safe now₂ accounts (fun _ => rfl) (fun _ => trivial)
                fun answer s₃ now₃ => ?_)
              cases answer with
              | none => exact ih later now₃
              | some response =>
                  refine ⟨now₃.moment accounts, now₃, ?_⟩
                  rintro _ ⟨⟩
                  exact List.getLast?_concat

theorem errorResponse_safe {request : Message Name} (decoded : codec.fromVec packet = some request)
    (empty : request.queries = [])
    (now : Now codec parentDns overlayNames queries last counters ((s, events), n))
    (accounts : Accounts codec overlayNames queries counters) :
    Safe (world W codec) (Moment codec parentDns overlayNames)
      (fun r t => Now codec parentDns overlayNames queries last counters t ∧
        ∀ response, r = .ok response → Replies codec overlayNames t.1.2 packet response)
      (errorResponse codec request .formErr).run ((s, events), n) := by
  unfold errorResponse
  cases encoded : codec.toVec (codec.errorMsg request.id request.opCode .formErr) with
  | none => exact ⟨now.moment accounts, now, by simp⟩
  | some response =>
      refine ⟨now.moment accounts, now, ?_⟩
      rintro _ ⟨⟩
      exact .formErr decoded empty encoded

/-- A packet is counted when it is a query, and its response is in order. -/
theorem handleQuery_safe
    (now : Now codec parentDns overlayNames (queries ++ (asked codec packet).toList)
      (some (packet, peer)) (tally codec overlayNames queries) ((s, events), n)) :
    Safe (world W codec) (Moment codec parentDns overlayNames)
      (fun r t => Now codec parentDns overlayNames (queries ++ (asked codec packet).toList)
          (some (packet, peer)) (tally codec overlayNames (queries ++ (asked codec packet).toList)) t ∧
        ∀ response, r = .ok response → Replies codec overlayNames t.1.2 packet response)
      (handleQuery codec parentDns overlayNames packet).run ((s, events), n) := by
  unfold handleQuery
  cases decoded : codec.fromVec packet with
  | none =>
      have idle : asked codec packet = none := by simp [asked, decoded]
      simp only [idle, Option.toList_none, List.append_nil] at now ⊢
      exact ⟨now.moment (.settled _), now, by simp⟩
  | some request =>
      cases first : request.queries.head? with
      | none =>
          have idle : asked codec packet = none := by simp [asked, decoded, first]
          simp only [first, idle, Option.toList_none, List.append_nil] at now ⊢
          exact errorResponse_safe decoded (List.head?_eq_none_iff.mp first) now (.settled _)
      | some query =>
          have query_eq : asked codec packet =
              some (normalizeName codec query.name, query.queryType) := by
            simp [asked, decoded, first]
          simp only [first, query_eq, Option.toList_some] at now ⊢
          refine Safe.lift (count_safe (c := .query _ _) now (.uncounted _ _ _) rfl
            (.pending _ _ _) fun n₁ now₁ => ?_)
          cases inside : overlayContains overlayNames (normalizeName codec query.name) with
          | true =>
              simp only [ite_true]
              refine Safe.lift (count_safe (c := .overlay _) now₁ (.pending _ _ _)
                (perform_overlay inside) (.settled _) fun n₂ now₂ => ?_)
              cases encoded : codec.toVec (overlayResponse codec request query) with
              | none => exact ⟨now₂.moment (.settled _), now₂, by simp⟩
              | some response =>
                  refine ⟨now₂.moment (.settled _), now₂, ?_⟩
                  rintro _ ⟨⟩
                  exact .overlay decoded first inside encoded
          | false =>
              simp only [Bool.false_eq_true, ite_false]
              refine Safe.lift (count_safe (c := .forwarded _) now₁ (.pending _ _ _)
                (perform_forwarded inside) (.settled _) fun n₂ now₂ => ?_)
              refine (forwardQuery_safe parentDns (fun _ mem => mem) now₂ (.settled _) query_eq
                inside).post ?_
              intro r t _ after
              obtain ⟨now₃, answer⟩ := after
              exact ⟨now₃, fun response ok => .forwarded query_eq inside (answer response ok)⟩

/-- Between two rounds everything is counted. -/
def Settled (codec : Codec Name) (parentDns : List IpAddr) (overlayNames : List Bytes)
    (t : State σ) : Prop :=
  Now codec parentDns overlayNames (queriesOf codec t.1.2) (lastReceived t.1.2)
    (tally codec overlayNames (queriesOf codec t.1.2)) t

theorem Now.settled {t : State σ}
    (now : Now codec parentDns overlayNames queries last (tally codec overlayNames queries) t) :
    Settled codec parentDns overlayNames t := by
  refine ⟨now.fit, rfl, rfl, ?_⟩
  rw [now.counters, now.queries]

theorem serveOne_safe (settled : Settled codec parentDns overlayNames ((s, events), n)) :
    Safe (world W codec) (Moment codec parentDns overlayNames)
      (fun _ t => Settled codec parentDns overlayNames t)
      (serveOne codec parentDns overlayNames) ((s, events), n) := by
  have moment := Now.moment settled (.settled _)
  refine ⟨moment, fun t cut => ?_, fun r t answer => ?_⟩
  · obtain ⟨⟨s', events'⟩, n'⟩ := t
    obtain ⟨⟨-, record⟩, same⟩ := cut
    obtain rfl : events' = events := record
    obtain rfl : n' = n := same
    exact moment
  obtain ⟨⟨s', events'⟩, n'⟩ := t
  obtain ⟨⟨-, record⟩, same⟩ := answer
  obtain rfl : n' = n := same
  cases r with
  | error e =>
      obtain rfl : events' = events ++ [⟨.recvFrom MAX_DNS_PACKET, .error e⟩] := record
      have after : Now codec parentDns overlayNames (queriesOf codec events) (lastReceived events)
          (tally codec overlayNames (queriesOf codec events)) ((s', events ++
            [⟨.recvFrom MAX_DNS_PACKET, .error e⟩]), n') :=
        ⟨settled.fit.snoc trivial, by simp [received], by simp [received], settled.counters⟩
      exact ⟨after.moment (.settled _), after.settled⟩
  | ok datagram =>
      obtain ⟨packet, peer⟩ := datagram
      obtain rfl : events' = events ++ [⟨.recvFrom MAX_DNS_PACKET, .ok (packet, peer)⟩] := record
      have arrived : Now codec parentDns overlayNames
          (queriesOf codec events ++ (asked codec packet).toList) (some (packet, peer))
          (tally codec overlayNames (queriesOf codec events))
          ((s', events ++ [⟨.recvFrom MAX_DNS_PACKET, .ok (packet, peer)⟩]), n') :=
        ⟨settled.fit.snoc trivial, by simp [received], by simp [received], settled.counters⟩
      show Safe _ _ _ ((handleQuery codec parentDns overlayNames packet).run >>= _) _
      refine (safe_bind _ _).mpr ((handleQuery_safe arrived).post ?_)
      intro r t _ handled
      obtain ⟨⟨s₁, events₁⟩, n₁⟩ := t
      obtain ⟨now, replies⟩ := handled
      cases r with
      | error e => exact ⟨now.moment (.settled _), now.settled⟩
      | ok response =>
          have fits : ∀ r, Fits codec parentDns overlayNames events₁ ⟨.sendTo response peer, r⟩ :=
            fun r => ⟨packet, now.last, replies response rfl⟩
          refine (safe_bind _ _).mpr (udp_safe now (.settled _) (fun _ => rfl) fits
            fun sent s₂ now₂ => ?_)
          exact ⟨now₂.moment (.settled _), now₂.settled⟩

end Rounds

section Loop

variable {σ : Type} {W : World UdpCall UdpCall.Ret σ} {codec : Codec Name}
  {parentDns : List IpAddr} {overlayNames : List Bytes} {s : σ} {t : State σ}

/-- Where the loop may be: some rounds are over, and one may be under way. -/
def Serves (W : World UdpCall UdpCall.Ret σ) (codec : Codec Name) (parentDns : List IpAddr)
    (overlayNames : List Bytes) (s : σ) (t : State σ) : Prop :=
  ∃ t₁, Relation.ReflTransGen
      (fun t t' => Ends (world W codec) (serveOne codec parentDns overlayNames) t () t')
      ((s, []), .zero) t₁ ∧
    Visits (world W codec) (serveOne codec parentDns overlayNames) t₁ t

theorem fresh_settled (s : σ) : Settled codec parentDns overlayNames ((s, []), .zero) :=
  ⟨fun front event back no => absurd no (by simp), rfl, rfl, tally_nil.symm⟩

theorem serves_moment (serves : Serves W codec parentDns overlayNames s t) :
    Moment codec parentDns overlayNames t := by
  obtain ⟨t₁, rounds, now⟩ := serves
  have settled : Settled codec parentDns overlayNames t₁ := by
    clear now
    induction rounds with
    | refl => exact fresh_settled s
    | tail _ round ih => exact (serveOne_safe ih).ends round
  exact (serveOne_safe settled).visits now

/-- At every moment the counters are the histogram, modulo `2 ^ 64`, of the queries that have been
received. Only the last one may be missing, or not yet known to be answered or forwarded. -/
theorem counters_account (serves : Serves W codec parentDns overlayNames s t) :
    Accounts codec overlayNames (queriesOf codec t.1.2) t.2 :=
  (serves_moment serves).2

/-- A parent is only asked for names that are not in the overlay, with the packet as it came,
and every response answers the packet that came last. -/
theorem overlay_stays_local (serves : Serves W codec parentDns overlayNames s t)
    (front : List Event) (event : Event) (back : List Event)
    (split : t.1.2 = front ++ event :: back) : Fits codec parentDns overlayNames front event :=
  (serves_moment serves).1 front event back split

end Loop

section Task

/-- What the owner of the server can do. -/
inductive ServerCall where
  | start (listenIp : IpAddr) (parentDns : List IpAddr) (overlayNames : List Bytes)
  | counters
  | abort

abbrev ServerCall.Ret : ServerCall → Type
  | .start _ _ _ => Except Unit Unit
  | .counters => Counters
  | .abort => Unit

def ServerCall.Starts : ServerCall → Prop
  | .start _ _ _ => True
  | _ => False

/-- The loop with the rest of the round that it is in. -/
structure Task where
  parentDns : List IpAddr
  overlayNames : List Bytes
  rest : Io Unit

structure Server (σ : Type) where
  task : Option Task
  state : State σ

namespace Server

variable {σ : Type} (W : World UdpCall UdpCall.Ret σ) (codec : Codec Name)

/-- The task makes one call, or turns to the next round. -/
inductive Step : Server σ → Server σ → Prop
  | call {parentDns : List IpAddr} {overlayNames : List Bytes} {c : Call}
      {k : Call.Ret c → Io Unit} {t t' : State σ} {r : Call.Ret c}
      (answer : (world W codec).answers t c r t') :
      Step ⟨some ⟨parentDns, overlayNames, .call c k⟩, t⟩ ⟨some ⟨parentDns, overlayNames, k r⟩, t'⟩
  | next {parentDns : List IpAddr} {overlayNames : List Bytes} {t : State σ} :
      Step ⟨some ⟨parentDns, overlayNames, .ret ()⟩, t⟩
        ⟨some ⟨parentDns, overlayNames, serveOne codec parentDns overlayNames⟩, t⟩

/-- The task runs in the background and stops where it is. A new one starts with new counters,
and not beside another. -/
def background : World ServerCall ServerCall.Ret (Server σ) where
  answers
    | v, .start _ parentDns overlayNames, r, v' =>
        (r = .error () ∧ v' = v) ∨
          (r = .ok () ∧ v.task = none ∧
            v' = ⟨some ⟨parentDns, overlayNames, serveOne codec parentDns overlayNames⟩,
              ((v.state.1.1, []), .zero)⟩)
    | v, .counters, counters, v' =>
        Relation.ReflTransGen (Step W codec) v v' ∧ counters = v'.state.2
    | v, .abort, _, v' =>
        ∃ v₁, Relation.ReflTransGen (Step W codec) v v₁ ∧ v'.task = none ∧
          (v'.state = v₁.state ∨ ∃ task c k, v₁.task = some task ∧ task.rest = .call c k ∧
            (world W codec).torn v₁.state c v'.state)
  torn v _ v' := Relation.ReflTransGen (Step W codec) v v'

end Server

variable {σ : Type} {W : World UdpCall UdpCall.Ret σ} {codec : Codec Name}
  {parentDns : List IpAddr} {overlayNames : List Bytes} {v v' : Server σ}
  {log : List (Sigma ServerCall.Ret)}

/-- Everything so far is in order, and the task will keep it so. -/
structure Server.Good (W : World UdpCall UdpCall.Ret σ) (codec : Codec Name)
    (parentDns : List IpAddr) (overlayNames : List Bytes) (v : Server σ) : Prop where
  moment : Moment codec parentDns overlayNames v.state
  task : ∀ task, v.task = some task → task.parentDns = parentDns ∧
    task.overlayNames = overlayNames ∧
    Safe (world W codec) (Moment codec parentDns overlayNames)
      (fun _ t => Settled codec parentDns overlayNames t) task.rest v.state

theorem fresh_good (s : σ) : Server.Good W codec parentDns overlayNames
    ⟨some ⟨parentDns, overlayNames, serveOne codec parentDns overlayNames⟩, ((s, []), .zero)⟩ := by
  refine ⟨Now.moment (fresh_settled s) (.settled _), ?_⟩
  rintro _ ⟨⟩
  exact ⟨rfl, rfl, serveOne_safe (fresh_settled s)⟩

/-- The record of the server only grows. -/
theorem world_grows {t t' : State σ} {c : Call} {r : Call.Ret c}
    (answer : (world W codec).answers t c r t') : t.1.2 <+: t'.1.2 := by
  cases c with
  | inl c =>
      obtain ⟨⟨-, record⟩, -⟩ := answer
      rw [record]
      exact List.prefix_append _ _
  | inr c =>
      obtain ⟨-, same⟩ := answer
      rw [same]

theorem Server.Step.good (step : Server.Step W codec v v')
    (good : v.Good W codec parentDns overlayNames) :
    v'.Good W codec parentDns overlayNames ∧ v.state.1.2 <+: v'.state.1.2 := by
  cases step with
  | @call parents names c k t t' r answer =>
      obtain ⟨rfl, rfl, safe⟩ := good.task _ rfl
      have after := safe.2.2 _ _ answer
      refine ⟨⟨after.here, ?_⟩, world_grows answer⟩
      rintro _ ⟨⟩
      exact ⟨rfl, rfl, after⟩
  | @next parents names t =>
      obtain ⟨rfl, rfl, safe⟩ := good.task _ rfl
      refine ⟨⟨good.moment, ?_⟩, List.prefix_rfl⟩
      rintro _ ⟨⟩
      exact ⟨rfl, rfl, serveOne_safe safe.2⟩

theorem steps_good (steps : Relation.ReflTransGen (Server.Step W codec) v v')
    (good : v.Good W codec parentDns overlayNames) :
    v'.Good W codec parentDns overlayNames ∧ v.state.1.2 <+: v'.state.1.2 := by
  induction steps with
  | refl => exact ⟨good, List.prefix_rfl⟩
  | tail _ last ih =>
      obtain ⟨good, grown⟩ := ih
      obtain ⟨good', more⟩ := last.good good
      exact ⟨good', grown.trans more⟩

theorem torn_good {t : State σ} {task : Task} {c : Call} {k : Call.Ret c → Io Unit}
    (good : v.Good W codec parentDns overlayNames) (there : v.task = some task)
    (rest : task.rest = .call c k) (torn : (world W codec).torn v.state c t) :
    Moment codec parentDns overlayNames t ∧ v.state.1.2 <+: t.1.2 := by
  obtain ⟨-, -, safe⟩ := good.task task there
  rw [rest] at safe
  refine ⟨safe.2.1 t torn, ?_⟩
  cases c with
  | inl c =>
      obtain ⟨⟨-, record⟩, -⟩ := torn
      rw [record]
  | inr c =>
      obtain ⟨never, -⟩ := torn
      exact never.elim

theorem round_steps {p : Io Unit} {t t' : State σ} (ends : Ends (world W codec) p t () t') :
    Relation.ReflTransGen (Server.Step W codec) ⟨some ⟨parentDns, overlayNames, p⟩, t⟩
      ⟨some ⟨parentDns, overlayNames, .ret ()⟩, t'⟩ := by
  generalize result : () = r at ends
  induction ends with
  | ret r t => exact .refl
  | step answer _ ih => exact .head (.call answer) (ih result)

/-- As long as nobody starts another one, every reading of the counters is that of a moment of
this server, and what was received until then stays in the record. -/
theorem background_readings (run : Trace (Server.background W codec).Admits v log v')
    (kept : ∀ entry ∈ log, ¬ entry.1.Starts) (good : v.Good W codec parentDns overlayNames) :
    (v'.Good W codec parentDns overlayNames ∧ v.state.1.2 <+: v'.state.1.2) ∧
      ∀ counters, ⟨.counters, counters⟩ ∈ log → ∃ events, events <+: v'.state.1.2 ∧
        Accounts codec overlayNames (queriesOf codec events) counters := by
  induction run with
  | nil v => exact ⟨⟨good, List.prefix_rfl⟩, by simp⟩
  | @cons v v₁ v' entry entries first _ ih =>
      obtain ⟨here, later⟩ := List.forall_mem_cons.mp kept
      obtain ⟨c, r⟩ := entry
      cases c with
      | start listenIp parents names => exact absurd trivial here
      | counters =>
          obtain ⟨steps, rfl⟩ := first
          obtain ⟨good₁, grown⟩ := steps_good steps good
          obtain ⟨⟨good', more⟩, readings⟩ := ih later good₁
          refine ⟨⟨good', grown.trans more⟩, fun counters mem => ?_⟩
          cases List.mem_cons.mp mem with
          | inl same =>
              cases same
              exact ⟨v₁.state.1.2, more, good₁.moment.2⟩
          | inr mem => exact readings counters mem
      | abort =>
          obtain ⟨v₂, steps, ended, stopped⟩ := first
          obtain ⟨good₂, grown⟩ := steps_good steps good
          have moment : Moment codec parentDns overlayNames v₁.state ∧
              v₂.state.1.2 <+: v₁.state.1.2 := by
            cases stopped with
            | inl same =>
                rw [same]
                exact ⟨good₂.moment, List.prefix_rfl⟩
            | inr cut =>
                obtain ⟨task, c, k, there, rest, torn⟩ := cut
                exact torn_good good₂ there rest torn
          have good₁ : v₁.Good W codec parentDns overlayNames :=
            ⟨moment.1, fun task there => by rw [ended] at there; cases there⟩
          obtain ⟨⟨good', more⟩, readings⟩ := ih later good₁
          refine ⟨⟨good', grown.trans (moment.2.trans more)⟩, fun counters mem => ?_⟩
          cases List.mem_cons.mp mem with
          | inl same => cases same
          | inr mem => exact readings counters mem

/-- A counter moves only for a query of its name. -/
theorem Accounts.received {queries : List (Bytes × RecordType)} {counters : Counters}
    {name : Bytes} (accounts : Accounts codec overlayNames queries counters)
    (some : counters.byName name ≠ 0) : ∃ recordType, (name, recordType) ∈ queries := by
  have counted : ∀ queries : List (Bytes × RecordType),
      (tally codec overlayNames queries).byName name ≠ 0 →
        ∃ recordType, (name, recordType) ∈ queries := by
    intro queries some
    have counted : queries.countP (fun query => query.1 = name) ≠ 0 :=
      fun none => some (congrArg UInt64.ofNat none)
    obtain ⟨⟨other, recordType⟩, mem, same⟩ :=
      List.countP_pos_iff.mp (Nat.pos_of_ne_zero counted)
    obtain rfl : other = name := of_decide_eq_true same
    exact ⟨recordType, mem⟩
  cases accounts with
  | settled => exact counted _ some
  | uncounted queries other recordType =>
      obtain ⟨found, mem⟩ := counted _ some
      exact ⟨found, List.mem_append_left _ mem⟩
  | pending queries other recordType =>
      simp only [incrementQueryCounters, increment_apply] at some
      by_cases same : other = name
      · exact ⟨recordType, List.mem_append_right _ (by rw [same]; exact .head _)⟩
      · rw [if_neg same, UInt64.add_zero] at some
        obtain ⟨found, mem⟩ := counted _ some
        exact ⟨found, List.mem_append_left _ mem⟩

end Task

section Samples

def sampleType : UInt8 → RecordType
  | 1 => .a
  | 28 => .aaaa
  | _ => .any

/-- The type and the name are all there is in a packet. -/
def sampleCodec : Codec Bytes where
  new id messageType opCode :=
    ⟨id, messageType, opCode, false, false, false, .noError, [], []⟩
  errorMsg id opCode code := ⟨id, .response, opCode, false, false, false, code, [], []⟩
  fromVec
    | [] => none
    | code :: name =>
        some ⟨7, .query, 0, false, false, false, .noError, [⟨name, sampleType code⟩], []⟩
  toVec message := some [message.answers.length.toUInt8]
  toAscii name := name
  typeText
    | .a => bytes "A"
    | .aaaa => bytes "AAAA"
    | _ => bytes "ANY"

def sampleInside : Bytes := 255 :: bytes "Host.Setdns.test."
def sampleOutside : Bytes := 1 :: bytes "www.example.org"
def samplePeer : SocketAddr := ⟨.v4 ⟨127, 0, 0, 1⟩, 5353⟩

/-- These packets come, one after the other. The number is that of the packets that have come. -/
def sampleNetwork (packets : List Bytes) : Handler UdpCall UdpCall.Ret Nat
  | n, .recvFrom _ =>
      match packets[n]? with
      | some packet => (.ok (packet, samplePeer), n + 1)
      | none => (.error (), n)
  | n, .await _ _ => (some [42], n)
  | n, .sendTo _ _ => (.ok (), n)
  | n, .bind _ => (.ok (), n)
  | n, .ask _ _ => (.ok (), n)

def sampleParents : List IpAddr := [.v4 ⟨192, 0, 2, 1⟩]
def sampleOverlay : List Bytes := [bytes "host.setdns.test"]

def sampleExec (packets : List Bytes) (p : Io Unit) (t : State Nat) : State Nat :=
  (exec (Handler.both (sampleNetwork packets).recorded (perform sampleCodec)) p t).2

theorem sampleExec_ends (packets : List Bytes) (p : Io Unit) (t : State Nat) :
    Ends (world (World.of (sampleNetwork packets)) sampleCodec) p t ()
      (sampleExec packets p t) := by
  refine ends_exec (fun s c => ?_) _ t
  cases c with
  | inl c => exact ⟨⟨rfl, rfl⟩, rfl⟩
  | inr c => exact ⟨rfl, rfl⟩

/-- One of the packets is for the overlay. -/
def samplePackets : List Bytes := [sampleInside, sampleOutside]

def sampleServe : State Nat → State Nat :=
  sampleExec samplePackets (serveOne sampleCodec sampleParents sampleOverlay)

theorem sampleServe_ends (t : State Nat) :
    Ends (world (World.of (sampleNetwork samplePackets)) sampleCodec)
      (serveOne sampleCodec sampleParents sampleOverlay) t () (sampleServe t) :=
  sampleExec_ends _ _ _

def sampleServed : State Nat := sampleServe (sampleServe ((0, []), .zero))

theorem sampleServed_serves : Serves (World.of (sampleNetwork samplePackets)) sampleCodec
    sampleParents sampleOverlay 0 sampleServed :=
  ⟨sampleServed, .tail (.single (sampleServe_ends _)) (sampleServe_ends _), .here _ _⟩

theorem counters_account_sample :
    Accounts sampleCodec sampleOverlay (queriesOf sampleCodec sampleServed.1.2) sampleServed.2 :=
  counters_account sampleServed_serves

/-- The second packet is handed on. -/
theorem overlay_stays_local_sample :
    Fits sampleCodec sampleParents sampleOverlay (sampleServed.1.2.take 4)
      ⟨.ask sampleOutside ⟨.v4 ⟨192, 0, 2, 1⟩, DNS_PORT⟩, .ok ()⟩ :=
  overlay_stays_local sampleServed_serves _ _ (sampleServed.1.2.drop 5) rfl

/-- Whenever its counters are read, the server has just finished a round. -/
def sampleBackground (packets : List Bytes) : Handler ServerCall ServerCall.Ret (Server Nat)
  | ⟨none, t⟩, .start _ parents names =>
      (.ok (), ⟨some ⟨parents, names, serveOne sampleCodec parents names⟩,
        ((t.1.1, []), .zero)⟩)
  | ⟨some task, t⟩, .start _ _ _ => (.error (), ⟨some task, t⟩)
  | ⟨none, t⟩, .counters => (t.2, ⟨none, t⟩)
  | ⟨some ⟨parents, names, rest⟩, t⟩, .counters =>
      ((sampleExec packets rest t).2,
        ⟨some ⟨parents, names, serveOne sampleCodec parents names⟩, sampleExec packets rest t⟩)
  | ⟨_, t⟩, .abort => ((), ⟨none, t⟩)

theorem sampleBackground_sound (packets : List Bytes) (v : Server Nat) (c : ServerCall) :
    (Server.background (World.of (sampleNetwork packets)) sampleCodec).answers v c
      (sampleBackground packets v c).1 (sampleBackground packets v c).2 := by
  obtain ⟨task, t⟩ := v
  cases c with
  | start listenIp parents names =>
      cases task with
      | none => exact .inr ⟨rfl, rfl, rfl⟩
      | some task => exact .inl ⟨rfl, rfl⟩
  | counters =>
      cases task with
      | none => exact ⟨.refl, rfl⟩
      | some task => exact ⟨.tail (round_steps (sampleExec_ends _ _ _)) .next, rfl⟩
  | abort =>
      cases task with
      | none => exact ⟨_, .refl, rfl, .inl rfl⟩
      | some task => exact ⟨_, .refl, rfl, .inl rfl⟩

end Samples

end Setdns.TestRunner.TestDns
