import Mathlib.Data.List.TakeWhile
import TaskOrchestration.Job.Model
import TaskOrchestration.Lib.Run
import TaskOrchestration.Lib.Table

set_option autoImplicit false

/-!
# The registry of the nodes

Every node keeps a key of Redis alive by a `SET` with a time to live, and deletes it when it leaves.
The commands of a node are executed in the order in which they were sent, at any time later, and
are sent again when the connection is lost before their replies have come.

* `NodeInfo`, `NodeCommand`, `NodeRegistry`: a node, with its timers and its commands;
* `Topology`, `NodeEvent`, **`step`**; `Live`: the key of a node is there;
* `Guarded`: what the application does: it registers once, and leaves when the registration has
  returned;
* `SentCommand.Before`, `NodeRegistry.Member`: what is kept of the commands and of a node;
* `Kept`, `kept_step`, `instanceId_inj`: of all nodes, which have different ids;
* **`listed_iff_alive`**.
-/

namespace TaskOrchestration

open LabelledRun

inductive NodeRole
  | api | scheduler | worker
  deriving DecidableEq, Repr

/-- What a node tells of itself. -/
structure NodeInfo where
  instanceId : String
  role : NodeRole
  hostname : String
  ipAddress : String
  pid : ℕ
  version : String
  startedAt : Time
  lastHeartbeatAt : Time
  isLeader : Bool
  metadata : JsonObject
  deriving DecidableEq, Repr

/-- `NODE_TTL_SECONDS`, in milliseconds. -/
def nodeTtlMs : ℕ := 30000

/-- A command, and whether `register` waits for it. -/
inductive NodeCommand
  | set (info : NodeInfo) (registers : Bool)
  | del
  deriving DecidableEq, Repr

/-- A command whose reply has not come. -/
structure SentCommand where
  command : NodeCommand
  executed : Bool := false
  deriving DecidableEq, Repr

/-- `register` waits for the command. -/
def SentCommand.registers (c : SentCommand) : Bool :=
  match c.command with
  | .set _ registers => registers
  | .del => false

/-- **A node.** `timers` are the intervals that are armed. `lastSet` is history: when Redis has last
executed a `SET` of the node; so are `left`, that `deregister` has been called, and `deregistered`,
that it has returned. -/
structure NodeRegistry where
  instanceId : String
  hostname : String
  ipAddress : String
  pid : ℕ
  version : String
  nodeInfo : Option NodeInfo := none
  timers : List ℕ := []
  heartbeatTimer : Option ℕ := none
  sent : List SentCommand := []
  crashed : Bool := false
  lastSet : Option Time := none
  left : Bool := false
  deregistered : Bool := false
  deriving DecidableEq, Repr

/-- A process, as the operating system names it. -/
structure Host where
  hostname : String
  ipAddress : String
  pid : ℕ
  version : String
  deriving DecidableEq, Repr

namespace NodeRegistry

/-- The constructor. -/
def start (host : Host) : NodeRegistry where
  instanceId := host.hostname ++ "_" ++ toString host.pid
  hostname := host.hostname
  ipAddress := host.ipAddress
  pid := host.pid
  version := host.version

variable (n : NodeRegistry)

def send (command : NodeCommand) : NodeRegistry := { n with sent := n.sent ++ [{ command }] }

/-- `register`, up to its await. -/
def register (role : NodeRole) (isLeader : Bool) (metadata : JsonObject) (now : Time) :
    NodeRegistry :=
  let info : NodeInfo :=
    { instanceId := n.instanceId
      role := role
      hostname := n.hostname
      ipAddress := n.ipAddress
      pid := n.pid
      version := n.version
      startedAt := now
      lastHeartbeatAt := now
      isLeader := isLeader
      metadata := metadata }
  { n with nodeInfo := some info }.send (.set info true)

/-- The rest of `register`: an interval is armed, and its handle replaces an earlier one. -/
def startHeartbeat : NodeRegistry :=
  let timer := n.timers.foldr max 0 + 1
  { n with timers := n.timers ++ [timer], heartbeatTimer := some timer }

def heartbeat (now : Time) : NodeRegistry :=
  match n.nodeInfo with
  | none => n
  | some info =>
      { n with nodeInfo := some { info with lastHeartbeatAt := now } }.send
        (.set { info with lastHeartbeatAt := now } false)

def updateLeaderStatus (isLeader : Bool) (now : Time) : NodeRegistry :=
  match n.nodeInfo with
  | none => n
  | some info => { n with nodeInfo := some { info with isLeader := isLeader } }.heartbeat now

/-- `deregister`, up to its await: the handle that is there is cleared. -/
def deregister : NodeRegistry :=
  { n with
    timers := n.timers.filter fun timer => some timer ≠ n.heartbeatTimer
    left := true }.send .del

/-- The reply to the first command: `register` and `deregister` go on. -/
def replied : NodeCommand → NodeRegistry
  | .set _ true => { n with sent := n.sent.tail }.startHeartbeat
  | .set _ false => { n with sent := n.sent.tail }
  | .del => { n with sent := n.sent.tail, deregistered := true }

end NodeRegistry

/-- A key of Redis, with its value. -/
structure NodeEntry where
  info : NodeInfo
  expiresAt : Time
  deriving DecidableEq, Repr

abbrev NodeKeys := Table fun e : NodeEntry => e.info.instanceId

/-- `getAllNodes`: `KEYS` has been sent, `MGET` has been sent, or it has returned. -/
inductive NodeListing
  | asking
  | reading (keys : List String)
  | listed (nodes : List NodeInfo)
  deriving DecidableEq, Repr

/-- **The state**: the clock and the keys of Redis, the nodes, and the calls of `getAllNodes`. -/
structure Topology where
  now : Time := 0
  keys : NodeKeys := Table.empty
  nodes : List NodeRegistry
  listings : List NodeListing := []

/-- What happens. The numbers say which node, and which call of `getAllNodes`. -/
inductive NodeEvent
  | advance (ms : ℕ)
  | register (node : ℕ) (role : NodeRole) (isLeader : Bool) (metadata : JsonObject)
  /-- An interval fires. -/
  | tick (node timer : ℕ)
  | updateLeaderStatus (node : ℕ) (isLeader : Bool)
  | deregister (node : ℕ)
  /-- Redis executes the next command of the node. -/
  | execute (node : ℕ)
  /-- The reply to the first command comes. -/
  | reply (node : ℕ)
  /-- The first command is given up. -/
  | reject (node : ℕ)
  /-- The connection was lost: the commands are sent again. -/
  | resend (node : ℕ)
  | crash (node : ℕ)
  | getAllNodes
  | keysRead (listing : ℕ)
  | valuesRead (listing : ℕ)
  deriving DecidableEq, Repr

namespace Topology

def init (hosts : List Host) : Topology where
  nodes := hosts.map NodeRegistry.start

variable (s : Topology)

/-- The value of a key, unless it has expired. -/
def live (id : String) : Option NodeInfo :=
  ((s.keys.find? id).filter fun e => s.now < e.expiresAt).map NodeEntry.info

def Live (id : String) : Prop := (s.live id).isSome = true

instance (id : String) : Decidable (s.Live id) := inferInstanceAs (Decidable (_ = true))

def setNode (k : ℕ) (n : NodeRegistry) : Topology := { s with nodes := s.nodes.set k n }

def executeCommand : NodeCommand → String → NodeKeys
  | .set info _, _ => (s.keys.erase info.instanceId).insertIfAbsent ⟨info, s.now + nodeTtlMs⟩
  | .del, id => s.keys.erase id

/-- The next command of a node: the first one that has not been executed. -/
def execute (k : ℕ) (n : NodeRegistry) : Option Topology :=
  match n.sent.dropWhile SentCommand.executed with
  | [] => none
  | c :: rest =>
      let sent := n.sent.takeWhile SentCommand.executed ++ { c with executed := true } :: rest
      let lastSet := match c.command with
        | .set _ _ => some s.now
        | .del => n.lastSet
      some ({ s with keys := s.executeCommand c.command n.instanceId }.setNode k
        { n with sent := sent, lastSet := lastSet })

/-- A call of a node that has not crashed. -/
def act (k : ℕ) (f : NodeRegistry → Option NodeRegistry) : Option Topology :=
  s.nodes[k]?.bind fun n => if n.crashed then none else (f n).map (s.setNode k)

def step : NodeEvent → Option Topology
  | .advance ms => some { s with now := s.now + ms }
  | .register k role isLeader metadata =>
      s.act k fun n => some (n.register role isLeader metadata s.now)
  | .tick k timer => s.act k fun n => if timer ∈ n.timers then some (n.heartbeat s.now) else none
  | .updateLeaderStatus k isLeader => s.act k fun n => some (n.updateLeaderStatus isLeader s.now)
  | .deregister k => s.act k fun n => some n.deregister
  | .execute k => s.nodes[k]?.bind fun n => s.execute k n
  | .reply k => s.act k fun n =>
      match n.sent with
      | ⟨command, true⟩ :: _ => some (n.replied command)
      | _ => none
  | .reject k => s.act k fun n => if n.sent = [] then none else some { n with sent := n.sent.tail }
  | .resend k => s.act k fun n =>
      some { n with sent := n.sent.map fun c => { c with executed := false } }
  | .crash k => s.act k fun n => some { n with crashed := true }
  | .getAllNodes => some { s with listings := s.listings ++ [.asking] }
  | .keysRead l =>
      if s.listings[l]? = some .asking then
        let keys := (s.keys.rows.map fun e => e.info.instanceId).filter fun id => s.Live id
        some { s with listings := s.listings.set l (if keys = [] then .listed [] else
          .reading keys) }
      else none
  | .valuesRead l =>
      match s.listings[l]? with
      | some (.reading keys) =>
          some { s with listings := s.listings.set l (.listed (keys.filterMap s.live)) }
      | _ => none

/-- **What the application does**: a node registers once; it leaves when the registration has
returned; and its leader status does not change afterwards. -/
def Guarded : NodeEvent → Prop
  | .register k _ _ _ => ∀ n ∈ s.nodes[k]?, n.nodeInfo = none ∧ n.left = false
  | .updateLeaderStatus k _ => ∀ n ∈ s.nodes[k]?, n.left = false
  | .deregister k => ∀ n ∈ s.nodes[k]?, ∀ c ∈ n.sent, c.registers = false
  | _ => True

instance : DecidablePred s.Guarded := fun e => by
  cases e <;> unfold Guarded <;> infer_instance

end Topology

/-! ## The commands of a node -/

/-- Of two commands, the first one is executed first, and nothing but a `DEL` follows a `DEL`. -/
def SentCommand.Before (a b : SentCommand) : Prop :=
  (b.executed = true → a.executed = true) ∧ (a.command = .del → b.command = .del)

/-- **What is kept of a node**, with the keys of Redis.
* `once`: it registers once, and has one interval, whose handle it holds;
* `staying`: before it leaves its key is the one that it has last set;
* `leaving`: afterwards it sends nothing but `DEL`, and after a `DEL` its key is gone. -/
structure NodeRegistry.Member (keys : NodeKeys) (n : NodeRegistry) : Prop where
  inOrder : n.sent.Pairwise SentCommand.Before
  ownInfo : ∀ info ∈ n.nodeInfo, info.instanceId = n.instanceId
  ownSent : ∀ c ∈ n.sent, ∀ info r, c.command = .set info r → info.instanceId = n.instanceId
  once : n.timers.length + n.sent.countP SentCommand.registers ≤ 1
  unregistered : n.nodeInfo = none → n.timers.length + n.sent.countP SentCommand.registers = 0
  handle : ∀ timer ∈ n.timers, n.heartbeatTimer = some timer
  staying : n.left = false → n.deregistered = false ∧ (∀ c ∈ n.sent, c.command ≠ .del) ∧
    (keys.find? n.instanceId).map NodeEntry.expiresAt = n.lastSet.map (· + nodeTtlMs)
  leaving : n.left = true → n.timers = [] ∧ n.sent.countP SentCommand.registers = 0 ∧
    ((∃ c ∈ n.sent, c.command = .del ∧ c.executed = true) → keys.find? n.instanceId = none)
  gone : n.deregistered = true → n.left = true ∧ keys.find? n.instanceId = none ∧
    ∀ c ∈ n.sent, c.command = .del

namespace NodeRegistry

variable {keys keys' : NodeKeys} {n : NodeRegistry}

theorem Member.congr (h : Member keys n)
    (hkey : keys'.find? n.instanceId = keys.find? n.instanceId) : Member keys' n :=
  { h with
    staying := hkey ▸ h.staying
    leaving := hkey ▸ h.leaving
    gone := hkey ▸ h.gone }

/-- **A `SET` is sent**, by a node that has not left. -/
theorem Member.sendSet (h : Member keys n) (hleft : n.left = false) (info : NodeInfo)
    (hid : info.instanceId = n.instanceId) (r : Bool) (hr : r = true → n.nodeInfo = none) :
    Member keys ({ n with nodeInfo := some info }.send (.set info r)) := by
  obtain ⟨hdereg, hnodel, hkey⟩ := h.staying hleft
  have hmem : ∀ {c}, c ∈ n.sent ++ [({ command := .set info r } : SentCommand)] →
      c ∈ n.sent ∨ c = ({ command := .set info r } : SentCommand) := fun hc =>
    (List.mem_append.mp hc).imp_right List.mem_singleton.mp
  have honce : n.timers.length + (n.sent ++ [({ command := .set info r } : SentCommand)]).countP
      SentCommand.registers ≤ 1 := by
    rw [List.countP_append, List.countP_singleton]
    change _ + (_ + if r = true then 1 else 0) ≤ 1
    split_ifs with hreg
    · have := h.unregistered (hr hreg)
      omega
    · exact h.once
  refine ⟨?_, ?_, ?_, honce, fun hnone => ?_, h.handle, fun _ => ⟨hdereg, ?_, hkey⟩, ?_, ?_⟩
  · rw [send, List.pairwise_append]
    refine ⟨h.inOrder, List.pairwise_singleton _ _, fun a ha b hb => ?_⟩
    obtain rfl := List.mem_singleton.mp hb
    exact ⟨Bool.noConfusion, fun hdel => absurd hdel (hnodel a ha)⟩
  · intro info' hinfo
    obtain rfl := Option.some.inj hinfo
    exact hid
  · intro c hc info' r' hset
    rcases hmem hc with hc | rfl
    · exact h.ownSent c hc info' r' hset
    · obtain ⟨rfl, -⟩ := NodeCommand.set.inj hset
      exact hid
  · cases hnone
  · intro c hc
    rcases hmem hc with hc | rfl
    · exact hnodel c hc
    · exact NodeCommand.noConfusion
  · exact fun htrue => absurd (hleft.symm.trans htrue) Bool.noConfusion
  · exact fun htrue => absurd (hdereg.symm.trans htrue) Bool.noConfusion

theorem Member.heartbeat (h : Member keys n) (hleft : n.left = false) (now : Time) :
    Member keys (n.heartbeat now) := by
  unfold NodeRegistry.heartbeat
  split
  · exact h
  · rename_i info hinfo
    have hown : info.instanceId = n.instanceId := h.ownInfo info hinfo
    exact h.sendSet hleft { info with lastHeartbeatAt := now } hown false Bool.noConfusion

theorem Member.updateLeaderStatus (h : Member keys n) (hleft : n.left = false) (isLeader : Bool)
    (now : Time) : Member keys (n.updateLeaderStatus isLeader now) := by
  unfold NodeRegistry.updateLeaderStatus
  split
  · exact h
  · rename_i info hinfo
    have hown : info.instanceId = n.instanceId := h.ownInfo info hinfo
    exact h.sendSet hleft { info with isLeader := isLeader, lastHeartbeatAt := now } hown false
      Bool.noConfusion

/-- **`deregister`** clears the interval, and nothing but `DEL` is sent from now on. -/
theorem Member.deregister (h : Member keys n)
    (hwaits : ∀ c ∈ n.sent, c.registers = false) : Member keys n.deregister := by
  have hnone : n.sent.countP SentCommand.registers = 0 :=
    List.countP_eq_zero.mpr fun c hc hreg => absurd ((hwaits c hc).symm.trans hreg) Bool.noConfusion
  have hcount :
      (n.sent ++ [({ command := .del } : SentCommand)]).countP SentCommand.registers = 0 := by
    rw [List.countP_append, hnone]
    rfl
  have htimers : n.timers.filter (fun timer => some timer ≠ n.heartbeatTimer) = [] := by
    refine List.filter_eq_nil_iff.mpr fun timer ht => ?_
    simp [h.handle timer ht]
  have hmem : ∀ {c}, c ∈ n.sent ++ [({ command := .del } : SentCommand)] →
      c ∈ n.sent ∨ c = ({ command := .del } : SentCommand) := fun hc =>
    (List.mem_append.mp hc).imp_right List.mem_singleton.mp
  have hsum : (n.timers.filter fun timer => some timer ≠ n.heartbeatTimer).length +
      (n.sent ++ [({ command := .del } : SentCommand)]).countP SentCommand.registers = 0 := by
    rw [htimers, hcount]
    rfl
  refine ⟨?_, h.ownInfo, ?_, Nat.le_trans (Nat.le_of_eq hsum) (Nat.zero_le 1), fun _ => hsum, ?_,
    ?_, ?_, ?_⟩
  · rw [NodeRegistry.deregister, send, List.pairwise_append]
    refine ⟨h.inOrder, List.pairwise_singleton _ _, fun a _ b hb => ?_⟩
    obtain rfl := List.mem_singleton.mp hb
    exact ⟨Bool.noConfusion, fun _ => rfl⟩
  · intro c hc info r hset
    rcases hmem hc with hc | rfl
    · exact h.ownSent c hc info r hset
    · cases hset
  · exact fun timer ht => h.handle timer (List.mem_filter.mp ht).1
  · exact fun hfalse => Bool.noConfusion hfalse
  · refine fun _ => ⟨htimers, hcount, ?_⟩
    rintro ⟨c, hc, hdel, hexec⟩
    rcases hmem hc with hc | rfl
    · cases hleft : n.left with
      | false => exact absurd hdel ((h.staying hleft).2.1 c hc)
      | true => exact (h.leaving hleft).2.2 ⟨c, hc, hdel, hexec⟩
    · cases hexec
  · intro hdereg
    obtain ⟨-, hkey, hdel⟩ := h.gone hdereg
    refine ⟨rfl, hkey, fun c hc => ?_⟩
    rcases hmem hc with hc | rfl
    · exact hdel c hc
    · rfl

theorem Member.tail (h : Member keys n) : Member keys { n with sent := n.sent.tail } := by
  have hsub : n.sent.tail.Sublist n.sent := List.tail_sublist _
  have hcount : n.sent.tail.countP SentCommand.registers ≤ n.sent.countP SentCommand.registers :=
    hsub.countP_le
  refine ⟨h.inOrder.sublist hsub, h.ownInfo, fun c hc => h.ownSent c (hsub.subset hc), ?_, ?_,
    h.handle, fun hleft => ?_, fun hleft => ?_, fun hdereg => ?_⟩
  · have := h.once
    dsimp only
    omega
  · intro hnone
    have := h.unregistered hnone
    dsimp only
    omega
  · obtain ⟨hdereg, hnodel, hkey⟩ := h.staying hleft
    exact ⟨hdereg, fun c hc => hnodel c (hsub.subset hc), hkey⟩
  · obtain ⟨htimers, hnone, hkey⟩ := h.leaving hleft
    refine ⟨htimers, by dsimp only; omega, ?_⟩
    rintro ⟨c, hc, hdel⟩
    exact hkey ⟨c, hsub.subset hc, hdel⟩
  · obtain ⟨hleft, hkey, hdel⟩ := h.gone hdereg
    exact ⟨hleft, hkey, fun c hc => hdel c (hsub.subset hc)⟩

/-- **A reply**: the interval of a registration is armed, or the deregistration returns. -/
theorem Member.replied (h : Member keys n) {command : NodeCommand} {rest : List SentCommand}
    (hsent : n.sent = ⟨command, true⟩ :: rest) : Member keys (n.replied command) := by
  have htail := h.tail
  cases command with
  | set info r =>
      cases r with
      | false => exact htail
      | true =>
          have hone : n.timers.length + (1 + n.sent.tail.countP SentCommand.registers) ≤ 1 := by
            have := h.once
            rw [hsent, List.countP_cons] at this
            change _ + (_ + 1) ≤ 1 at this
            rw [hsent, List.tail_cons]
            omega
          have hnil : n.timers = [] := List.length_eq_zero_iff.mp (by omega)
          have hleft : n.left = false := by
            cases hl : n.left with
            | false => rfl
            | true =>
                have := (h.leaving hl).2.1
                rw [hsent, List.countP_cons] at this
                change _ + 1 = 0 at this
                omega
          have hregistered : n.nodeInfo ≠ none := fun hnone => by
            have := h.unregistered hnone
            rw [hsent, List.countP_cons] at this
            change _ + (_ + 1) = 0 at this
            omega
          refine { htail with
            once := ?_, unregistered := fun hnone => absurd hnone hregistered, handle := ?_,
            leaving := fun htrue => absurd (hleft.symm.trans htrue) Bool.noConfusion }
          · change (n.timers ++ [_]).length + n.sent.tail.countP _ ≤ 1
            rw [hnil, List.nil_append, List.length_singleton]
            omega
          · intro timer ht
            rcases List.mem_append.mp ht with ht | ht
            · have ht : timer ∈ n.timers := ht
              rw [hnil] at ht
              exact absurd ht List.not_mem_nil
            · exact congrArg some (List.mem_singleton.mp ht).symm
  | del =>
      have hmem : (⟨.del, true⟩ : SentCommand) ∈ n.sent := hsent ▸ List.mem_cons_self
      have hleft : n.left = true := by
        cases hl : n.left with
        | true => rfl
        | false => exact absurd rfl ((h.staying hl).2.1 _ hmem)
      have hkey := (h.leaving hleft).2.2 ⟨_, hmem, rfl, rfl⟩
      have horder := h.inOrder
      rw [hsent, List.pairwise_cons] at horder
      refine { htail with
        staying := fun hfalse => absurd (hleft.symm.trans hfalse) Bool.noConfusion
        gone := fun _ => ⟨hleft, hkey, fun c hc => ?_⟩ }
      change c ∈ n.sent.tail at hc
      rw [hsent] at hc
      exact (horder.1 c hc).2 rfl

theorem Member.resend (h : Member keys n) :
    Member keys { n with sent := n.sent.map fun c => { c with executed := false } } := by
  have hcount : (n.sent.map fun c : SentCommand => { c with executed := false }).countP
      SentCommand.registers =
      n.sent.countP SentCommand.registers := by
    rw [List.countP_map]
    rfl
  have hmem : ∀ {c}, c ∈ n.sent.map (fun c : SentCommand => { c with executed := false }) →
      c.executed = false ∧ ∃ a ∈ n.sent, a.command = c.command := by
    intro c hc
    obtain ⟨a, ha, rfl⟩ := List.mem_map.mp hc
    exact ⟨rfl, a, ha, rfl⟩
  refine ⟨?_, h.ownInfo, fun c hc info r hset => ?_, ?_, fun hnone => ?_, h.handle,
    fun hleft => ?_, fun hleft => ?_, fun hdereg => ?_⟩
  · exact List.Pairwise.map _ (fun a b hab => ⟨Bool.noConfusion, hab.2⟩) h.inOrder
  · obtain ⟨-, a, ha, hcommand⟩ := hmem hc
    exact h.ownSent a ha info r (hcommand.trans hset)
  · rw [hcount]
    exact h.once
  · rw [hcount]
    exact h.unregistered hnone
  · obtain ⟨hdereg, hnodel, hkey⟩ := h.staying hleft
    refine ⟨hdereg, fun c hc hdel => ?_, hkey⟩
    obtain ⟨-, a, ha, hcommand⟩ := hmem hc
    exact hnodel a ha (hcommand.trans hdel)
  · obtain ⟨htimers, hnone, -⟩ := h.leaving hleft
    refine ⟨htimers, hcount.trans hnone, ?_⟩
    rintro ⟨c, hc, -, hexec⟩
    rw [(hmem hc).1] at hexec
    cases hexec
  · obtain ⟨hleft, hkey, hdel⟩ := h.gone hdereg
    refine ⟨hleft, hkey, fun c hc => ?_⟩
    obtain ⟨-, a, ha, hcommand⟩ := hmem hc
    exact hcommand ▸ hdel a ha

end NodeRegistry

namespace Topology

variable {s s' : Topology} {e : NodeEvent} {k : ℕ} {n n' : NodeRegistry}

theorem find?_set (s : Topology) (info : NodeInfo) (r : Bool) (own id : String) :
    (s.executeCommand (.set info r) own).find? id =
      if id = info.instanceId then some ⟨info, s.now + nodeTtlMs⟩ else s.keys.find? id := by
  rw [executeCommand, Table.find?_insertIfAbsent, Table.find?_erase]
  split_ifs <;> rfl

theorem find?_del (s : Topology) (own id : String) :
    (s.executeCommand .del own).find? id = if id = own then none else s.keys.find? id :=
  Table.find?_erase _ _ _

theorem member_execute (h : n.Member s.keys) {l rest : List SentCommand} {c : SentCommand}
    (hsent : n.sent = l ++ c :: rest) (hl : ∀ a ∈ l, a.executed = true)
    (hc : c.executed = false) :
    NodeRegistry.Member (s.executeCommand c.command n.instanceId) { n with
      sent := l ++ { c with executed := true } :: rest
      lastSet := match c.command with
        | .set _ _ => some s.now
        | .del => n.lastSet } := by
  have hmem : c ∈ n.sent := hsent ▸ List.mem_append_right _ List.mem_cons_self
  have hold : ∀ a ∈ l ++ { c with executed := true } :: rest, ∃ b ∈ n.sent,
      b.command = a.command := by
    intro a ha
    rcases List.mem_append.mp ha with ha | ha
    · exact ⟨a, hsent ▸ List.mem_append_left _ ha, rfl⟩
    · rcases List.mem_cons.mp ha with rfl | ha
      · exact ⟨c, hmem, rfl⟩
      · exact ⟨a, hsent ▸ List.mem_append_right _ (List.mem_cons_of_mem _ ha), rfl⟩
  have hcount : (l ++ { c with executed := true } :: rest).countP SentCommand.registers =
      n.sent.countP SentCommand.registers := by
    rw [hsent, List.countP_append, List.countP_append, List.countP_cons, List.countP_cons]
    rfl
  have horder := h.inOrder
  rw [hsent, List.pairwise_append, List.pairwise_cons] at horder
  obtain ⟨hfirst, ⟨hnext, hlater⟩, hcross⟩ := horder
  refine ⟨?_, h.ownInfo, fun a ha info r hset => ?_, ?_, fun hnone => ?_, h.handle,
    fun hleft => ?_, fun hleft => ?_, fun hdereg => ?_⟩
  · rw [List.pairwise_append, List.pairwise_cons]
    refine ⟨hfirst, ⟨fun b hb => ⟨fun _ => rfl, (hnext b hb).2⟩, hlater⟩, fun a ha b hb => ?_⟩
    rcases List.mem_cons.mp hb with rfl | hb
    · exact ⟨fun _ => hl a ha, (hcross a ha c List.mem_cons_self).2⟩
    · exact hcross a ha b (List.mem_cons_of_mem _ hb)
  · obtain ⟨b, hb, hcommand⟩ := hold a ha
    exact h.ownSent b hb info r (hcommand.trans hset)
  · rw [hcount]
    exact h.once
  · rw [hcount]
    exact h.unregistered hnone
  · obtain ⟨hdereg, hnodel, -⟩ := h.staying hleft
    refine ⟨hdereg, fun a ha hdel => ?_, ?_⟩
    · obtain ⟨b, hb, hcommand⟩ := hold a ha
      exact hnodel b hb (hcommand.trans hdel)
    · cases hcommand : c.command with
      | del => exact absurd hcommand (hnodel c hmem)
      | set info r =>
          rw [find?_set, if_pos (h.ownSent c hmem info r hcommand).symm]
          rfl
  · obtain ⟨htimers, hnone, hkey⟩ := h.leaving hleft
    refine ⟨htimers, hcount.trans hnone, ?_⟩
    rintro ⟨a, ha, hdel, hexec⟩
    cases hcommand : c.command with
    | del => rw [find?_del, if_pos rfl]
    | set info r =>
        -- no `DEL` was executed before it, and none will be sent before it
        exfalso
        have hne : c.command ≠ .del := by
          rw [hcommand]
          exact NodeCommand.noConfusion
        rcases List.mem_append.mp ha with ha | ha
        · exact hne ((hcross a ha c List.mem_cons_self).2 hdel)
        · rcases List.mem_cons.mp ha with rfl | ha
          · exact hne hdel
          · rw [(hnext a ha).1 hexec] at hc
            cases hc
  · obtain ⟨hleft, -, hdel⟩ := h.gone hdereg
    refine ⟨hleft, ?_, fun a ha => ?_⟩
    · rw [hdel c hmem, find?_del, if_pos rfl]
    · obtain ⟨b, hb, hcommand⟩ := hold a ha
      exact hcommand ▸ hdel b hb

/-- **The invariant**: the nodes have different ids, and each is kept. -/
structure Kept (s : Topology) : Prop where
  ids : (s.nodes.map NodeRegistry.instanceId).Nodup
  members : ∀ n ∈ s.nodes, n.Member s.keys

theorem act_eq_some {f : NodeRegistry → Option NodeRegistry} (h : s.act k f = some s') :
    ∃ n n', s.nodes[k]? = some n ∧ f n = some n' ∧ s' = s.setNode k n' := by
  obtain ⟨n, hn, hf⟩ := Option.bind_eq_some_iff.mp h
  split_ifs at hf
  obtain ⟨n', hn', rfl⟩ := Option.map_eq_some_iff.mp hf
  exact ⟨n, n', hn, hn', rfl⟩

theorem ids_set (hn : s.nodes[k]? = some n) (hid : n'.instanceId = n.instanceId) :
    (s.nodes.set k n').map NodeRegistry.instanceId = s.nodes.map NodeRegistry.instanceId := by
  obtain ⟨hlt, rfl⟩ := List.getElem?_eq_some_iff.mp hn
  rw [List.map_set, hid]
  apply List.ext_getElem
  · rw [List.length_set]
  · intro i h₁ h₂
    rw [List.getElem_set]
    split_ifs with hk
    · subst hk
      rw [List.getElem_map]
    · rfl

theorem Kept.setNode (h : Kept s) (hn : s.nodes[k]? = some n) (hid : n'.instanceId = n.instanceId)
    (hmember : n.Member s.keys → n'.Member s.keys) : Kept (s.setNode k n') where
  ids := by
    rw [Topology.setNode, ids_set hn hid]
    exact h.ids
  members m hm := by
    rcases List.mem_or_eq_of_mem_set hm with hm | rfl
    · exact h.members m hm
    · exact hmember (h.members n (List.mem_of_getElem? hn))

theorem find?_executeCommand_of_ne {command : NodeCommand} {own id : String}
    (hown : ∀ info r, command = .set info r → info.instanceId = own) (hne : id ≠ own) :
    (s.executeCommand command own).find? id = s.keys.find? id := by
  cases command with
  | set info r => rw [find?_set, if_neg fun h => hne (h.trans (hown info r rfl))]
  | del => rw [find?_del, if_neg hne]

theorem Kept.execute (h : Kept s) (hn : s.nodes[k]? = some n) (hs : s.execute k n = some s') :
    Kept s' := by
  unfold Topology.execute at hs
  split at hs
  · cases hs
  rename_i c rest hdrop
  obtain rfl := Option.some.inj hs
  have hmem : n ∈ s.nodes := List.mem_of_getElem? hn
  have hsent : n.sent = n.sent.takeWhile SentCommand.executed ++ c :: rest := by
    rw [← hdrop, List.takeWhile_append_dropWhile]
  have hexecuted : ∀ a ∈ n.sent.takeWhile SentCommand.executed, a.executed = true :=
    fun a ha => List.mem_takeWhile_imp ha
  have hnot : c.executed = false := by
    have := List.head?_dropWhile_not SentCommand.executed n.sent
    rw [hdrop] at this
    exact this
  refine ⟨?_, fun m hm => ?_⟩
  · dsimp only [Topology.setNode]
    rw [ids_set hn (by rfl)]
    exact h.ids
  · obtain ⟨i, hi⟩ := List.getElem?_of_mem hm
    dsimp only [Topology.setNode] at hi ⊢
    rw [List.getElem?_set] at hi
    split_ifs at hi with hik
    · obtain rfl := Option.some.inj hi
      exact member_execute (h.members n hmem) hsent hexecuted hnot
    · -- another node
      refine (h.members m (List.mem_of_getElem? hi)).congr (find?_executeCommand_of_ne
        (fun info r hset => (h.members n hmem).ownSent c ?_ info r hset) fun hsame => hik ?_)
      · rw [hsent]
        exact List.mem_append_right _ List.mem_cons_self
      · have h₁ : (s.nodes.map NodeRegistry.instanceId)[k]? = some n.instanceId := by
          rw [List.getElem?_map, hn]
          rfl
        have h₂ : (s.nodes.map NodeRegistry.instanceId)[i]? = some n.instanceId := by
          rw [List.getElem?_map, hi, ← hsame]
          rfl
        obtain ⟨hlt, -⟩ := List.getElem?_eq_some_iff.mp h₁
        exact (List.getElem?_inj hlt h.ids).mp (h₁.trans h₂.symm)

theorem kept_step (h : Kept s) (hguard : s.Guarded e) (hs : s.step e = some s') : Kept s' := by
  cases e with
  | advance | getAllNodes =>
      obtain rfl := Option.some.inj hs
      exact ⟨h.ids, h.members⟩
  | register k role isLeader metadata =>
      obtain ⟨n, n', hn, hf, rfl⟩ := act_eq_some hs
      obtain rfl := Option.some.inj hf
      obtain ⟨hnone, hleft⟩ := hguard n hn
      exact h.setNode hn rfl fun hm => hm.sendSet hleft _ (by rfl) true fun _ => hnone
  | tick k timer =>
      obtain ⟨n, n', hn, hf, rfl⟩ := act_eq_some hs
      split_ifs at hf with htimer
      obtain rfl := Option.some.inj hf
      have hid : (n.heartbeat s.now).instanceId = n.instanceId := by
        unfold NodeRegistry.heartbeat
        split <;> rfl
      refine h.setNode hn hid fun hm => hm.heartbeat ?_ s.now
      cases hleft : n.left with
      | false => rfl
      | true => rw [(hm.leaving hleft).1] at htimer; exact absurd htimer List.not_mem_nil
  | updateLeaderStatus k isLeader =>
      obtain ⟨n, n', hn, hf, rfl⟩ := act_eq_some hs
      obtain rfl := Option.some.inj hf
      have hid : (n.updateLeaderStatus isLeader s.now).instanceId = n.instanceId := by
        unfold NodeRegistry.updateLeaderStatus
        split <;> rfl
      exact h.setNode hn hid fun hm => hm.updateLeaderStatus (hguard n hn) isLeader s.now
  | deregister k =>
      obtain ⟨n, n', hn, hf, rfl⟩ := act_eq_some hs
      obtain rfl := Option.some.inj hf
      exact h.setNode hn rfl fun hm => hm.deregister (hguard n hn)
  | execute k =>
      obtain ⟨n, hn, hx⟩ := Option.bind_eq_some_iff.mp hs
      exact h.execute hn hx
  | reply k =>
      obtain ⟨n, n', hn, hf, rfl⟩ := act_eq_some hs
      split at hf
      · rename_i command rest hsent
        obtain rfl := Option.some.inj hf
        have hid : (n.replied command).instanceId = n.instanceId := by
          unfold NodeRegistry.replied
          split <;> rfl
        exact h.setNode hn hid fun hm => hm.replied hsent
      · cases hf
  | reject k =>
      obtain ⟨n, n', hn, hf, rfl⟩ := act_eq_some hs
      split_ifs at hf
      obtain rfl := Option.some.inj hf
      exact h.setNode hn rfl NodeRegistry.Member.tail
  | resend k =>
      obtain ⟨n, n', hn, hf, rfl⟩ := act_eq_some hs
      obtain rfl := Option.some.inj hf
      exact h.setNode hn rfl NodeRegistry.Member.resend
  | crash k =>
      obtain ⟨n, n', hn, hf, rfl⟩ := act_eq_some hs
      obtain rfl := Option.some.inj hf
      exact h.setNode hn rfl fun hm => { hm with }
  | keysRead l =>
      simp only [step] at hs
      split_ifs at hs <;>
      · obtain rfl := Option.some.inj hs
        exact ⟨h.ids, h.members⟩
  | valuesRead l =>
      simp only [step] at hs
      split at hs
      · obtain rfl := Option.some.inj hs
        exact ⟨h.ids, h.members⟩
      · cases hs

theorem append_cons_inj {α : Type} {a : α} {l l' r r' : List α} (hr : a ∉ r) (hr' : a ∉ r')
    (h : l ++ a :: r = l' ++ a :: r') : l = l' ∧ r = r' := by
  have hend : ∀ {m x y : List α}, a ∉ x → a :: x = m ++ a :: y → m = [] ∧ x = y := by
    intro m x y hx heq
    cases m with
    | nil => exact ⟨rfl, (List.cons.inj heq).2⟩
    | cons c m =>
        refine absurd ?_ hx
        rw [(List.cons.inj heq).2]
        exact List.mem_append_right m List.mem_cons_self
  rcases List.append_eq_append_iff.mp h with ⟨m, rfl, hm⟩ | ⟨m, rfl, hm⟩
  · obtain ⟨rfl, hrest⟩ := hend hr hm
    exact ⟨(List.append_nil l).symm, hrest⟩
  · obtain ⟨rfl, hrest⟩ := hend hr' hm
    exact ⟨List.append_nil l', hrest.symm⟩

theorem instanceId_inj {a b : Host}
    (h : (NodeRegistry.start a).instanceId = (NodeRegistry.start b).instanceId) :
    a.hostname = b.hostname ∧ a.pid = b.pid := by
  have hlists : a.hostname.toList ++ '_' :: Nat.toDigits 10 a.pid =
      b.hostname.toList ++ '_' :: Nat.toDigits 10 b.pid := by
    have := congrArg String.toList h
    simpa [NodeRegistry.start, String.toList_append, Nat.toString_eq_ofList_toDigits] using this
  -- the digits have no underscore
  obtain ⟨hhost, hdigits⟩ := append_cons_inj Nat.underscore_not_in_toDigits
    Nat.underscore_not_in_toDigits hlists
  refine ⟨String.toList_inj.mp hhost, ?_⟩
  rw [← Nat.ofDigitChars_ten_toDigits (n := a.pid), hdigits, Nat.ofDigitChars_ten_toDigits]

theorem kept_init {hosts : List Host}
    (h : (hosts.map fun host => (host.hostname, host.pid)).Nodup) : Kept (init hosts) where
  ids := by
    rw [init, List.map_map]
    refine (List.nodup_map_iff_inj_on (List.Nodup.of_map _ h)).mpr fun a ha b hb hab => ?_
    obtain ⟨hhost, hpid⟩ := instanceId_inj hab
    exact List.inj_on_of_nodup_map h ha hb (Prod.ext hhost hpid)
  members n hn := by
    obtain ⟨host, -, rfl⟩ := List.mem_map.mp hn
    exact ⟨List.Pairwise.nil, fun _ hinfo => (by cases hinfo),
      fun _ hc => absurd hc List.not_mem_nil, Nat.zero_le 1, fun _ => rfl,
      fun _ ht => absurd ht List.not_mem_nil,
      fun _ => ⟨rfl, fun _ hc => absurd hc List.not_mem_nil, rfl⟩,
      fun hleft => Bool.noConfusion hleft, fun hdereg => Bool.noConfusion hdereg⟩

theorem live_eq_some {id : String} {info : NodeInfo} : s.live id = some info ↔
    ∃ t, s.keys.find? id = some ⟨info, t⟩ ∧ s.now < t := by
  rw [live, Option.map_eq_some_iff]
  constructor
  · rintro ⟨⟨info', t⟩, hfilter, rfl⟩
    obtain ⟨hfind, hlt⟩ := Option.filter_eq_some_iff.mp hfilter
    exact ⟨t, hfind, of_decide_eq_true hlt⟩
  · rintro ⟨t, hfind, hlt⟩
    exact ⟨⟨info, t⟩, Option.filter_eq_some_iff.mpr ⟨hfind, decide_eq_true hlt⟩, rfl⟩

theorem live_iff {id : String} : s.Live id ↔
    ∃ t, (s.keys.find? id).map NodeEntry.expiresAt = some t ∧ s.now < t := by
  rw [Live, Option.isSome_iff_exists]
  constructor
  · rintro ⟨info, hinfo⟩
    obtain ⟨t, hfind, hlt⟩ := live_eq_some.mp hinfo
    exact ⟨t, by rw [hfind]; rfl, hlt⟩
  · rintro ⟨t, hfind, hlt⟩
    obtain ⟨⟨info, t'⟩, hentry, rfl⟩ := Option.map_eq_some_iff.mp hfind
    exact ⟨info, live_eq_some.mpr ⟨_, hentry, hlt⟩⟩

theorem map_filterMap_live (keys : List String) :
    (keys.filterMap s.live).map NodeInfo.instanceId = keys.filter fun id => s.Live id := by
  induction keys with
  | nil => rfl
  | cons id keys ih =>
      cases hlive : s.live id with
      | none =>
          have hnot : ¬ s.Live id := by simp [Live, hlive]
          rw [List.filterMap_cons_none hlive, List.filter_cons_of_neg (by simpa using hnot), ih]
      | some info =>
          have hyes : s.Live id := by simp [Live, hlive]
          obtain ⟨t, hfind, -⟩ := live_eq_some.mp hlive
          have hid : info.instanceId = id := (Table.find?_eq_some.mp hfind).2
          rw [List.filterMap_cons_some hlive, List.map_cons, hid, ih,
            List.filter_cons_of_pos (by simpa using hyes)]

variable {es : List NodeEvent}

/-- **A node is listed when it is alive.** Until it leaves, its key is there exactly for 30 seconds
after a `SET` of it was last executed; when its deregistration has returned, the key is gone and
never comes back; and `getAllNodes` returns the nodes whose keys it has found, and which are still
there. -/
theorem listed_iff_alive {hosts : List Host}
    (hpids : (hosts.map fun host => (host.hostname, host.pid)).Nodup)
    (h : Run step (stateGuard Guarded) (init hosts) es s) :
    (∀ n ∈ s.nodes, n.left = false →
      (s.Live n.instanceId ↔ ∃ t, n.lastSet = some t ∧ s.now < t + nodeTtlMs)) ∧
    (∀ n ∈ s.nodes, n.deregistered = true → ¬ s.Live n.instanceId) ∧
    ∀ l keys s', s.listings[l]? = some (.reading keys) → s.step (.valuesRead l) = some s' →
      ∃ nodes, s'.listings[l]? = some (.listed nodes) ∧
        nodes.map NodeInfo.instanceId = keys.filter fun id => s.Live id := by
  have hI : Kept s := h.stable (kept_init hpids) fun _ _ _ _ hI hok hs => kept_step hI hok hs
  refine ⟨fun n hn hleft => ?_, fun n hn hdereg hlive => ?_, fun l keys s' hl hs => ?_⟩
  · rw [live_iff, ((hI.members n hn).staying hleft).2.2]
    simp only [Option.map_eq_some_iff]
    constructor
    · rintro ⟨_, ⟨t, ht, rfl⟩, hlt⟩
      exact ⟨t, ht, hlt⟩
    · rintro ⟨t, ht, hlt⟩
      exact ⟨_, ⟨t, ht, rfl⟩, hlt⟩
  · obtain ⟨t, hfind, -⟩ := live_iff.mp hlive
    rw [((hI.members n hn).gone hdereg).2.1] at hfind
    cases hfind
  · simp only [step, hl] at hs
    obtain rfl := Option.some.inj hs
    obtain ⟨hlt, -⟩ := List.getElem?_eq_some_iff.mp hl
    exact ⟨_, List.getElem?_set_self hlt, map_filterMap_live keys⟩

/-- Two nodes; the second one leaves after the keys have been asked for. -/
theorem node_left_while_listed : ∃ s es n, Run step (stateGuard Guarded)
    (init [⟨"node-a", "10.0.0.7", 17, "1.0.0"⟩, ⟨"node-a", "10.0.0.7", 18, "1.0.0"⟩]) es s ∧
    n ∈ s.nodes ∧ n.deregistered = true ∧ s.listings ≠ [] ∧ ¬ s.Live n.instanceId := by
  obtain ⟨s, hs, hp⟩ := exists_run_of_check step (stateGuard Guarded)
    (init [⟨"node-a", "10.0.0.7", 17, "1.0.0"⟩, ⟨"node-a", "10.0.0.7", 18, "1.0.0"⟩])
    [.register 0 .api false [], .execute 0, .reply 0, .register 1 .api false [], .execute 1,
      .reply 1, .advance 12000, .tick 0 1, .execute 0, .getAllNodes, .keysRead 0, .deregister 1,
      .execute 1, .reply 1, .valuesRead 0]
    (fun s => s.listings ≠ [] ∧ ∃ n ∈ s.nodes, n.deregistered = true) (by decide)
  obtain ⟨hlistings, n, hn, hdereg⟩ := of_decide_eq_true hp
  exact ⟨s, _, n, hs, hn, hdereg, hlistings, (listed_iff_alive (by decide) hs).2.1 n hn hdereg⟩

end Topology

end TaskOrchestration
