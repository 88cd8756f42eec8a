import SpotLess.Fanout

namespace SpotLess.Wire

open Lib

-- The counts of a deployment; there are no replicas beside the servers.
structure Deployment where
  nodeCnt : ℕ
  clientNodeCnt : ℕ
  threadCnt : ℕ
  remThreadCnt : ℕ
  sendThreadCnt : ℕ
  clientThreadCnt : ℕ
  clientRemThreadCnt : ℕ
  clientSendThreadCnt : ℕ
  sendThreadCnt_pos : 0 < sendThreadCnt
  clientSendThreadCnt_pos : 0 < clientSendThreadCnt

namespace Deployment

variable (D : Deployment)

def totalNodeCnt : ℕ := D.nodeCnt + D.clientNodeCnt

def isServerN (id : ℕ) : Bool := id < D.nodeCnt

def isClientN (id : ℕ) : Bool := D.nodeCnt ≤ id ∧ id < D.nodeCnt + D.clientNodeCnt

-- What the parser makes of `g_this_rem_thread_cnt` and `g_this_send_thread_cnt`.
def thisRemThreadCnt (id : ℕ) : ℕ := if D.isClientN id then D.clientRemThreadCnt else D.remThreadCnt

def thisSendThreadCnt (id : ℕ) : ℕ := if D.isClientN id then D.clientSendThreadCnt else D.sendThreadCnt

-- The count that `MessageThread::run` and `MessageQueue::dequeue` take off the identifier of a thread.
def runThreadCnt (id : ℕ) : ℕ := if D.isServerN id then D.threadCnt else D.clientThreadCnt

end Deployment

structure Transport where
  recvSockets : List (ℕ × ℕ)
  sendSockets : List ((ℕ × ℕ) × ℕ)

namespace Transport

variable (D : Deployment)

def tportPort : ℕ := 10000

def tportWindow : ℕ := 20000

def getPortId (srcNodeId destNodeId sendThreadId : ℕ) : ℕ :=
  (D.totalNodeCnt * destNodeId + srcNodeId + sendThreadId * D.totalNodeCnt * D.totalNodeCnt) % 2 ^ 64 % tportWindow +
    tportPort

-- The turns of a loop over the output threads of one end that are not skipped.
def turns (threads rems sends nodeId : ℕ) : List ℕ :=
  (List.range' (threads + rems) sends).filter fun threadId => nodeId % sends = threadId - threads - rems

-- The ports that a node binds for another one, each with the node it is for.
def listen (gNodeId nodeId : ℕ) : List (ℕ × ℕ) :=
  if D.isClientN nodeId then
    (turns D.clientThreadCnt D.clientRemThreadCnt D.clientSendThreadCnt gNodeId).map fun clientThreadId =>
      (nodeId, getPortId D nodeId gNodeId (clientThreadId - D.clientThreadCnt - D.clientRemThreadCnt))
  else
    ((List.range D.sendThreadCnt).filter fun serverThreadId => gNodeId % D.sendThreadCnt = serverThreadId).map
      fun serverThreadId => (nodeId, getPortId D nodeId gNodeId serverThreadId)

-- The sockets to another node, under the node and the absolute identifier of the thread, with the port at that node.
def dial (gNodeId nodeId : ℕ) : List ((ℕ × ℕ) × ℕ) :=
  if D.isClientN gNodeId then
    (turns D.clientThreadCnt D.clientRemThreadCnt D.clientSendThreadCnt nodeId).map fun clientThreadId =>
      ((nodeId, clientThreadId),
        getPortId D gNodeId nodeId (clientThreadId - D.clientThreadCnt - D.clientRemThreadCnt))
  else
    (turns D.threadCnt D.remThreadCnt D.sendThreadCnt nodeId).map fun serverThreadId =>
      ((nodeId, serverThreadId), getPortId D gNodeId nodeId (serverThreadId - D.threadCnt - D.remThreadCnt))

def init (gNodeId : ℕ) : Transport where
  recvSockets := (List.range D.totalNodeCnt).flatMap fun nodeId =>
    if nodeId = gNodeId then [] else listen D gNodeId nodeId
  sendSockets := (List.range D.totalNodeCnt).flatMap fun nodeId =>
    if nodeId = gNodeId then [] else dial D gNodeId nodeId

-- The port that `send_msg` reaches; no result is a lookup past the end of the map.
def sendMsg (t : Transport) (sendThreadId destNodeId : ℕ) : Option ℕ := t.sendSockets.lookup (destNodeId, sendThreadId)

variable {D} {s d t p : ℕ}

section Sockets

lemma eq_singleton {l : List ℕ} {a : ℕ} (hnd : l.Nodup) (h : ∀ x, x ∈ l ↔ x = a) : l = [a] := by
  refine List.perm_singleton.mp ((List.perm_ext_iff_of_nodup hnd (List.nodup_singleton a)).mpr fun x => ?_)
  rw [h, List.mem_singleton]

lemma turns_eq {threads rems sends nodeId : ℕ} (h : 0 < sends) :
    turns threads rems sends nodeId = [threads + rems + nodeId % sends] := by
  have hlt := Nat.mod_lt nodeId h
  refine eq_singleton ((List.nodup_range' ..).filter _) fun x => ?_
  rw [turns, List.mem_filter, List.mem_range'_1, decide_eq_true_eq]
  omega

lemma filter_range_eq {sends nodeId : ℕ} (h : 0 < sends) :
    ((List.range sends).filter fun threadId => nodeId % sends = threadId) = [nodeId % sends] := by
  refine eq_singleton (List.nodup_range.filter _) fun x => ?_
  rw [List.mem_filter, List.mem_range, decide_eq_true_eq]
  exact ⟨fun hx => hx.2.symm, fun hx => ⟨hx ▸ Nat.mod_lt nodeId h, hx.symm⟩⟩

lemma listen_eq (d s : ℕ) : listen D d s = [(s, getPortId D s d (d % D.thisSendThreadCnt s))] := by
  unfold listen Deployment.thisSendThreadCnt
  split_ifs
  · rw [turns_eq D.clientSendThreadCnt_pos, List.map_singleton, Nat.sub_sub, Nat.add_sub_cancel_left]
  · rw [filter_range_eq D.sendThreadCnt_pos, List.map_singleton]

-- The first of the output threads of a node, by what `init` adds up.
def firstOutputThread (D : Deployment) (id : ℕ) : ℕ :=
  if D.isClientN id then D.clientThreadCnt + D.clientRemThreadCnt else D.threadCnt + D.remThreadCnt

lemma dial_eq (s d : ℕ) :
    dial D s d = [((d, firstOutputThread D s + d % D.thisSendThreadCnt s),
      getPortId D s d (d % D.thisSendThreadCnt s))] := by
  unfold dial Deployment.thisSendThreadCnt firstOutputThread
  split_ifs
  · rw [turns_eq D.clientSendThreadCnt_pos, List.map_singleton, Nat.sub_sub, Nat.add_sub_cancel_left]
  · rw [turns_eq D.sendThreadCnt_pos, List.map_singleton, Nat.sub_sub, Nat.add_sub_cancel_left]

lemma mem_recvSockets (hs : s < D.totalNodeCnt) (hne : s ≠ d) :
    (s, p) ∈ (init D d).recvSockets ↔ p = getPortId D s d (d % D.thisSendThreadCnt s) := by
  constructor
  · intro h
    obtain ⟨n, -, h⟩ := List.mem_flatMap.mp h
    split_ifs at h
    · cases h
    · rw [listen_eq, List.mem_singleton, Prod.mk.injEq] at h
      obtain ⟨rfl, hp⟩ := h
      exact hp
  · rintro rfl
    refine List.mem_flatMap.mpr ⟨s, List.mem_range.mpr hs, ?_⟩
    rw [if_neg hne, listen_eq]
    exact List.mem_singleton_self _

lemma mem_sendSockets (hd : d < D.totalNodeCnt) (hne : d ≠ s) :
    ((d, t), p) ∈ (init D s).sendSockets ↔
      t = firstOutputThread D s + d % D.thisSendThreadCnt s ∧ p = getPortId D s d (d % D.thisSendThreadCnt s) := by
  constructor
  · intro h
    obtain ⟨n, -, h⟩ := List.mem_flatMap.mp h
    split_ifs at h
    · cases h
    · rw [dial_eq, List.mem_singleton, Prod.mk.injEq, Prod.mk.injEq] at h
      obtain ⟨⟨rfl, ht⟩, hp⟩ := h
      exact ⟨ht, hp⟩
  · rintro ⟨rfl, rfl⟩
    refine List.mem_flatMap.mpr ⟨d, List.mem_range.mpr hd, ?_⟩
    rw [if_neg hne, dial_eq]
    exact List.mem_singleton_self _

lemma lookup_eq_some {κ ν : Type} [BEq κ] [LawfulBEq κ] {l : List (κ × ν)} {k : κ} {v : ν} (h : (k, v) ∈ l)
    (huniq : ∀ w, (k, w) ∈ l → w = v) : l.lookup k = some v := by
  have hsome : (l.lookup k).isSome := List.lookup_isSome_iff.mpr ⟨(k, v), h, beq_self_eq_true k⟩
  obtain ⟨w, hw⟩ := Option.isSome_iff_exists.mp hsome
  obtain ⟨l₁, l₂, rfl, -⟩ := List.lookup_eq_some_iff.mp hw
  rw [hw, huniq w (List.mem_append_right _ List.mem_cons_self)]

lemma sendMsg_eq (hd : d < D.totalNodeCnt) (hne : d ≠ s) :
    (init D s).sendMsg (firstOutputThread D s + d % D.thisSendThreadCnt s) d =
      some (getPortId D s d (d % D.thisSendThreadCnt s)) :=
  lookup_eq_some ((mem_sendSockets hd hne).mpr ⟨rfl, rfl⟩) fun _ h => ((mem_sendSockets hd hne).mp h).2

end Sockets

section Routing

structure Node (D : Deployment) where
  snd : Sender
  id : ℕ
  id_eq : id = snd.nodeId.toNat
  id_lt : id < D.totalNodeCnt
  threadCnt_eq : snd.threadCnt = D.runThreadCnt id
  remThreadCnt_eq : snd.remThreadCnt = D.thisRemThreadCnt id
  sendThreadCnt_eq : snd.sendThreadCnt = D.thisSendThreadCnt id

variable (nd : Node D) (k : Call)

def Node.outThread (thdId : ℕ) : OutThread := { nd.snd.outThread thdId with isServer := D.isServerN nd.id }

-- The calls a node makes: the threads of a client enqueue only types that go to one destination.
structure Node.Calls : Prop where
  dest_ne : k.dest ≠ []
  client : D.isClientN nd.id = true → k.msg.rtype = .INIT_DONE ∨ k.msg.rtype = .KEYEX ∨ k.msg.rtype = .CL_BATCH

variable {nd k}

lemma Node.Calls.broadcasts (hk : nd.Calls k) (h : D.isClientN nd.id = true) : ¬ k.msg.broadcasts = true := by
  have hr := hk.client h
  simp only [Message.broadcasts, decide_eq_true_eq]
  rcases hr with hr | hr | hr <;> rw [hr] <;> decide

end Routing

-- The same in every run of a server: what a thread has handed over finds its socket.
lemma sends_sendMsg {net : NetConfig} (nd : Node D) {f : Fanout}
    (h : Reach (Fanout.step net nd.snd) (FanEvent.Allowed net nd.snd) .init f) {x : Send} (hx : x ∈ f.sends)
    (hlt : x.dest < D.totalNodeCnt) (hne : x.dest ≠ nd.id) :
    ∃ port, (init D nd.id).sendMsg (firstOutputThread D nd.id + x.thread) x.dest = some port ∧
      (nd.id, port) ∈ (init D x.dest).recvSockets := by
  obtain ⟨_, -, -, hthread⟩ := (Fanout.inv_reach h).sends x hx
  refine ⟨_, ?_, (mem_recvSockets nd.id_lt hne.symm).mpr rfl⟩
  rw [← hthread, nd.sendThreadCnt_eq]
  exact sendMsg_eq hlt hne

end Transport

end SpotLess.Wire
