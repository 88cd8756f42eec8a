import SpotLess.Authentication
import SpotLess.Output
import SpotLess.Lib.Spread

/-! The way of a message from `MessageQueue::enqueue` to the buffers of its destinations: it is signed, put into the
queues of the output threads, one copy for each, and every thread serves the destinations that are its own. -/

namespace SpotLess.Wire

open Lib

structure Sender where
  mac : Mac
  ed25519SignString : Bytes → Bytes
  cmacPrivateKeys : ℕ → Bytes
  pubKey : Bytes
  nodeId : UInt32
  threadCnt : ℕ
  remThreadCnt : ℕ
  sendThreadCnt : ℕ
  key_valid : ∀ d, validKeyLength (cmacPrivateKeys d)
  pubKey_lt : pubKey.length < 2 ^ 64
  ed25519_lt : ∀ s, (ed25519SignString s).length < 2 ^ 64
  sendThreadCnt_pos : 0 < sendThreadCnt

variable (net : NetConfig) (snd : Sender)

section Sign

def Checkpoint.toBytes (m : Checkpoint) : Bytes :=
  decimal m.index ++ underscore ++ decimal m.endIndex ++ underscore ++ decimal m.returnNode

def ClientQueryBatch.getString (m : ClientQueryBatch) : Bytes :=
  decimal m.returnNode ++ ((m.cqrySet.take net.batchSize).map ClientQuery.getRequestString).flatten

-- The string that `sign` puts under the code for a node.
def Message.signString (m : Message) : Option Bytes :=
  match m.body with
  | .clRsp r => some (r.getString net snd.nodeId.toUInt64)
  | .chkpt c => some c.toBytes
  | .sync s => some s.toBytes
  | .generic g => some g.toBytes
  | .proposal p => some (p.getString net snd.nodeId.toUInt64)
  | .ask a => some a.toBytes
  | .askResponse p => some (p.getString net snd.nodeId.toUInt64)
  | _ => none

def Message.withCode (m : Message) (sig key : Bytes) : Message :=
  { m with
    base.signature := sig
    base.pubKey := key
    base.sigSize := UInt64.ofNat sig.length
    base.keySize := UInt64.ofNat key.length }

def Message.sign (m : Message) (dest : ℕ) : Message :=
  match m.body, m.signString net snd with
  | .clBatch b, _ => m.withCode (snd.ed25519SignString (b.getString net)) snd.pubKey
  | _, some s => m.withCode (snd.mac.cmac (snd.cmacPrivateKeys dest) s) (snd.cmacPrivateKeys dest)
  | _, none => m

-- The types with one code per destination, and the types with a code that is put beside the message.
def Message.signsEach (m : Message) : Bool :=
  m.rtype = .PBFT_CHKPT_MSG ∨ m.rtype = .SYNC_MSG ∨ m.rtype = .ASK_MSG

def Message.signsFirst (m : Message) : Bool := m.rtype = .CL_RSP ∨ m.rtype = .CL_BATCH

-- The message and `allsign` as the first switch of `enqueue` leaves them.
def Message.signAll (m : Message) (dest : List ℕ) : Message × List Bytes :=
  if m.signsEach then
    dest.foldl (fun x d => (x.1.sign net snd d, x.2 ++ [(x.1.sign net snd d).base.signature])) (m, [])
  else
    match dest with
    | [] => (m, [])
    | d :: _ => (m.sign net snd d, if m.signsFirst then [(m.sign net snd d).base.signature] else [])

end Sign

section Enqueue

def Message.broadcasts (m : Message) : Bool :=
  m.rtype = .PBFT_CHKPT_MSG ∨ m.rtype = .SYNC_MSG ∨ m.rtype = .GENERIC_MSG ∨ m.rtype = .PROPOSAL_MSG ∨
    m.rtype = .ASK_MSG ∨ m.rtype = .ASK_RESPONSE_MSG

structure Call where
  msg : Message
  force : Bool
  dest : List ℕ

-- A copy is read back from the buffer it has been written to; `env` is what the reader brings and the clock.
def deepCopyMsg (env : Receiver × UInt64) (m : Message) : Option Message := do
  let r ← m.copyToBuf net env.2 ⟨List.replicate (m.getSize net) 0, 0⟩
  let r' ← createMessage net env.1 ⟨r.2.buf, 0⟩
  pure r'.1

structure Push where
  queue : ℕ
  copied : Bool

def skips (dest : List ℕ) (j : ℕ) : Bool :=
  match dest with
  | [d] => d % snd.sendThreadCnt ≠ j
  | _ => false

def Call.pushes (k : Call) : List Push :=
  if k.msg.broadcasts then
    ((List.range (snd.sendThreadCnt - 1)).filter fun j => !skips snd k.dest j).map (fun j => ⟨j, true⟩) ++
      if skips snd k.dest (snd.sendThreadCnt - 1) then [] else [⟨snd.sendThreadCnt - 1, false⟩]
  else
    match k.dest with
    | [] => []
    | d :: _ => [⟨d % snd.sendThreadCnt, false⟩]

def Call.sentTo (k : Call) : List ℕ := if k.msg.broadcasts then k.dest else k.dest.take 1

def Call.entry (k : Call) : Outgoing where
  msg := (k.msg.signAll net snd k.dest).1
  force := k.force
  dest := k.sentTo
  allsign := (k.msg.signAll net snd k.dest).2

-- A copy does not take `force` along.
def Call.entryFor (k : Call) (p : Push) (env : Receiver × UInt64) : Option Outgoing :=
  if p.copied then
    (deepCopyMsg net env (k.entry net snd).msg).map fun m => { k.entry net snd with msg := m, force := false }
  else some (k.entry net snd)

end Enqueue

section Run

structure MsgEntry where
  call : ℕ
  out : Outgoing

structure Send where
  call : ℕ
  thread : ℕ
  dest : ℕ
  msg : Message

-- `calls` and `sends` are the history. A call has pushes to do and, after each, a semaphore to post.
structure Fanout where
  calls : List Call
  todo : ℕ → List Push
  posts : ℕ → Option ℕ
  queue : ℕ → List MsgEntry
  outputSemaphore : ℕ → ℕ
  sends : List Send

def Fanout.init : Fanout where
  calls := []
  todo _ := []
  posts _ := none
  queue _ := []
  outputSemaphore _ := 0
  sends := []

-- The identifiers of the output threads follow those of the workers and of the input threads.
def Sender.tdId (thdId : ℕ) : ℕ := (thdId - snd.threadCnt - snd.remThreadCnt) % snd.sendThreadCnt

def Sender.outThread (thdId : ℕ) : OutThread where
  nodeId := snd.nodeId
  isServer := true
  tdId := snd.tdId thdId
  sendThreadCnt := snd.sendThreadCnt
  cmacRequiredKey := snd.cmacPrivateKeys
  otherRequiredKey _ := snd.pubKey

inductive FanEvent
  | enqueue (k : Call)
  | advance (c : ℕ) (env : Receiver × UInt64)
  | run (thdId : ℕ)

namespace Fanout

def enqueue (s : Fanout) (k : Call) : Fanout :=
  { s with
    calls := s.calls ++ [k]
    todo := Function.update s.todo s.calls.length (k.pushes snd) }

def push (s : Fanout) (c : ℕ) (p : Push) (rest : List Push) (o : Outgoing) : Fanout :=
  { s with
    todo := Function.update s.todo c rest
    posts := Function.update s.posts c (some p.queue)
    queue := Function.update s.queue p.queue (s.queue p.queue ++ [⟨c, o⟩]) }

def post (s : Fanout) (c j : ℕ) : Fanout :=
  { s with
    posts := Function.update s.posts c none
    outputSemaphore := Function.update s.outputSemaphore j (s.outputSemaphore j + 1) }

def advance (s : Fanout) (c : ℕ) (env : Receiver × UInt64) : Option Fanout :=
  match s.posts c with
  | some j => some (s.post c j)
  | none =>
    match s.todo c, s.calls[c]? with
    | p :: rest, some k => (k.entryFor net snd p env).map (s.push c p rest)
    | _, _ => none

def sendsOf (snd : Sender) (thdId : ℕ) (e : MsgEntry) : Option (List Send) :=
  (e.out.serve (snd.outThread thdId)).map fun xs => xs.map fun x => ⟨e.call, snd.tdId thdId, x.1, x.2⟩

def take (s : Fanout) (td : ℕ) (rest : List MsgEntry) (xs : List Send) : Fanout :=
  { s with
    outputSemaphore := Function.update s.outputSemaphore td (s.outputSemaphore td - 1)
    queue := Function.update s.queue td rest
    sends := s.sends ++ xs }

-- `MessageThread::run` waits for its semaphore; a queue that is empty then sends nothing.
def run (s : Fanout) (thdId : ℕ) : Option Fanout :=
  let td := snd.tdId thdId
  if 0 < s.outputSemaphore td then
    match s.queue td with
    | [] => some (s.take td [] [])
    | e :: rest => (sendsOf snd thdId e).map (s.take td rest)
  else none

def step (s : Fanout) : FanEvent → Option Fanout
  | .enqueue k => some (s.enqueue snd k)
  | .advance c env => s.advance net snd c env
  | .run thdId => s.run snd thdId

end Fanout

-- Destinations are distinct, and the message is one that `copy_to_buf` can lay out.
structure Call.Sendable (k : Call) : Prop where
  dest_ne : k.dest ≠ []
  dest_nodup : k.dest.Nodup
  body : k.msg.body.WellFormed net

def FanEvent.Allowed : Fanout → FanEvent → Prop
  | _, .enqueue k => k.Sendable net
  | _, .advance _ _ => True
  | _, .run thdId => snd.threadCnt + snd.remThreadCnt ≤ thdId ∧
      thdId < snd.threadCnt + snd.remThreadCnt + snd.sendThreadCnt

end Run

section Codes

variable {net snd} {m m' : Message} {d : ℕ}

structure Message.CopyOf (m m' : Message) : Prop where
  rtype : m'.rtype = m.rtype
  txnId : m'.base.txnId = m.base.txnId
  instanceId : m'.base.instanceId = m.base.instanceId
  body : m.body.Same m'.body

lemma Body.same_refl (b : Body) : b.Same b := by
  cases b with
  | keyEx m => exact ⟨rfl, fun _ => rfl⟩
  | sync m => exact ⟨rfl, ⟨rfl, fun _ => ⟨rfl, rfl⟩⟩, fun _ => rfl⟩
  | generic m => exact ⟨rfl, ⟨rfl, fun _ => ⟨rfl, rfl⟩⟩⟩
  | _ => rfl

lemma Message.CopyOf.withCode (h : m.CopyOf m') (sig key : Bytes) : m.CopyOf (m'.withCode sig key) :=
  ⟨h.rtype, h.txnId, h.instanceId, h.body⟩

lemma Message.sign_eq (m : Message) (d : ℕ) : m.sign net snd d = m ∨ ∃ sig key, m.sign net snd d = m.withCode sig key := by
  rw [sign]
  split
  · exact .inr ⟨_, _, rfl⟩
  · exact .inr ⟨_, _, rfl⟩
  · exact .inl rfl

lemma Message.sign_copyOf (m : Message) (d : ℕ) : m.CopyOf (m.sign net snd d) := by
  have hm : m.CopyOf m := ⟨rfl, rfl, rfl, m.body.same_refl⟩
  rcases m.sign_eq d with heq | ⟨sig, key, heq⟩
  · rw [heq]
    exact hm
  · rw [heq]
    exact hm.withCode sig key

lemma Message.sign_body (m : Message) (d : ℕ) : (m.sign net snd d).body = m.body := by
  rcases m.sign_eq d with heq | ⟨sig, key, heq⟩
  · rw [heq]
  · rw [heq]
    rfl

lemma Message.sign_sign (m : Message) (d d' : ℕ) : (m.sign net snd d).sign net snd d' = m.sign net snd d' := by
  obtain ⟨base, body⟩ := m
  cases body <;> rfl

lemma Message.signString_of_broadcasts (net : NetConfig) (snd : Sender) (h : m.broadcasts = true) :
    ∃ s, m.signString net snd = some s ∧ ∀ d, m.sign net snd d =
      m.withCode (snd.mac.cmac (snd.cmacPrivateKeys d) s) (snd.cmacPrivateKeys d) := by
  obtain ⟨base, body⟩ := m
  cases body <;> first | exact ⟨_, rfl, fun _ => rfl⟩ | simp [broadcasts, rtype, Body.rtype] at h

lemma Message.broadcasts_of_signsEach (h : m.signsEach = true) : m.broadcasts = true := by
  simp only [signsEach, broadcasts, decide_eq_true_eq] at h ⊢
  tauto

lemma Sender.key_length (d : ℕ) : (snd.cmacPrivateKeys d).length < 2 ^ 64 := by
  rcases snd.key_valid d with h | h | h <;> rw [h] <;> norm_num

lemma Message.sign_wellFormed (h : m.broadcasts = true) (hbody : m.body.WellFormed net) (d : ℕ) :
    (m.sign net snd d).WellFormed net := by
  obtain ⟨s, -, hsign⟩ := Message.signString_of_broadcasts net snd h
  refine ⟨?_, ?_⟩
  · rw [hsign]
    refine ⟨toNat_ofNat_lt ?_, toNat_ofNat_lt (snd.key_length d)⟩
    rw [snd.mac.cmac_length]
    norm_num
  · rw [m.sign_body]
    exact hbody

def Message.codeFor (net : NetConfig) (snd : Sender) (m : Message) (d : ℕ) : Bytes := (m.sign net snd d).base.signature

lemma signAll_foldl (x : Message) (acc : List Bytes) (ds : List ℕ) (hx : ∀ d, x.sign net snd d = m.sign net snd d) :
    (ds.foldl (fun x d => (x.1.sign net snd d, x.2 ++ [(x.1.sign net snd d).base.signature])) (x, acc)).2 =
        acc ++ ds.map (m.codeFor net snd) ∧
      (ds ≠ [] → ∃ d, (ds.foldl (fun x d => (x.1.sign net snd d, x.2 ++ [(x.1.sign net snd d).base.signature]))
        (x, acc)).1 = m.sign net snd d) := by
  induction ds generalizing x acc with
  | nil => simp
  | cons d ds ih =>
    rw [List.foldl_cons]
    obtain ⟨hsnd, hfst⟩ := ih (x.sign net snd d) (acc ++ [(x.sign net snd d).base.signature])
      fun d' => (x.sign_sign d d').trans (hx d')
    refine ⟨?_, fun _ => ?_⟩
    · rw [hsnd, hx d, List.map_cons, List.append_assoc]
      rfl
    · cases ds with
      | nil => exact ⟨d, hx d⟩
      | cons d' ds => exact hfst (List.cons_ne_nil d' ds)

lemma Message.signAll_fst {dest : List ℕ} (h : dest ≠ []) : ∃ d, (m.signAll net snd dest).1 = m.sign net snd d := by
  unfold signAll
  by_cases hs : m.signsEach = true
  · rw [if_pos hs]
    exact (signAll_foldl m [] dest fun _ => rfl).2 h
  · rw [if_neg hs]
    cases dest with
    | nil => exact absurd rfl h
    | cons d ds => exact ⟨d, rfl⟩

lemma Message.signAll_snd {dest : List ℕ} (h : m.signsEach = true) :
    (m.signAll net snd dest).2 = dest.map (m.codeFor net snd) := by
  unfold signAll
  rw [if_pos h, (signAll_foldl m [] dest fun _ => rfl).1, List.nil_append]

lemma Message.signAll_snd_of_not (net : NetConfig) (snd : Sender) (m : Message) (dest : List ℕ)
    (h : ¬ m.signsEach = true) :
    (m.signAll net snd dest).2.length = (dest.take 1).length ∨ (m.signAll net snd dest).2 = [] := by
  unfold signAll
  rw [if_neg h]
  cases dest with
  | nil => exact .inr rfl
  | cons d ds =>
    simp only
    split_ifs
    · exact .inl rfl
    · exact .inr rfl

lemma Message.signAll_snd_of_broadcasts {dest : List ℕ} (h : ¬ m.signsEach = true) (hb : m.broadcasts = true) :
    (m.signAll net snd dest).2 = [] := by
  have hfirst : m.signsFirst = false := by
    simp only [signsEach, broadcasts, signsFirst, decide_eq_true_eq, decide_eq_false_iff_not] at h hb ⊢
    rintro (heq | heq) <;> simp [heq] at hb
  unfold signAll
  rw [if_neg h]
  cases dest with
  | nil => rfl
  | cons d ds => simp [hfirst]

lemma deepCopyMsg_eq (h : m.WellFormed net) (env : Receiver × UInt64) :
    deepCopyMsg net env m = some (m.received env.1 env.2) := by
  obtain ⟨sent, hwrite, -, -, hread⟩ :=
    (m.roundTrip net env.1 env.2 h).run ⟨List.replicate (m.getSize net) 0, 0⟩ (by simp)
  rw [deepCopyMsg, hwrite]
  simp only [Option.bind_eq_bind, Option.bind_some, hread, Option.pure_def]

lemma Body.received_rtype (recv : Receiver) (b : Body) : (b.received recv).rtype = b.rtype := by
  cases b <;> rfl

lemma Message.sign_received (m : Message) (d : ℕ) (env : Receiver × UInt64) :
    m.CopyOf ((m.sign net snd d).received env.1 env.2) := by
  have hm : m.CopyOf (m.sign net snd d) := m.sign_copyOf d
  refine ⟨?_, hm.txnId, hm.instanceId, ?_⟩
  · rw [← hm.rtype]
    exact Body.received_rtype env.1 (m.sign net snd d).body
  · change m.body.Same ((m.sign net snd d).body.received env.1)
    rw [m.sign_body]
    exact m.body.same_received

end Codes

section Entries

variable {net snd} {k : Call} {o : Outgoing}

structure Call.Entry (net : NetConfig) (snd : Sender) (k : Call) (o : Outgoing) : Prop where
  dest : o.dest = k.sentTo
  allsign : o.allsign = (k.msg.signAll net snd k.dest).2
  copy : k.msg.CopyOf o.msg

lemma Call.Sendable.entryFor (h : k.Sendable net) (snd : Sender) {p : Push} (hp : p.copied = true → k.msg.broadcasts = true)
    (env : Receiver × UInt64) : ∃ o, k.entryFor net snd p env = some o ∧ k.Entry net snd o := by
  obtain ⟨d, hd⟩ : ∃ d, (k.msg.signAll net snd k.dest).1 = k.msg.sign net snd d := Message.signAll_fst h.dest_ne
  have hmsg : (k.entry net snd).msg = k.msg.sign net snd d := hd
  rw [Call.entryFor]
  split_ifs with hc
  · rw [hmsg, deepCopyMsg_eq (Message.sign_wellFormed (hp hc) h.body d)]
    exact ⟨_, rfl, rfl, rfl, k.msg.sign_received d env⟩
  · refine ⟨_, rfl, rfl, rfl, ?_⟩
    rw [hmsg]
    exact k.msg.sign_copyOf d

structure Call.Delivers (net : NetConfig) (snd : Sender) (k : Call) (d : ℕ) (m : Message) : Prop where
  dest : d ∈ k.sentTo
  copy : k.msg.CopyOf m
  code : k.msg.signsEach = true → m.base.signature = k.msg.codeFor net snd d ∧ m.base.pubKey = snd.cmacPrivateKeys d

lemma mapM_some {α β γ : Type} {f : α → Option β} {g : β → γ} {g' : α → γ} {P : β → Prop} {l : List α}
    (h : ∀ x ∈ l, ∃ y, f x = some y ∧ g y = g' x ∧ P y) :
    ∃ ys, l.mapM f = some ys ∧ ys.map g = l.map g' ∧ ∀ y ∈ ys, P y := by
  induction l with
  | nil => exact ⟨[], rfl, rfl, fun _ hy => absurd hy List.not_mem_nil⟩
  | cons x l ih =>
    obtain ⟨y, hy, hg, hP⟩ := h x List.mem_cons_self
    obtain ⟨ys, hys, hmap, hall⟩ := ih fun x hx => h x (List.mem_cons_of_mem _ hx)
    refine ⟨y :: ys, by simp [List.mapM_cons, hy, hys], by rw [List.map_cons, hg, hmap, List.map_cons], ?_⟩
    exact List.forall_mem_cons.mpr ⟨hP, hall⟩

lemma Outgoing.signed_eq (thd : OutThread) (i d : ℕ) (h : o.allsign ≠ []) : o.signed thd i d =
    (o.allsign[i]?).map fun sig => o.msg.withCode sig
      (if o.msg.rtype = .CL_BATCH then thd.otherRequiredKey d else thd.cmacRequiredKey d) := by
  rw [signed, if_neg h]
  rfl

lemma Call.Entry.signed (h : k.Entry net snd o) (thdId : ℕ) {d i : ℕ} (hi : o.dest[i]? = some d) :
    ∃ m, o.signed (snd.outThread thdId) i d = some m ∧ k.Delivers net snd d m := by
  have hmem : d ∈ k.sentTo := by
    rw [← h.dest]
    exact List.mem_of_getElem? hi
  by_cases hnil : o.allsign = []
  · rw [Outgoing.signed, if_pos hnil]
    refine ⟨_, rfl, hmem, h.copy, fun heach => ?_⟩
    rw [h.allsign, Message.signAll_snd heach, List.map_eq_nil_iff] at hnil
    simp [Call.sentTo, hnil] at hmem
  · rw [o.signed_eq _ i d hnil]
    by_cases heach : k.msg.signsEach = true
    · have hb := Message.broadcasts_of_signsEach heach
      have hkey : o.msg.rtype ≠ .CL_BATCH := by
        rw [h.copy.rtype]
        intro heq
        simp [Message.signsEach, heq] at heach
      have hsig : o.allsign[i]? = some (k.msg.codeFor net snd d) := by
        rw [h.dest, Call.sentTo, if_pos hb] at hi
        rw [h.allsign, Message.signAll_snd heach, List.getElem?_map, hi, Option.map_some]
      rw [hsig, Option.map_some, if_neg hkey]
      exact ⟨_, rfl, hmem, h.copy.withCode _ _, fun _ => ⟨rfl, rfl⟩⟩
    · have hlen : (k.msg.signAll net snd k.dest).2.length = (k.dest.take 1).length := by
        rcases k.msg.signAll_snd_of_not net snd k.dest heach with hlen | hempty
        · exact hlen
        · exact absurd (h.allsign.trans hempty) hnil
      have hb : ¬ k.msg.broadcasts = true := by
        intro hb
        exact hnil (h.allsign.trans (Message.signAll_snd_of_broadcasts heach hb))
      have hlt : i < o.allsign.length := by
        rw [h.dest, Call.sentTo, if_neg hb] at hi
        rw [h.allsign, hlen]
        exact (List.getElem?_eq_some_iff.mp hi).1
      rw [List.getElem?_eq_getElem hlt, Option.map_some]
      exact ⟨_, rfl, hmem, h.copy.withCode _ _, fun hs => absurd hs heach⟩

lemma Call.Entry.serve (h : k.Entry net snd o) (thdId : ℕ) :
    ∃ xs, o.serve (snd.outThread thdId) = some xs ∧
      xs.map Prod.fst = k.sentTo.filter (fun d => d % snd.sendThreadCnt = snd.tdId thdId) ∧
      ∀ x ∈ xs, k.Delivers net snd x.1 x.2 ∧ x.1 % snd.sendThreadCnt = snd.tdId thdId := by
  have hserves : ∀ d, (snd.outThread thdId).serves d ↔ d % snd.sendThreadCnt = snd.tdId thdId :=
    fun d => ⟨fun hd => hd rfl, fun hd _ => hd⟩
  have hone : ∀ e ∈ o.dest.zipIdx.filter (fun e => (snd.outThread thdId).serves e.1), ∃ x : ℕ × Message,
      ((o.signed (snd.outThread thdId) e.2 e.1).map fun m => (e.1, m)) = some x ∧ x.1 = e.1 ∧
        k.Delivers net snd x.1 x.2 ∧ x.1 % snd.sendThreadCnt = snd.tdId thdId := by
    intro e he
    obtain ⟨hin, hserve⟩ := List.mem_filter.mp he
    obtain ⟨m, hm, hdel⟩ := h.signed thdId (List.mk_mem_zipIdx_iff_getElem?.mp hin)
    exact ⟨(e.1, m), by rw [hm, Option.map_some], rfl, hdel, (hserves e.1).mp (of_decide_eq_true hserve)⟩
  obtain ⟨xs, hxs, hmap, hall⟩ := mapM_some hone
  refine ⟨xs, hxs, ?_, hall⟩
  have hfilter : (o.dest.zipIdx.filter fun e => (snd.outThread thdId).serves e.1).map Prod.fst =
      (o.dest.zipIdx.map Prod.fst).filter fun d => (snd.outThread thdId).serves d := by
    rw [List.filter_map]
    rfl
  rw [hmap, hfilter, List.zipIdx_map_fst, h.dest]
  simp only [hserves]

end Entries

section Invariant

variable {net snd} {s t : Fanout}

namespace Fanout

-- The destinations a thread has served for a call, those of the entries in its queue, and those still to be put there.
def sent (s : Fanout) (c j : ℕ) : List ℕ := (s.sends.filter fun x => x.call = c ∧ x.thread = j).map Send.dest

def queued (snd : Sender) (s : Fanout) (c j : ℕ) : List ℕ :=
  ((s.queue j).filter fun e => e.call = c).flatMap fun e => e.out.dest.filter fun d => d % snd.sendThreadCnt = j

def owed (snd : Sender) (s : Fanout) (k : Call) (c j : ℕ) : List ℕ :=
  (List.replicate (((s.todo c).map Push.queue).count j) (k.sentTo.filter fun d => d % snd.sendThreadCnt = j)).flatten

def owing (s : Fanout) (j : ℕ) : Finset ℕ := (Finset.range s.calls.length).filter fun c => s.posts c = some j

structure Inv (net : NetConfig) (snd : Sender) (s : Fanout) : Prop where
  calls : ∀ k ∈ s.calls, k.Sendable net
  idle : ∀ c, s.calls.length ≤ c → s.todo c = [] ∧ s.posts c = none
  todo : ∀ c k, s.calls[c]? = some k → ∀ p ∈ s.todo c,
    p.queue < snd.sendThreadCnt ∧ (p.copied = true → k.msg.broadcasts = true)
  posts : ∀ c j, s.posts c = some j → j < snd.sendThreadCnt
  entries : ∀ j, ∀ e ∈ s.queue j, ∃ k, s.calls[e.call]? = some k ∧ k.Entry net snd e.out
  sends : ∀ x ∈ s.sends, ∃ k, s.calls[x.call]? = some k ∧ k.Delivers net snd x.dest x.msg ∧
    x.dest % snd.sendThreadCnt = x.thread
  flow : ∀ c k, s.calls[c]? = some k → ∀ j < snd.sendThreadCnt,
    s.sent c j ++ s.queued snd c j ++ s.owed snd k c j = k.sentTo.filter fun d => d % snd.sendThreadCnt = j
  tokens : ∀ j, (s.queue j).length = s.outputSemaphore j + (s.owing j).card

lemma inv_init : Inv net snd init where
  calls _ h := by cases h
  idle _ _ := ⟨rfl, rfl⟩
  todo _ _ h := by cases h
  posts _ _ h := by cases h
  entries _ _ h := by cases h
  sends _ h := by cases h
  flow _ _ h := by cases h
  tokens _ := rfl

end Fanout

section Pushes

variable {k : Call}

lemma Call.pushes_broadcast (h : k.msg.broadcasts = true) :
    (k.pushes snd).map Push.queue = (List.range snd.sendThreadCnt).filter fun j => !skips snd k.dest j := by
  have hrange : List.range snd.sendThreadCnt = List.range (snd.sendThreadCnt - 1) ++ [snd.sendThreadCnt - 1] := by
    rw [← List.range_succ, Nat.succ_eq_add_one, Nat.sub_add_cancel snd.sendThreadCnt_pos]
  have hlast : (if skips snd k.dest (snd.sendThreadCnt - 1) then [] else
      [(⟨snd.sendThreadCnt - 1, false⟩ : Push)]).map Push.queue =
      [snd.sendThreadCnt - 1].filter fun j => !skips snd k.dest j := by
    cases hs : skips snd k.dest (snd.sendThreadCnt - 1) <;> simp [hs]
  unfold Call.pushes
  rw [if_pos h, hrange, List.filter_append, List.map_append, List.map_map, hlast]
  simp [Function.comp_def]

lemma Call.pushes_single {d : ℕ} {ds : List ℕ} (h : ¬ k.msg.broadcasts = true) (hd : k.dest = d :: ds) :
    k.pushes snd = [⟨d % snd.sendThreadCnt, false⟩] := by
  unfold Call.pushes
  rw [if_neg h, hd]

lemma filter_of_skips {dest : List ℕ} {j : ℕ} (h : skips snd dest j = true) :
    (dest.filter fun d => d % snd.sendThreadCnt = j) = [] := by
  unfold skips at h
  split at h
  · rename_i d
    simpa using h
  · cases h

lemma Call.pushes_flow (hne : k.dest ≠ []) {j : ℕ} (hj : j < snd.sendThreadCnt) :
    (List.replicate (((k.pushes snd).map Push.queue).count j)
      (k.sentTo.filter fun d => d % snd.sendThreadCnt = j)).flatten =
        k.sentTo.filter fun d => d % snd.sendThreadCnt = j := by
  by_cases hb : k.msg.broadcasts = true
  · rw [Call.pushes_broadcast hb]
    cases hs : skips snd k.dest j with
    | true =>
      have hempty : (k.sentTo.filter fun d => d % snd.sendThreadCnt = j) = [] := by
        rw [Call.sentTo, if_pos hb, filter_of_skips hs]
      rw [hempty]
      simp
    | false =>
      rw [List.count_filter (by simp [hs]), List.count_eq_one_of_mem List.nodup_range (List.mem_range.mpr hj)]
      simp
  · obtain ⟨d, ds, hd⟩ := List.exists_cons_of_ne_nil hne
    rw [Call.pushes_single hb hd, Call.sentTo, if_neg hb, hd]
    by_cases hj : d % snd.sendThreadCnt = j <;> simp [hj]

lemma Call.pushes_valid {p : Push} (hne : k.dest ≠ []) (hp : p ∈ k.pushes snd) :
    p.queue < snd.sendThreadCnt ∧ (p.copied = true → k.msg.broadcasts = true) := by
  by_cases hb : k.msg.broadcasts = true
  · have hq := List.mem_map_of_mem (f := Push.queue) hp
    rw [Call.pushes_broadcast hb] at hq
    exact ⟨List.mem_range.mp (List.mem_filter.mp hq).1, fun _ => hb⟩
  · obtain ⟨d, ds, hd⟩ := List.exists_cons_of_ne_nil hne
    rw [Call.pushes_single hb hd, List.mem_singleton] at hp
    rw [hp]
    exact ⟨Nat.mod_lt _ snd.sendThreadCnt_pos, fun h => absurd h Bool.false_ne_true⟩

end Pushes

namespace Fanout

section Steps

variable {k : Call} {c : ℕ}

lemma Inv.lt (h : s.calls[c]? = some k) : c < s.calls.length := (List.getElem?_eq_some_iff.mp h).1

lemma lookup_snoc {k' : Call} (h : s.calls[c]? = some k) : (s.calls ++ [k'])[c]? = some k := by
  rw [List.getElem?_append_left (Inv.lt h), h]

lemma of_lookup_snoc {k' : Call} (h : (s.calls ++ [k'])[c]? = some k) :
    s.calls[c]? = some k ∨ c = s.calls.length ∧ k = k' := by
  rcases Nat.lt_trichotomy c s.calls.length with hlt | rfl | hgt
  · rw [List.getElem?_append_left hlt] at h
    exact .inl h
  · rw [List.getElem?_append_right le_rfl, Nat.sub_self] at h
    exact .inr ⟨rfl, (Option.some.inj h).symm⟩
  · rw [List.getElem?_eq_none (by simp; omega)] at h
    cases h

lemma Inv.enqueue (h : s.Inv net snd) (hk : k.Sendable net) :
    Inv net snd (s.enqueue snd k) := by
  have hlen : (s.calls ++ [k]).length = s.calls.length + 1 := by simp
  constructor
  case calls =>
    intro k' hk'
    rcases List.mem_append.mp hk' with hin | hin
    · exact h.calls k' hin
    · rw [List.mem_singleton.mp hin]
      exact hk
  case idle =>
    intro c hc
    simp only [Fanout.enqueue, hlen] at hc ⊢
    rw [Function.update_of_ne (by omega)]
    exact h.idle c (by omega)
  case todo =>
    intro c k' hc p hp
    simp only [Fanout.enqueue] at hp
    rcases of_lookup_snoc hc with hin | ⟨rfl, rfl⟩
    · rw [Function.update_of_ne (Inv.lt hin).ne] at hp
      exact h.todo c k' hin p hp
    · rw [Function.update_self] at hp
      exact Call.pushes_valid hk.dest_ne hp
  case posts => exact h.posts
  case entries =>
    intro j e he
    obtain ⟨k', hk', hentry⟩ := h.entries j e he
    exact ⟨k', lookup_snoc hk', hentry⟩
  case sends =>
    intro x hx
    obtain ⟨k', hk', hdel⟩ := h.sends x hx
    exact ⟨k', lookup_snoc hk', hdel⟩
  case flow =>
    intro c k' hc j hj
    rcases of_lookup_snoc hc with hin | ⟨rfl, rfl⟩
    · have hflow := h.flow c k' hin j hj
      simp only [owed, Fanout.enqueue, Function.update_of_ne (Inv.lt hin).ne]
      exact hflow
    · -- nothing of a new call has been sent or is in a queue
      have hsent : s.sent s.calls.length j = [] := by
        rw [sent, List.map_eq_nil_iff, List.filter_eq_nil_iff]
        intro x hx hcall
        obtain ⟨k', hk', -⟩ := h.sends x hx
        exact (Inv.lt hk').ne (of_decide_eq_true hcall).1
      have hqueued : s.queued snd s.calls.length j = [] := by
        have hnone : ((s.queue j).filter fun e => e.call = s.calls.length) = [] := by
          rw [List.filter_eq_nil_iff]
          intro e he hcall
          obtain ⟨k', hk', -⟩ := h.entries j e he
          exact (Inv.lt hk').ne (of_decide_eq_true hcall)
        rw [queued, hnone, List.flatMap_nil]
      change s.sent s.calls.length j ++ s.queued snd s.calls.length j ++ _ = _
      rw [hsent, hqueued, List.nil_append, List.nil_append]
      simp only [owed, Fanout.enqueue, Function.update_self]
      exact Call.pushes_flow hk.dest_ne hj
  case tokens =>
    intro j
    have hnone : ¬ s.posts s.calls.length = some j := by simp [(h.idle _ le_rfl).2]
    have howing : (s.enqueue snd k).owing j = s.owing j := by
      ext c'
      simp only [owing, Fanout.enqueue, hlen, Finset.mem_filter, Finset.mem_range]
      constructor
      · rintro ⟨hlt, hc'⟩
        have hne : c' ≠ s.calls.length := fun heq => hnone (heq ▸ hc')
        exact ⟨by omega, hc'⟩
      · rintro ⟨hlt, hc'⟩
        exact ⟨by omega, hc'⟩
    rw [howing]
    exact h.tokens j

lemma Inv.post (h : s.Inv net snd) {j : ℕ} (hp : s.posts c = some j) :
    Inv net snd (s.post c j) := by
  have hc : c < s.calls.length := by
    by_contra hge
    rw [(h.idle c (by omega)).2] at hp
    cases hp
  constructor
  case calls => exact h.calls
  case idle =>
    intro c' hc'
    have hne : c' ≠ c := (lt_of_lt_of_le hc hc').ne'
    simp only [Fanout.post, Function.update_of_ne hne]
    exact h.idle c' hc'
  case todo => exact h.todo
  case posts =>
    intro c' j' hj'
    simp only [Fanout.post, Function.update_apply] at hj'
    split_ifs at hj' with heq
    exact h.posts c' j' hj'
  case entries => exact h.entries
  case sends => exact h.sends
  case flow => exact h.flow
  case tokens =>
    intro j'
    have htokens := h.tokens j'
    have howing : (s.post c j).owing j' = (s.owing j').erase c := by
      ext c'
      simp only [owing, Fanout.post, Finset.mem_filter, Finset.mem_range, Finset.mem_erase, Function.update_apply]
      split_ifs with heq
      · simp [heq]
      · simp [heq]
    rw [howing]
    by_cases hj : j' = j
    · subst hj
      have hmem : c ∈ s.owing j' := Finset.mem_filter.mpr ⟨Finset.mem_range.mpr hc, hp⟩
      have hcard := Finset.card_erase_add_one hmem
      simp only [Fanout.post, Function.update_self]
      omega
    · have hmem : c ∉ s.owing j' := by
        intro hin
        rw [(Finset.mem_filter.mp hin).2] at hp
        exact hj (Option.some.inj hp)
      rw [Finset.erase_eq_of_notMem hmem]
      simp only [Fanout.post, Function.update_of_ne hj]
      exact htokens

lemma queued_push {p : Push} {rest : List Push} {o : Outgoing} (ho : k.Entry net snd o) (c' j : ℕ) :
    (s.push c p rest o).queued snd c' j = s.queued snd c' j ++
      if c' = c ∧ j = p.queue then k.sentTo.filter fun d => d % snd.sendThreadCnt = j else [] := by
  simp only [queued, Fanout.push, Function.update_apply]
  by_cases hj : j = p.queue
  · rw [if_pos hj, List.filter_append, List.flatMap_append, ← hj]
    congr 1
    by_cases hc : c' = c
    · simp [hc, ho.dest]
    · simp [hc, Ne.symm hc]
  · simp [hj]

lemma owed_push {p : Push} {rest : List Push} {o : Outgoing} (htodo : s.todo c = p :: rest) (k' : Call) (c' j : ℕ) :
    s.owed snd k' c' j = (if c' = c ∧ j = p.queue then k'.sentTo.filter fun d => d % snd.sendThreadCnt = j else []) ++
      (s.push c p rest o).owed snd k' c' j := by
  simp only [owed, Fanout.push, Function.update_apply]
  by_cases hc : c' = c
  · rw [if_pos hc, hc, htodo, List.map_cons, List.count_cons]
    by_cases hj : j = p.queue
    · simp [hj, List.replicate_succ]
    · simp [hj, Ne.symm hj]
  · simp [hc]

lemma Inv.push (h : s.Inv net snd) {p : Push} {rest : List Push} {o : Outgoing} (hc : s.calls[c]? = some k)
    (hposts : s.posts c = none) (htodo : s.todo c = p :: rest) (ho : k.Entry net snd o) :
    Inv net snd (s.push c p rest o) := by
  constructor
  case calls => exact h.calls
  case idle =>
    intro c' hc'
    have hne : c' ≠ c := (lt_of_lt_of_le (Inv.lt hc) hc').ne'
    obtain ⟨htodo', hposts'⟩ := h.idle c' hc'
    simp only [Fanout.push, Function.update_of_ne hne]
    exact ⟨htodo', hposts'⟩
  case todo =>
    intro c' k' hc' q hq
    simp only [Fanout.push, Function.update_apply] at hq
    split_ifs at hq with heq
    · subst heq
      exact h.todo c' k' hc' q (by rw [htodo]; exact List.mem_cons_of_mem p hq)
    · exact h.todo c' k' hc' q hq
  case posts =>
    intro c' j hj
    simp only [Fanout.push, Function.update_apply] at hj
    split_ifs at hj with heq
    · rw [← Option.some.inj hj]
      exact (h.todo c k hc p (by rw [htodo]; exact List.mem_cons_self)).1
    · exact h.posts c' j hj
  case entries =>
    intro j e he
    simp only [Fanout.push, Function.update_apply] at he
    split_ifs at he with heq
    · rcases List.mem_append.mp he with hin | hin
      · exact h.entries p.queue e hin
      · rw [List.mem_singleton.mp hin]
        exact ⟨k, hc, ho⟩
    · exact h.entries j e he
  case sends => exact h.sends
  case flow =>
    intro c' k' hc' j hj
    replace hc' : s.calls[c']? = some k' := hc'
    have hflow := h.flow c' k' hc' j hj
    rw [owed_push (o := o) htodo k' c' j] at hflow
    rw [queued_push ho]
    have hsame : (if c' = c ∧ j = p.queue then k.sentTo.filter fun d => d % snd.sendThreadCnt = j else []) =
        if c' = c ∧ j = p.queue then k'.sentTo.filter fun d => d % snd.sendThreadCnt = j else [] := by
      split_ifs with heq
      · rw [heq.1, hc] at hc'
        rw [Option.some.inj hc']
      · rfl
    rw [hsame]
    refine Eq.trans ?_ hflow
    simp only [List.append_assoc]
    rfl
  case tokens =>
    intro j
    have htokens := h.tokens j
    have hmem : c ∉ s.owing j := by
      intro hin
      rw [(Finset.mem_filter.mp hin).2] at hposts
      cases hposts
    by_cases hj : j = p.queue
    · have howing : (s.push c p rest o).owing j = insert c (s.owing j) := by
        ext c'
        simp only [owing, Fanout.push, Finset.mem_filter, Finset.mem_range, Finset.mem_insert, Function.update_apply]
        split_ifs with heq
        · simp [heq, hj, Inv.lt hc]
        · simp [heq]
      rw [howing, Finset.card_insert_of_notMem hmem]
      subst hj
      simp only [Fanout.push, Function.update_self, List.length_append, List.length_singleton]
      omega
    · have howing : (s.push c p rest o).owing j = s.owing j := by
        ext c'
        simp only [owing, Fanout.push, Finset.mem_filter, Finset.mem_range, Function.update_apply]
        split_ifs with heq
        · simp [heq, hposts, Ne.symm hj]
        · rfl
      rw [howing]
      simp only [Fanout.push, Function.update_of_ne hj]
      exact htokens

lemma tdId_lt (snd : Sender) (thdId : ℕ) : snd.tdId thdId < snd.sendThreadCnt := Nat.mod_lt _ snd.sendThreadCnt_pos

lemma Inv.sendsOf (h : s.Inv net snd) (thdId : ℕ) {e : MsgEntry} (he : e ∈ s.queue (snd.tdId thdId)) :
    ∃ xs, sendsOf snd thdId e = some xs ∧
      (xs.map Send.dest = e.out.dest.filter fun d => d % snd.sendThreadCnt = snd.tdId thdId) ∧
      ∀ x ∈ xs, x.call = e.call ∧ x.thread = snd.tdId thdId ∧ ∃ k, s.calls[x.call]? = some k ∧
        k.Delivers net snd x.dest x.msg ∧ x.dest % snd.sendThreadCnt = x.thread := by
  obtain ⟨k, hk, hentry⟩ := h.entries _ e he
  obtain ⟨ys, hys, hmap, hall⟩ := hentry.serve thdId
  refine ⟨_, by rw [Fanout.sendsOf, hys, Option.map_some], ?_, fun x hx => ?_⟩
  · rw [hentry.dest, ← hmap, List.map_map]
    rfl
  · obtain ⟨y, hy, rfl⟩ := List.mem_map.mp hx
    exact ⟨rfl, rfl, k, hk, hall y hy⟩

lemma sent_take {e : MsgEntry} {rest : List MsgEntry} {xs : List Send} {td : ℕ}
    (hxs : ∀ x ∈ xs, x.call = e.call ∧ x.thread = td) (c j : ℕ) :
    (s.take td rest xs).sent c j = s.sent c j ++ if e.call = c ∧ td = j then xs.map Send.dest else [] := by
  simp only [sent, Fanout.take, List.filter_append, List.map_append]
  congr 1
  split_ifs with heq
  · congr 1
    refine List.filter_eq_self.mpr fun x hx => ?_
    simp [(hxs x hx).1, (hxs x hx).2, heq.1, heq.2]
  · rw [List.map_eq_nil_iff, List.filter_eq_nil_iff]
    intro x hx hin
    obtain ⟨hcall, hthread⟩ := of_decide_eq_true hin
    exact heq ⟨(hxs x hx).1.symm.trans hcall, (hxs x hx).2.symm.trans hthread⟩

lemma queued_take {e : MsgEntry} {rest : List MsgEntry} {td : ℕ} (xs : List Send) (hq : s.queue td = e :: rest)
    (c j : ℕ) : s.queued snd c j =
      (if e.call = c ∧ td = j then e.out.dest.filter fun d => d % snd.sendThreadCnt = j else []) ++
        (s.take td rest xs).queued snd c j := by
  simp only [queued, Fanout.take, Function.update_apply]
  by_cases hj : j = td
  · subst hj
    rw [if_pos rfl, hq, List.filter_cons]
    by_cases hc : e.call = c
    · simp [hc]
    · simp [hc]
  · simp [hj, Ne.symm hj]

lemma Inv.take (h : s.Inv net snd) {thdId : ℕ} {e : MsgEntry} {rest : List MsgEntry} {xs : List Send}
    (hq : s.queue (snd.tdId thdId) = e :: rest) (hsem : 0 < s.outputSemaphore (snd.tdId thdId))
    (hxs : Fanout.sendsOf snd thdId e = some xs) : Inv net snd (s.take (snd.tdId thdId) rest xs) := by
  have he : e ∈ s.queue (snd.tdId thdId) := by rw [hq]; exact List.mem_cons_self
  obtain ⟨ys, hys, hdest, hall⟩ := h.sendsOf thdId he
  obtain rfl := Option.some.inj (hxs.symm.trans hys)
  constructor
  case calls => exact h.calls
  case idle => exact h.idle
  case todo => exact h.todo
  case posts => exact h.posts
  case entries =>
    intro j e' he'
    simp only [Fanout.take, Function.update_apply] at he'
    split_ifs at he' with hj
    · exact h.entries (snd.tdId thdId) e' (by rw [hq]; exact List.mem_cons_of_mem e he')
    · exact h.entries j e' he'
  case sends =>
    intro x hx
    rcases List.mem_append.mp hx with hin | hin
    · exact h.sends x hin
    · exact (hall x hin).2.2
  case flow =>
    intro c k hc j hj
    have hflow := h.flow c k hc j hj
    rw [queued_take xs hq] at hflow
    rw [sent_take fun x hx => ⟨(hall x hx).1, (hall x hx).2.1⟩, hdest]
    have hsame : (if e.call = c ∧ snd.tdId thdId = j then e.out.dest.filter fun d => d % snd.sendThreadCnt =
        snd.tdId thdId else []) =
        if e.call = c ∧ snd.tdId thdId = j then e.out.dest.filter fun d => d % snd.sendThreadCnt = j else [] := by
      split_ifs with heq
      · rw [heq.2]
      · rfl
    rw [hsame]
    refine Eq.trans ?_ hflow
    simp only [List.append_assoc]
    rfl
  case tokens =>
    intro j
    have htokens := h.tokens j
    change (Function.update s.queue (snd.tdId thdId) rest j).length =
      Function.update s.outputSemaphore (snd.tdId thdId) (s.outputSemaphore (snd.tdId thdId) - 1) j + (s.owing j).card
    by_cases hj : j = snd.tdId thdId
    · subst hj
      rw [hq, List.length_cons] at htokens
      rw [Function.update_self, Function.update_self]
      omega
    · rw [Function.update_of_ne hj, Function.update_of_ne hj]
      exact htokens

lemma Inv.run (h : s.Inv net snd) {thdId : ℕ} (hsem : 0 < s.outputSemaphore (snd.tdId thdId)) :
    ∃ e rest xs, s.queue (snd.tdId thdId) = e :: rest ∧ Fanout.sendsOf snd thdId e = some xs ∧
      s.run snd thdId = some (s.take (snd.tdId thdId) rest xs) := by
  have htokens := h.tokens (snd.tdId thdId)
  cases hq : s.queue (snd.tdId thdId) with
  | nil =>
    rw [hq, List.length_nil] at htokens
    omega
  | cons e rest =>
    obtain ⟨xs, hxs, -⟩ := h.sendsOf thdId (by rw [hq]; exact List.mem_cons_self)
    refine ⟨e, rest, xs, rfl, hxs, ?_⟩
    simp only [Fanout.run, if_pos hsem, hq, hxs, Option.map_some]

lemma Inv.advance (h : s.Inv net snd) (hwork : s.todo c ≠ [] ∨ s.posts c ≠ none) (env : Receiver × UInt64) :
    (∃ j, s.posts c = some j ∧ s.advance net snd c env = some (s.post c j)) ∨
      ∃ k p rest o, s.calls[c]? = some k ∧ s.posts c = none ∧ s.todo c = p :: rest ∧ k.Entry net snd o ∧
        s.advance net snd c env = some (s.push c p rest o) := by
  cases hp : s.posts c with
  | some j => exact .inl ⟨j, rfl, by simp only [Fanout.advance, hp]⟩
  | none =>
    obtain ⟨p, rest, htodo⟩ := List.exists_cons_of_ne_nil (hwork.resolve_right fun hne => hne hp)
    cases hk : s.calls[c]? with
    | none =>
      rw [(h.idle c (List.getElem?_eq_none_iff.mp hk)).1] at htodo
      cases htodo
    | some k =>
      have hin : p ∈ s.todo c := by rw [htodo]; exact List.mem_cons_self
      obtain ⟨o, ho, hentry⟩ := (h.calls k (List.mem_of_getElem? hk)).entryFor snd (h.todo c k hk p hin).2 env
      refine .inr ⟨k, p, rest, o, rfl, rfl, htodo, hentry, ?_⟩
      simp only [Fanout.advance, hp, htodo, hk, ho, Option.map_some]

lemma advance_work {env : Receiver × UInt64} (hs : s.advance net snd c env = some t) : s.todo c ≠ [] ∨ s.posts c ≠ none := by
  by_contra hnone
  push Not at hnone
  simp [Fanout.advance, hnone.1, hnone.2] at hs

lemma run_token {thdId : ℕ} (hs : s.run snd thdId = some t) : 0 < s.outputSemaphore (snd.tdId thdId) := by
  by_contra hsem
  simp [Fanout.run, hsem] at hs

lemma Inv.step {e : FanEvent} (h : s.Inv net snd) (hok : e.Allowed net snd s) (hs : s.step net snd e = some t) :
    t.Inv net snd := by
  cases e with
  | enqueue k =>
    obtain rfl := Option.some.inj hs
    exact h.enqueue hok
  | advance c env =>
    rcases h.advance (advance_work hs) env with ⟨j, hp, heq⟩ | ⟨k, p, rest, o, hk, hp, htodo, ho, heq⟩
    · obtain rfl := Option.some.inj (heq.symm.trans hs)
      exact h.post hp
    · obtain rfl := Option.some.inj (heq.symm.trans hs)
      exact h.push hk hp htodo ho
  | run thdId =>
    obtain ⟨e, rest, xs, hq, hxs, heq⟩ := h.run (run_token hs)
    obtain rfl := Option.some.inj (heq.symm.trans hs)
    exact h.take hq (run_token hs) hxs

lemma inv_reach (h : Reach (Fanout.step net snd) (FanEvent.Allowed net snd) init s) : s.Inv net snd :=
  h.invariant (Inv net snd) inv_init fun _ _ _ _ hok hs ih => ih.step hok hs

end Steps

section Exact

variable {k : Call} {c : ℕ}

def times (s : Fanout) (c d : ℕ) : ℕ := s.sends.countP fun x => x.call = c ∧ x.dest = d

structure Drained (snd : Sender) (s : Fanout) : Prop where
  todo : ∀ c, s.todo c = []
  posts : ∀ c, s.posts c = none
  tokens : ∀ j < snd.sendThreadCnt, s.outputSemaphore j = 0

lemma Inv.times_eq (h : s.Inv net snd) (c d : ℕ) : s.times c d = (s.sent c (d % snd.sendThreadCnt)).count d := by
  rw [times, sent, List.count, List.countP_map, List.countP_filter]
  refine List.countP_congr fun x hx => ?_
  obtain ⟨-, -, -, hthread⟩ := h.sends x hx
  simp only [Function.comp_apply, beq_iff_eq, Bool.and_eq_true, decide_eq_true_eq]
  constructor
  · rintro ⟨hc, hd⟩
    exact ⟨hd, hc, by rw [← hthread, hd]⟩
  · rintro ⟨hd, hc, -⟩
    exact ⟨hc, hd⟩

lemma Inv.count_sentTo (h : s.Inv net snd) (hc : s.calls[c]? = some k) (hb : k.msg.broadcasts = true) (d : ℕ) :
    (k.sentTo.filter fun d' => d' % snd.sendThreadCnt = d % snd.sendThreadCnt).count d = if d ∈ k.dest then 1 else 0 := by
  have hnodup := (h.calls k (List.mem_of_getElem? hc)).dest_nodup
  rw [Call.sentTo, if_pos hb, List.count_filter (by simp)]
  split_ifs with hd
  · exact List.count_eq_one_of_mem hnodup hd
  · exact List.count_eq_zero_of_not_mem hd

lemma Inv.times_le (h : s.Inv net snd) (hc : s.calls[c]? = some k) (hb : k.msg.broadcasts = true) (d : ℕ) :
    s.times c d ≤ if d ∈ k.dest then 1 else 0 := by
  have hj : d % snd.sendThreadCnt < snd.sendThreadCnt := Nat.mod_lt _ snd.sendThreadCnt_pos
  rw [h.times_eq, ← h.count_sentTo hc hb, ← h.flow c k hc _ hj, List.count_append, List.count_append]
  omega

lemma Inv.times_drained (h : s.Inv net snd) (hd : s.Drained snd) (hc : s.calls[c]? = some k)
    (hb : k.msg.broadcasts = true) (d : ℕ) : s.times c d = if d ∈ k.dest then 1 else 0 := by
  have hj : d % snd.sendThreadCnt < snd.sendThreadCnt := Nat.mod_lt _ snd.sendThreadCnt_pos
  have hqueue : s.queue (d % snd.sendThreadCnt) = [] := by
    have htokens := h.tokens (d % snd.sendThreadCnt)
    have howing : s.owing (d % snd.sendThreadCnt) = ∅ := by simp [owing, hd.posts]
    rw [hd.tokens _ hj, howing, Finset.card_empty] at htokens
    exact List.eq_nil_of_length_eq_zero htokens
  have hflow := h.flow c k hc _ hj
  rw [queued, hqueue, owed, hd.todo] at hflow
  rw [h.times_eq, ← h.count_sentTo hc hb, ← hflow]
  simp

-- The pushes, posts and sends that are left, each weighed more than what it leads to.
def callWork (s : Fanout) (c : ℕ) : ℕ := 3 * (s.todo c).length + if (s.posts c).isSome then 2 else 0

def work (snd : Sender) (s : Fanout) : ℕ :=
  ∑ c ∈ Finset.range s.calls.length, s.callWork c + ∑ j ∈ Finset.range snd.sendThreadCnt, s.outputSemaphore j

lemma Inv.work_post (h : s.Inv net snd) {j : ℕ} (hp : s.posts c = some j) : (s.post c j).work snd < s.work snd := by
  have hc : c ∈ Finset.range s.calls.length := by
    by_contra hge
    rw [(h.idle c (by simpa using hge)).2] at hp
    cases hp
  have hcalls := sum_change (f := s.callWork) (g := (s.post c j).callWork) hc fun x hx => by
    simp [callWork, Fanout.post, hx]
  have htokens := sum_change (f := s.outputSemaphore) (g := (s.post c j).outputSemaphore)
    (Finset.mem_range.mpr (h.posts c j hp)) fun x hx => by simp [Fanout.post, hx]
  have hbefore : s.callWork c = 3 * (s.todo c).length + 2 := by simp [callWork, hp]
  have hafter : (s.post c j).callWork c = 3 * (s.todo c).length := by simp [callWork, Fanout.post]
  have htoken : (s.post c j).outputSemaphore j = s.outputSemaphore j + 1 := by simp [Fanout.post]
  have hlen : (s.post c j).calls = s.calls := rfl
  rw [work, work, hlen]
  omega

lemma Inv.work_push (hc : s.calls[c]? = some k) {p : Push} {rest : List Push} {o : Outgoing} (hp : s.posts c = none)
    (htodo : s.todo c = p :: rest) : (s.push c p rest o).work snd < s.work snd := by
  have hcalls := sum_change (f := s.callWork) (g := (s.push c p rest o).callWork)
    (Finset.mem_range.mpr (Inv.lt hc)) fun x hx => by simp [callWork, Fanout.push, hx]
  have hbefore : s.callWork c = 3 * (rest.length + 1) := by simp [callWork, hp, htodo]
  have hafter : (s.push c p rest o).callWork c = 3 * rest.length + 2 := by simp [callWork, Fanout.push]
  have hlen : (s.push c p rest o).calls = s.calls := rfl
  have htokens : (s.push c p rest o).outputSemaphore = s.outputSemaphore := rfl
  rw [work, work, hlen, htokens]
  omega

lemma work_take {thdId : ℕ} {rest : List MsgEntry} {xs : List Send} (hsem : 0 < s.outputSemaphore (snd.tdId thdId)) :
    (s.take (snd.tdId thdId) rest xs).work snd < s.work snd := by
  have htokens := sum_change (f := s.outputSemaphore) (g := (s.take (snd.tdId thdId) rest xs).outputSemaphore)
    (Finset.mem_range.mpr (tdId_lt snd thdId)) fun x hx => by simp [Fanout.take, hx]
  have htoken : (s.take (snd.tdId thdId) rest xs).outputSemaphore (snd.tdId thdId) =
      s.outputSemaphore (snd.tdId thdId) - 1 := by simp [Fanout.take]
  have hcalls : (s.take (snd.tdId thdId) rest xs).callWork = s.callWork := rfl
  have hlen : (s.take (snd.tdId thdId) rest xs).calls = s.calls := rfl
  rw [work, work, hlen, hcalls]
  omega

def Serving (net : NetConfig) (snd : Sender) (s : Fanout) (e : FanEvent) : Prop :=
  e.Allowed net snd s ∧ ∀ k, e ≠ .enqueue k

lemma Inv.progress (h : s.Inv net snd) (hd : ¬ s.Drained snd) :
    ∃ e t, Serving net snd s e ∧ s.step net snd e = some t ∧ t.work snd < s.work snd ∧ t.calls = s.calls := by
  by_cases hjobs : ∃ c, s.todo c ≠ [] ∨ s.posts c ≠ none
  · obtain ⟨c, hc⟩ := hjobs
    refine ⟨.advance c (.zero, 0), ?_⟩
    rcases h.advance hc (.zero, 0) with ⟨j, hp, heq⟩ | ⟨k, p, rest, o, hk, hp, htodo, -, heq⟩
    · exact ⟨_, ⟨trivial, fun k => by simp⟩, heq, h.work_post hp, rfl⟩
    · exact ⟨_, ⟨trivial, fun k => by simp⟩, heq, Inv.work_push hk hp htodo, rfl⟩
  · push Not at hjobs
    obtain ⟨j, hj, hsem⟩ : ∃ j < snd.sendThreadCnt, 0 < s.outputSemaphore j := by
      by_contra hnone
      push Not at hnone
      exact hd ⟨fun c => (hjobs c).1, fun c => (hjobs c).2, fun j hj => Nat.le_zero.mp (hnone j hj)⟩
    have htd : snd.tdId (snd.threadCnt + snd.remThreadCnt + j) = j := by
      rw [Sender.tdId, Nat.add_assoc, Nat.add_sub_cancel_left, Nat.add_sub_cancel_left, Nat.mod_eq_of_lt hj]
    rw [← htd] at hsem
    obtain ⟨e, rest, xs, -, -, heq⟩ := h.run hsem
    refine ⟨.run (snd.threadCnt + snd.remThreadCnt + j), _, ⟨⟨?_, ?_⟩, fun k => by simp⟩, heq, work_take hsem, rfl⟩
    · omega
    · omega

lemma Inv.drains (h : s.Inv net snd) :
    ∃ t, Reach (Fanout.step net snd) (Serving net snd) s t ∧ t.Drained snd ∧ t.calls = s.calls := by
  induction hw : s.work snd using Nat.strong_induction_on generalizing s with
  | _ n ih =>
    by_cases hd : s.Drained snd
    · exact ⟨s, .start, hd, rfl⟩
    · obtain ⟨e, u, hok, hs, hlt, hcalls⟩ := h.progress hd
      obtain ⟨t, hr, ht, hsame⟩ := ih (u.work snd) (hw ▸ hlt) (h.step hok.1 hs) rfl
      have hone : Reach (Fanout.step net snd) (Serving net snd) s u := .next e .start hok hs
      exact ⟨t, hone.trans hr, ht, hsame.trans hcalls⟩

theorem fanout_exact (h : Reach (Fanout.step net snd) (FanEvent.Allowed net snd) init s) :
    (∀ x ∈ s.sends, ∃ k, s.calls[x.call]? = some k ∧ x.dest ∈ k.sentTo ∧ x.thread = x.dest % snd.sendThreadCnt ∧
      k.msg.CopyOf x.msg ∧ (k.msg.signsEach = true → ∃ str, k.msg.signString net snd = some str ∧
        x.msg.base.signature = snd.mac.cmac (snd.cmacPrivateKeys x.dest) str ∧
        x.msg.base.pubKey = snd.cmacPrivateKeys x.dest)) ∧
    (∀ (c : ℕ) (k : Call), s.calls[c]? = some k → k.msg.broadcasts = true → ∀ d,
      s.times c d ≤ (if d ∈ k.dest then 1 else 0) ∧
        (s.Drained snd → s.times c d = if d ∈ k.dest then 1 else 0)) ∧
    ∃ t, Reach (Fanout.step net snd) (Serving net snd) s t ∧ t.Drained snd ∧ t.calls = s.calls := by
  have hinv := inv_reach h
  refine ⟨fun x hx => ?_, fun c k hc hb d => ⟨hinv.times_le hc hb d, fun hd => hinv.times_drained hd hc hb d⟩,
    hinv.drains⟩
  obtain ⟨k, hk, hdel, hthread⟩ := hinv.sends x hx
  refine ⟨k, hk, hdel.dest, hthread.symm, hdel.copy, fun heach => ?_⟩
  obtain ⟨str, hstr, hsign⟩ := Message.signString_of_broadcasts net snd (Message.broadcasts_of_signsEach heach)
  obtain ⟨hsig, hkey⟩ := hdel.code heach
  refine ⟨str, hstr, ?_, hkey⟩
  rw [hsig, Message.codeFor, hsign]
  rfl

end Exact

end Fanout

def Sender.twoThreads : Sender where
  mac := .keyed
  ed25519SignString s := s.take 64
  cmacPrivateKeys d := List.replicate 32 (UInt8.ofNat d)
  pubKey := []
  nodeId := 0
  threadCnt := 8
  remThreadCnt := 2
  sendThreadCnt := 2
  key_valid _ := .inr (.inr (List.length_replicate ..))
  pubKey_lt := Nat.two_pow_pos 64
  ed25519_lt s := lt_of_le_of_lt (List.length_take_le 64 s) Nat.lt_two_pow_self
  sendThreadCnt_pos := Nat.two_pos

-- A vote to three nodes, of which nodes 1 and 3 are served by one thread.
def voteToThree : Call where
  msg := ⟨.unsigned 4, .sync (.shareless zeroShare)⟩
  force := true
  dest := [1, 2, 3]

lemma voteToThree_sendable : voteToThree.Sendable .deployed where
  dest_ne := by decide
  dest_nodup := by decide
  body := (shareless_wellFormed 4 zeroShare).body

theorem Fanout.fanout_exact_vote :
    ∃ s, Reach (Fanout.step .deployed .twoThreads) (FanEvent.Allowed .deployed .twoThreads) .init s ∧
      s.Drained .twoThreads ∧ s.times 0 1 = 1 ∧ s.times 0 2 = 1 ∧ s.times 0 3 = 1 ∧ s.times 0 0 = 0 := by
  have hone : Reach (Fanout.step .deployed .twoThreads) (FanEvent.Allowed .deployed .twoThreads) .init
      (Fanout.init.enqueue .twoThreads voteToThree) := .next (.enqueue voteToThree) .start voteToThree_sendable rfl
  obtain ⟨s, hr, hd, hcalls⟩ := (fanout_exact hone).2.2
  have hreach := hone.trans (hr.mono fun _ _ hok => hok.1)
  have hcall : s.calls[0]? = some voteToThree := by rw [hcalls]; rfl
  have htimes := fun d => ((fanout_exact hreach).2.1 0 voteToThree hcall rfl d).2 hd
  exact ⟨s, hreach, hd, htimes 1, htimes 2, htimes 3, htimes 0⟩

end Invariant

end SpotLess.Wire
