import SpotLess.WireRoundTrip
import SpotLess.Lib.Reach

/-! The buffers of one output thread: messages are copied into the buffer of their destination, and a buffer is
handed to the transport when the next message does not fit, when it is full or when it is forced out. -/

namespace SpotLess.Wire

open Lib

-- `held` is the history of a buffer since its last reset: the messages with the clock readings they were
-- written with.
structure Mbuf where
  buffer : List UInt8
  ptr : ℕ
  cnt : ℕ
  force : Bool
  held : List (UInt64 × Message)

structure SentBuffer where
  dest : ℕ
  bytes : List UInt8
  msgs : List (UInt64 × Message)

structure OutState where
  buffer : ℕ → Mbuf
  sent : List SentBuffer

structure Outgoing where
  msg : Message
  force : Bool
  dest : List ℕ
  allsign : List Bytes

structure OutThread where
  nodeId : UInt32
  isServer : Bool
  tdId : ℕ
  sendThreadCnt : ℕ
  cmacRequiredKey : ℕ → Bytes
  otherRequiredKey : ℕ → Bytes

variable (net : NetConfig) (thd : OutThread)

section Run

def Mbuf.reset (dest : ℕ) (b : Mbuf) : Mbuf :=
  { b with
    buffer := overwrite b.buffer 0 (leBytes 4 dest ++ leBytes 4 thd.nodeId.toNat)
    ptr := 12
    cnt := 0
    held := [] }

def Mbuf.fits (b : Mbuf) (size : ℕ) : Prop := b.ptr + size ≤ net.msgSize

instance (b : Mbuf) (size : ℕ) : Decidable (b.fits net size) := inferInstanceAs (Decidable (_ ≤ _))

-- The answer of `ready()` and the buffer it leaves; `warm` is what `is_warmup_done()` returns to this call.
def Mbuf.ready (warm : Bool) (b : Mbuf) : Bool × Mbuf :=
  if warm && thd.isServer then
    if b.cnt = net.messagePerBuffer ∨ b.force = true ∧ 0 < b.cnt then (true, { b with force := false })
    else (false, b)
  else (decide (0 < b.cnt), b)

def OutState.sendBatch (s : OutState) (dest : ℕ) : Option OutState :=
  let b := s.buffer dest
  if 0 < b.cnt then
    let buf := overwrite b.buffer 8 (leBytes 4 b.cnt)
    some { s with
      buffer := Function.update s.buffer dest (({ b with buffer := buf } : Mbuf).reset thd dest)
      sent := s.sent ++ [⟨dest, buf.take b.ptr, b.held⟩] }
  else none

def OutState.withBuffer (s : OutState) (dest : ℕ) (b : Mbuf) : OutState :=
  { s with buffer := Function.update s.buffer dest b }

def OutState.checkOne (warm : ℕ → Bool) (s : OutState) (dest : ℕ) : Option OutState :=
  let r := (s.buffer dest).ready net thd (warm dest)
  let t := s.withBuffer dest r.2
  if r.1 then t.sendBatch thd dest else some t

def OutState.checkAndSendBatches (warm : ℕ → Bool) (s : OutState) : Option OutState :=
  (List.range net.totalNodeCnt).foldlM (checkOne net thd warm) s

-- The signature for one destination. Every destination that is written to sets it anew.
def Outgoing.signed (o : Outgoing) (i dest : ℕ) : Option Message :=
  if o.allsign = [] then some o.msg
  else (o.allsign[i]?).map fun sig =>
    let key := if o.msg.rtype = .CL_BATCH then thd.otherRequiredKey dest else thd.cmacRequiredKey dest
    { o.msg with
      base.signature := sig
      base.pubKey := key
      base.sigSize := UInt64.ofNat sig.length
      base.keySize := UInt64.ofNat key.length }

def Outgoing.forces (o : Outgoing) : Bool :=
  o.msg.rtype = .PBFT_CHKPT_MSG ∨ o.msg.rtype = .GENERIC_MSG ∨ o.force = true

def OutState.makeRoom (s : OutState) (dest size : ℕ) : Option OutState :=
  if (s.buffer dest).fits net size then some s else s.sendBatch thd dest

def OutState.append (s : OutState) (dest : ℕ) (force : Bool) (now : UInt64) (m : Message) : Option OutState :=
  let b := s.buffer dest
  (m.copyToBuf net now ⟨b.buffer, b.ptr⟩).map fun r =>
    { s with
      buffer := Function.update s.buffer dest {
        buffer := r.2.buf
        ptr := b.ptr + m.getSize net
        cnt := b.cnt + 1
        force := force || b.force
        held := b.held ++ [(now, m)] } }

-- The destinations of a message that are this thread's to serve.
def OutThread.serves (dest : ℕ) : Prop := thd.isServer = true → dest % thd.sendThreadCnt = thd.tdId

instance (dest : ℕ) : Decidable (thd.serves dest) := inferInstanceAs (Decidable (_ → _))

def OutState.deliver (o : Outgoing) (warm : ℕ → ℕ → Bool) (clock : ℕ → UInt64) (s : OutState) (e : ℕ × ℕ) :
    Option OutState :=
  if thd.serves e.1 then
    if e.1 < net.totalNodeCnt then do
      let m ← o.signed thd e.2 e.1
      let s ← s.makeRoom net thd e.1 (m.getSize net)
      let s ← s.append net e.1 o.forces (clock e.2) m
      s.checkAndSendBatches net thd (warm e.2)
    else none
  else some s

inductive OutEvent
  | idle (warm : ℕ → Bool)
  | run (o : Outgoing) (warm : ℕ → ℕ → Bool) (clock : ℕ → UInt64)

def OutState.run (s : OutState) : OutEvent → Option OutState
  | .idle warm => s.checkAndSendBatches net thd warm
  | .run o warm clock => o.dest.zipIdx.foldlM (deliver net thd o warm clock) s

-- The buffers are allocated without running a constructor, so `force` starts as the memory has it.
def Mbuf.init (force : ℕ → Bool) (dest : ℕ) : Mbuf :=
  ({ buffer := List.replicate net.msgSize 0
     ptr := 0
     cnt := 0
     force := force dest
     held := [] } : Mbuf).reset thd dest

def OutState.init (force : ℕ → Bool) : OutState where
  buffer := Mbuf.init net thd force
  sent := []

-- Every message, signed for a destination it goes to, fits into an empty buffer.
def OutEvent.Fits : OutEvent → Prop
  | .idle _ => True
  | .run o _ _ => ∀ e ∈ o.dest.zipIdx, ∀ m, o.signed thd e.2 e.1 = some m → 12 + m.getSize net ≤ net.msgSize

def OutRun (es : List OutEvent) (s : OutState) : Prop :=
  ∃ force, Run (OutState.run net thd) (fun _ e => e.Fits net thd) (OutState.init net thd force) es s

end Run

section Routed

-- The destinations of a message that are this thread's, with the message as it is signed for each.
def Outgoing.serve (o : Outgoing) : Option (List (ℕ × Message)) :=
  (o.dest.zipIdx.filter fun e => thd.serves e.1).mapM fun e => (o.signed thd e.2 e.1).map fun m => (e.1, m)

def OutEvent.taken : OutEvent → Option Outgoing
  | .idle _ => none
  | .run o _ _ => some o

-- What the messages taken from the queue are to bring to one destination, by their destination lists alone.
def routed (es : List OutEvent) (dest : ℕ) : List Message :=
  ((((es.filterMap OutEvent.taken).filterMap (Outgoing.serve thd)).flatten).filter fun x => x.1 = dest).map Prod.snd

end Routed

section Invariant

def OutState.handedOver (s : OutState) (dest : ℕ) : List (UInt64 × Message) :=
  ((s.sent.filter (·.dest = dest)).map (·.msgs)).flatten

structure Mbuf.Good (b : Mbuf) : Prop where
  count : b.cnt = b.held.length
  ptr : b.ptr = sentSize net b.held
  room : b.ptr ≤ net.msgSize
  size : b.buffer.length = net.msgSize
  le : b.cnt ≤ net.messagePerBuffer

structure SentBuffer.Good (b : SentBuffer) : Prop where
  count : ofLE ((b.bytes.drop 8).take 4) = b.msgs.length
  size : b.bytes.length = sentSize net b.msgs

def OutState.written (s : OutState) (dest : ℕ) : List (UInt64 × Message) := s.handedOver dest ++ (s.buffer dest).held

structure OutState.Sound (s : OutState) : Prop where
  good : ∀ d, (s.buffer d).Good net
  sent : ∀ b ∈ s.sent, b.Good net

variable {net thd} {s t : OutState} {d : ℕ}

lemma sentSize_append (ms : List (UInt64 × Message)) (now : UInt64) (m : Message) :
    sentSize net (ms ++ [(now, m)]) = sentSize net ms + m.getSize net := by
  simp only [sentSize, List.map_append, List.sum_append, List.map_cons, List.map_nil, List.sum_singleton]
  omega

lemma sentSize_nil : sentSize net [] = 12 := rfl

lemma Mbuf.reset_good {b : Mbuf} (h : b.buffer.length = net.msgSize) (dest : ℕ) : (b.reset thd dest).Good net where
  count := rfl
  ptr := sentSize_nil.symm
  room := net.header_le
  size := by
    have := net.header_le
    rw [reset, overwrite_length (by simp [h]; omega), h]
  le := Nat.zero_le _

lemma init_sound (force : ℕ → Bool) : (OutState.init net thd force).Sound net where
  good d := Mbuf.reset_good (by simp) d
  sent _ h := nomatch h

lemma Mbuf.Good.sent {b : Mbuf} (h : b.Good net) :
    (⟨d, (overwrite b.buffer 8 (leBytes 4 b.cnt)).take b.ptr, b.held⟩ : SentBuffer).Good net := by
  have hheader := net.header_le
  have hmany := net.messagePerBuffer_lt
  have hptr : 12 ≤ b.ptr := by
    rw [h.ptr, sentSize]
    omega
  have hroom : 8 + (leBytes 4 b.cnt).length ≤ b.buffer.length := by
    rw [leBytes_length, h.size]
    omega
  constructor
  · have hread : ((overwrite b.buffer 8 (leBytes 4 b.cnt)).drop 8).take (leBytes 4 b.cnt).length =
        leBytes 4 b.cnt := overwrite_read (by omega)
    rw [leBytes_length] at hread
    have hle := h.le
    rw [List.drop_take, List.take_take, min_eq_left (by omega), hread, ofLE_leBytes 4 _ (by norm_num; omega), h.count]
  · rw [List.length_take, overwrite_length hroom, h.size, min_eq_left h.room, h.ptr]

lemma handedOver_append (b : SentBuffer) : ({ s with sent := s.sent ++ [b] } : OutState).handedOver d =
    s.handedOver d ++ if b.dest = d then b.msgs else [] := by
  simp only [OutState.handedOver, List.filter_append, List.map_append, List.flatten_append]
  congr 1
  by_cases h : b.dest = d <;> simp [h]

lemma OutState.Sound.sendBatch (h : s.Sound net) (hs : s.sendBatch thd d = some t) :
    t.Sound net ∧ (t.buffer d).cnt = 0 ∧ (t.buffer d).held = [] ∧ ∀ d', d' ≠ d → t.buffer d' = s.buffer d' := by
  simp only [OutState.sendBatch] at hs
  split_ifs at hs with hcnt
  obtain rfl := Option.some.inj hs
  have hgood := h.good d
  have hheader := net.header_le
  have hlen : (overwrite (s.buffer d).buffer 8 (leBytes 4 (s.buffer d).cnt)).length = net.msgSize := by
    rw [overwrite_length (by rw [leBytes_length, hgood.size]; omega), hgood.size]
  refine ⟨⟨?_, ?_⟩, ?_, ?_, fun d' hd => Function.update_of_ne hd _ _⟩
  · intro d'
    by_cases hd : d' = d
    · subst hd
      change (Function.update s.buffer d' _ d').Good net
      rw [Function.update_self]
      exact Mbuf.reset_good hlen d'
    · simpa [hd] using h.good d'
  · intro b hb
    rcases List.mem_append.mp hb with hb | hb
    · exact h.sent b hb
    · rw [List.mem_singleton.mp hb]
      exact hgood.sent
  · simp [Mbuf.reset]
  · simp [Mbuf.reset]

@[simp] lemma withBuffer_self (b : Mbuf) : (s.withBuffer d b).buffer d = b := Function.update_self _ _ _

lemma withBuffer_of_ne {d' : ℕ} (h : d' ≠ d) (b : Mbuf) : (s.withBuffer d b).buffer d' = s.buffer d' :=
  Function.update_of_ne h _ _

lemma OutState.Sound.withBuffer {b : Mbuf} (h : s.Sound net) (hgood : b.Good net) : (s.withBuffer d b).Sound net := by
  refine ⟨fun d' => ?_, h.sent⟩
  by_cases hd : d' = d
  · rw [hd, withBuffer_self]
    exact hgood
  · rw [withBuffer_of_ne hd]
    exact h.good d'

lemma Mbuf.ready_snd (net : NetConfig) (thd : OutThread) (warm : Bool) (b : Mbuf) :
    ∃ force, (b.ready net thd warm).2 = { b with force := force } := by
  simp only [ready]
  split_ifs
  · exact ⟨_, rfl⟩
  · exact ⟨b.force, rfl⟩
  · exact ⟨b.force, rfl⟩

lemma Mbuf.Good.withForce {b : Mbuf} (h : b.Good net) (force : Bool) : ({ b with force := force } : Mbuf).Good net :=
  ⟨h.count, h.ptr, h.room, h.size, h.le⟩

lemma Mbuf.cnt_lt_of_not_ready {b : Mbuf} {warm : Bool} (h : b.Good net)
    (hready : ¬ (b.ready net thd warm).1 = true) : b.cnt < net.messagePerBuffer := by
  have hle := h.le
  have hpos := net.messagePerBuffer_pos
  simp only [ready] at hready
  split_ifs at hready with hwarm hfull
  · exact absurd rfl hready
  · have hne : b.cnt ≠ net.messagePerBuffer := fun heq => hfull (.inl heq)
    omega
  · have hzero : ¬ 0 < b.cnt := by simpa using hready
    omega

lemma OutState.Sound.checkOne {warm : ℕ → Bool} (h : s.Sound net) (hs : s.checkOne net thd warm d = some t) :
    t.Sound net ∧ (t.buffer d).cnt < net.messagePerBuffer ∧ ∀ d', d' ≠ d → t.buffer d' = s.buffer d' := by
  obtain ⟨force, hforce⟩ := (s.buffer d).ready_snd net thd (warm d)
  have hsound := h.withBuffer (d := d) ((h.good d).withForce force)
  simp only [OutState.checkOne, hforce] at hs
  split_ifs at hs with hready
  · obtain ⟨ht, hzero, -, hother⟩ := hsound.sendBatch hs
    refine ⟨ht, ?_, fun d' hd => (hother d' hd).trans (withBuffer_of_ne hd _)⟩
    rw [hzero]
    exact net.messagePerBuffer_pos
  · obtain rfl := Option.some.inj hs
    refine ⟨hsound, ?_, fun d' hd => withBuffer_of_ne hd _⟩
    have hlt := Mbuf.cnt_lt_of_not_ready (h.good d) hready
    rwa [withBuffer_self]

lemma OutState.Sound.checkList {warm : ℕ → Bool} {ds : List ℕ} (h : s.Sound net)
    (hs : ds.foldlM (OutState.checkOne net thd warm) s = some t) :
    t.Sound net ∧ (∀ d ∈ ds, (t.buffer d).cnt < net.messagePerBuffer) ∧
      ∀ d, (s.buffer d).cnt < net.messagePerBuffer → (t.buffer d).cnt < net.messagePerBuffer := by
  induction ds generalizing s with
  | nil =>
    obtain rfl : s = t := Option.some.inj hs
    exact ⟨h, fun d hd => absurd hd List.not_mem_nil, fun _ hd => hd⟩
  | cons d ds ih =>
    rw [List.foldlM_cons] at hs
    obtain ⟨u, hu, ht⟩ := Option.bind_eq_some_iff.mp hs
    obtain ⟨hsound, hcnt, hother⟩ := h.checkOne hu
    obtain ⟨htsound, hall, hkeep⟩ := ih hsound ht
    refine ⟨htsound, fun d' hd' => ?_, fun d' hd' => hkeep d' ?_⟩
    · rcases List.mem_cons.mp hd' with rfl | hd'
      · exact hkeep d' hcnt
      · exact hall d' hd'
    · by_cases hd : d' = d
      · rw [hd]
        exact hcnt
      · rw [hother d' hd]
        exact hd'

structure OutState.Rested (net : NetConfig) (s : OutState) : Prop where
  sound : s.Sound net
  few : ∀ d, (s.buffer d).cnt < net.messagePerBuffer

lemma OutState.Rested.makeRoom {size : ℕ} (h : s.Rested net) (hsize : 12 + size ≤ net.msgSize)
    (hs : s.makeRoom net thd d size = some t) : t.Rested net ∧ (t.buffer d).fits net size := by
  simp only [OutState.makeRoom] at hs
  split_ifs at hs with hfits
  · obtain rfl := Option.some.inj hs
    exact ⟨h, hfits⟩
  · obtain ⟨ht, hcnt, hheld, hother⟩ := h.sound.sendBatch hs
    refine ⟨⟨ht, fun d' => ?_⟩, ?_⟩
    · by_cases hd : d' = d
      · rw [hd, hcnt]
        exact net.messagePerBuffer_pos
      · rw [hother d' hd]
        exact h.few d'
    · rw [Mbuf.fits, (ht.good d).ptr, hheld, sentSize_nil]
      exact hsize

lemma QuorumCertificate.keeps (qc : QuorumCertificate) : Keeps qc.copyToBuf := by
  have hshort : ∀ s, Keeps (putSizedShort s) := fun s =>
    (Keeps.copyBuf _).bind fun _ => (Keeps.ensure _).bind fun _ => .copyBuf _
  exact (Keeps.copyBuf _).bind fun _ => (Keeps.copyBuf _).bind fun _ => (Keeps.copyBuf _).bind fun _ =>
    (Keeps.copyBuf _).bind fun _ => (hshort _).bind fun _ => (hshort _).bind fun _ => (Keeps.copyBuf _).bind fun _ =>
    (Keeps.putUnless _ ((Keeps.copyBuf _).bind fun _ => hshort _)).bind fun _ =>
    .putUnless _ ((Keeps.copyBuf _).bind fun _ => .copyEach (fun _ => (Keeps.copyBuf _).bind fun _ => .copyBuf _) _)

lemma keeps_header (size : UInt64) (str : Bytes) : Keeps (putPrefix size str) :=
  (Keeps.ensure _).bind fun _ => .copyBuf _

lemma keeps_query (q : ClientQuery) : Keeps (putQuery net q) :=
  .within _ <| .sized _ <| (Keeps.copyBuf _).bind fun _ => (Keeps.copyBuf _).bind fun _ =>
    (Keeps.copyBuf _).bind fun _ => (Keeps.copyEach (fun _ => (Keeps.ensure _).bind fun _ =>
      (Keeps.copyBuf _).bind fun _ => .copyBuf _) _).bind fun _ => .copyBuf _

lemma keeps_first {α : Type} {k : ℕ} {f : α → Mem Unit} (h : ∀ x, Keeps (f x)) (xs : List α) :
    Keeps (putFirst k f xs) := (Keeps.ensure _).bind fun _ => .copyEach h _

lemma ProposalMsg.keeps (m : ProposalMsg) : Keeps (m.copyToBuf net) :=
  (Keeps.copyBuf _).bind fun _ => (keeps_first (fun _ => (Keeps.copyBuf _).bind fun _ => keeps_query _) _).bind
    fun _ => (Keeps.copyBuf _).bind fun _ => ((Keeps.ensure _).bind fun _ => Keeps.copyBuf _).bind fun _ => .copyBuf _

lemma Body.keeps (b : Body) : Keeps (b.copyToBuf net) := by
  cases b with
  | initDone => exact .pure ()
  | ready => exact .pure ()
  | keyEx m =>
    exact (Keeps.copyBuf _).bind fun _ => (keeps_header _ _).bind fun _ => (Keeps.copyBuf _).bind fun _ =>
      .putUnless _ (.copyBuf _)
  | clBatch m =>
    exact (Keeps.copyBuf _).bind fun _ => (Keeps.copyBuf _).bind fun _ => keeps_first keeps_query _
  | clRsp m =>
    exact (keeps_first (fun _ => .copyBuf _) _).bind fun _ => (keeps_first (fun _ => .copyBuf _) _).bind fun _ =>
      .copyBuf _
  | chkpt m => exact (Keeps.copyBuf _).bind fun _ => (Keeps.copyBuf _).bind fun _ => .copyBuf _
  | sync m =>
    exact (Keeps.copyBuf _).bind fun _ => (Keeps.copyBuf _).bind fun _ => (Keeps.copyBuf _).bind fun _ =>
      (Keeps.copyBuf _).bind fun _ => (Keeps.copyBuf _).bind fun _ => (Keeps.copyBuf _).bind fun _ =>
      (Keeps.copyBuf _).bind fun _ => m.highQC.keeps.bind fun _ => (Keeps.copyBuf _).bind fun _ =>
      (Keeps.copyBuf _).bind fun _ => (Keeps.putUnless _ (.copyBuf _)).bind fun _ => .copyBuf _
  | generic m =>
    exact (Keeps.copyBuf _).bind fun _ => (Keeps.copyBuf _).bind fun _ => (Keeps.copyBuf _).bind fun _ =>
      (Keeps.copyBuf _).bind fun _ => (Keeps.copyBuf _).bind fun _ => (Keeps.copyBuf _).bind fun _ =>
      (Keeps.copyBuf _).bind fun _ => m.highQC.keeps.bind fun _ => .copyBuf _
  | proposal m => exact m.keeps
  | ask m =>
    exact (Keeps.copyBuf _).bind fun _ => (Keeps.copyBuf _).bind fun _ => (Keeps.copyBuf _).bind fun _ => .copyBuf _
  | askResponse m => exact m.keeps

lemma Message.keeps (m : Message) (now : UInt64) : Keeps (m.copyToBuf net now) := by
  have hfields : Keeps (m.base.putFields now) := by
    repeat refine Keeps.bind (Keeps.copyBuf _) fun _ => ?_
    exact (keeps_header _ _).bind fun _ => keeps_header _ _
  have hcopy : Keeps (do
      within (m.base.mcopyToBuf m.rtype now) fun _ => m.base.mgetSize
      m.body.copyToBuf net) :=
    (Keeps.within _ ((Keeps.copyBuf _).bind fun _ => hfields)).bind fun _ => m.body.keeps
  rw [Message.copyToBuf]
  split_ifs
  · exact .sized _ hcopy
  · exact hcopy

lemma OutState.Rested.append {force : Bool} {now : UInt64} {m : Message} (h : s.Rested net)
    (hfits : (s.buffer d).fits net (m.getSize net)) (hs : s.append net d force now m = some t) : t.Sound net ∧
      ∀ d', d' ≠ d → (t.buffer d').cnt < net.messagePerBuffer := by
  simp only [OutState.append] at hs
  obtain ⟨r, hr, rfl⟩ := Option.map_eq_some_iff.mp hs
  have hgood := h.sound.good d
  refine ⟨⟨fun d' => ?_, h.sound.sent⟩, fun d' hd => ?_⟩
  · by_cases hd : d' = d
    · subst hd
      simp only [Function.update_self]
      refine ⟨?_, ?_, hfits, ?_, h.few d'⟩
      · simp only [hgood.count, List.length_append, List.length_singleton]
      · simp only [hgood.ptr, sentSize_append]
      · exact (m.keeps now _ _ hr).trans hgood.size
    · simpa only [Function.update_of_ne hd] using h.sound.good d'
  · simpa only [Function.update_of_ne hd] using h.few d'

lemma OutState.Rested.deliver {o : Outgoing} {warm : ℕ → ℕ → Bool} {clock : ℕ → UInt64} {e : ℕ × ℕ}
    (h : s.Rested net) (hfits : ∀ m, o.signed thd e.2 e.1 = some m → 12 + m.getSize net ≤ net.msgSize)
    (hs : s.deliver net thd o warm clock e = some t) : t.Rested net := by
  simp only [OutState.deliver] at hs
  split_ifs at hs with hserves hdest
  · obtain ⟨m, hm, hs⟩ := Option.bind_eq_some_iff.mp hs
    obtain ⟨u, hu, hs⟩ := Option.bind_eq_some_iff.mp hs
    obtain ⟨v, hv, hs⟩ := Option.bind_eq_some_iff.mp hs
    obtain ⟨hu, hroom⟩ := h.makeRoom (hfits m hm) hu
    obtain ⟨hv, hothers⟩ := hu.append hroom hv
    obtain ⟨ht, hall, hkeep⟩ := hv.checkList hs
    refine ⟨ht, fun d => ?_⟩
    by_cases hd : d = e.1
    · rw [hd]
      exact hall e.1 (List.mem_range.mpr hdest)
    · exact hkeep d (hothers d hd)
  · obtain rfl := Option.some.inj hs
    exact h

lemma OutState.Rested.run {e : OutEvent} (h : s.Rested net) (hfits : e.Fits net thd)
    (hs : s.run net thd e = some t) : t.Rested net := by
  cases e with
  | idle warm =>
    obtain ⟨ht, -, hkeep⟩ := h.sound.checkList hs
    exact ⟨ht, fun d => hkeep d (h.few d)⟩
  | run o warm clock =>
    -- Along the destinations of the message.
    have hloop : ∀ (es : List (ℕ × ℕ)) (s : OutState), s.Rested net →
        (∀ e ∈ es, ∀ m, o.signed thd e.2 e.1 = some m → 12 + m.getSize net ≤ net.msgSize) →
        es.foldlM (OutState.deliver net thd o warm clock) s = some t → t.Rested net := by
      intro es
      induction es with
      | nil =>
        intro s h _ hs
        obtain rfl : s = t := Option.some.inj hs
        exact h
      | cons e es ih =>
        intro s h hfits hs
        rw [List.foldlM_cons] at hs
        obtain ⟨u, hu, ht⟩ := Option.bind_eq_some_iff.mp hs
        exact ih u (h.deliver (hfits e List.mem_cons_self) hu)
          (fun e' he' => hfits e' (List.mem_cons_of_mem e he')) ht
    exact hloop _ s h hfits hs

lemma OutRun.rested {es : List OutEvent} (h : OutRun net thd es s) : s.Rested net := by
  obtain ⟨force, hr⟩ := h
  exact hr.reach.invariant (I := OutState.Rested net) ⟨init_sound force, fun _ => net.messagePerBuffer_pos⟩
    fun _ _ _ _ hok hs hI => hI.run hok hs

end Invariant

section Flow

variable {net thd} {s t : OutState} {d : ℕ}

lemma written_sendBatch (hs : s.sendBatch thd d = some t) : t.written = s.written := by
  simp only [OutState.sendBatch] at hs
  split_ifs at hs
  obtain rfl := Option.some.inj hs
  funext d'
  refine (congrArg (· ++ _) (handedOver_append _)).trans ?_
  by_cases hd : d' = d
  · subst hd
    simp [Mbuf.reset, OutState.written]
  · simp [hd, Ne.symm hd, OutState.written]

lemma written_withForce (force : Bool) : (s.withBuffer d { s.buffer d with force := force }).written = s.written := by
  funext d'
  have hheld : ((s.withBuffer d { s.buffer d with force := force }).buffer d').held = (s.buffer d').held := by
    by_cases hd : d' = d
    · rw [hd, withBuffer_self]
    · rw [withBuffer_of_ne hd]
  exact congrArg (s.handedOver d' ++ ·) hheld

lemma written_checkList {warm : ℕ → Bool} {ds : List ℕ} (hs : ds.foldlM (OutState.checkOne net thd warm) s = some t) :
    t.written = s.written := by
  induction ds generalizing s with
  | nil => rw [Option.some.inj hs]
  | cons d ds ih =>
    rw [List.foldlM_cons] at hs
    obtain ⟨u, hu, ht⟩ := Option.bind_eq_some_iff.mp hs
    refine (ih ht).trans ?_
    obtain ⟨force, hforce⟩ := (s.buffer d).ready_snd net thd (warm d)
    simp only [OutState.checkOne, hforce] at hu
    split_ifs at hu
    · exact (written_sendBatch hu).trans (written_withForce force)
    · rw [← Option.some.inj hu, written_withForce]

lemma written_makeRoom {size : ℕ} (hs : s.makeRoom net thd d size = some t) : t.written = s.written := by
  simp only [OutState.makeRoom] at hs
  split_ifs at hs
  · rw [Option.some.inj hs]
  · exact written_sendBatch hs

lemma written_append {force : Bool} {now : UInt64} {m : Message} (hs : s.append net d force now m = some t) :
    t.written = Function.update s.written d (s.written d ++ [(now, m)]) := by
  simp only [OutState.append] at hs
  obtain ⟨r, -, rfl⟩ := Option.map_eq_some_iff.mp hs
  funext d'
  by_cases hd : d' = d
  · subst hd
    simp only [OutState.written, Function.update_self, List.append_assoc]
    rfl
  · rw [Function.update_of_ne hd]
    simp only [OutState.written, Function.update_of_ne hd]
    rfl

lemma written_deliver {o : Outgoing} {warm : ℕ → ℕ → Bool} {clock : ℕ → UInt64} {e : ℕ × ℕ}
    (hs : s.deliver net thd o warm clock e = some t) :
    if thd.serves e.1 then ∃ m, o.signed thd e.2 e.1 = some m ∧
      t.written = Function.update s.written e.1 (s.written e.1 ++ [(clock e.2, m)])
    else t.written = s.written := by
  simp only [OutState.deliver] at hs
  split_ifs at hs ⊢ with hserves hdest
  · obtain ⟨m, hm, hs⟩ := Option.bind_eq_some_iff.mp hs
    obtain ⟨u, hu, hs⟩ := Option.bind_eq_some_iff.mp hs
    obtain ⟨v, hv, hs⟩ := Option.bind_eq_some_iff.mp hs
    refine ⟨m, hm, ?_⟩
    rw [written_checkList hs, written_append hv, written_makeRoom hu]
  · rw [Option.some.inj hs]

lemma written_serve {o : Outgoing} {warm : ℕ → ℕ → Bool} {clock : ℕ → UInt64}
    (hs : s.run net thd (.run o warm clock) = some t) :
    ∃ xs, o.serve thd = some xs ∧ ∀ d, (t.written d).map Prod.snd =
      (s.written d).map Prod.snd ++ (xs.filter fun x => x.1 = d).map Prod.snd := by
  have hloop : ∀ (es : List (ℕ × ℕ)) (s : OutState), es.foldlM (OutState.deliver net thd o warm clock) s = some t →
      ∃ xs, (es.filter fun e => thd.serves e.1).mapM (fun e => (o.signed thd e.2 e.1).map fun m => (e.1, m)) = some xs ∧
        ∀ d, (t.written d).map Prod.snd = (s.written d).map Prod.snd ++ (xs.filter fun x => x.1 = d).map Prod.snd := by
    intro es
    induction es with
    | nil =>
      intro s hs
      obtain rfl : s = t := Option.some.inj hs
      exact ⟨[], rfl, fun d => by simp⟩
    | cons e es ih =>
      intro s hs
      rw [List.foldlM_cons] at hs
      obtain ⟨u, hu, ht⟩ := Option.bind_eq_some_iff.mp hs
      obtain ⟨xs, hxs, hd⟩ := ih u ht
      have hstep := written_deliver hu
      by_cases hserves : thd.serves e.1
      · rw [if_pos hserves] at hstep
        obtain ⟨m, hm, hwritten⟩ := hstep
        refine ⟨(e.1, m) :: xs, by simp [hserves, List.mapM_cons, hm, hxs], fun d => ?_⟩
        rw [hd d, hwritten, Function.update_apply]
        by_cases hde : d = e.1
        · simp [hde]
        · simp [hde, Ne.symm hde]
      · rw [if_neg hserves] at hstep
        exact ⟨xs, by simp [hserves, hxs], fun d => by rw [hd d, hstep]⟩
  exact hloop _ s hs

lemma routed_snoc (thd : OutThread) (es : List OutEvent) (e : OutEvent) (d : ℕ) :
    routed thd (es ++ [e]) d = routed thd es d ++ routed thd [e] d := by
  simp only [routed, List.filterMap_append, List.flatten_append, List.filter_append, List.map_append]

lemma written_run {e : OutEvent} (hs : s.run net thd e = some t) (d : ℕ) :
    (t.written d).map Prod.snd = (s.written d).map Prod.snd ++ routed thd [e] d := by
  cases e with
  | idle warm =>
    rw [written_checkList hs]
    exact (List.append_nil _).symm
  | run o warm clock =>
    obtain ⟨xs, hxs, hd⟩ := written_serve hs
    rw [hd d]
    simp [routed, OutEvent.taken, hxs]

lemma OutRun.written {es : List OutEvent} (h : OutRun net thd es s) (d : ℕ) :
    (s.written d).map Prod.snd = routed thd es d := by
  obtain ⟨force, hr⟩ := h
  induction hr with
  | start => rfl
  | next e _ _ hs ih => rw [routed_snoc, written_run hs, ih]

end Flow

end SpotLess.Wire
