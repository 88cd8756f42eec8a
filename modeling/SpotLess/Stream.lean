import SpotLess.Output

/-! From the queue of an output thread to the receive calls of another node: the messages taken from the queue go to
their destinations in order, and every buffer handed to the transport parses into the messages it was filled with. -/

namespace SpotLess.Wire

open Lib

variable (net : NetConfig) (thd : OutThread) (recv : Receiver)

def OutState.frames (s : OutState) (dest : ℕ) : List (List UInt8) := (s.sent.filter (·.dest = dest)).map (·.bytes)

def receiveAll : List (List UInt8) → Option (List Message)
  | [] => some []
  | f :: fs => do
    let ms ← createMessages net recv f
    let rest ← receiveAll fs
    pure (ms ++ rest)

-- Every message, signed for a destination it goes to, is one that its format can carry.
def OutEvent.WellFormed : OutEvent → Prop
  | .idle _ => True
  | .run o _ _ => ∀ e ∈ o.dest.zipIdx, ∀ m, o.signed thd e.2 e.1 = some m → m.WellFormed net

-- Every destination is a node, and there is a code for each if there are any.
def OutEvent.Addressed : OutEvent → Prop
  | .idle _ => True
  | .run o _ _ => (∀ d ∈ o.dest, d < net.totalNodeCnt) ∧ (o.allsign = [] ∨ o.dest.length ≤ o.allsign.length)

variable {net thd recv} {s t : OutState} {es : List OutEvent} {d : ℕ}

section Operations

structure Preserved (net : NetConfig) (thd : OutThread) (I : OutState → Prop) : Prop where
  flag (s : OutState) (d : ℕ) (force : Bool) (h : I s) : I (s.withBuffer d { s.buffer d with force := force })
  send (s t : OutState) (d : ℕ) (h : I s) (hs : s.sendBatch thd d = some t) : I t
  append (s t : OutState) (d : ℕ) (force : Bool) (now : UInt64) (m : Message) (h : I s)
    (hfits : (s.buffer d).fits net (m.getSize net)) (hs : s.append net d force now m = some t) : I t

variable {I : OutState → Prop} (hI : Preserved net thd I)

include hI

lemma Preserved.checkOne {warm : ℕ → Bool} (h : I s) (hs : s.checkOne net thd warm d = some t) : I t := by
  obtain ⟨force, hforce⟩ := (s.buffer d).ready_snd net thd (warm d)
  have hflag := hI.flag s d force h
  rw [← hforce] at hflag
  simp only [OutState.checkOne] at hs
  split_ifs at hs
  · exact hI.send _ _ _ hflag hs
  · obtain rfl := Option.some.inj hs
    exact hflag

lemma Preserved.checkList {warm : ℕ → Bool} {ds : List ℕ} (h : I s)
    (hs : ds.foldlM (OutState.checkOne net thd warm) s = some t) : I t := by
  induction ds generalizing s with
  | nil =>
    obtain rfl : s = t := Option.some.inj hs
    exact h
  | cons d ds ih =>
    rw [List.foldlM_cons] at hs
    obtain ⟨u, hu, ht⟩ := Option.bind_eq_some_iff.mp hs
    exact ih (hI.checkOne h hu) ht

lemma Preserved.deliver {o : Outgoing} {warm : ℕ → ℕ → Bool} {clock : ℕ → UInt64} {e : ℕ × ℕ} (hrest : s.Rested net)
    (hfits : ∀ m, o.signed thd e.2 e.1 = some m → 12 + m.getSize net ≤ net.msgSize) (h : I s)
    (hs : s.deliver net thd o warm clock e = some t) : I t := by
  simp only [OutState.deliver] at hs
  split_ifs at hs
  · obtain ⟨m, hm, hs⟩ := Option.bind_eq_some_iff.mp hs
    obtain ⟨u, hu, hs⟩ := Option.bind_eq_some_iff.mp hs
    obtain ⟨v, hv, hs⟩ := Option.bind_eq_some_iff.mp hs
    have hroom := (hrest.makeRoom (hfits m hm) hu).2
    have hmade : I u := by
      simp only [OutState.makeRoom] at hu
      split_ifs at hu
      · obtain rfl := Option.some.inj hu
        exact h
      · exact hI.send _ _ _ h hu
    exact hI.checkList (hI.append _ _ _ _ _ _ hmade hroom hv) hs
  · obtain rfl := Option.some.inj hs
    exact h

lemma Preserved.run {e : OutEvent} (hrest : s.Rested net) (hfits : e.Fits net thd) (h : I s)
    (hs : s.run net thd e = some t) : I t := by
  cases e with
  | idle warm => exact hI.checkList h hs
  | run o warm clock =>
    -- Along the destinations of the message.
    have hloop : ∀ (es : List (ℕ × ℕ)) (s : OutState), s.Rested net → I s →
        (∀ e ∈ es, ∀ m, o.signed thd e.2 e.1 = some m → 12 + m.getSize net ≤ net.msgSize) →
        es.foldlM (OutState.deliver net thd o warm clock) s = some t → I t := by
      intro es
      induction es with
      | nil =>
        intro s _ h _ hs
        obtain rfl : s = t := Option.some.inj hs
        exact h
      | cons e es ih =>
        intro s hrest h hall hs
        rw [List.foldlM_cons] at hs
        obtain ⟨u, hu, ht⟩ := Option.bind_eq_some_iff.mp hs
        have hone := hall e List.mem_cons_self
        exact ih u (hrest.deliver hone hu) (hI.deliver hrest hone h hu)
          (fun e' he' => hall e' (List.mem_cons_of_mem e he')) ht
    exact hloop _ s hrest h hfits hs

lemma Preserved.outRun (hinit : ∀ force, I (OutState.init net thd force)) (h : OutRun net thd es s) : I s := by
  obtain ⟨force, hr⟩ := h
  induction hr with
  | start => exact hinit force
  | next e hr hok hs ih => exact hI.run (OutRun.rested ⟨force, hr⟩) hok ih hs

end Operations

section Frames

def readOne (net : NetConfig) (recv : Receiver) (sender : UInt32) : Mem Message := do
  let m ← within (createMessage net recv) (Message.getSize net)
  pure (m.from sender.toUInt64)

def arrival (recv : Receiver) (sender : UInt32) (m : UInt64 × Message) : Message :=
  (m.2.received recv m.1).from sender.toUInt64

lemma readOne_reads (recv : Receiver) (sender : UInt32) (now : UInt64) {m : Message} (h : m.WellFormed net) :
    ∃ bs, Writes (m.copyToBuf net now) bs ∧ Reads (readOne net recv sender) bs (arrival recv sender (now, m)) ∧
      bs.length = m.getSize net := by
  obtain ⟨bs, hw, hr, hlen⟩ := m.roundTrip net recv now h
  have hsize : (m.received recv now).getSize net = bs.length := (m.received_getSize net recv now).trans hlen.symm
  have hone : Reads (within (createMessage net recv) (Message.getSize net)) bs (m.received recv now) :=
    Spec.within hr hsize
  exact ⟨bs, hw, hone.map fun m' : Message => m'.from sender.toUInt64, hlen⟩

-- The bytes of a buffer or of a frame from `sender`, with the messages they hold; `word` stands where the count goes.
def Framed (net : NetConfig) (recv : Receiver) (sender : UInt32) (bytes : List UInt8) (ms : List (UInt64 × Message)) :
    Prop :=
  ∃ word body : List UInt8, word.length = 4 ∧
    bytes = leBytes 4 recv.nodeId.toNat ++ leBytes 4 sender.toNat ++ word ++ body ∧
    Reads (readEach (readOne net recv sender) ms.length) body (ms.map (arrival recv sender))

variable {sender : UInt32} {bytes : List UInt8} {ms : List (UInt64 × Message)}

lemma Framed.createMessages (h : Framed net recv sender bytes ms) (hcount : ofLE ((bytes.drop 8).take 4) = ms.length)
    (hother : sender ≠ recv.nodeId) (hnode : sender.toNat < net.totalNodeCnt) :
    createMessages net recv bytes = some (ms.map (arrival recv sender)) := by
  obtain ⟨word, body, hword, rfl, hbody⟩ := h
  have hheader : (leBytes 4 recv.nodeId.toNat ++ leBytes 4 sender.toNat).length = 8 := by simp
  rw [List.append_assoc, List.drop_left' hheader, List.take_left' hword] at hcount
  have hlt : ofLE word < 2 ^ 32 := by
    have hword' := ofLE_lt word
    rw [hword] at hword'
    exact hword'.trans_eq (by norm_num)
  have hcnt : (UInt32.ofNat (ofLE word)).toNat = ms.length := by
    rw [UInt32.toNat_ofNat', Nat.mod_eq_of_lt hlt, hcount]
  have hloop : Reads (createMessagesLoop net recv sender (UInt32.ofNat (ofLE word))) body
      (ms.map (arrival recv sender)) := by
    rw [createMessagesLoop, hcnt]
    exact hbody
  have hread : Reads (createMessagesFrom net recv)
      (leBytes 4 recv.nodeId.toNat ++ (leBytes 4 sender.toNat ++ (word ++ body))) (ms.map (arrival recv sender)) :=
    (Reads.get32 recv.nodeId).bind <| (Reads.get32 sender).bind <| (Reads.word hword).bind <|
      .ensure rfl <| .ensure hother <| .ensure hnode hloop
  have hrun := hread [] []
  rw [Wire.createMessages]
  simp only [List.append_assoc, List.nil_append, List.append_nil, List.length_nil] at hrun ⊢
  rw [hrun]
  rfl

lemma Framed.append (h : Framed net recv sender bytes ms) {bs : List UInt8} {m : UInt64 × Message}
    (hr : Reads (readOne net recv sender) bs (arrival recv sender m)) : Framed net recv sender (bytes ++ bs) (ms ++ [m]) := by
  obtain ⟨word, body, hword, rfl, hbody⟩ := h
  exact ⟨word, body ++ bs, hword, List.append_assoc _ _ _, hbody.snoc hr⟩

structure OutState.Loaded (net : NetConfig) (recv : Receiver) (sender : UInt32) (s : OutState) : Prop where
  size : ∀ d, (s.buffer d).buffer.length = net.msgSize
  room : (s.buffer recv.nodeId.toNat).ptr ≤ net.msgSize
  buffer : (∀ m ∈ (s.buffer recv.nodeId.toNat).held, m.2.WellFormed net) → Framed net recv sender
    ((s.buffer recv.nodeId.toNat).buffer.take (s.buffer recv.nodeId.toNat).ptr) (s.buffer recv.nodeId.toNat).held
  sent : ∀ b ∈ s.sent, b.dest = recv.nodeId.toNat → (∀ m ∈ b.msgs, m.2.WellFormed net) →
    Framed net recv sender b.bytes b.msgs

lemma Mbuf.reset_framed {b : Mbuf} (h : b.buffer.length = net.msgSize) :
    Framed net recv thd.nodeId ((b.reset thd recv.nodeId.toNat).buffer.take 12) [] := by
  have hheader := net.header_le
  refine ⟨(b.buffer.drop 8).take 4, [], ?_, ?_, .pure _⟩
  · rw [List.length_take, List.length_drop]
    omega
  · have hsplit : b.buffer.take 12 = [] ++ b.buffer.take 8 ++ (b.buffer.drop 8).take 4 := by
      rw [List.nil_append, ← List.take_add]
    have height : (b.buffer.take 8).length = (leBytes 4 recv.nodeId.toNat ++ leBytes 4 thd.nodeId.toNat).length := by
      rw [List.length_take_of_le (by omega)]
      simp
    have htake := take_overwrite rfl height hsplit (by omega)
    rw [List.append_nil]
    exact htake

lemma Mbuf.reset_length {b : Mbuf} (h : b.buffer.length = net.msgSize) (dest : ℕ) :
    (b.reset thd dest).buffer.length = net.msgSize :=
  (Mbuf.reset_good h dest).size

lemma loaded_init (force : ℕ → Bool) : (OutState.init net thd force).Loaded net recv thd.nodeId where
  size d := Mbuf.reset_length (by simp) d
  room := net.header_le
  buffer _ := Mbuf.reset_framed (by simp)
  sent _ h := absurd h List.not_mem_nil

lemma Framed.count {sender : UInt32} {buf w : List UInt8} {ptr : ℕ} {ms : List (UInt64 × Message)}
    (h : Framed net recv sender (buf.take ptr) ms) (hptr : ptr ≤ buf.length) (hw : w.length = 4) :
    Framed net recv sender ((overwrite buf 8 w).take ptr) ms := by
  obtain ⟨word, body, hword, heq, hbody⟩ := h
  refine ⟨w, body, hw, ?_, hbody⟩
  exact take_overwrite (by simp) (hword.trans hw.symm) heq hptr

lemma loaded_preserved (net : NetConfig) (thd : OutThread) (recv : Receiver) :
    Preserved net thd (OutState.Loaded net recv thd.nodeId) where
  flag s d force h := by
    have hsame : ∀ d', ((s.withBuffer d { s.buffer d with force := force }).buffer d').buffer = (s.buffer d').buffer ∧
        ((s.withBuffer d { s.buffer d with force := force }).buffer d').ptr = (s.buffer d').ptr ∧
        ((s.withBuffer d { s.buffer d with force := force }).buffer d').held = (s.buffer d').held := by
      intro d'
      by_cases hd : d' = d
      · subst hd
        rw [withBuffer_self]
        exact ⟨rfl, rfl, rfl⟩
      · rw [withBuffer_of_ne hd]
        exact ⟨rfl, rfl, rfl⟩
    refine ⟨fun d' => (hsame d').1 ▸ h.size d', (hsame _).2.1 ▸ h.room, ?_, h.sent⟩
    rw [(hsame _).1, (hsame _).2.1, (hsame _).2.2]
    exact h.buffer
  send s t d h hs := by
    simp only [OutState.sendBatch] at hs
    split_ifs at hs
    obtain rfl := Option.some.inj hs
    have hheader := net.header_le
    have hlen : (overwrite (s.buffer d).buffer 8 (leBytes 4 (s.buffer d).cnt)).length = net.msgSize := by
      rw [overwrite_length (by rw [leBytes_length, h.size]; omega), h.size]
    refine ⟨fun d' => ?_, ?_, ?_, fun b hb hdest => ?_⟩
    · by_cases hd : d' = d
      · subst hd
        simp only [Function.update_self]
        exact Mbuf.reset_length hlen d'
      · simpa only [Function.update_of_ne hd] using h.size d'
    · by_cases hd : recv.nodeId.toNat = d
      · subst hd
        simp only [Function.update_self]
        exact net.header_le
      · simpa only [Function.update_of_ne hd] using h.room
    · by_cases hd : recv.nodeId.toNat = d
      · subst hd
        simp only [Function.update_self]
        exact fun _ => Mbuf.reset_framed hlen
      · simpa only [Function.update_of_ne hd] using h.buffer
    · rcases List.mem_append.mp hb with hb | hb
      · exact h.sent b hb hdest
      · obtain rfl := List.mem_singleton.mp hb
        obtain rfl : d = recv.nodeId.toNat := hdest
        exact fun hwf => (h.buffer hwf).count (by rw [h.size]; exact h.room) (leBytes_length 4 _)
  append s t d force now m h hfits hs := by
    simp only [OutState.append] at hs
    obtain ⟨r, hr, rfl⟩ := Option.map_eq_some_iff.mp hs
    refine ⟨fun d' => ?_, ?_, ?_, h.sent⟩
    · by_cases hd : d' = d
      · subst hd
        simp only [Function.update_self]
        exact (m.keeps now _ _ hr).trans (h.size d')
      · simpa only [Function.update_of_ne hd] using h.size d'
    · by_cases hd : recv.nodeId.toNat = d
      · subst hd
        simp only [Function.update_self]
        exact hfits
      · simpa only [Function.update_of_ne hd] using h.room
    · by_cases hd : recv.nodeId.toNat = d
      · subst hd
        simp only [Function.update_self]
        intro hwf
        obtain ⟨hheld, hm⟩ := List.forall_mem_append.mp hwf
        obtain ⟨bs, hw, hread, hlen⟩ := readOne_reads recv thd.nodeId now (hm (now, m) List.mem_cons_self)
        have hroom : (s.buffer recv.nodeId.toNat).ptr + bs.length ≤ (s.buffer recv.nodeId.toNat).buffer.length := by
          rw [hlen, h.size]
          exact hfits
        have hbytes := hw.extends hroom hr
        rw [hlen] at hbytes
        rw [hbytes]
        exact (h.buffer hheld).append hread
      · simpa only [Function.update_of_ne hd] using h.buffer

end Frames

section Progress

lemma exists_sendBatch (h : 0 < (s.buffer d).cnt) : ∃ t, s.sendBatch thd d = some t := by
  simp only [OutState.sendBatch, if_pos h]
  exact ⟨_, rfl⟩

lemma Mbuf.cnt_of_ready {b : Mbuf} {warm : Bool} (h : (b.ready net thd warm).1 = true) : 0 < b.cnt := by
  have hpos := net.messagePerBuffer_pos
  simp only [ready] at h
  split_ifs at h with hwarm hfull
  · rcases hfull with hfull | hfull
    · omega
    · exact hfull.2
  · exact of_decide_eq_true h

lemma exists_checkList (warm : ℕ → Bool) (ds : List ℕ) (s : OutState) :
    ∃ t, ds.foldlM (OutState.checkOne net thd warm) s = some t := by
  induction ds generalizing s with
  | nil => exact ⟨s, rfl⟩
  | cons d ds ih =>
    have hone : ∃ u, s.checkOne net thd warm d = some u := by
      obtain ⟨force, hforce⟩ := (s.buffer d).ready_snd net thd (warm d)
      simp only [OutState.checkOne, hforce]
      split_ifs with hready
      · have hcnt := Mbuf.cnt_of_ready hready
        exact exists_sendBatch (by rwa [withBuffer_self])
      · exact ⟨_, rfl⟩
    obtain ⟨u, hu⟩ := hone
    obtain ⟨t, ht⟩ := ih u
    exact ⟨t, by rw [List.foldlM_cons, hu]; exact ht⟩

lemma OutState.Sound.exists_makeRoom {size : ℕ} (h : s.Sound net) (hsize : 12 + size ≤ net.msgSize) :
    ∃ t, s.makeRoom net thd d size = some t := by
  simp only [OutState.makeRoom]
  split_ifs with hfits
  · exact ⟨s, rfl⟩
  · refine exists_sendBatch (Nat.pos_of_ne_zero fun hzero => hfits ?_)
    have hheld : (s.buffer d).held = [] := List.eq_nil_of_length_eq_zero ((h.good d).count.symm.trans hzero)
    rw [Mbuf.fits, (h.good d).ptr, hheld, sentSize_nil]
    exact hsize

lemma OutState.Sound.exists_append {m : Message} (h : s.Sound net) (hwf : m.WellFormed net) (force : Bool) (now : UInt64)
    (hfits : (s.buffer d).fits net (m.getSize net)) : ∃ t, s.append net d force now m = some t := by
  obtain ⟨bs, hw, -, hlen⟩ := readOne_reads .zero 0 now hwf
  have hroom : (s.buffer d).ptr + bs.length ≤ (s.buffer d).buffer.length := by
    rw [hlen, (h.good d).size]
    exact hfits
  simp only [OutState.append, hw.run hroom]
  exact ⟨_, rfl⟩

lemma Outgoing.exists_signed {o : Outgoing} {e : ℕ × ℕ} (h : o.allsign = [] ∨ o.dest.length ≤ o.allsign.length)
    (he : e ∈ o.dest.zipIdx) : ∃ m, o.signed thd e.2 e.1 = some m := by
  by_cases hnil : o.allsign = []
  · exact ⟨o.msg, by rw [signed, if_pos hnil]⟩
  · have hlt : e.2 < o.allsign.length := by
      have hidx := (List.getElem?_eq_some_iff.mp (List.mk_mem_zipIdx_iff_getElem?.mp he)).1
      exact hidx.trans_le (h.resolve_left hnil)
    rw [signed, if_neg hnil, List.getElem?_eq_getElem hlt]
    exact ⟨_, rfl⟩

lemma OutState.Rested.exists_deliver {o : Outgoing} {e : ℕ × ℕ} (h : s.Rested net) (warm : ℕ → ℕ → Bool)
    (clock : ℕ → UInt64) (hdest : e.1 < net.totalNodeCnt) (hsigned : ∃ m, o.signed thd e.2 e.1 = some m)
    (hfits : ∀ m, o.signed thd e.2 e.1 = some m → 12 + m.getSize net ≤ net.msgSize)
    (hwf : ∀ m, o.signed thd e.2 e.1 = some m → m.WellFormed net) :
    ∃ t, s.deliver net thd o warm clock e = some t := by
  simp only [OutState.deliver]
  split_ifs with hserves
  · obtain ⟨m, hm⟩ := hsigned
    obtain ⟨u, hu⟩ : ∃ u, s.makeRoom net thd e.1 (m.getSize net) = some u := h.sound.exists_makeRoom (hfits m hm)
    obtain ⟨hrest, hroom⟩ := h.makeRoom (hfits m hm) hu
    obtain ⟨v, hv⟩ := hrest.sound.exists_append (hwf m hm) o.forces (clock e.2) hroom
    obtain ⟨t, ht⟩ : ∃ t, v.checkAndSendBatches net thd (warm e.2) = some t := exists_checkList ..
    refine ⟨t, ?_⟩
    simp only [hm, hu, hv, Option.bind_eq_bind, Option.bind_some]
    exact ht
  · exact ⟨s, rfl⟩

lemma OutState.Rested.exists_run {e : OutEvent} (h : s.Rested net) (hfits : e.Fits net thd) (hwf : e.WellFormed net thd)
    (haddr : e.Addressed net) : ∃ t, s.run net thd e = some t := by
  cases e with
  | idle warm => exact exists_checkList warm _ s
  | run o warm clock =>
    have hloop : ∀ (es : List (ℕ × ℕ)) (s : OutState), s.Rested net → (∀ e ∈ es, e ∈ o.dest.zipIdx) →
        ∃ t, es.foldlM (OutState.deliver net thd o warm clock) s = some t := by
      intro es
      induction es with
      | nil => exact fun s _ _ => ⟨s, rfl⟩
      | cons e es ih =>
        intro s h hall
        have he := hall e List.mem_cons_self
        obtain ⟨u, hu⟩ := h.exists_deliver warm clock (haddr.1 e.1 (List.fst_mem_of_mem_zipIdx he))
          (Outgoing.exists_signed haddr.2 he) (hfits e he) (hwf e he)
        obtain ⟨t, ht⟩ := ih u (h.deliver (hfits e he) hu) fun e' he' => hall e' (List.mem_cons_of_mem e he')
        exact ⟨t, by rw [List.foldlM_cons, hu]; exact ht⟩
    exact hloop _ s h fun _ he => he

end Progress

section Stream

lemma receiveAll_map {bs : List SentBuffer} {f : UInt64 × Message → Message}
    (h : ∀ b ∈ bs, createMessages net recv b.bytes = some (b.msgs.map f)) :
    receiveAll net recv (bs.map (·.bytes)) = some ((bs.map (·.msgs)).flatten.map f) := by
  induction bs with
  | nil => rfl
  | cons b bs ih =>
    rw [List.map_cons, receiveAll, h b List.mem_cons_self, ih fun c hc => h c (List.mem_cons_of_mem b hc),
      List.map_cons, List.flatten_cons, List.map_append]
    rfl

theorem output_batching_exact (net : NetConfig) (thd : OutThread) (es : List OutEvent) (s : OutState)
    (h : OutRun net thd es s) :
    (∀ d, (s.handedOver d ++ (s.buffer d).held).map Prod.snd = routed thd es d) ∧
      (∀ b ∈ s.sent, ofLE ((b.bytes.drop 8).take 4) = b.msgs.length) ∧
      (∀ recv, (∀ b ∈ s.sent, b.dest = recv.nodeId.toNat → (∀ m ∈ b.msgs, m.2.WellFormed net) →
          Framed net recv thd.nodeId b.bytes b.msgs) ∧
        let b := s.buffer recv.nodeId.toNat
        (∀ m ∈ b.held, m.2.WellFormed net) → Framed net recv thd.nodeId (b.buffer.take b.ptr) b.held) ∧
      (∀ d, (s.buffer d).ptr ≤ net.msgSize ∧ (s.buffer d).cnt = (s.buffer d).held.length) ∧
      (∀ d, (s.buffer d).cnt < net.messagePerBuffer) ∧
      ∀ e : OutEvent, e.Fits net thd → e.WellFormed net thd → e.Addressed net → ∃ t, s.run net thd e = some t := by
  have hrest := h.rested
  refine ⟨h.written, fun b hb => (hrest.sound.sent b hb).count, fun recv => ?_,
    fun d => ⟨(hrest.sound.good d).room, (hrest.sound.good d).count⟩, hrest.few, fun e => hrest.exists_run⟩
  have hloaded : s.Loaded net recv thd.nodeId := (loaded_preserved net thd recv).outRun loaded_init h
  exact ⟨hloaded.sent, hloaded.buffer⟩

def NetConfig.narrow : NetConfig :=
  { NetConfig.deployed with
    toConfig := Config.fourReplicas
    synthTableSize := 16
    msgSize := 256
    header_le := by decide }

def OutThread.only : OutThread where
  nodeId := 0
  isServer := true
  tdId := 0
  sendThreadCnt := 1
  cmacRequiredKey _ := []
  otherRequiredKey _ := []

-- READY to nodes 1 and 2 after warm-up. Two such messages fit into a narrow buffer, a third does not.
def readyToBoth : OutEvent :=
  .run ⟨⟨.unsigned 0, .ready⟩, false, [1, 2], []⟩ (fun _ _ => true) (fun _ => 0)

lemma readyToBoth_fits : readyToBoth.Fits NetConfig.narrow .only := by
  intro e _ m hm
  obtain rfl : (⟨.unsigned 0, .ready⟩ : Message) = m := Option.some.inj hm
  decide

lemma exists_out_run (k : ℕ) (p : OutState → Bool)
    (h : ((List.replicate k readyToBoth).foldlM (OutState.run NetConfig.narrow .only)
      (OutState.init NetConfig.narrow .only fun _ => false)).any p = true) :
    ∃ s, OutRun NetConfig.narrow .only (List.replicate k readyToBoth) s ∧ p s = true := by
  obtain ⟨s, hs, hp⟩ := exists_run_of_foldlM (OutState.run NetConfig.narrow .only)
    (fun _ e => e.Fits NetConfig.narrow .only) _ (List.replicate k readyToBoth) p
    (fun e he _ => List.eq_of_mem_replicate he ▸ readyToBoth_fits) h
  exact ⟨s, ⟨_, hs⟩, hp⟩

theorem output_batching_exact_three_messages :
    ∃ s, OutRun NetConfig.narrow .only (List.replicate 3 readyToBoth) s ∧ s.sent.map (·.dest) = [1, 2] ∧
      (s.handedOver 1).length = 2 ∧ (s.buffer 1).held.length = 1 ∧
      (s.handedOver 1 ++ (s.buffer 1).held).map Prod.snd = List.replicate 3 ⟨.unsigned 0, .ready⟩ := by
  obtain ⟨s, hs, hp⟩ := exists_out_run 3
    (fun s => s.sent.map (·.dest) = [1, 2] ∧ (s.handedOver 1).length = 2 ∧ (s.buffer 1).held.length = 1)
    (by decide +kernel)
  obtain ⟨hdest, hover, hheld⟩ := of_decide_eq_true hp
  exact ⟨s, hs, hdest, hover, hheld, (output_batching_exact _ _ _ s hs).1 1⟩

-- What a node receives is what was taken from the queue for it, in order, up to the messages of a buffer that is
-- not full.
theorem stream_round_trip (recv : Receiver) (h : OutRun net thd es s) (hother : thd.nodeId ≠ recv.nodeId)
    (hnode : thd.nodeId.toNat < net.totalNodeCnt)
    (hwf : ∀ m ∈ routed thd es recv.nodeId.toNat, m.WellFormed net) :
    ∃ msgs got rest, routed thd es recv.nodeId.toNat = msgs ++ rest ∧
      receiveAll net recv (s.frames recv.nodeId.toNat) = some got ∧
      List.Forall₂ (fun m m' => m.Delivered thd.nodeId m') msgs got ∧
      rest = (s.buffer recv.nodeId.toNat).held.map Prod.snd ∧ rest.length < net.messagePerBuffer := by
  have hrest := h.rested
  have hloaded : s.Loaded net recv thd.nodeId := (loaded_preserved net thd recv).outRun loaded_init h
  have hflow := h.written recv.nodeId.toNat
  rw [OutState.written, List.map_append] at hflow
  refine ⟨_, (s.handedOver recv.nodeId.toNat).map (arrival recv thd.nodeId), _, hflow.symm, ?_, ?_, rfl, ?_⟩
  · refine receiveAll_map fun b hb => ?_
    have hmsgs : ∀ m ∈ b.msgs, m.2.WellFormed net := by
      intro m hm
      have hover : m ∈ s.handedOver recv.nodeId.toNat := List.mem_flatten.mpr ⟨_, List.mem_map_of_mem hb, hm⟩
      refine hwf m.2 ?_
      rw [← hflow]
      exact List.mem_append_left _ (List.mem_map_of_mem hover)
    obtain ⟨hb, hdest⟩ := List.mem_filter.mp hb
    have hframed := hloaded.sent b hb (of_decide_eq_true hdest) hmsgs
    exact hframed.createMessages (hrest.sound.sent b hb).count hother hnode
  · rw [List.forall₂_map_left_iff, List.forall₂_map_right_iff, List.forall₂_same]
    exact fun m _ => m.2.delivered thd.nodeId m.1
  · rw [List.length_map, ← (hrest.sound.good _).count]
    exact hrest.few _

theorem stream_round_trip_two_ready :
    ∃ s got, OutRun NetConfig.narrow .only (List.replicate 3 readyToBoth) s ∧
      receiveAll NetConfig.narrow { Receiver.zero with nodeId := 1 } (s.frames 1) = some got ∧
      List.Forall₂ (fun m m' : Message => m.Delivered 0 m') (List.replicate 2 ⟨.unsigned 0, .ready⟩) got ∧
      (s.buffer 1).held.map Prod.snd = [⟨.unsigned 0, .ready⟩] := by
  obtain ⟨s, hs, hp⟩ := exists_out_run 3 (fun s => (s.buffer 1).held.length = 1) (by decide +kernel)
  have hrouted : routed .only (List.replicate 3 readyToBoth) 1 =
      List.replicate 2 ⟨.unsigned 0, .ready⟩ ++ [⟨.unsigned 0, .ready⟩] := rfl
  obtain ⟨msgs, got, rest, hsplit, hgot, hsame, hrest, -⟩ := stream_round_trip { Receiver.zero with nodeId := 1 } hs
    (by decide) (by decide) fun m hm => by
      obtain rfl := List.eq_of_mem_replicate (n := 3) hm
      exact ⟨⟨rfl, rfl⟩, trivial⟩
  have hone : rest.length = 1 := by
    rw [hrest, List.length_map]
    exact of_decide_eq_true hp
  obtain ⟨rfl, rfl⟩ := List.append_inj' (hrouted.symm.trans hsplit) hone.symm
  exact ⟨s, got, hs, hgot, hsame, hrest.symm⟩

end Stream

end SpotLess.Wire
