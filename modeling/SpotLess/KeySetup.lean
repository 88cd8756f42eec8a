import SpotLess.Wire
import SpotLess.Lib.Reach
import SpotLess.Lib.UMap

/-! The exchange of keys before the first batch: every server counts down the keys it misses of every node and
announces `READY` to the clients, and a client starts when it has been told so often enough. -/

namespace SpotLess

open Lib Wire

structure KeyMsg where
  pkey : Bytes
  returnNode : ℕ
  publicShare : PublicShare

-- The keys the nodes have generated; `blank` is what a message carries as a share that has none.
structure KeyMaterial where
  publicKey : ℕ → Bytes
  cmacPrivateKeys : ℕ → ℕ → Bytes
  share : ℕ → PublicShare
  blank : PublicShare

structure KeyServer where
  receivedKeys : ℕ → ℕ
  cmacOthersKeys : ℕ → Bytes
  pubKeys : ℕ → Bytes
  publicKeys : UMap ℕ PublicShare

inductive KeySlot
  | ed (i : ℕ)
  | cma (i : ℕ)
  | secp (i : ℕ)
  deriving DecidableEq

variable (net : NetConfig) (keys : KeyMaterial)

def NetConfig.totnodes : ℕ := net.nodeCnt + net.clientNodeCnt

def NetConfig.clients : List ℕ := List.range' net.nodeCnt net.clientNodeCnt

namespace KeyServer

variable (nodeId : ℕ) (st : KeyServer)

-- Two keys are due from every other node.
def init : KeyServer where
  receivedKeys i := if i < net.totnodes ∧ i ≠ nodeId then 2 else 0
  cmacOthersKeys := Function.update (fun _ => []) nodeId (keys.cmacPrivateKeys nodeId nodeId)
  pubKeys := Function.update (fun _ => []) nodeId (keys.publicKey nodeId)
  publicKeys := (∅ : UMap ℕ PublicShare).insert nodeId (keys.share nodeId)

def received (i : ℕ) : ℕ → ℕ := Function.update st.receivedKeys i (sub64 (st.receivedKeys i) 1)

def store (msg : KeyMsg) : KeyServer :=
  let algorithm := msg.pkey.take 4
  let pkey := msg.pkey.drop 4
  if algorithm = ascii "CMA-" then
    { st with
      cmacOthersKeys := Function.update st.cmacOthersKeys msg.returnNode pkey
      receivedKeys := st.received msg.returnNode }
  else if algorithm = ascii "ED2-" then
    { st with
      pubKeys := Function.update st.pubKeys msg.returnNode pkey
      receivedKeys := st.received msg.returnNode }
  else if algorithm = Wire.secp then
    { st with publicKeys := st.publicKeys.insert msg.returnNode msg.publicShare }
  else st

def sendReady : Bool :=
  (∀ i < net.totnodes, st.receivedKeys i = 0) ∧ ¬ st.publicKeys.entries.length < net.nodeCnt

-- The new state and the clients that are sent `READY`.
def processKeyExchange (msg : KeyMsg) : KeyServer × List ℕ :=
  let st := st.store msg
  (st, if st.sendReady net then net.clients else [])

structure Complete : Prop where
  cmac (i : ℕ) (hi : i < net.totnodes) (hne : i ≠ nodeId) : st.cmacOthersKeys i = keys.cmacPrivateKeys i nodeId
  pub (i : ℕ) (hi : i < net.totnodes) (hne : i ≠ nodeId) : st.pubKeys i = keys.publicKey i
  share (i : ℕ) (hi : i < net.nodeCnt) (hne : i ≠ nodeId) : st.publicKeys.lookup i = some (keys.share i)

end KeyServer

namespace KeySlot

-- What `send_key` and `send_public_key` of the other nodes send to `nodeId`.
def message (nodeId : ℕ) : KeySlot → KeyMsg
  | ed i => ⟨ascii "ED2-" ++ keys.publicKey i, i, keys.blank⟩
  | cma i => ⟨ascii "CMA-" ++ keys.cmacPrivateKeys i nodeId, i, keys.blank⟩
  | secp i => ⟨Wire.secp, i, keys.share i⟩

def due (nodeId : ℕ) : List KeySlot :=
  ((List.range net.totnodes).filter (· ≠ nodeId)).map ed ++ ((List.range net.totnodes).filter (· ≠ nodeId)).map cma ++
    ((List.range net.nodeCnt).filter (· ≠ nodeId)).map secp

end KeySlot

def KeyServer.after (nodeId : ℕ) (slots : List KeySlot) : KeyServer :=
  slots.foldl (fun st slot => (st.processKeyExchange net (slot.message keys nodeId)).1) (init net keys nodeId)

-- `pending` are the messages that have not been handled, `readies` counts the `READY` on their way to a client.
structure KeySystem where
  servers : ℕ → KeyServer
  pending : ℕ → List KeySlot
  readies : ℕ → ℕ
  totKey : ℕ → ℕ
  keyAvail : ℕ → Bool

inductive KeyEvent
  | receive (s : ℕ) (slot : KeySlot)
  | ready (c : ℕ)

namespace KeySystem

def init : KeySystem where
  servers := KeyServer.init net keys
  pending := KeySlot.due net
  readies _ := 0
  totKey _ := 0
  keyAvail _ := false

def receive (y : KeySystem) (s : ℕ) (slot : KeySlot) : KeySystem :=
  let r := (y.servers s).processKeyExchange net (slot.message keys s)
  { y with
    servers := Function.update y.servers s r.1
    pending := Function.update y.pending s ((y.pending s).erase slot)
    readies := fun c => y.readies c + r.2.count c }

def ready (y : KeySystem) (c : ℕ) : KeySystem :=
  { y with
    readies := Function.update y.readies c (y.readies c - 1)
    totKey := Function.update y.totKey c (y.totKey c + 1)
    keyAvail := if y.totKey c + 1 = net.nodeCnt then Function.update y.keyAvail c true else y.keyAvail }

def step (y : KeySystem) : KeyEvent → Option KeySystem
  | .receive s slot => if s < net.nodeCnt ∧ slot ∈ y.pending s then some (y.receive net keys s slot) else none
  | .ready c => if 0 < y.readies c then some (y.ready net c) else none

end KeySystem

section Due

variable {net} {nodeId i : ℕ} {slot : KeySlot}

lemma KeySlot.mem_due :
    slot ∈ due net nodeId ↔ (∃ i, i < net.totnodes ∧ i ≠ nodeId ∧ (slot = ed i ∨ slot = cma i)) ∨
      ∃ i, i < net.nodeCnt ∧ i ≠ nodeId ∧ slot = secp i := by
  simp only [due, List.mem_append, List.mem_map, List.mem_filter, List.mem_range, decide_eq_true_eq]
  constructor
  · rintro ((⟨i, ⟨hi, hne⟩, rfl⟩ | ⟨i, ⟨hi, hne⟩, rfl⟩) | ⟨i, ⟨hi, hne⟩, rfl⟩)
    · exact .inl ⟨i, hi, hne, .inl rfl⟩
    · exact .inl ⟨i, hi, hne, .inr rfl⟩
    · exact .inr ⟨i, hi, hne, rfl⟩
  · rintro (⟨i, hi, hne, rfl | rfl⟩ | ⟨i, hi, hne, rfl⟩)
    · exact .inl (.inl ⟨i, ⟨hi, hne⟩, rfl⟩)
    · exact .inl (.inr ⟨i, ⟨hi, hne⟩, rfl⟩)
    · exact .inr ⟨i, ⟨hi, hne⟩, rfl⟩

lemma KeySlot.ed_mem_due : ed i ∈ due net nodeId ↔ i < net.totnodes ∧ i ≠ nodeId := by simp [mem_due]

lemma KeySlot.cma_mem_due : cma i ∈ due net nodeId ↔ i < net.totnodes ∧ i ≠ nodeId := by simp [mem_due]

lemma KeySlot.secp_mem_due : secp i ∈ due net nodeId ↔ i < net.nodeCnt ∧ i ≠ nodeId := by simp [mem_due]

variable (net nodeId) in
lemma KeySlot.nodup_due : (due net nodeId).Nodup := by
  have hnodes : ((List.range net.totnodes).filter (· ≠ nodeId)).Nodup := List.nodup_range.filter _
  have hservers : ((List.range net.nodeCnt).filter (· ≠ nodeId)).Nodup := List.nodup_range.filter _
  refine List.nodup_append'.mpr ⟨List.nodup_append'.mpr ⟨?_, ?_, ?_⟩, ?_, ?_⟩
  · exact hnodes.map fun _ _ h => KeySlot.ed.inj h
  · exact hnodes.map fun _ _ h => KeySlot.cma.inj h
  · intro x hx hy
    obtain ⟨i, -, rfl⟩ := List.mem_map.mp hx
    obtain ⟨j, -, hj⟩ := List.mem_map.mp hy
    cases hj
  · exact hservers.map fun _ _ h => KeySlot.secp.inj h
  · intro x hx hy
    obtain ⟨j, -, rfl⟩ := List.mem_map.mp hy
    rcases List.mem_append.mp hx with hx | hx
    · obtain ⟨i, -, hi⟩ := List.mem_map.mp hx
      cases hi
    · obtain ⟨i, -, hi⟩ := List.mem_map.mp hx
      cases hi

end Due

namespace KeyServer

variable {net keys} {nodeId : ℕ} {st : KeyServer} {rest : List KeySlot} {slot : KeySlot}

structure Misses (net : NetConfig) (keys : KeyMaterial) (nodeId : ℕ) (st : KeyServer) (rest : List KeySlot) : Prop where
  nodup : rest.Nodup
  due (slot : KeySlot) (h : slot ∈ rest) : slot ∈ KeySlot.due net nodeId
  counts (i : ℕ) : st.receivedKeys i = rest.count (.ed i) + rest.count (.cma i)
  rows (i : ℕ) : i ∈ st.publicKeys ↔ i < net.nodeCnt ∧ .secp i ∉ rest
  cmac (i : ℕ) (hi : i < net.totnodes) (hne : i ≠ nodeId) (h : .cma i ∉ rest) :
    st.cmacOthersKeys i = keys.cmacPrivateKeys i nodeId
  pub (i : ℕ) (hi : i < net.totnodes) (hne : i ≠ nodeId) (h : .ed i ∉ rest) : st.pubKeys i = keys.publicKey i
  share (i : ℕ) (hi : i < net.nodeCnt) (hne : i ≠ nodeId) (h : .secp i ∉ rest) :
    st.publicKeys.lookup i = some (keys.share i)

lemma Misses.complete (h : Misses net keys nodeId st []) : Complete net keys nodeId st where
  cmac i hi hne := h.cmac i hi hne List.not_mem_nil
  pub i hi hne := h.pub i hi hne List.not_mem_nil
  share i hi hne := h.share i hi hne List.not_mem_nil

lemma misses_init (hself : nodeId < net.nodeCnt) : Misses net keys nodeId (init net keys nodeId) (KeySlot.due net nodeId) where
  nodup := KeySlot.nodup_due net nodeId
  due _ h := h
  counts i := by
    have hnodup := KeySlot.nodup_due net nodeId
    rw [hnodup.count, hnodup.count]
    simp only [KeySlot.ed_mem_due, KeySlot.cma_mem_due, init]
    split_ifs <;> rfl
  rows i := by
    rw [KeySlot.secp_mem_due, init, AList.mem_insert]
    constructor
    · rintro (rfl | h)
      · exact ⟨hself, fun h => h.2 rfl⟩
      · exact absurd h (AList.notMem_empty i)
    · rintro ⟨hi, hn⟩
      exact .inl (by_contra fun hne => hn ⟨hi, hne⟩)
  cmac i hi hne h := absurd (KeySlot.cma_mem_due.mpr ⟨hi, hne⟩) h
  pub i hi hne h := absurd (KeySlot.ed_mem_due.mpr ⟨hi, hne⟩) h
  share i hi hne h := absurd (KeySlot.secp_mem_due.mpr ⟨hi, hne⟩) h

section Store

variable (keys nodeId st) in
lemma store_ed (i : ℕ) :
    st.store ((KeySlot.ed i).message keys nodeId) =
      { st with pubKeys := Function.update st.pubKeys i (keys.publicKey i), receivedKeys := st.received i } := by
  have htake : (ascii "ED2-" ++ keys.publicKey i).take 4 = ascii "ED2-" := List.take_left' (by decide)
  have hdrop : (ascii "ED2-" ++ keys.publicKey i).drop 4 = keys.publicKey i := List.drop_left' (by decide)
  have hcma : ascii "ED2-" ≠ ascii "CMA-" := by decide
  simp only [store, KeySlot.message, htake, hdrop, hcma, if_false, if_true]

variable (keys nodeId st) in
lemma store_cma (i : ℕ) :
    st.store ((KeySlot.cma i).message keys nodeId) =
      { st with
        cmacOthersKeys := Function.update st.cmacOthersKeys i (keys.cmacPrivateKeys i nodeId)
        receivedKeys := st.received i } := by
  have htake : (ascii "CMA-" ++ keys.cmacPrivateKeys i nodeId).take 4 = ascii "CMA-" := List.take_left' (by decide)
  have hdrop : (ascii "CMA-" ++ keys.cmacPrivateKeys i nodeId).drop 4 = keys.cmacPrivateKeys i nodeId :=
    List.drop_left' (by decide)
  simp only [store, KeySlot.message, htake, hdrop, if_true]

variable (keys nodeId st) in
lemma store_secp (i : ℕ) :
    st.store ((KeySlot.secp i).message keys nodeId) =
      { st with publicKeys := st.publicKeys.insert i (keys.share i) } := by
  have htake : Wire.secp.take 4 = Wire.secp := by decide
  have hcma : Wire.secp ≠ ascii "CMA-" := by decide
  have hed : Wire.secp ≠ ascii "ED2-" := by decide
  simp only [store, KeySlot.message, htake, hcma, hed, if_false, if_true]

end Store

lemma Misses.received (h : Misses net keys nodeId st rest) {i : ℕ} (hslot : slot = .ed i ∨ slot = .cma i)
    (hmem : slot ∈ rest) (j : ℕ) :
    st.received i j = (rest.erase slot).count (.ed j) + (rest.erase slot).count (.cma j) := by
  have hpos : 0 < rest.count slot := List.count_pos_iff.mpr hmem
  by_cases hj : j = i
  · subst hj
    have hcounts := h.counts j
    have hle : 1 ≤ st.receivedKeys j := by
      rcases hslot with rfl | rfl <;> omega
    rw [KeyServer.received, Function.update_self, sub64_of_le hle, hcounts]
    rcases hslot with rfl | rfl
    · rw [List.count_erase_self, List.count_erase_of_ne (by simp)]
      omega
    · rw [List.count_erase_self, List.count_erase_of_ne (by simp)]
      omega
  · rw [KeyServer.received, Function.update_of_ne hj, h.counts j]
    rcases hslot with rfl | rfl
    · rw [List.count_erase_of_ne (by simp [hj]), List.count_erase_of_ne (by simp)]
    · rw [List.count_erase_of_ne (by simp), List.count_erase_of_ne (by simp [hj])]

lemma Misses.notMem_of_erase (h : Misses net keys nodeId st rest) {x : KeySlot} (hx : x ∉ rest.erase slot) :
    x = slot ∨ x ∉ rest := by
  rw [h.nodup.mem_erase_iff, not_and_or, not_not] at hx
  exact hx

lemma Misses.erase (h : Misses net keys nodeId st rest) :
    (rest.erase slot).Nodup ∧ ∀ x ∈ rest.erase slot, x ∈ KeySlot.due net nodeId :=
  ⟨h.nodup.erase slot, fun x hx => h.due x (List.mem_of_mem_erase hx)⟩

lemma Misses.filled (h : Misses net keys nodeId st rest) {α : Type} {i j : ℕ} {x : ℕ → KeySlot} {tbl : ℕ → α}
    (value : ℕ → α) (hinj : ∀ {a b}, x a = x b → a = b) (hold : x j ∉ rest → tbl j = value j) (hx : x j ∉ rest.erase (x i)) :
    Function.update tbl i (value i) j = value j := by
  by_cases hji : j = i
  · subst hji
    exact Function.update_self ..
  · rw [Function.update_of_ne hji]
    exact hold ((h.notMem_of_erase hx).resolve_left fun heq => hji (hinj heq))

lemma Misses.store_ed (h : Misses net keys nodeId st rest) {i : ℕ} (hmem : .ed i ∈ rest) :
    Misses net keys nodeId (st.store ((KeySlot.ed i).message keys nodeId)) (rest.erase (.ed i)) := by
  rw [KeyServer.store_ed]
  refine ⟨h.erase.1, h.erase.2, h.received (.inl rfl) hmem, ?_, ?_, ?_, ?_⟩
  · intro j
    rw [h.rows j, h.nodup.mem_erase_iff]
    simp
  · intro j hj hne hx
    exact h.cmac j hj hne ((h.notMem_of_erase hx).resolve_left (by simp))
  · intro j hj hne hx
    exact h.filled keys.publicKey KeySlot.ed.inj (h.pub j hj hne) hx
  · intro j hj hne hx
    exact h.share j hj hne ((h.notMem_of_erase hx).resolve_left (by simp))

lemma Misses.store_cma (h : Misses net keys nodeId st rest) {i : ℕ} (hmem : .cma i ∈ rest) :
    Misses net keys nodeId (st.store ((KeySlot.cma i).message keys nodeId)) (rest.erase (.cma i)) := by
  rw [KeyServer.store_cma]
  refine ⟨h.erase.1, h.erase.2, h.received (.inr rfl) hmem, ?_, ?_, ?_, ?_⟩
  · intro j
    rw [h.rows j, h.nodup.mem_erase_iff]
    simp
  · intro j hj hne hx
    exact h.filled (fun j => keys.cmacPrivateKeys j nodeId) KeySlot.cma.inj (h.cmac j hj hne) hx
  · intro j hj hne hx
    exact h.pub j hj hne ((h.notMem_of_erase hx).resolve_left (by simp))
  · intro j hj hne hx
    exact h.share j hj hne ((h.notMem_of_erase hx).resolve_left (by simp))

lemma Misses.store_secp (h : Misses net keys nodeId st rest) {i : ℕ} (hmem : .secp i ∈ rest) :
    Misses net keys nodeId (st.store ((KeySlot.secp i).message keys nodeId)) (rest.erase (.secp i)) := by
  rw [KeyServer.store_secp]
  refine ⟨h.erase.1, h.erase.2, ?_, ?_, ?_, ?_, ?_⟩
  · intro j
    rw [List.count_erase_of_ne (by simp), List.count_erase_of_ne (by simp)]
    exact h.counts j
  · intro j
    rw [AList.mem_insert, h.rows j, h.nodup.mem_erase_iff]
    have hi := (KeySlot.secp_mem_due.mp (h.due _ hmem)).1
    by_cases hji : j = i
    · subst hji
      simp [hi]
    · simp [hji]
  · intro j hj hne hx
    exact h.cmac j hj hne ((h.notMem_of_erase hx).resolve_left (by simp))
  · intro j hj hne hx
    exact h.pub j hj hne ((h.notMem_of_erase hx).resolve_left (by simp))
  · intro j hj hne hx
    by_cases hji : j = i
    · subst hji
      exact AList.lookup_insert _
    · refine (AList.lookup_insert_ne hji).trans ?_
      exact h.share j hj hne ((h.notMem_of_erase hx).resolve_left (by simpa using hji))

lemma Misses.store (h : Misses net keys nodeId st rest) (hmem : slot ∈ rest) :
    Misses net keys nodeId (st.store (slot.message keys nodeId)) (rest.erase slot) := by
  cases slot with
  | ed i => exact h.store_ed hmem
  | cma i => exact h.store_cma hmem
  | secp i => exact h.store_secp hmem

lemma Misses.size (h : Misses net keys nodeId st rest) :
    st.publicKeys.entries.length = ((Finset.range net.nodeCnt).filter fun i => KeySlot.secp i ∉ rest).card := by
  have hkeys : st.publicKeys.keys.toFinset = (Finset.range net.nodeCnt).filter fun i => KeySlot.secp i ∉ rest := by
    ext i
    rw [List.mem_toFinset, ← AList.mem_keys, h.rows i, Finset.mem_filter, Finset.mem_range]
  rw [← hkeys, List.toFinset_card_of_nodup st.publicKeys.keys_nodup]
  simp [AList.keys, List.keys]

lemma Misses.sendReady_iff (h : Misses net keys nodeId st rest) : st.sendReady net = true ↔ rest = [] := by
  rw [sendReady, decide_eq_true_eq, not_lt, h.size]
  constructor
  · rintro ⟨hcounts, hsize⟩
    refine List.eq_nil_iff_forall_not_mem.mpr fun slot hmem => ?_
    have hpos : 0 < rest.count slot := List.count_pos_iff.mpr hmem
    have hdue := h.due slot hmem
    cases slot with
    | ed i =>
      have hzero := hcounts i (KeySlot.ed_mem_due.mp hdue).1
      rw [h.counts i] at hzero
      omega
    | cma i =>
      have hzero := hcounts i (KeySlot.cma_mem_due.mp hdue).1
      rw [h.counts i] at hzero
      omega
    | secp i =>
      have hi := (KeySlot.secp_mem_due.mp hdue).1
      have hlt : ((Finset.range net.nodeCnt).filter fun i => KeySlot.secp i ∉ rest).card <
          (Finset.range net.nodeCnt).card := by
        refine Finset.card_lt_card (Finset.filter_ssubset.mpr ⟨i, Finset.mem_range.mpr hi, ?_⟩)
        exact not_not.mpr hmem
      rw [Finset.card_range] at hlt
      omega
  · rintro rfl
    refine ⟨fun i _ => ?_, ?_⟩
    · rw [h.counts i]
      rfl
    · simp

lemma Misses.process (h : Misses net keys nodeId st rest) (hmem : slot ∈ rest) :
    Misses net keys nodeId (st.processKeyExchange net (slot.message keys nodeId)).1 (rest.erase slot) ∧
      (st.processKeyExchange net (slot.message keys nodeId)).2 = if rest.erase slot = [] then net.clients else [] := by
  have hstore := h.store hmem
  refine ⟨hstore, ?_⟩
  rw [processKeyExchange]
  simp only [hstore.sendReady_iff]

variable (keys) in
lemma misses_after (hnode : nodeId < net.nodeCnt) {pre post : List KeySlot}
    (h : (pre ++ post).Perm (KeySlot.due net nodeId)) :
    ∃ rest, rest.Perm post ∧ Misses net keys nodeId (after net keys nodeId pre) rest := by
  induction pre using List.reverseRecOn generalizing post with
  | nil => exact ⟨_, h.symm, misses_init hnode⟩
  | append_singleton pre slot ih =>
    rw [List.append_assoc] at h
    obtain ⟨rest, hperm, hmiss⟩ := ih h
    have hmem : slot ∈ rest := hperm.mem_iff.mpr List.mem_cons_self
    refine ⟨rest.erase slot, ?_, ?_⟩
    · have herase := hperm.erase slot
      rwa [List.singleton_append, List.erase_cons_head] at herase
    · have hafter : after net keys nodeId (pre ++ [slot]) =
          ((after net keys nodeId pre).processKeyExchange net (slot.message keys nodeId)).1 := by simp [after]
      rw [hafter]
      exact (hmiss.process hmem).1

lemma ready_on_last (hnode : nodeId < net.nodeCnt) {pre post : List KeySlot}
    (h : (pre ++ slot :: post).Perm (KeySlot.due net nodeId)) :
    ((after net keys nodeId pre).processKeyExchange net (slot.message keys nodeId)).2 =
        (if post = [] then net.clients else []) ∧
      (post = [] →
        Complete net keys nodeId ((after net keys nodeId pre).processKeyExchange net (slot.message keys nodeId)).1) := by
  obtain ⟨rest, hperm, hmiss⟩ := misses_after keys hnode h
  have hmem : slot ∈ rest := hperm.mem_iff.mpr List.mem_cons_self
  have hrest : (rest.erase slot).Perm post := by
    have herase := hperm.erase slot
    rwa [List.erase_cons_head] at herase
  have hnil : rest.erase slot = [] ↔ post = [] :=
    ⟨fun h => List.nil_perm.mp (h ▸ hrest), fun h => List.perm_nil.mp (h ▸ hrest)⟩
  obtain ⟨hmiss', hout⟩ := hmiss.process hmem
  refine ⟨?_, fun hpost => ?_⟩
  · rw [hout]
    simp only [hnil]
  · rw [hnil.mpr hpost] at hmiss'
    exact hmiss'.complete

end KeyServer

namespace KeySystem

variable {net keys} {y z : KeySystem}

def finished (net : NetConfig) (y : KeySystem) : Finset ℕ := (Finset.range net.nodeCnt).filter fun s => y.pending s = []

structure Inv (net : NetConfig) (keys : KeyMaterial) (y : KeySystem) : Prop where
  misses (s : ℕ) (hs : s < net.nodeCnt) : (y.servers s).Misses net keys s (y.pending s)
  told (c : ℕ) (hc : c ∈ net.clients) : y.readies c + y.totKey c = (y.finished net).card
  avail (c : ℕ) (h : y.keyAvail c = true) : net.nodeCnt ≤ y.totKey c

lemma mem_clients {net : NetConfig} {c : ℕ} : c ∈ net.clients ↔ net.nodeCnt ≤ c ∧ c < net.totnodes := by
  rw [NetConfig.clients, List.mem_range'_1, NetConfig.totnodes]

lemma nodup_clients (net : NetConfig) : net.clients.Nodup := List.nodup_range' 1

lemma inv_init : Inv net keys (init net keys) where
  misses s hs := KeyServer.misses_init hs
  told c hc := by
    obtain ⟨hle, hlt⟩ := mem_clients.mp hc
    have hempty : (init net keys).finished net = ∅ := by
      refine Finset.filter_eq_empty_iff.mpr fun s hs hnil => ?_
      have hmem : KeySlot.ed c ∈ KeySlot.due net s :=
        KeySlot.ed_mem_due.mpr ⟨hlt, fun h => absurd (Finset.mem_range.mp hs) (by omega)⟩
      have hnil : KeySlot.due net s = [] := hnil
      rw [hnil] at hmem
      exact absurd hmem List.not_mem_nil
    rw [hempty]
    rfl
  avail c h := by cases h

lemma finished_receive {s : ℕ} {slot : KeySlot} (hs : s < net.nodeCnt) (hmem : slot ∈ y.pending s) :
    ((y.receive net keys s slot).finished net).card =
      (y.finished net).card + if (y.pending s).erase slot = [] then 1 else 0 := by
  have hout : s ∉ y.finished net := by
    intro h
    rw [(Finset.mem_filter.mp h).2] at hmem
    exact absurd hmem List.not_mem_nil
  have hpending : ∀ j, (y.receive net keys s slot).pending j =
      Function.update y.pending s ((y.pending s).erase slot) j := fun _ => rfl
  split_ifs with hnil
  · have hset : (y.receive net keys s slot).finished net = insert s (y.finished net) := by
      ext j
      simp only [finished, hpending, Finset.mem_insert, Finset.mem_filter, Finset.mem_range]
      by_cases hj : j = s
      · subst hj
        simp [hnil, hs]
      · simp [hj]
    rw [hset, Finset.card_insert_of_notMem hout]
  · have hset : (y.receive net keys s slot).finished net = y.finished net := by
      ext j
      simp only [finished, hpending, Finset.mem_filter, Finset.mem_range]
      by_cases hj : j = s
      · subst hj
        have hne : y.pending j ≠ [] := List.ne_nil_of_mem hmem
        simp [hnil, hne]
      · simp [hj]
    rw [hset, Nat.add_zero]

lemma Inv.receive (h : Inv net keys y) {s : ℕ} {slot : KeySlot} (hs : s < net.nodeCnt) (hmem : slot ∈ y.pending s) :
    Inv net keys (y.receive net keys s slot) := by
  obtain ⟨hmiss, hout⟩ := (h.misses s hs).process hmem
  refine ⟨?_, ?_, h.avail⟩
  · intro j hj
    by_cases hjs : j = s
    · subst hjs
      simpa [KeySystem.receive] using hmiss
    · simpa [KeySystem.receive, hjs] using h.misses j hj
  · intro c hc
    have htold := h.told c hc
    have hcount : (y.receive net keys s slot).readies c =
        y.readies c + if (y.pending s).erase slot = [] then 1 else 0 := by
      change y.readies c + List.count c _ = _
      rw [hout]
      split_ifs
      · rw [List.count_eq_one_of_mem (nodup_clients net) hc]
      · rfl
    rw [hcount, finished_receive hs hmem]
    change y.readies c + _ + y.totKey c = _
    omega

lemma Inv.ready (h : Inv net keys y) {c : ℕ} (hc : 0 < y.readies c) : Inv net keys (y.ready net c) := by
  refine ⟨h.misses, ?_, ?_⟩
  · intro d hd
    have htold := h.told d hd
    change Function.update y.readies c _ d + Function.update y.totKey c _ d = (y.finished net).card
    by_cases hdc : d = c
    · subst hdc
      rw [Function.update_self, Function.update_self]
      omega
    · rwa [Function.update_of_ne hdc, Function.update_of_ne hdc]
  · intro d hd
    change net.nodeCnt ≤ Function.update y.totKey c _ d
    by_cases hdc : d = c
    · subst hdc
      rw [Function.update_self]
      simp only [KeySystem.ready] at hd
      split_ifs at hd with hn
      · omega
      · have := h.avail d hd
        omega
    · rw [Function.update_of_ne hdc]
      simp only [KeySystem.ready] at hd
      split_ifs at hd with hn
      · rw [Function.update_of_ne hdc] at hd
        exact h.avail d hd
      · exact h.avail d hd

lemma Inv.step (h : Inv net keys y) {e : KeyEvent} (hs : y.step net keys e = some z) : Inv net keys z := by
  cases e with
  | receive s slot =>
    rw [KeySystem.step] at hs
    split_ifs at hs with hok
    obtain rfl := Option.some.inj hs
    exact h.receive hok.1 hok.2
  | ready c =>
    rw [KeySystem.step] at hs
    split_ifs at hs with hok
    obtain rfl := Option.some.inj hs
    exact h.ready hok

def Reachable (net : NetConfig) (keys : KeyMaterial) (y : KeySystem) : Prop :=
  Reach (step net keys) (fun _ _ => True) (init net keys) y

lemma Reachable.inv (h : Reachable net keys y) : Inv net keys y :=
  Reach.invariant (Inv net keys) inv_init (fun _ _ _ _ _ hs ih => ih.step hs) h

lemma Inv.complete (h : Inv net keys y) {c s : ℕ} (hc : c ∈ net.clients) (havail : y.keyAvail c = true)
    (hs : s < net.nodeCnt) : (y.servers s).Complete net keys s := by
  have hcard : (Finset.range net.nodeCnt).card ≤ (y.finished net).card := by
    have := h.avail c havail
    have := h.told c hc
    rw [Finset.card_range]
    omega
  have hall := Finset.eq_of_subset_of_card_le (Finset.filter_subset _ _) hcard
  have hmem : s ∈ y.finished net := by
    rw [finished, hall]
    exact Finset.mem_range.mpr hs
  have hmiss := h.misses s hs
  rw [(Finset.mem_filter.mp hmem).2] at hmiss
  exact hmiss.complete

theorem ready_once_complete (net : NetConfig) (keys : KeyMaterial) :
    (∀ nodeId < net.nodeCnt, ∀ pre slot post, (pre ++ slot :: post).Perm (KeySlot.due net nodeId) →
      ((KeyServer.after net keys nodeId pre).processKeyExchange net (slot.message keys nodeId)).2 =
          (if post = [] then net.clients else []) ∧
        (post = [] → KeyServer.Complete net keys nodeId
          ((KeyServer.after net keys nodeId pre).processKeyExchange net (slot.message keys nodeId)).1)) ∧
      ∀ y, Reachable net keys y → ∀ c ∈ net.clients, y.keyAvail c = true →
        ∀ s < net.nodeCnt, (y.servers s).Complete net keys s :=
  ⟨fun _ hnode _ _ _ h => KeyServer.ready_on_last hnode h, fun _ hy _ hc havail _ hs => hy.inv.complete hc havail hs⟩

def twoServers : NetConfig := { NetConfig.deployed with toConfig := Config.twoReplicas }

def sampleKeys : KeyMaterial where
  publicKey i := [UInt8.ofNat i]
  cmacPrivateKeys i j := [UInt8.ofNat i, UInt8.ofNat j]
  share i := List.Vector.replicate 64 (UInt8.ofNat i)
  blank := List.Vector.replicate 64 0

-- The second server has all its keys before the first one has its last.
def exchange : List KeyEvent :=
  [.receive 0 (.secp 1), .receive 1 (.ed 0), .receive 1 (.cma 2), .receive 1 (.cma 0), .receive 1 (.secp 0),
    .receive 0 (.cma 1), .receive 1 (.ed 2), .ready 2, .receive 0 (.cma 2), .receive 0 (.ed 1), .receive 0 (.ed 2), .ready 2]

theorem ready_once_complete_two_servers :
    ∃ y, Reachable twoServers sampleKeys y ∧ y.keyAvail 2 = true ∧
      (y.servers 0).Complete twoServers sampleKeys 0 ∧ (y.servers 1).Complete twoServers sampleKeys 1 := by
  obtain ⟨y, hy, havail⟩ := exists_reach_of_runWith (step twoServers sampleKeys) (fun _ _ => True)
    (init twoServers sampleKeys) exchange (fun y => y.keyAvail 2) (by decide +kernel)
  have h := (ready_once_complete twoServers sampleKeys).2 y hy 2 (by decide) havail
  exact ⟨y, hy, havail, h 0 (by decide), h 1 (by decide)⟩

end KeySystem

end SpotLess
