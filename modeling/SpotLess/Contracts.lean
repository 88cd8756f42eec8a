import SpotLess.WireRoundTrip

/-! The banking contracts on their way from a client to the transaction manager of a replica: a positional array of
inputs, whose meaning depends on the type of the contract. -/

namespace SpotLess

open Lib Wire

inductive BSCType
  | BSC_TRANSFER
  | BSC_DEPOSIT
  | BSC_WITHDRAW
  deriving DecidableEq, Repr

namespace BSCType

def code : BSCType → UInt32
  | BSC_TRANSFER => 0
  | BSC_DEPOSIT => 1
  | BSC_WITHDRAW => 2

def ofCode (c : UInt32) : Option BSCType :=
  if c = 0 then some BSC_TRANSFER else if c = 1 then some BSC_DEPOSIT else if c = 2 then some BSC_WITHDRAW else none

lemma ofCode_code (t : BSCType) : ofCode t.code = some t := by
  cases t <;> rfl

end BSCType

inductive SmartContract
  | transfer (sourceId destId amount : UInt64)
  | deposit (destId amount : UInt64)
  | withdraw (sourceId amount : UInt64)
  deriving DecidableEq, Repr

structure BankingSmartContractMessage where
  rtype : UInt32
  returnNodeId : UInt64
  clientStartts : UInt64
  inputs : List UInt64
  type : BSCType

-- The value of `BSC_MSG` in the enumeration that has it.
def bscMsg : UInt32 := 12

namespace BankingSmartContractMessage

variable (m : BankingSmartContractMessage)

def getSize : ℕ := 4 + 8 + 8 + 8 + 8 * m.inputs.length + 4

def copyToBuf : Mem Unit :=
  sized (do
    put32 m.rtype
    put64 m.returnNodeId
    put64 m.clientStartts
    put64 (UInt64.ofNat m.inputs.length)
    copyEach put64 m.inputs
    put32 m.type.code) fun _ => m.getSize

def getBSCType : Mem BSCType := do
  let c ← get32
  match BSCType.ofCode c with
  | some t => pure t
  | none => failure

def copyFromBuf : Mem BankingSmartContractMessage :=
  sized (do
    let rtype ← get32
    let returnNodeId ← get64
    let clientStartts ← get64
    let size ← get64
    let inputs ← readEach get64 size.toNat
    let type ← getBSCType
    pure {
      rtype := rtype
      returnNodeId := returnNodeId
      clientStartts := clientStartts
      inputs := inputs
      type := type }) getSize

end BankingSmartContractMessage

-- What a client draws for the query at place `addMore` of a batch.
structure Order where
  addMore : ℕ
  amount : UInt64
  source : UInt64
  dest : UInt64

namespace Order

variable (o : Order)

def type : BSCType :=
  if o.addMore % 3 = 0 then .BSC_TRANSFER else if o.addMore % 3 = 1 then .BSC_DEPOSIT else .BSC_WITHDRAW

def message (nodeId now : UInt64) : BankingSmartContractMessage where
  rtype := bscMsg
  returnNodeId := nodeId
  clientStartts := now
  inputs := if o.addMore % 3 = 0 then [o.amount, o.source, o.dest] else [o.amount, o.source]
  type := o.type

-- Where a contract has one account, it is the one drawn as the source.
def contract : SmartContract :=
  match o.type with
  | .BSC_TRANSFER => .transfer o.source o.dest o.amount
  | .BSC_DEPOSIT => .deposit o.source o.amount
  | .BSC_WITHDRAW => .withdraw o.source o.amount

end Order

structure ContractTxn where
  clientId : UInt64
  clientStartts : UInt64
  smartContract : SmartContract
  deriving DecidableEq, Repr

def initTxnMan (bsc : BankingSmartContractMessage) : Option ContractTxn := do
  let contract ← match bsc.type with
    | .BSC_TRANSFER => do
      let amount ← bsc.inputs[1]?
      let sourceId ← bsc.inputs[0]?
      let destId ← bsc.inputs[2]?
      pure (.transfer sourceId destId amount)
    | .BSC_DEPOSIT => do
      let amount ← bsc.inputs[0]?
      let destId ← bsc.inputs[1]?
      pure (.deposit destId amount)
    | .BSC_WITHDRAW => do
      let amount ← bsc.inputs[0]?
      let sourceId ← bsc.inputs[1]?
      pure (.withdraw sourceId amount)
  pure ⟨bsc.returnNodeId, bsc.clientStartts, contract⟩

-- Written into a buffer at some place and read back from there.
def transmit (c : Cursor) (m : BankingSmartContractMessage) : Option BankingSmartContractMessage :=
  (m.copyToBuf c).bind fun w => (BankingSmartContractMessage.copyFromBuf ⟨w.2.buf, c.ptr⟩).map (·.1)

namespace BankingSmartContractMessage

lemma roundTrip_bscType (t : BSCType) : RoundTrip (put32 t.code) getBSCType t 4 := by
  refine ⟨_, .put32 _, ?_, leBytes_length 4 _⟩
  rw [← List.append_nil (leBytes 4 _)]
  refine (Reads.get32 t.code).bind ?_
  rw [BSCType.ofCode_code]
  exact .pure _

lemma roundTrip {m : BankingSmartContractMessage} (h : m.inputs.length < 2 ^ 64) :
    RoundTrip m.copyToBuf copyFromBuf m m.getSize := by
  have heach : RoundTrip (copyEach put64 m.inputs) (readEach get64 m.inputs.length) (m.inputs.map id)
      (m.inputs.map fun _ => 8).sum := .each fun v _ => .word64 v
  rw [← toNat_ofNat_lt h, List.map_id] at heach
  refine RoundTrip.sized (.congr (.bind (.word32 _) <| .bind (.word64 _) <| .bind (.word64 _) <|
    .bind (.word64 _) <| .bind heach <| .last _ (roundTrip_bscType _)) rfl ?_) rfl rfl
  rw [getSize, List.map_const', List.sum_replicate, smul_eq_mul]
  omega

end BankingSmartContractMessage

lemma transmit_eq {c : Cursor} {m : BankingSmartContractMessage} (h : m.inputs.length < 2 ^ 64)
    (hroom : c.ptr + m.getSize ≤ c.buf.length) : transmit c m = some m := by
  obtain ⟨buf, hw, -, -, hr⟩ := (BankingSmartContractMessage.roundTrip h).run c hroom
  rw [transmit, hw, Option.bind_some, hr, Option.map_some]

lemma Order.length_inputs (o : Order) (nodeId now : UInt64) : (o.message nodeId now).inputs.length < 2 ^ 64 := by
  simp only [message]
  split_ifs <;> simp

-- The first two inputs of a transfer are read in the opposite order.
lemma Order.initTxnMan_transfer {o : Order} (h : o.addMore % 3 = 0) (nodeId now : UInt64) :
    initTxnMan (o.message nodeId now) = some ⟨nodeId, now, .transfer o.amount o.dest o.source⟩ := by
  simp [initTxnMan, message, type, h]

lemma Order.initTxnMan_other {o : Order} (h : o.addMore % 3 ≠ 0) (nodeId now : UInt64) :
    initTxnMan (o.message nodeId now) = some ⟨nodeId, now, o.contract⟩ := by
  by_cases hdep : o.addMore % 3 = 1
  · simp [initTxnMan, message, contract, type, hdep]
  · simp [initTxnMan, message, contract, type, h, hdep]

theorem contract_delivered_iff (o : Order) (nodeId now : UInt64) (c : Cursor)
    (hroom : c.ptr + (o.message nodeId now).getSize ≤ c.buf.length) :
    ((transmit c (o.message nodeId now)).bind initTxnMan).map ContractTxn.smartContract = some o.contract ↔
      o.type ≠ .BSC_TRANSFER ∨ o.amount = o.source := by
  rw [transmit_eq (o.length_inputs nodeId now) hroom, Option.bind_some]
  by_cases h : o.addMore % 3 = 0
  · have htype : o.type = .BSC_TRANSFER := if_pos h
    rw [Order.initTxnMan_transfer h, Option.map_some, Option.some_inj, Order.contract, htype]
    simp only [SmartContract.transfer.injEq, true_and, ne_eq, not_true, false_or]
    exact ⟨fun h => h.1, fun h => ⟨h, h.symm⟩⟩
  · have htype : o.type ≠ .BSC_TRANSFER := by
      rw [Order.type, if_neg h]
      split_ifs <;> decide
    rw [Order.initTxnMan_other h]
    exact ⟨fun _ => .inl htype, fun _ => rfl⟩

theorem contract_delivered_deposit :
    let o : Order := ⟨1, 10, 3, 5⟩
    ((transmit ⟨List.replicate 64 0, 12⟩ (o.message 4 99)).bind initTxnMan).map ContractTxn.smartContract =
      some (.deposit 3 10) := by
  intro o
  exact (contract_delivered_iff o 4 99 ⟨List.replicate 64 0, 12⟩ (by decide)).mpr (.inl (by decide))

-- Ten from account 3 to account 5 becomes three from account 10 to account 5.
theorem transfer_swapped :
    let o : Order := ⟨0, 10, 3, 5⟩
    o.contract = .transfer 3 5 10 ∧
      ((transmit ⟨List.replicate 64 0, 0⟩ (o.message 4 99)).bind initTxnMan).map ContractTxn.smartContract =
        some (.transfer 10 5 3) := by
  decide +kernel

end SpotLess
