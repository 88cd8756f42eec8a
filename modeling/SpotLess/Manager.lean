import SpotLess.Message

namespace SpotLess

open Lib

structure TxnManager where
  hash : Bytes := []
  view : ℕ := 0
  instanceId : ℕ := 0
  returnId : ℕ := 2 ^ 64 - 1
  clientId : ℕ := 0
  clientStartts : ℕ := 0
  requests : List Request := []
  proposalReceived : Bool := false
  genericReceived : Bool := false
  newViewed : Bool := false
  syncSent : Bool := false
  newViewVoteCnt : ℕ := 0
  voteNewView : List ℕ := []
  hashVoters : UMap Bytes (List ℕ) := ∅
  genericQC : QuorumCertificate := {}
  highQC : QuorumCertificate := {}

namespace TxnManager

instance : Inhabited TxnManager := ⟨{}⟩

-- `YCSBQuery::requests` is allocated for `g_req_per_query` entries and asserts on overflow.
def initTxnMan (cfg : Config) (t : TxnManager) (qry : ClientQuery) : Option TxnManager :=
  if (t.requests ++ qry.requests).length ≤ cfg.reqPerQuery then
    some { t with
      clientId := qry.returnNode
      clientStartts := qry.clientStartts
      requests := t.requests ++ qry.requests }
  else
    none

def votersOf (t : TxnManager) (hash : Bytes) : List ℕ := UMap.get t.hashVoters hash

-- The manager's part of counting one more vote for `hash`.
def pushVoter (t : TxnManager) (hash : Bytes) (node : ℕ) : TxnManager :=
  { t with
    hashVoters := t.hashVoters.insert hash (t.votersOf hash ++ [node])
    newViewVoteCnt := max t.newViewVoteCnt (t.votersOf hash ++ [node]).length }

def seedVotes (t : TxnManager) (self : ℕ) : TxnManager :=
  if t.voteNewView = [] then { t with voteNewView := [self] } else t

def storeShare (t : TxnManager) (node : ℕ) (hash : Bytes) (share : Option Bytes) : TxnManager :=
  match share with
  | some sig =>
    let shares := t.genericQC.signatureShareMap.insert node sig
    if t.hash = [] ∨ t.hash = hash then
      { t with genericQC := { t.genericQC with signatureShareMap := shares } }
    else t
  | none => t

-- At the quorum the shares of the voters for any other hash are dropped.
def dropOtherShares (t : TxnManager) (hash : Bytes) : TxnManager :=
  let others := (t.hashVoters.entries.filter fun e => e.1 ≠ hash).flatMap fun e => e.2
  let shares := UMap.eraseAll t.genericQC.signatureShareMap others
  { t with genericQC := { t.genericQC with signatureShareMap := shares } }

section Projections

variable (t : TxnManager) (node : ℕ) (hash : Bytes) (share : Option Bytes)

@[simp] lemma seedVotes_hash : (t.seedVotes node).hash = t.hash := by
  simp only [seedVotes]
  split_ifs <;> rfl

@[simp] lemma seedVotes_view : (t.seedVotes node).view = t.view := by
  simp only [seedVotes]
  split_ifs <;> rfl

@[simp] lemma seedVotes_instanceId : (t.seedVotes node).instanceId = t.instanceId := by
  simp only [seedVotes]
  split_ifs <;> rfl

@[simp] lemma seedVotes_proposalReceived : (t.seedVotes node).proposalReceived = t.proposalReceived := by
  simp only [seedVotes]
  split_ifs <;> rfl

@[simp] lemma seedVotes_genericReceived : (t.seedVotes node).genericReceived = t.genericReceived := by
  simp only [seedVotes]
  split_ifs <;> rfl

@[simp] lemma seedVotes_newViewed : (t.seedVotes node).newViewed = t.newViewed := by
  simp only [seedVotes]
  split_ifs <;> rfl

@[simp] lemma seedVotes_syncSent : (t.seedVotes node).syncSent = t.syncSent := by
  simp only [seedVotes]
  split_ifs <;> rfl

@[simp] lemma seedVotes_newViewVoteCnt : (t.seedVotes node).newViewVoteCnt = t.newViewVoteCnt := by
  simp only [seedVotes]
  split_ifs <;> rfl

@[simp] lemma seedVotes_hashVoters : (t.seedVotes node).hashVoters = t.hashVoters := by
  simp only [seedVotes]
  split_ifs <;> rfl

@[simp] lemma seedVotes_highQC : (t.seedVotes node).highQC = t.highQC := by
  simp only [seedVotes]
  split_ifs <;> rfl

@[simp] lemma storeShare_hash : (t.storeShare node hash share).hash = t.hash := by
  simp only [storeShare]
  split
  · split_ifs <;> rfl
  · rfl

@[simp] lemma storeShare_view : (t.storeShare node hash share).view = t.view := by
  simp only [storeShare]
  split
  · split_ifs <;> rfl
  · rfl

@[simp] lemma storeShare_instanceId : (t.storeShare node hash share).instanceId = t.instanceId := by
  simp only [storeShare]
  split
  · split_ifs <;> rfl
  · rfl

@[simp] lemma storeShare_proposalReceived : (t.storeShare node hash share).proposalReceived = t.proposalReceived := by
  simp only [storeShare]
  split
  · split_ifs <;> rfl
  · rfl

@[simp] lemma storeShare_genericReceived : (t.storeShare node hash share).genericReceived = t.genericReceived := by
  simp only [storeShare]
  split
  · split_ifs <;> rfl
  · rfl

@[simp] lemma storeShare_newViewed : (t.storeShare node hash share).newViewed = t.newViewed := by
  simp only [storeShare]
  split
  · split_ifs <;> rfl
  · rfl

@[simp] lemma storeShare_syncSent : (t.storeShare node hash share).syncSent = t.syncSent := by
  simp only [storeShare]
  split
  · split_ifs <;> rfl
  · rfl

@[simp] lemma storeShare_newViewVoteCnt : (t.storeShare node hash share).newViewVoteCnt = t.newViewVoteCnt := by
  simp only [storeShare]
  split
  · split_ifs <;> rfl
  · rfl

@[simp] lemma storeShare_hashVoters : (t.storeShare node hash share).hashVoters = t.hashVoters := by
  simp only [storeShare]
  split
  · split_ifs <;> rfl
  · rfl

@[simp] lemma storeShare_highQC : (t.storeShare node hash share).highQC = t.highQC := by
  simp only [storeShare]
  split
  · split_ifs <;> rfl
  · rfl

@[simp] lemma storeShare_voteNewView : (t.storeShare node hash share).voteNewView = t.voteNewView := by
  simp only [storeShare]
  split
  · split_ifs <;> rfl
  · rfl

end Projections

structure Recycled (t : TxnManager) : Prop where
  hash : t.hash = []
  requests : t.requests = []
  proposalReceived : t.proposalReceived = false
  genericReceived : t.genericReceived = false
  newViewed : t.newViewed = false
  syncSent : t.syncSent = false
  newViewVoteCnt : t.newViewVoteCnt = 0
  hashVoters : t.hashVoters.entries = []
  genericQC : t.genericQC.genesis = false

instance (t : TxnManager) : Decidable t.Recycled :=
  decidable_of_iff
    (t.hash = [] ∧ t.requests = [] ∧ t.proposalReceived = false ∧ t.genericReceived = false ∧
      t.newViewed = false ∧ t.syncSent = false ∧ t.newViewVoteCnt = 0 ∧ t.hashVoters.entries = [] ∧
      t.genericQC.genesis = false)
    ⟨fun ⟨h₁, h₂, h₃, h₄, h₅, h₆, h₇, h₈, h₉⟩ => ⟨h₁, h₂, h₃, h₄, h₅, h₆, h₇, h₈, h₉⟩,
      fun h => ⟨h.1, h.2, h.3, h.4, h.5, h.6, h.7, h.8, h.9⟩⟩

lemma recycled_default : Recycled {} where
  hash := rfl
  requests := rfl
  proposalReceived := rfl
  genericReceived := rfl
  newViewed := rfl
  syncSent := rfl
  newViewVoteCnt := rfl
  hashVoters := rfl
  genericQC := rfl

end TxnManager

end SpotLess
