import SpotLess.Effects

/-! The replicas of a deployment and the network between them. Messages may be delayed, reordered and delivered
again; the replicas in `byz` send what they like under their own names. -/

namespace SpotLess

open Lib

abbrev System := ℕ → Replica

namespace System

variable (cfg : Config) (crypto : Crypto)

inductive Event
  | act (p : ℕ) (e : Replica.Event)
  | relay (p s k : ℕ)
  | inject (p : ℕ) (m : Msg)

def init : System := Replica.init cfg

def Event.node : Event → ℕ
  | .act p _ | .relay p _ _ | .inject p _ => p

-- What the event makes its replica do; a relayed message is an entry of the sender's output.
def Event.local (S : System) : Event → Option Replica.Event
  | .act _ (.deliver _) => none
  | .act _ e => some e
  | .relay p s k =>
    match (S s).out[k]? with
    | some (d, m) => if d = p then some (.deliver m) else none
    | none => none
  | .inject _ m => some (.deliver m)

def step (S : System) (e : Event) : Option System :=
  (e.local S).bind fun a => ((S e.node).step cfg crypto a).map fun r => Function.update S e.node r

def Allowed (byz : Finset ℕ) (S : System) : Event → Prop
  | .act p e => p < cfg.nodeCnt ∧ p ∉ byz ∧ (S p).Genuine cfg e
  | .relay p s _ => p < cfg.nodeCnt ∧ p ∉ byz ∧ s < cfg.nodeCnt ∧ s ∉ byz
  | .inject p m => p < cfg.nodeCnt ∧ p ∉ byz ∧ (S p).Genuine cfg (.deliver m) ∧ m.returnNodeId ∈ byz

instance (byz : Finset ℕ) : (S : System) → (e : Event) → Decidable (Allowed cfg byz S e)
  | _, .act _ _ => inferInstanceAs (Decidable (_ ∧ _ ∧ _))
  | _, .relay _ _ _ => inferInstanceAs (Decidable (_ ∧ _ ∧ _))
  | _, .inject _ _ => inferInstanceAs (Decidable (_ ∧ _ ∧ _ ∧ _))

def Reachable (byz : Finset ℕ) (S : System) : Prop := Reach (step cfg crypto) (Allowed cfg byz) (init cfg) S

variable {cfg crypto}

lemma step_cases {S T : System} {e : Event} (h : step cfg crypto S e = some T) :
    ∃ a r, e.local S = some a ∧ (S e.node).step cfg crypto a = some r ∧ T = Function.update S e.node r := by
  obtain ⟨a, ha, hm⟩ := Option.bind_eq_some_iff.mp h
  obtain ⟨r, hr, rfl⟩ := Option.map_eq_some_iff.mp hm
  exact ⟨a, r, ha, hr, rfl⟩

end System

end SpotLess
