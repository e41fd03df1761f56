import AptosBft.Network
import AptosBft.Proofs.Voting

/-! Agreement between honest validators. Quorums intersect in an honest validator,
so one vote per validator and round makes the certified block of a round unique,
and committing certified parents only makes commits unique. The code leaves both
to its callers: it votes again in the last voted round, and it commits whatever
parent a proposal names. -/

namespace AptosBft.Proofs.Agreement
open Rust Mealy Journal Network

variable {B V QC H N S A T : Type} [DecidableEq N] [Block B H]

def record (network : Network B V QC H N S) (validator : N) : List (Ballot N H) :=
  network.approved.filter fun ballot => ballot.voter = validator

/-- The votes of honest validators: for real blocks after genesis, never ahead of
the last voted round, one block a round, and cast only when allowed. -/
structure Disciplined (committee : Committee N) (network : Network B V QC H N S) : Prop where
  genuine : ∀ ballot ∈ network.approved, ∃ block : B, 0 < (Block.round block).val ∧
    ballot.slot = (Block.epoch block, Block.round block) ∧ ballot.value = Block.id block
  behind : ∀ ballot ∈ network.approved,
    ballot.slot.2 ≤ (network.managers ballot.voter).safetyRules.state.lastVotedRound
  steady : ∀ validator, (record network validator).IsChain (Quorum.Steady (fun ballot => ballot.slot.2) Quorum.Ballot.value)
  cast : ∀ ballot ∈ network.ballots, ballot.voter ∈ committee.byzantine ∨ ballot ∈ network.approved

namespace Disciplined
variable {committee : Committee N} {network : Network B V QC H N S}

theorem once (disciplined : Disciplined committee network) {validator : N} (honest : validator ∉ committee.byzantine)
    {slot : U64 × U64} {first second : H} (left : ⟨validator, slot, first⟩ ∈ network.ballots)
    (right : ⟨validator, slot, second⟩ ∈ network.ballots) : first = second := by
  have allowed : ∀ {id : H}, ⟨validator, slot, id⟩ ∈ network.ballots → ⟨validator, slot, id⟩ ∈ record network validator := by
    intro id member
    rcases disciplined.cast _ member with faulty | approved
    · exact absurd faulty honest
    · exact List.mem_filter.mpr ⟨approved, by simp⟩
  exact Quorum.steady_agree (disciplined.steady validator) (allowed left) (allowed right) rfl

variable [DecidableEq H]

/-- Block ids without collisions: a certified id is certified in the epoch and
round of its block, which is not genesis. -/
theorem certified_slot (disciplined : Disciplined committee network) (collisionFree : Function.Injective (Block.id : B → H))
    {slot : U64 × U64} {block : B} (certified : Certified committee network slot (Block.id block)) :
    slot = (Block.epoch block, Block.round block) ∧ 0 < (Block.round block).val := by
  obtain ⟨member, _, honest, ballot⟩ := certified.honest_voter committee.power committee.minority
  rcases disciplined.cast _ ballot with faulty | approved
  · exact absurd faulty honest
  · obtain ⟨voted, positive, here, same⟩ := disciplined.genuine _ approved
    obtain rfl := collisionFree same
    exact ⟨here, positive⟩

theorem certified_unique (disciplined : Disciplined committee network) (collisionFree : Function.Injective (Block.id : B → H))
    {first second : B} {slot other : U64 × U64} (left : Certified committee network slot (Block.id first))
    (right : Certified committee network other (Block.id second)) (sameEpoch : Block.epoch first = Block.epoch second)
    (sameRound : Block.round first = Block.round second) : first = second := by
  obtain ⟨rfl, _⟩ := disciplined.certified_slot collisionFree left
  obtain ⟨rfl, _⟩ := disciplined.certified_slot collisionFree right
  rw [sameEpoch, sameRound] at left
  apply collisionFree
  exact left.unique committee.power (fun member _ honest _ _ => disciplined.once honest) committee.minority right

end Disciplined

variable [DecidableEq H] [DecidableEq S] [Vote V B H N S A] [QuorumCertificate QC H] [FromVotes QC V A]

theorem approves_cases (profile : Profile) (validator : N) (manager : RoundManager B V QC H S)
    (input : RoundManager.Call B V QC N S A T) :
    approves validator input (manager.call profile input).1 = [] ∨
    ∃ proposal timeoutCert, input = .tryVoteForProposal proposal timeoutCert ∧
      approves validator input (manager.call profile input).1 =
        [⟨validator, (Block.epoch proposal, Block.round proposal), Block.id proposal⟩] ∧
      0 < (Block.round proposal).val ∧ manager.safetyRules.state.lastVotedRound ≤ Block.round proposal ∧
      (manager.call profile input).2.safetyRules.state.lastVotedRound = Block.round proposal := by
  cases input with
  | tryVoteForProposal proposal timeoutCert =>
    obtain ⟨error, refused⟩ | ⟨safetyRules, accepted, bound, safe, raised⟩ :=
      RoundManager.tryVote_cases manager proposal timeoutCert
    · exact Or.inl (by simp [RoundManager.call, approves, refused])
    · refine Or.inr ⟨proposal, timeoutCert, rfl, by simp [RoundManager.call, approves, accepted],
        (SafetyRules.safeToVote_ok.mp safe).1, bound, ?_⟩
      simp only [RoundManager.call, accepted, raised, apply]
      exact max_eq_right bound
  | _ => exact Or.inl rfl

abbrev NetworkEvent (B V QC H N S A T : Type) := Event (Network B V QC H N S) (Action B V QC H N S A T) (Option H)

/-- What the callers have to ensure at a step: an honest validator is not asked to
vote for another block in the round of its last vote, and where it would commit,
the proposal's parent is a certified block or genesis. -/
def Guarded (committee : Committee N) (current : NetworkEvent B V QC H N S A T) : Prop :=
  match current.input with
  | .call validator (.tryVoteForProposal proposal _) => ∀ last ∈ (record current.before validator).getLast?,
      last.slot.2 = Block.round proposal → last.value = Block.id proposal
  | .commit validator proposal => Honest committee validator →
    (Block.round proposal).val = (current.before.managers validator).safetyRules.state.oneChainRound.val + 1 →
      Block.parentId proposal = Block.id (Block.newGenesis : B) ∨
        ∃ slot, Certified committee current.before slot (Block.parentId proposal)
  | _ => True

/-- No call takes a validator back behind what it approved. -/
theorem Disciplined.behind_call (profile : Profile) {committee : Committee N} {network : Network B V QC H N S}
    (disciplined : Disciplined committee network) (validator : N) (input : RoundManager.Call B V QC N S A T) :
    ∀ ballot ∈ network.approved, ballot.slot.2 ≤ (Function.update network.managers validator
      ((network.managers validator).call profile input).2 ballot.voter).safetyRules.state.lastVotedRound := by
  intro ballot member
  have bound := disciplined.behind ballot member
  by_cases own : ballot.voter = validator
  · rw [own] at bound ⊢
    rw [Function.update_self]
    exact bound.trans (Voting.lastVotedRound_mono profile (network.managers validator) input)
  · rw [Function.update_of_ne own]
    exact bound

theorem call_disciplined (profile : Profile) {committee : Committee N} {network : Network B V QC H N S}
    (disciplined : Disciplined committee network) {validator : N} {input : RoundManager.Call B V QC N S A T}
    (guarded : Guarded committee (event (step profile committee) network (.call validator input))) :
    Disciplined committee { network with
      managers := Function.update network.managers validator ((network.managers validator).call profile input).2
      approved := network.approved ++ approves validator input ((network.managers validator).call profile input).1 } := by
  have later := disciplined.behind_call profile validator input
  obtain nothing | ⟨proposal, timeoutCert, rfl, allowed, positive, bound, moved⟩ :=
    approves_cases profile validator (network.managers validator) input
  · simp only [nothing, List.append_nil]
    exact ⟨disciplined.genuine, later, disciplined.steady, disciplined.cast⟩
  · rw [allowed]
    refine ⟨?_, ?_, ?_, ?_⟩
    · intro ballot member
      rcases List.mem_append.mp member with earlier | now
      · exact disciplined.genuine ballot earlier
      · cases List.mem_singleton.mp now
        exact ⟨proposal, positive, rfl, rfl⟩
    · intro ballot member
      rcases List.mem_append.mp member with earlier | now
      · exact later ballot earlier
      · cases List.mem_singleton.mp now
        simp only [Function.update_self]
        exact moved.ge
    · intro other
      simp only [record, List.filter_append, List.filter_cons, List.filter_nil, decide_eq_true_eq]
      split
      next own =>
        subst own
        refine Quorum.steady_snoc (disciplined.steady validator) ?_ guarded
        intro last final
        obtain ⟨approved, cast⟩ := List.mem_filter.mp (List.mem_of_getLast? final)
        have behind := disciplined.behind last approved
        rw [of_decide_eq_true cast] at behind
        exact behind.trans bound
      next =>
        rw [List.append_nil]
        exact disciplined.steady other
    · intro ballot member
      rcases disciplined.cast ballot member with faulty | approved
      · exact Or.inl faulty
      · exact Or.inr (List.mem_append_left _ approved)

theorem step_disciplined (profile : Profile) {committee : Committee N} {network : Network B V QC H N S}
    (disciplined : Disciplined committee network) (action : Action B V QC H N S A T)
    (guarded : Guarded committee (event (step profile committee) network action)) :
    Disciplined committee (step profile committee network action).2 := by
  cases action with
  | call validator input =>
    simp only [step]
    split
    · exact call_disciplined profile disciplined guarded
    · exact disciplined
  | cast ballot =>
    simp only [step]
    split
    next allowed =>
      refine ⟨disciplined.genuine, disciplined.behind, disciplined.steady, ?_⟩
      intro other member
      rcases List.mem_cons.mp member with rfl | earlier
      · exact allowed
      · exact disciplined.cast other earlier
    · exact disciplined
  | commit validator proposal =>
    simp only [step]
    split <;> exact disciplined

theorem step_ballots (profile : Profile) (committee : Committee N) (network : Network B V QC H N S)
    (action : Action B V QC H N S A T) : network.ballots ⊆ (step profile committee network action).2.ballots := by
  cases action with
  | call validator input =>
    simp only [step]
    split <;> exact List.Subset.refl _
  | cast ballot =>
    simp only [step]
    split
    · exact List.subset_cons_self _ _
    · exact List.Subset.refl _
  | commit validator proposal =>
    simp only [step]
    split <;> exact List.Subset.refl _

def Settled (committee : Committee N) (network : Network B V QC H N S) (id : H) : Prop :=
  id = Block.id (Block.newGenesis : B) ∨ ∃ slot, Certified committee network slot id

theorem step_settled {profile : Profile} {committee : Committee N} {network : Network B V QC H N S}
    {action : Action B V QC H N S A T} (guarded : Guarded committee (event (step profile committee) network action)) {id : H}
    (committed : (step profile committee network action).1 = some id) : Settled committee network id := by
  cases action with
  | call validator input =>
    simp only [step] at committed
    split at committed <;> cases committed
  | cast ballot =>
    simp only [step] at committed
    split at committed <;> cases committed
  | commit validator proposal =>
    simp only [step] at committed
    split at committed
    next honest =>
      obtain ⟨follows, rfl⟩ := SafetyRules.shouldCommit_eq_some.mp committed
      exact guarded honest follows
    next => cases committed

theorem run_settled {profile : Profile} {committee : Committee N} {config : N → RoundManagerConfig} {epoch : N → U64}
    {actions : List (Action B V QC H N S A T)}
    (guarded : ∀ current ∈ trace (step profile committee) (initial config epoch : Network B V QC H N S) actions,
      Guarded committee current) :
    Disciplined committee (exec (step profile committee) (initial config epoch : Network B V QC H N S) actions) ∧
      ∀ id ∈ (trace (step profile committee) (initial config epoch : Network B V QC H N S) actions).filterMap Event.output,
        Settled committee (exec (step profile committee) (initial config epoch) actions) id := by
  refine (meets_iff_trace.mpr guarded).history (motive := fun past network => Disciplined committee network ∧
    ∀ id ∈ past.filterMap Event.output, Settled committee network id) ⟨⟨nofun, nofun, fun _ => .nil, nofun⟩, nofun⟩ ?_
  intro past network action holds guard
  obtain ⟨disciplined, settled⟩ := holds
  refine ⟨step_disciplined profile disciplined action guard, ?_⟩
  have grows := step_ballots profile committee network action
  have kept : ∀ id, Settled committee network id → Settled committee (step profile committee network action).2 id := by
    intro id settled
    rcases settled with genesis | ⟨slot, certified⟩
    · exact Or.inl genesis
    · exact Or.inr ⟨slot, certified.mono committee.power grows⟩
  intro id member
  rw [filterMap_snoc] at member
  rcases List.mem_append.mp member with earlier | now
  · exact kept id (settled id earlier)
  · exact kept id (step_settled guard (Option.mem_toList.mp now))

/-- Agreement. In every run whose steps are all guarded, two blocks of one epoch
and round that honest validators commit, the same or different ones, are equal. -/
theorem honest_commits_agree (profile : Profile) (committee : Committee N) (config : N → RoundManagerConfig) (epoch : N → U64)
    (collisionFree : Function.Injective (Block.id : B → H)) (genesis : Block.round (Block.newGenesis : B) = 0)
    (actions : List (Action B V QC H N S A T))
    (guarded : ∀ current ∈ trace (step profile committee) (initial config epoch : Network B V QC H N S) actions,
      Guarded committee current) (first second : B)
    (left : Block.id first ∈
      (trace (step profile committee) (initial config epoch : Network B V QC H N S) actions).filterMap Event.output)
    (right : Block.id second ∈
      (trace (step profile committee) (initial config epoch : Network B V QC H N S) actions).filterMap Event.output)
    (sameEpoch : Block.epoch first = Block.epoch second) (sameRound : Block.round first = Block.round second) :
    first = second := by
  obtain ⟨disciplined, settled⟩ := run_settled guarded
  -- no honest validator votes in round 0, so genesis is the only committed block there
  have above : ∀ {block : B} {slot : U64 × U64}, Certified committee (exec (step profile committee) (initial config epoch) actions)
      slot (Block.id block) → Block.round block ≠ Block.round (Block.newGenesis : B) := by
    intro block slot certified same
    have positive := (disciplined.certified_slot collisionFree certified).2
    rw [same, genesis] at positive
    exact absurd positive (Nat.lt_irrefl 0)
  rcases settled _ left with same | ⟨slot, certified⟩
  · obtain rfl := collisionFree same
    rcases settled _ right with same | ⟨slot, certified⟩
    · exact (collisionFree same).symm
    · exact absurd sameRound.symm (above certified)
  · rcases settled _ right with same | ⟨other, certifiedOther⟩
    · obtain rfl := collisionFree same
      exact absurd sameRound (above certified)
    · exact disciplined.certified_unique collisionFree certified certifiedOther sameEpoch sameRound

section Fork

/-- Two blocks of round 1 and a child of each; every block is its own id. -/
inductive Fork where
  | genesis
  | left
  | right
  | leftChild
  | rightChild
  deriving DecidableEq, Repr

instance : Block Fork Fork where
  id block := block
  parentId
    | .leftChild => .left
    | .rightChild => .right
    | _ => .genesis
  epoch _ := 0
  round
    | .genesis => 0
    | .left => 1
    | .right => 1
    | .leftChild => 2
    | .rightChild => 2
  verifySignature _ := .ok ()
  newGenesis := .genesis

structure ForkCert where
  block : Fork
  deriving DecidableEq, Repr

instance : QuorumCertificate ForkCert Fork where
  blockId cert := cert.block
  epoch cert := Block.epoch cert.block
  round cert := Block.round cert.block

structure ForkVote where
  author : Fin 4
  block : Fork
  deriving DecidableEq, Repr

instance : Vote ForkVote Fork Fork (Fin 4) (Fin 4) (List (Fin 4)) where
  author vote := vote.author
  signature vote := vote.author
  blockId vote := vote.block
  round vote := Block.round vote.block
  epoch vote := Block.epoch vote.block
  verify vote verifier := verifier.verifyVote vote

instance : FromVotes ForkCert ForkVote (List (Fin 4)) where
  fromVotes votes _ := match votes with
    | [] => .error ⟨"no votes"⟩
    | vote :: _ => .ok ⟨vote.block⟩

def fork : Committee (Fin 4) := ⟨Finset.univ, fun _ => 1, {3}, by decide, by decide⟩

abbrev ForkAction := Action Fork ForkVote ForkCert Fork (Fin 4) (Fin 4) (List (Fin 4)) Unit

def certifyLeft : List ForkAction :=
  [.call 0 (.tryVoteForProposal .left none), .cast ⟨0, (0, 1), .left⟩, .call 1 (.tryVoteForProposal .left none),
    .cast ⟨1, (0, 1), .left⟩, .call 2 (.tryVoteForProposal .left none), .cast ⟨2, (0, 1), .left⟩,
    .call 0 (.rules (.observeQc ⟨.left⟩)), .call 1 (.rules (.observeQc ⟨.left⟩))]

theorem shared_child_agrees :
    let run := trace (step .dev fork) (initial (fun _ => .default) (fun _ => 0)) (certifyLeft ++ [.commit 0 .leftChild, .commit 1 .leftChild])
    run.filterMap Event.output = [Fork.left, .left] ∧
      ∀ first ∈ run.filterMap Event.output, ∀ second ∈ run.filterMap Event.output,
        Block.epoch first = Block.epoch second → Block.round first = Block.round second → first = second := by
  intro run
  have guarded : ∀ current ∈ run, Guarded fork current := by
    simp only [run, certifyLeft, List.cons_append, List.nil_append, forall_trace_cons, forall_trace_nil, and_true]
    refine ⟨?_, trivial, ?_, trivial, ?_, trivial, trivial, trivial, ?_, ?_⟩
    · intro last none
      cases none
    · intro last none
      cases none
    · intro last none
      cases none
    · intro _ _
      exact Or.inr ⟨(0, 1), by decide⟩
    · intro _ _
      exact Or.inr ⟨(0, 1), by decide⟩
  refine ⟨by decide, ?_⟩
  intro first left second right
  exact honest_commits_agree .dev fork _ _ (fun _ _ same => same) rfl _ guarded first second left right

theorem forged_parents_fork :
    Function.Injective (Block.id : Fork → Fork) ∧
    (trace (step .dev fork) (initial (fun _ => .default) (fun _ => 0))
      (certifyLeft ++ [.commit 0 .leftChild, .commit 1 .rightChild])).filterMap Event.output = [Fork.left, .right] ∧
    Block.epoch Fork.left = Block.epoch Fork.right ∧ Block.round Fork.left = Block.round Fork.right :=
  ⟨fun _ _ same => same, by decide⟩

end Fork
end AptosBft.Proofs.Agreement
