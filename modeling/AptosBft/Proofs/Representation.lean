import AptosBft.Proofs.PendingVotes
import AptosBft.Proofs.RoundManager

/-! What the parts of a round manager agree on. The round state, the pending votes
and the safety state are written separately, by calls that may stop halfway, and
rounds may be set to anything; the agreement survives all of it. -/

namespace AptosBft.Proofs.Representation
open Rust Mealy AptosBft.RoundManager AptosBft.Proofs.PendingVotes

variable {B V QC H N S A T : Type} [DecidableEq H] [DecidableEq S] [Vote V B H N S A]

section Votes

/-- Every stored vote lies where its own round, block and signature put it, is
recent, and passed its verification in the call that brought it. -/
structure Filed (config : RoundManagerConfig) (calls : List (Call B V QC N S A T)) (pending : PendingVotes V H S)
    (round : U64) : Prop where
  place : ∀ key signature vote, Holds pending key signature vote →
    key = (Vote.round vote, Vote.blockId vote) ∧ signature = Vote.signature vote
  verified : ∀ key signature vote, Holds pending key signature vote →
    ∃ order verifier, .processVote order vote verifier ∈ calls ∧ Vote.verify vote verifier = .ok ()
  recent : ∀ key signature vote, Holds pending key signature vote →
    round.saturatingSub config.maxBufferedRounds ≤ key.1
  populated : pending.votes.Populated

variable {config : RoundManagerConfig} {calls : List (Call B V QC N S A T)} {pending : PendingVotes V H S} {round : U64}

theorem Filed.new (config : RoundManagerConfig) (calls : List (Call B V QC N S A T)) (maxRounds round : U64) :
    Filed config calls (PendingVotes.new maxRounds : PendingVotes V H S) round where
  place _ _ _ held := absurd held (not_holds_new _ _ _ _)
  verified _ _ _ held := absurd held (not_holds_new _ _ _ _)
  recent _ _ _ held := absurd held (not_holds_new _ _ _ _)
  populated _ _ found := by cases found

theorem Filed.later (filed : Filed config calls pending round) (input : Call B V QC N S A T) :
    Filed config (calls ++ [input]) pending round where
  place := filed.place
  verified key signature vote held := by
    obtain ⟨order, verifier, member, passed⟩ := filed.verified key signature vote held
    exact ⟨order, verifier, List.mem_append_left _ member, passed⟩
  recent := filed.recent
  populated := filed.populated

theorem Filed.setRound (filed : Filed config calls pending round) (buffer : pending.maxRounds = config.maxBufferedRounds)
    (next : U64) : Filed config calls (pending.setRound next) next where
  place key signature vote held := filed.place key signature vote (holds_setRound.mp held).2
  verified key signature vote held := filed.verified key signature vote (holds_setRound.mp held).2
  recent _ _ _ held := buffer ▸ (holds_setRound.mp held).1
  populated := filed.populated.retain _

theorem Filed.removeRound (filed : Filed config calls pending round) (gone : U64) :
    Filed config calls (pending.removeRound gone) round where
  place key signature vote held := filed.place key signature vote (holds_removeRound.mp held).2
  verified key signature vote held := filed.verified key signature vote (holds_removeRound.mp held).2
  recent key signature vote held := filed.recent key signature vote (holds_removeRound.mp held).2
  populated := filed.populated.retain _

theorem Filed.store (filed : Filed config calls pending round) (order : Iteration V N S) {vote : V}
    {verifier : ValidatorVerifier B V N S A} (passed : Vote.verify vote verifier = .ok ()) (bound : round ≤ Vote.round vote) :
    Filed config (calls ++ [.processVote order vote verifier]) (pending.store (Vote.round vote, Vote.blockId vote) vote) round where
  place key signature held inside := by
    obtain ⟨rfl, rfl, rfl⟩ | ⟨_, older⟩ := holds_store.mp inside
    · exact ⟨rfl, rfl⟩
    · exact filed.place key signature held older
  verified key signature held inside := by
    obtain ⟨_, _, rfl⟩ | ⟨_, older⟩ := holds_store.mp inside
    · exact ⟨order, verifier, List.mem_append_right _ List.mem_cons_self, passed⟩
    · exact (filed.later _).verified key signature held older
  recent key signature held inside := by
    obtain ⟨rfl, _, _⟩ | ⟨_, older⟩ := holds_store.mp inside
    · exact le_trans (Nat.sub_le _ _) bound
    · exact filed.recent key signature held older
  populated := filed.populated.put _ _ _

end Votes

variable [Block B H] [QuorumCertificate QC H]

/-- The representation invariant, after the calls made so far. -/
structure Represents (config : RoundManagerConfig) (calls : List (Call B V QC N S A T))
    (manager : RoundManager B V QC H S) : Prop where
  round : manager.pendingVotes.currentRound = manager.roundState.round
  buffer : manager.pendingVotes.maxRounds = config.maxBufferedRounds
  proposed : ∀ block ∈ manager.roundState.proposedBlock, Block.round block = manager.roundState.round
  filed : Filed config calls manager.pendingVotes manager.roundState.round
  certified : ∀ qc ∈ manager.roundState.quorumCert, QuorumCertificate.round qc ≤ manager.safetyRules.state.oneChainRound

theorem Represents.new (config : RoundManagerConfig) (safetyRules : TwoChainSafetyRules) :
    Represents config ([] : List (Call B V QC N S A T)) (.new config safetyRules : RoundManager B V QC H S) where
  round := rfl
  buffer := rfl
  proposed _ none := by cases none
  filed := Filed.new _ _ _ _
  certified _ none := by cases none

theorem Represents.stored {config : RoundManagerConfig} {calls : List (Call B V QC N S A T)} {manager : RoundManager B V QC H S}
    (represents : Represents config calls manager) (order : Iteration V N S) {vote : V} {verifier : ValidatorVerifier B V N S A}
    (fresh : RoundManager.Fresh manager vote verifier) :
    Filed config (calls ++ [.processVote order vote verifier]) (RoundManager.stored manager vote).pendingVotes
      manager.roundState.round :=
  represents.filed.store order fresh.verified (represents.round ▸ fresh.recent)

variable [DecidableEq N] [FromVotes QC V A]

theorem oneChainRound_mono (profile : Profile) (manager : RoundManager B V QC H S) (input : Call B V QC N S A T) :
    manager.safetyRules.state.oneChainRound ≤ (call profile manager input).2.safetyRules.state.oneChainRound := by
  rw [RoundManager.call_replays]
  exact Journal.replay_oneChainRound_mono _ _

theorem Represents.call {config : RoundManagerConfig} {calls : List (Call B V QC N S A T)} {manager : RoundManager B V QC H S}
    (represents : Represents config calls manager) (profile : Profile) (input : Call B V QC N S A T) :
    Represents config (calls ++ [input]) (call profile manager input).2 := by
  have grows := oneChainRound_mono profile manager input
  have effect := RoundManager.call_effect profile manager input
  generalize RoundManager.call profile manager input = answer at effect grows ⊢
  obtain ⟨reply, after⟩ := answer
  have certified : ∀ qc ∈ manager.roundState.quorumCert, QuorumCertificate.round qc ≤ after.safetyRules.state.oneChainRound :=
    fun qc stored => (represents.certified qc stored).trans grows
  cases effect with
  | quiet =>
    exact ⟨represents.round, represents.buffer, represents.proposed, represents.filed.later _, certified⟩
  | proposed current =>
    refine ⟨represents.round, represents.buffer, ?_, represents.filed.later _, certified⟩
    intro block stored
    cases stored
    exact current
  | kept fresh =>
    exact ⟨represents.round, represents.buffer, represents.proposed, represents.stored _ fresh, certified⟩
  | completed fresh =>
    refine ⟨represents.round, represents.buffer, represents.proposed, (represents.stored _ fresh).removeRound _, ?_⟩
    intro qc stored
    cases stored
    rw [SafetyRules.observeQc_state]
    exact le_max_right _ _
  | timedOut =>
    refine ⟨rfl, represents.buffer, ?_, (represents.filed.later _).setRound represents.buffer _, certified⟩
    intro block none
    cases none
  | started =>
    refine ⟨rfl, represents.buffer, ?_, (represents.filed.later _).setRound represents.buffer _, certified⟩
    intro block none
    cases none

theorem Represents.snoc {config : RoundManagerConfig} {past : List (RoundManager.ManagerEvent B V QC H N S A T)}
    {manager : RoundManager B V QC H S} (represents : Represents config (past.map Event.input) manager) (profile : Profile)
    (input : Call B V QC N S A T) :
    Represents config ((past ++ [event (AptosBft.RoundManager.call profile) manager input]).map Event.input)
      (AptosBft.RoundManager.call profile manager input).2 := by
  rw [List.map_append]
  exact represents.call profile input

theorem represents_exec (profile : Profile) (config : RoundManagerConfig) (safetyRules : TwoChainSafetyRules)
    (calls : List (Call B V QC N S A T)) :
    Represents config calls (exec (call profile) (.new config safetyRules : RoundManager B V QC H S) calls) := by
  induction calls using List.reverseRecOn with
  | nil => exact .new config safetyRules
  | append_singleton calls input ih =>
    rw [exec_append]
    exact ih.call profile input

/-- The representation invariant holds after any calls of a new manager, in both
build profiles and up to the last round. -/
theorem manager_represents (profile : Profile) (config : RoundManagerConfig) (safetyRules : TwoChainSafetyRules)
    (calls : List (Call B V QC N S A T)) :
    let manager := exec (call profile) (.new config safetyRules : RoundManager B V QC H S) calls
    manager.pendingVotes.currentRound = manager.roundState.round ∧
    (∀ block ∈ manager.roundState.proposedBlock, Block.round block = manager.roundState.round) ∧
    (∀ round blockId signature vote, Holds manager.pendingVotes (round, blockId) signature vote →
      Vote.round vote = round ∧ Vote.blockId vote = blockId ∧ Vote.signature vote = signature ∧
      (∃ order verifier, .processVote order vote verifier ∈ calls ∧ Vote.verify vote verifier = .ok ()) ∧
      manager.roundState.round.saturatingSub config.maxBufferedRounds ≤ round) ∧
    (∀ key bucket, manager.pendingVotes.votes.lookup key = some bucket → bucket ≠ ∅) ∧
    ∀ qc ∈ manager.roundState.quorumCert, QuorumCertificate.round qc ≤ manager.safetyRules.state.oneChainRound := by
  intro manager
  have represents := represents_exec profile config safetyRules calls
  refine ⟨represents.round, represents.proposed, ?_, represents.filed.populated, represents.certified⟩
  intro round blockId signature vote held
  obtain ⟨place, mark⟩ := represents.filed.place _ _ _ held
  obtain ⟨sameRound, sameBlock⟩ := Prod.mk.inj place
  exact ⟨sameRound.symm, sameBlock.symm, mark.symm, represents.filed.verified _ _ _ held, represents.filed.recent _ _ _ held⟩

theorem meets_represents (profile : Profile) (config : RoundManagerConfig) (safetyRules : TwoChainSafetyRules)
    (calls : List (Call B V QC N S A T)) :
    Meets (call profile) (fun past current => Represents config (past.map Event.input) current.before)
      (.new config safetyRules : RoundManager B V QC H S) calls := by
  intro past current rest cut
  obtain ⟨first, _, _, early, here, _⟩ := trace_split _ cut
  rw [early, here, trace_inputs]
  exact represents_exec profile config safetyRules first

section Rounds

/-- The round a vote was turned away from as too old. -/
def closed (event : RoundManager.ManagerEvent B V QC H N S A T) : Option U64 :=
  match event.input, event.output with
  | .processVote _ vote _, .vote (.ok .oldRound) => some (Vote.round vote)
  | _, _ => none

/-- `start_round` takes any round; the other calls stay or move to the next. -/
def Forward (event : RoundManager.ManagerEvent B V QC H N S A T) : Prop :=
  match event.input with
  | .startRound round => event.before.roundState.round ≤ round
  | _ => True

theorem forward_iff (profile : Profile) (manager : RoundManager B V QC H S) (input : Call B V QC N S A T) :
    manager.roundState.round ≤ (call profile manager input).2.roundState.round ↔
      Forward (event (call profile) manager input) := by
  have effect := RoundManager.call_effect profile manager input
  simp only [Forward, event]
  generalize call profile manager input = answer at effect ⊢
  obtain ⟨reply, after⟩ := answer
  cases effect with
  | started => exact Iff.rfl
  | @timedOut next _ following =>
    refine iff_of_true ?_ trivial
    change manager.roundState.round.val ≤ next.val
    omega
  | quiet notStarted =>
    refine iff_of_true le_rfl ?_
    cases input with
    | startRound round => exact absurd rfl (notStarted round)
    | _ => trivial
  | _ => exact iff_of_true le_rfl trivial

theorem closed_below {profile : Profile} {manager : RoundManager B V QC H S} {input : Call B V QC N S A T} {round : U64}
    (old : closed (event (call profile) manager input) = some round) :
    round < manager.pendingVotes.currentRound := by
  have effect := RoundManager.call_effect profile manager input
  simp only [closed, event] at old
  generalize call profile manager input = answer at effect old
  obtain ⟨reply, after⟩ := answer
  cases effect with
  | quiet _ _ _ stale =>
    split at old
    next order vote verifier answer _ =>
      cases old
      exact stale order vote verifier rfl answer
    next => cases old
  | kept _ outcome => rcases outcome with rfl | ⟨failure, rfl⟩ <;> cases old
  | _ => cases old

/-- Rounds move forward, and a round found closed stays closed, exactly in the
runs that never start a round below the current one. -/
theorem rounds_move_forward_iff (profile : Profile) (config : RoundManagerConfig) (safetyRules : TwoChainSafetyRules)
    (calls : List (Call B V QC N S A T)) :
    let run := trace (call profile) (.new config safetyRules : RoundManager B V QC H S) calls
    ((∀ current ∈ run, current.before.roundState.round ≤ current.after.roundState.round) ∧
      ∀ past current rest, run = past ++ current :: rest →
        ∀ round ∈ past.filterMap closed, round < current.after.pendingVotes.currentRound) ↔
    ∀ current ∈ run, Forward current := by
  intro run
  have steps : (∀ current ∈ run, current.before.roundState.round ≤ current.after.roundState.round) ↔
      ∀ current ∈ run, Forward current := forall_trace_congr (forward_iff profile)
  constructor
  · intro kept
    exact steps.mp kept.1
  · intro forward
    refine ⟨steps.mpr forward, ?_⟩
    intro past current rest cut round before
    have represents := meets_represents profile config safetyRules calls
    have carried := (represents.and (meets_iff_trace.mpr forward)).cut (motive := fun past manager =>
        ∀ round ∈ past.filterMap closed, round < manager.pendingVotes.currentRound) (by simp) ?_ cut
    · refine carried.2 round ?_
      rw [filterMap_snoc]
      exact List.mem_append_left _ before
    intro past manager input earlier here
    obtain ⟨represents, step⟩ := here
    rw [event_before] at represents
    have grows : manager.pendingVotes.currentRound ≤ (call profile manager input).2.pendingVotes.currentRound := by
      rw [represents.round, (represents.call profile input).round]
      exact (forward_iff profile manager input).mpr step
    intro round member
    rw [filterMap_snoc] at member
    rcases List.mem_append.mp member with old | now
    · exact (earlier round old).trans_le grows
    · exact (closed_below (Option.mem_toList.mp now)).trans_le grows

theorem earlier_round_reopens :
    let set := MockValidatorSet.new [(⟨1⟩, 1), (⟨2⟩, 1), (⟨3⟩, 1), (⟨4⟩, 1)]
    let vote := (MockVote.new ⟨1⟩ ⟨7⟩ 3).hand set
    let run := trace (call .dev) (.new .default (.new 0) : MockManager) [.startRound 5, vote, .startRound 3, vote]
    run.map Event.output = [.started, .vote (.ok .oldRound), .started, .vote (.ok .accepted)] ∧
      ¬ ∀ current ∈ run, current.before.roundState.round ≤ current.after.roundState.round := by
  decide

end Rounds

end AptosBft.Proofs.Representation
