import AptosBft.Proofs.HighestCert

/-! The two bounds of the configuration on stored votes. No call compares the votes
it stores with either of them, so they hold as long as the votes that come in keep
to them by themselves. -/

namespace AptosBft.Proofs.VoteBuffer
open Rust Mealy AptosBft.RoundManager AptosBft.Proofs.RoundManager AptosBft.Proofs.PendingVotes
open AptosBft.Proofs.Representation AptosBft.Proofs.HighestCert

variable {B V QC H N S A T : Type} [DecidableEq H] [DecidableEq S]

omit [DecidableEq H] [DecidableEq S] in
theorem totalVotes_setRound (pending : PendingVotes V H S) (round : U64) :
    (pending.setRound round).totalVotes ≤ pending.totalVotes := HashMap.count_retain_le _ _

variable [Vote V B H N S A]

theorem totalVotes_store {pending : PendingVotes V H S} {key : U64 × H} {vote : V}
    (unseen : pending.isDuplicate key vote = false) : (pending.store key vote).totalVotes = pending.totalVotes + 1 := by
  apply HashMap.count_put
  rw [Option.eq_none_iff_forall_ne_some]
  intro held inside
  have seen : pending.isDuplicate key vote = true := isDuplicate_iff.mpr ⟨held, inside⟩
  rw [unseen] at seen
  cases seen

theorem totalVotes_store_removeRound (pending : PendingVotes V H S) (key : U64 × H) (vote : V) :
    ((pending.store key vote).removeRound key.1).totalVotes ≤ pending.totalVotes :=
  HashMap.count_retain_put_le (by simp) _ _ _

/-- What the configuration promises of the stored votes. -/
structure Bounded (config : RoundManagerConfig) (manager : RoundManager B V QC H S) : Prop where
  votes : manager.pendingVotes.totalVotes ≤ config.maxPendingVotes.val
  rounds : ∀ key signature vote, Holds manager.pendingVotes key signature vote →
    (Vote.round vote).val ≤ manager.roundState.round.val + config.maxBufferedRounds.val

variable [DecidableEq N] [Block B H] [QuorumCertificate QC H] [FromVotes QC V A]

/-- A vote that is stored to stay finds room and is of a buffered round, and a round
is not started below the buffered range of a vote that stays. -/
def Sparing (profile : Profile) (config : RoundManagerConfig) (current : ManagerEvent B V QC H N S A T) : Prop :=
  match current.input with
  | .processVote order vote verifier => Fresh current.before vote verifier →
    (∃ qc : QC, Forms profile order current.before vote verifier qc) ∨
    (current.before.pendingVotes.totalVotes < config.maxPendingVotes.val ∧
      (Vote.round vote).val ≤ current.before.roundState.round.val + config.maxBufferedRounds.val)
  | .startRound round => ∀ key signature vote, Holds current.before.pendingVotes key signature vote →
    round.saturatingSub config.maxBufferedRounds ≤ Vote.round vote →
      (Vote.round vote).val ≤ round.val + config.maxBufferedRounds.val
  | _ => True

section Step
variable {config : RoundManagerConfig} {calls : List (Call B V QC N S A T)} {manager : RoundManager B V QC H S}

omit [DecidableEq N] [FromVotes QC V A] in
theorem Bounded.setRound (represents : Represents config calls manager) (bounded : Bounded config manager)
    {after : RoundManager B V QC H S} (votes : after.pendingVotes = manager.pendingVotes.setRound after.roundState.round) :
    Bounded config after ↔ ∀ key signature vote, Holds manager.pendingVotes key signature vote →
      after.roundState.round.saturatingSub config.maxBufferedRounds ≤ Vote.round vote →
        (Vote.round vote).val ≤ after.roundState.round.val + config.maxBufferedRounds.val := by
  have kept : ∀ key signature vote, Holds after.pendingVotes key signature vote ↔
      after.roundState.round.saturatingSub config.maxBufferedRounds ≤ Vote.round vote ∧
        Holds manager.pendingVotes key signature vote := by
    intro key signature vote
    rw [votes, holds_setRound, represents.buffer]
    constructor
    · intro both
      obtain ⟨recent, held⟩ := both
      rw [(represents.filed.place key signature vote held).1] at recent
      exact ⟨recent, held⟩
    · intro both
      obtain ⟨recent, held⟩ := both
      refine ⟨?_, held⟩
      rw [(represents.filed.place key signature vote held).1]
      exact recent
  constructor
  · intro final key signature vote held recent
    exact final.rounds key signature vote ((kept key signature vote).mpr ⟨recent, held⟩)
  · intro low
    refine ⟨?_, ?_⟩
    · rw [votes]
      exact (totalVotes_setRound _ _).trans bounded.votes
    · intro key signature vote held
      obtain ⟨recent, older⟩ := (kept key signature vote).mp held
      exact low key signature vote older recent

omit [DecidableEq N] [Block B H] [QuorumCertificate QC H] [FromVotes QC V A] in
theorem Bounded.same (bounded : Bounded config manager) {after : RoundManager B V QC H S}
    (votes : after.pendingVotes = manager.pendingVotes) (round : after.roundState.round = manager.roundState.round) :
    Bounded config after := by
  refine ⟨votes ▸ bounded.votes, ?_⟩
  rw [votes, round]
  exact bounded.rounds

/-- The calls that leave the stored votes and the round alone. -/
theorem Bounded.quiet (bounded : Bounded config manager) {profile : Profile} {input : Call B V QC N S A T}
    (noVote : ∀ order vote verifier, input ≠ .processVote order vote verifier) (noTimeout : input ≠ .processTimeout)
    (noStart : ∀ round, input ≠ .startRound round) : Bounded config (call profile manager input).2 := by
  refine bounded.same ?_ (call_round profile manager noTimeout noStart)
  have effect := call_effect profile manager input
  generalize call profile manager input = answer at effect ⊢
  obtain ⟨reply, after⟩ := answer
  cases effect with
  | kept => exact absurd rfl (noVote _ _ _)
  | completed => exact absurd rfl (noVote _ _ _)
  | timedOut => exact absurd rfl noTimeout
  | started => exact absurd rfl (noStart _)
  | _ => rfl

omit [DecidableEq N] [Block B H] [QuorumCertificate QC H] [FromVotes QC V A] in
theorem Bounded.stored_iff (bounded : Bounded config manager) {vote : V} {verifier : ValidatorVerifier B V N S A}
    (fresh : Fresh manager vote verifier) :
    Bounded config (stored manager vote) ↔ manager.pendingVotes.totalVotes < config.maxPendingVotes.val ∧
      (Vote.round vote).val ≤ manager.roundState.round.val + config.maxBufferedRounds.val := by
  have grown : (stored manager vote).pendingVotes.totalVotes = manager.pendingVotes.totalVotes + 1 :=
    totalVotes_store fresh.unseen
  constructor
  · intro final
    have room := final.votes
    rw [grown] at room
    exact ⟨room, final.rounds _ _ vote (holds_store.mpr (Or.inl ⟨rfl, rfl, rfl⟩))⟩
  · intro both
    obtain ⟨room, near⟩ := both
    refine ⟨?_, ?_⟩
    · rw [grown]
      exact room
    · intro key signature held inside
      obtain ⟨_, _, rfl⟩ | ⟨_, older⟩ := holds_store.mp inside
      · exact near
      · exact bounded.rounds key signature held older

omit [DecidableEq N] [Block B H] [QuorumCertificate QC H] [FromVotes QC V A] in
/-- The completing vote and everything else of its round are gone. -/
theorem Bounded.completed (bounded : Bounded config manager) {vote : V}
    {after : RoundManager B V QC H S} (round : after.roundState.round = manager.roundState.round)
    (votes : after.pendingVotes = (stored manager vote).pendingVotes.removeRound (Vote.round vote)) :
    Bounded config after := by
  refine ⟨?_, ?_⟩
  · rw [votes]
    exact (totalVotes_store_removeRound manager.pendingVotes (Vote.round vote, Vote.blockId vote) vote).trans bounded.votes
  · intro key signature held inside
    rw [votes, holds_removeRound] at inside
    obtain ⟨other, inside⟩ := inside
    rw [round]
    obtain ⟨rfl, _, _⟩ | ⟨_, older⟩ := holds_store.mp inside
    · exact absurd rfl other
    · exact bounded.rounds key signature held older

theorem bounded_iff (profile : Profile) (represents : Represents config calls manager) (bounded : Bounded config manager)
    (input : Call B V QC N S A T) :
    Bounded config (call profile manager input).2 ↔ Sparing profile config (event (call profile) manager input) := by
  cases input with
  | processVote order vote verifier =>
    change Bounded config (manager.processVote profile order vote verifier).2 ↔ (Fresh manager vote verifier → _)
    by_cases fresh : Fresh manager vote verifier
    · rw [imp_iff_right fresh]
      obtain ⟨unformed, left⟩ | ⟨qc, forms, left⟩ := fresh_cases profile order fresh
      · rw [left, bounded.stored_iff fresh, or_iff_right (fun formed => formed.elim unformed)]
        exact Iff.rfl
      · refine iff_of_true ?_ (Or.inl ⟨qc, forms⟩)
        rw [left]
        exact bounded.completed rfl rfl
    · rw [unfresh_unchanged fresh]
      exact iff_of_true bounded fun current => absurd current fresh
  | processTimeout =>
    refine iff_of_true ?_ trivial
    change Bounded config (manager.processTimeout profile).2
    obtain ⟨failure, failed⟩ | ⟨next, following, _, moved⟩ := processTimeout_cases profile manager
    · rw [failed]
      exact bounded
    · rw [moved, Bounded.setRound represents bounded rfl]
      intro key signature vote held _
      have before := bounded.rounds key signature vote held
      change (Vote.round vote).val ≤ next.val + _
      omega
  | startRound round => exact Bounded.setRound represents bounded rfl
  | _ => exact iff_of_true (bounded.quiet (by simp) (by simp) (by simp)) trivial

end Step

def Orderly (T : Type) (config : RoundManagerConfig) (manager : RoundManager B V QC H S) : Prop :=
  ∃ earlier : List (Call B V QC N S A T), Represents config earlier manager ∧ Bounded config manager

/-- Both bounds hold after every call exactly when no call of the run stores a vote
beyond them or goes back so far that a stored vote is beyond the buffer. -/
theorem votes_bounded_iff (profile : Profile) (config : RoundManagerConfig) (safetyRules : TwoChainSafetyRules)
    (calls : List (Call B V QC N S A T)) :
    (∀ current ∈ trace (call profile) (.new config safetyRules : RoundManager B V QC H S) calls,
      Bounded config current.after) ↔
    ∀ current ∈ trace (call profile) (.new config safetyRules : RoundManager B V QC H S) calls,
      Sparing profile config current := by
  have initial : Orderly T config (.new config safetyRules : RoundManager B V QC H S) := by
    refine ⟨[], .new config safetyRules, Nat.zero_le _, ?_⟩
    intro key signature vote held
    exact absurd held (not_holds_new _ _ _ _)
  refine forall_trace_iff ?_ ?_ initial calls
  · intro manager input orderly
    obtain ⟨earlier, represents, bounded⟩ := orderly
    exact bounded_iff profile represents bounded input
  · intro manager input orderly sparing
    obtain ⟨earlier, represents, bounded⟩ := orderly
    exact ⟨_, represents.call profile input, (bounded_iff profile represents bounded input).mpr sparing⟩

/-- With room for one vote, two are stored; and in round 0, with a buffer of ten
rounds, a vote of round 500 is stored. -/
theorem votes_exceed_bounds :
    let set := MockValidatorSet.new [(⟨1⟩, 1), (⟨2⟩, 1), (⟨3⟩, 1), (⟨4⟩, 1)]
    let small : RoundManagerConfig := ⟨10, 5000, 1⟩
    let crowded : MockManager := exec (call .dev) (.new small (.new 0))
      ([(MockVote.new ⟨1⟩ ⟨7⟩ 1).hand set, (MockVote.new ⟨2⟩ ⟨7⟩ 1).hand set] : List MockCall)
    let ahead : MockManager := exec (call .dev) (.new .default (.new 0))
      ([(MockVote.new ⟨1⟩ ⟨7⟩ 500).hand set] : List MockCall)
    (crowded.pendingVotes.totalVotes = 2 ∧ ¬ Bounded small crowded) ∧
    (Holds ahead.pendingVotes (500, ⟨7⟩) ⟨1⟩ (.new ⟨1⟩ ⟨7⟩ 500) ∧ ¬ Bounded .default ahead) := by
  intro set small crowded ahead
  have full : crowded.pendingVotes.totalVotes = 2 := by decide
  have held : Holds ahead.pendingVotes (500, ⟨7⟩) ⟨1⟩ (.new ⟨1⟩ ⟨7⟩ 500) := by decide
  refine ⟨⟨full, ?_⟩, held, ?_⟩
  · intro bounded
    exact absurd bounded.votes (by rw [full]; decide)
  · intro bounded
    exact absurd (bounded.rounds _ _ _ held) (by decide)

end AptosBft.Proofs.VoteBuffer
