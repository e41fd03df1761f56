import AptosBft.Proofs.Representation
import Mathlib.Data.List.MinMax

/-! The certificate that new proposals extend. The round state keeps the one
formed last, whatever its round, so it is the highest one exactly as long as
quorums complete in the order of their rounds. -/

namespace AptosBft.Proofs.HighestCert
open Rust Mealy AptosBft.RoundManager AptosBft.Proofs.RoundManager AptosBft.Proofs.PendingVotes
open AptosBft.Proofs.Representation

variable {B V QC H N S A T F E O : Type} [DecidableEq H] [DecidableEq N] [DecidableEq S]
  [Block B H] [Vote V B H N S A] [QuorumCertificate QC H] [FromVotes QC V A]

/-- Everything the vote meets on its way to a certificate holds. -/
structure Forms (profile : Profile) (order : Iteration V N S) (manager : RoundManager B V QC H S) (vote : V)
    (verifier : ValidatorVerifier B V N S A) (qc : QC) : Prop where
  fresh : Fresh manager vote verifier
  quorum : completes order manager vote verifier = true
  built : (stored manager vote).buildQuorumCertificate order (Vote.blockId vote) (Vote.round vote) verifier = .ok qc
  observed : (manager.safetyRules.observeQc profile qc).1 = .ok ()

/-- The certificate a call formed. -/
def formed (current : ManagerEvent B V QC H N S A T) : Option QC :=
  match current.input, current.output with
  | .processVote order vote verifier, .vote (.ok .quorumCompleted) =>
    ((stored current.before vote).buildQuorumCertificate order (Vote.blockId vote) (Vote.round vote) verifier).toOption
  | _, _ => none

omit [Block B H] in
theorem Forms.processVote {profile : Profile} {order : Iteration V N S} {manager : RoundManager B V QC H S} {vote : V}
    {verifier : ValidatorVerifier B V N S A} {qc : QC} (forms : Forms profile order manager vote verifier qc) :
    manager.processVote profile order vote verifier = (.ok .quorumCompleted, { manager with
      safetyRules := (manager.safetyRules.observeQc profile qc).2
      roundState := manager.roundState.setQuorumCert qc
      pendingVotes := (stored manager vote).pendingVotes.removeRound (Vote.round vote) }) := by
  have observed := forms.observed
  have rules : (stored manager vote).safetyRules = manager.safetyRules := rfl
  rw [forms.fresh.processVote, if_pos forms.quorum]
  simp only [formQuorumCertificateForBlock, forms.built, rules]
  generalize manager.safetyRules.observeQc profile qc = answer at observed ⊢
  obtain ⟨result, safetyRules⟩ := answer
  cases observed
  rfl

omit [Block B H] in
theorem completed_iff_forms {profile : Profile} {order : Iteration V N S} {manager : RoundManager B V QC H S} {vote : V}
    {verifier : ValidatorVerifier B V N S A} :
    (manager.processVote profile order vote verifier).1 = .ok .quorumCompleted ↔
      ∃ qc, Forms profile order manager vote verifier qc := by
  constructor
  · intro done
    obtain ⟨result, turned, _, notCompleted, _⟩ | ⟨_, _, kept⟩ | ⟨_, _, failure, failed⟩ |
        ⟨fresh, quorum, qc, built, observed, _⟩ := processVote_cases profile order manager vote verifier
    · rw [turned] at done
      exact absurd done notCompleted
    · rw [kept] at done
      cases done
    · rw [failed] at done
      cases done
    · exact ⟨qc, fresh, quorum, built, observed⟩
  · intro forms
    obtain ⟨qc, forms⟩ := forms
    rw [forms.processVote]

section Votes
variable {profile : Profile} {order : Iteration V N S} {manager : RoundManager B V QC H S} {vote : V}
  {verifier : ValidatorVerifier B V N S A}

omit [Block B H] in
theorem unfresh_unchanged (stale : ¬ Fresh manager vote verifier) :
    (manager.processVote profile order vote verifier).2 = manager := by
  obtain ⟨result, turned, _⟩ | ⟨fresh, _⟩ | ⟨fresh, _⟩ | ⟨fresh, _⟩ := processVote_cases profile order manager vote verifier
  · rw [turned]
  all_goals exact absurd fresh stale

variable (profile order)

omit [Block B H] in
/-- A fresh vote stays, or completes a certificate and leaves with its round. -/
theorem fresh_cases (fresh : Fresh manager vote verifier) :
    ((∀ qc : QC, ¬ Forms profile order manager vote verifier qc) ∧
      (manager.processVote profile order vote verifier).2 = stored manager vote) ∨
    ∃ qc : QC, Forms profile order manager vote verifier qc ∧
      (manager.processVote profile order vote verifier).2 = { manager with
        safetyRules := (manager.safetyRules.observeQc profile qc).2
        roundState := manager.roundState.setQuorumCert qc
        pendingVotes := (stored manager vote).pendingVotes.removeRound (Vote.round vote) } := by
  have unformed : (manager.processVote profile order vote verifier).1 ≠ .ok .quorumCompleted →
      ∀ qc : QC, ¬ Forms profile order manager vote verifier qc := fun incomplete qc forms => incomplete (completed_iff_forms.mpr ⟨qc, forms⟩)
  rw [fresh.processVote] at unformed ⊢
  cases quorum : completes order manager vote verifier with
  | false =>
    refine Or.inl ⟨fun qc forms => ?_, rfl⟩
    exact absurd (quorum.symm.trans forms.quorum) Bool.false_ne_true
  | true =>
    obtain ⟨failure, failed⟩ | ⟨qc, built, observed, formed⟩ :=
      form_cases profile order (stored manager vote) verifier (Vote.blockId vote) (Vote.round vote)
    · simp only [quorum, failed, ite_true] at unformed ⊢
      exact Or.inl ⟨unformed (by simp), trivial⟩
    · simp only [formed, ite_true]
      exact Or.inr ⟨qc, ⟨fresh, quorum, built, observed⟩, rfl⟩

end Votes

/-- Either a call forms no certificate and keeps the one it finds, or it forms one
and stores it. -/
theorem formed_cases (profile : Profile) (manager : RoundManager B V QC H S) (input : Call B V QC N S A T) :
    (formed (event (call profile) manager input) = none ∧
      (call profile manager input).2.roundState.quorumCert = manager.roundState.quorumCert ∧
      ∀ order vote verifier qc, input = .processVote order vote verifier → ¬ Forms profile order manager vote verifier qc) ∨
    ∃ order vote verifier qc, input = .processVote order vote verifier ∧ Forms profile order manager vote verifier qc ∧
      formed (event (call profile) manager input) = some qc ∧
      (call profile manager input).2.roundState.quorumCert = some qc := by
  have unformed : (call profile manager input).1 ≠ .vote (.ok .quorumCompleted) →
      ∀ order vote verifier qc, input = .processVote order vote verifier → ¬ Forms profile order manager vote verifier qc := by
    rintro incomplete order vote verifier qc rfl forms
    exact incomplete (congrArg Reply.vote (completed_iff_forms.mpr ⟨qc, forms⟩))
  have effect := call_effect profile manager input
  simp only [formed, event]
  generalize call profile manager input = answer at effect unformed ⊢
  obtain ⟨reply, after⟩ := answer
  cases effect with
  | quiet _ _ notCompleted =>
    refine Or.inl ⟨?_, rfl, unformed notCompleted⟩
    split
    · simp_all
    · rfl
  | kept _ outcome =>
    rcases outcome with rfl | ⟨failure, rfl⟩
    · exact Or.inl ⟨rfl, rfl, unformed (by simp)⟩
    · exact Or.inl ⟨rfl, rfl, unformed (by simp)⟩
  | completed fresh quorum built observed =>
    exact Or.inr ⟨_, _, _, _, rfl, ⟨fresh, quorum, built, observed⟩, by simp only [built, Except.toOption], rfl⟩
  | proposed => exact Or.inl ⟨rfl, rfl, unformed (by simp)⟩
  | timedOut => exact Or.inl ⟨rfl, rfl, unformed (by simp)⟩
  | started => exact Or.inl ⟨rfl, rfl, unformed (by simp)⟩

/-- `from_votes` makes a certificate of the round that its votes share. -/
def Faithful (QC V A : Type) {B H N S : Type} [Vote V B H N S A] [QuorumCertificate QC H] [FromVotes QC V A] : Prop :=
  ∀ (votes : List V) (aggregatedSig : A) (qc : QC) (round : U64), votes ≠ [] → (∀ vote ∈ votes, Vote.round vote = round) →
    FromVotes.fromVotes votes aggregatedSig = .ok qc → QuorumCertificate.round qc = round

theorem Forms.round {profile : Profile} {order : Iteration V N S} {config : RoundManagerConfig}
    {calls : List (Call B V QC N S A T)} {manager : RoundManager B V QC H S} {vote : V} {verifier : ValidatorVerifier B V N S A}
    {qc : QC} (forms : Forms profile order manager vote verifier qc) (faithful : Faithful QC V A)
    (represents : Represents config calls manager) : QuorumCertificate.round qc = Vote.round vote := by
  obtain ⟨_, aggregatedSig, _, made⟩ := build_ok forms.built
  refine faithful _ aggregatedSig qc _ ?_ ?_ made
  · have own : Holds (stored manager vote).pendingVotes (Vote.round vote, Vote.blockId vote) (Vote.signature vote) vote :=
      holds_store.mpr (Or.inl ⟨rfl, rfl, rfl⟩)
    exact List.ne_nil_of_mem (mem_getVotes.mpr ⟨_, own⟩)
  · intro cast inside
    obtain ⟨signature, held⟩ := mem_getVotes.mp inside
    exact (congrArg Prod.fst ((represents.stored order forms.fresh).place _ signature cast held).1).symm

/-- The round of the certificate that the engine around the manager reports. -/
def highestRound (engine : Consensus B V QC H S F E O) (manager : RoundManager B V QC H S) : Option U64 :=
  { engine with roundManager := manager }.getHighestQuorumCert.map QuorumCertificate.round

def formedRounds (run : List (ManagerEvent B V QC H N S A T)) : List U64 := (run.filterMap formed).map QuorumCertificate.round

structure Highest (engine : Consensus B V QC H S F E O) (past : List (ManagerEvent B V QC H N S A T))
    (current : ManagerEvent B V QC H N S A T) : Prop where
  maximal : highestRound engine current.after = (formedRounds (past ++ [current])).max?
  rises : ∀ round ∈ highestRound engine current.before, ∃ later ∈ highestRound engine current.after, round ≤ later

/-- No certificate is formed of an earlier round than the stored one. -/
def Rising (profile : Profile) (current : ManagerEvent B V QC H N S A T) : Prop :=
  match current.input with
  | .processVote order vote verifier => ∀ qc : QC, Forms profile order current.before vote verifier qc →
    ∀ highest ∈ current.before.roundState.quorumCert, QuorumCertificate.round highest ≤ Vote.round vote
  | _ => True

theorem max?_concat {rounds : List U64} {last : U64} (below : ∀ top ∈ rounds.max?, top ≤ last) :
    (rounds ++ [last]).max? = some last := by
  rw [List.max?_eq_some_iff]
  refine ⟨by simp, ?_⟩
  intro other member
  rcases List.mem_append.mp member with before | here
  · cases found : rounds.max? with
    | none =>
      rw [List.max?_eq_none_iff.mp found] at before
      cases before
    | some top => exact ((List.max?_eq_some_iff.mp found).2 other before).trans (below top found)
  · exact (List.mem_singleton.mp here).le

/-- One step: the report stays the maximum exactly when the call does not form a
certificate of an earlier round. -/
theorem highest_iff {profile : Profile} {engine : Consensus B V QC H S F E O} {config : RoundManagerConfig}
    {past : List (ManagerEvent B V QC H N S A T)} {manager : RoundManager B V QC H S} (faithful : Faithful QC V A)
    (represents : Represents config (past.map Event.input) manager)
    (tracks : highestRound engine manager = (formedRounds past).max?) (input : Call B V QC N S A T) :
    Highest engine past (event (call profile) manager input) ↔ Rising profile (event (call profile) manager input) := by
  obtain ⟨none, same, unformed⟩ | ⟨order, vote, verifier, qc, given, forms, made, kept⟩ := formed_cases profile manager input
  · have unchanged : highestRound engine (call profile manager input).2 = highestRound engine manager := by
      simp only [highestRound, Consensus.getHighestQuorumCert, same]
    refine iff_of_true ⟨?_, ?_⟩ ?_
    · rw [formedRounds, filterMap_snoc, none, Option.toList_none, List.append_nil]
      exact unchanged.trans tracks
    · intro round member
      exact ⟨round, unchanged ▸ member, le_rfl⟩
    · cases input with
      | processVote order vote verifier => exact fun qc forms => absurd forms (unformed order vote verifier qc rfl)
      | _ => trivial
  · have round := forms.round faithful represents
    have now : highestRound engine (call profile manager input).2 = some (Vote.round vote) := by
      simp only [highestRound, Consensus.getHighestQuorumCert, kept, Option.map_some, round]
    have rounds : formedRounds (past ++ [event (call profile) manager input]) = formedRounds past ++ [Vote.round vote] := by
      rw [formedRounds, filterMap_snoc, made, Option.toList_some, List.map_append, List.map_singleton, round]
      rfl
    constructor
    · intro highest
      simp only [Rising, event, given]
      intro _ _ old member
      obtain ⟨later, here, bound⟩ := highest.rises _ (Option.mem_map_of_mem QuorumCertificate.round member)
      cases now.symm.trans here
      exact bound
    · intro rising
      simp only [Rising, event, given] at rising
      have below : ∀ earlier ∈ highestRound engine manager, earlier ≤ Vote.round vote := by
        intro earlier member
        obtain ⟨old, stored, rfl⟩ := Option.mem_map.mp member
        exact rising qc forms old stored
      refine ⟨?_, fun earlier member => ⟨_, now, below earlier member⟩⟩
      rw [rounds, max?_concat (tracks ▸ below)]
      exact now

theorem highest_tracks {profile : Profile} {config : RoundManagerConfig} {safetyRules : TwoChainSafetyRules}
    {engine : Consensus B V QC H S F E O} {calls : List (Call B V QC N S A T)}
    (highest : Meets (call profile) (Highest engine) (.new config safetyRules) calls) :
    highestRound engine (exec (call profile) (.new config safetyRules) calls) =
      (formedRounds (trace (call profile) (.new config safetyRules) calls)).max? := by
  refine highest.history (motive := fun past manager => highestRound engine manager = (formedRounds past).max?) rfl ?_
  intro _ _ _ _ here
  exact here.maximal

/-- Whatever engine holds the manager, it reports the highest certificate formed,
and never a lower one than before, exactly when no quorum completes for an earlier
round than the stored certificate's. -/
theorem highest_iff_rising (profile : Profile) (config : RoundManagerConfig) (safetyRules : TwoChainSafetyRules)
    (engine : Consensus B V QC H S F E O) (faithful : Faithful QC V A) (calls : List (Call B V QC N S A T)) :
    Meets (call profile) (Highest engine) (.new config safetyRules) calls ↔
      ∀ current ∈ trace (call profile) (.new config safetyRules) calls, Rising profile current := by
  rw [← meets_iff_trace]
  refine meets_iff (motive := fun past manager => Represents config (past.map Event.input) manager ∧
    highestRound engine manager = (formedRounds past).max?) ?_ ?_ ⟨.new config safetyRules, rfl⟩ calls
  · intro past manager input both
    exact highest_iff faithful both.1 both.2 input
  · intro past manager input both rising
    obtain ⟨represents, tracks⟩ := both
    exact ⟨represents.snoc profile input, ((highest_iff faithful represents tracks input).mpr rising).maximal⟩

/-- A certificate that keeps the block and the round of its votes. -/
structure VotedCert where
  blockId : MockHash
  round : U64
  deriving DecidableEq, Repr

instance : QuorumCertificate VotedCert MockHash where
  blockId cert := cert.blockId
  epoch _ := 0
  round cert := cert.round

instance : FromVotes VotedCert MockVote MockAggregatedSignature where
  fromVotes votes _ := match votes with
    | [] => .error ⟨"no votes"⟩
    | vote :: _ => .ok ⟨vote.blockId, vote.round⟩

theorem votedCert_faithful : Faithful VotedCert MockVote MockAggregatedSignature := by
  intro votes aggregatedSig qc round nonempty shared made
  cases votes with
  | nil => exact absurd rfl nonempty
  | cons vote rest =>
    cases made
    exact shared vote List.mem_cons_self

abbrev VotedConsensus := Consensus MockBlock MockVote VotedCert MockHash MockSignature Nat TestProposerElection TestAuthor

def handSole (blockId : UInt8) (round : U64) :
    Call MockBlock MockVote VotedCert MockHash MockSignature MockAggregatedSignature MockSignature :=
  .processVote .insertion (.new ⟨1⟩ ⟨blockId⟩ round) (MockValidatorSet.new [(⟨1⟩, 1)]).verifier

theorem rising_quorums_report_highest :
    ∃ engine : VotedConsensus, Consensus.new (mockConfig 0 1) ⟨[⟨1⟩, ⟨2⟩]⟩ (some ⟨1⟩) = .ok engine ∧
      formedRounds (trace (call .dev) (.new .default (.new 0)) [handSole 7 1, handSole 8 2]) = [1, 2] ∧
      Meets (call .dev) (Highest engine) (.new .default (.new 0)) [handSole 7 1, handSole 8 2] := by
  refine ⟨_, rfl, by decide, ?_⟩
  refine (highest_iff_rising .dev .default (.new 0) _ votedCert_faithful _).mpr ?_
  simp only [forall_trace_cons, forall_trace_nil, and_true]
  constructor
  · intro _ _
    decide
  · intro _ _
    decide

/-- The quorum of round 1 completes after that of round 2 and takes its place. -/
theorem earlier_quorum_replaces_highest :
    ∃ engine : VotedConsensus, Consensus.new (mockConfig 0 1) ⟨[⟨1⟩, ⟨2⟩]⟩ (some ⟨1⟩) = .ok engine ∧
      Faithful VotedCert MockVote MockAggregatedSignature ∧
      let calls := [handSole 8 2, handSole 7 1]
      formedRounds (trace (call .dev) (.new .default (.new 0)) calls) = [2, 1] ∧
        highestRound engine (exec (call .dev) (.new .default (.new 0)) calls) = some 1 ∧
        ¬ Meets (call .dev) (Highest engine) (.new .default (.new 0)) calls := by
  refine ⟨_, rfl, votedCert_faithful, by decide, by decide, ?_⟩
  intro highest
  have maximal := highest_tracks highest
  exact absurd maximal (by decide)

end AptosBft.Proofs.HighestCert
