import AptosBft.Cluster
import AptosBft.Proofs.Agreement
import AptosBft.Proofs.Recovery

/-! Agreement among validators that crash. What an honest validator has put on the network
is bounded by its storage, so no restart takes it back behind a vote, and a crash adds no
way to vote for two blocks that was not there before. -/

namespace AptosBft.Proofs.CrashAgreement
open Rust Mealy Cluster AptosBft.Proofs.Recovery

variable {B D H N QC T : Type} [DecidableEq N] [Block B H] [QuorumCertificate QC H] [ConsensusStorage D] [LawfulStorage D]

/-- The votes of a validator, oldest first. -/
def record (ballots : List (Ballot N H)) (name : N) : List (Ballot N H) := ballots.filter fun ballot => ballot.voter = name

/-- Each honest validator remembers the rounds it voted in, across crashes, and votes
steadily. -/
structure Disciplined (committee : Committee N) (cluster : Cluster B D H N) : Prop where
  durable : ∀ name, name ∉ committee.byzantine →
    Durable ((record cluster.ballots name).map fun ballot => ballot.slot.2) (cluster.validators name)
  steady : ∀ name, name ∉ committee.byzantine →
    (record cluster.ballots name).IsChain (Quorum.Steady (fun ballot => ballot.slot.2) Quorum.Ballot.value)

abbrev ClusterEvent (B QC T D H N : Type) := Event (Cluster B D H N) (Action B QC T D H N) Unit

/-- An honest validator does not send a vote for another block in the round of the last
vote it sent. -/
def Guarded (committee : Committee N) (current : ClusterEvent B QC T D H N) : Prop :=
  match current.input with
  | .act name input => Network.Honest committee name → ∀ ballot ∈ (sends name (current.before.validators name) input : List (Ballot N H)),
      ∀ last ∈ (record current.before.ballots name).getLast?, last.slot.2 = ballot.slot.2 → last.value = ballot.value
  | .cast _ => True

omit [DecidableEq N] in
/-- A vote goes out only from the last stage of its sequence, and its round is the one
reported. -/
theorem sends_cases (profile : Profile) (name : N) (validator : Validator B D) (input : Validator.Input B QC T D) :
    ((validator.step profile input).1 = none ∧ (sends name validator input : List (Ballot N H)) = []) ∨
    ∃ ballot : Ballot N H, ballot.voter = name ∧ (validator.step profile input).1 = some ballot.slot.2 ∧
      sends name validator input = [ballot] := by
  obtain ⟨process, storage⟩ := validator
  cases process with
  | none =>
    left
    cases input with
    | restart epoch =>
      simp only [Validator.step]
      split <;> exact ⟨rfl, rfl⟩
    | disturb other =>
      simp only [Validator.step]
      split <;> exact ⟨rfl, rfl⟩
    | _ => exact ⟨rfl, rfl⟩
  | some running =>
    obtain ⟨rules, stage⟩ := running
    cases input with
    | send =>
      cases stage with
      | persisted proposal => exact Or.inr ⟨_, rfl, rfl, rfl⟩
      | _ => exact Or.inl ⟨rfl, rfl⟩
    | check proposal timeoutCert =>
      left
      simp only [Validator.step, Validator.act]
      split <;> exact ⟨rfl, rfl⟩
    | record =>
      left
      cases stage with
      | checked proposal =>
        simp only [Validator.step, Validator.act]
        split <;> exact ⟨rfl, rfl⟩
      | _ => exact ⟨rfl, rfl⟩
    | persist =>
      left
      cases stage with
      | recorded proposal =>
        simp only [Validator.step, Validator.act]
        split <;> exact ⟨rfl, rfl⟩
      | _ => exact ⟨rfl, rfl⟩
    | disturb other =>
      left
      simp only [Validator.step, Validator.act]
      split <;> exact ⟨rfl, rfl⟩
    | _ => exact Or.inl ⟨rfl, rfl⟩

omit [Block B H] in
theorem record_own {ballots sent : List (Ballot N H)} {name : N} (own : ∀ ballot ∈ sent, ballot.voter = name) :
    record (ballots ++ sent) name = record ballots name ++ sent := by
  rw [record, List.filter_append]
  exact congrArg (record ballots name ++ ·) (List.filter_eq_self.mpr fun ballot inside => decide_eq_true (own ballot inside))

omit [Block B H] in
theorem record_other {ballots sent : List (Ballot N H)} {name : N} (foreign : ∀ ballot ∈ sent, ballot.voter ≠ name) :
    record (ballots ++ sent) name = record ballots name := by
  have nothing : record sent name = [] := List.filter_eq_nil_iff.mpr fun ballot inside taken => foreign ballot inside (of_decide_eq_true taken)
  rw [record, List.filter_append]
  exact (congrArg (record ballots name ++ ·) nothing).trans (List.append_nil _)

/-- Only the validator that acts and its own votes have to be looked at. -/
theorem Disciplined.update {committee : Committee N} {cluster : Cluster B D H N} (disciplined : Disciplined committee cluster)
    {name : N} {validator : Validator B D} {sent : List (Ballot N H)} (own : ∀ ballot ∈ sent, ballot.voter = name)
    (durable : Durable ((record cluster.ballots name ++ sent).map fun ballot => ballot.slot.2) validator)
    (steady : (record cluster.ballots name ++ sent).IsChain (Quorum.Steady (fun ballot => ballot.slot.2) Quorum.Ballot.value)) :
    Disciplined committee ⟨Function.update cluster.validators name validator, cluster.ballots ++ sent⟩ := by
  have foreign : ∀ other, other ≠ name → ∀ ballot ∈ sent, ballot.voter ≠ other := by
    intro other different ballot inside same
    exact different (same.symm.trans (own ballot inside))
  refine ⟨?_, ?_⟩
  · intro other loyal
    dsimp only
    by_cases same : other = name
    · subst same
      rw [Function.update_self, record_own own]
      exact durable
    · rw [Function.update_of_ne same, record_other (foreign other same)]
      exact disciplined.durable other loyal
  · intro other loyal
    by_cases same : other = name
    · subst same
      rw [record_own own]
      exact steady
    · rw [record_other (foreign other same)]
      exact disciplined.steady other loyal

theorem Disciplined.act {profile : Profile} {committee : Committee N} {cluster : Cluster B D H N}
    (disciplined : Disciplined committee cluster) {name : N} (honest : Network.Honest committee name) (input : Validator.Input B QC T D)
    (guarded : ∀ ballot ∈ (sends name (cluster.validators name) input : List (Ballot N H)),
      ∀ last ∈ (record cluster.ballots name).getLast?, last.slot.2 = ballot.slot.2 → last.value = ballot.value) :
    Disciplined committee ⟨Function.update cluster.validators name ((cluster.validators name).step profile input).2,
      cluster.ballots ++ sends name (cluster.validators name) input⟩ := by
  obtain ⟨kept, above⟩ := step_durable profile (disciplined.durable name honest.2) input
  obtain ⟨silent, nothing⟩ | ⟨ballot, own, sent, out⟩ := sends_cases (H := H) profile name (cluster.validators name) input
  · rw [silent, Option.toList_none, List.append_nil] at kept
    rw [nothing]
    apply disciplined.update
    · intro ballot impossible
      cases impossible
    · rw [List.append_nil]
      exact kept
    · rw [List.append_nil]
      exact disciplined.steady name honest.2
  · rw [sent, Option.toList_some] at kept
    rw [out] at guarded ⊢
    apply disciplined.update
    · intro other inside
      rw [List.mem_singleton.mp inside]
      exact own
    · rw [List.map_append]
      exact kept
    · refine Quorum.steady_snoc (disciplined.steady name honest.2) ?_ (guarded ballot List.mem_cons_self)
      intro last final
      exact above ballot.slot.2 sent last.slot.2 (List.mem_map_of_mem (List.mem_of_getLast? final))

theorem Disciplined.step {profile : Profile} {committee : Committee N} {cluster : Cluster B D H N}
    (disciplined : Disciplined committee cluster) (action : Action B QC T D H N)
    (guarded : Guarded committee (event (step profile committee) cluster action)) :
    Disciplined committee (step profile committee cluster action).2 := by
  cases action with
  | act name input =>
    simp only [Cluster.step]
    split
    next honest => exact disciplined.act honest input (guarded honest)
    next => exact disciplined
  | cast ballot =>
    simp only [Cluster.step]
    split
    next faulty =>
      have foreign : ∀ name, name ∉ committee.byzantine → ∀ other ∈ [ballot], other.voter ≠ name := by
        rintro name loyal other inside rfl
        rw [List.mem_singleton.mp inside] at loyal
        exact loyal faulty
      refine ⟨?_, ?_⟩
      · intro name loyal
        rw [record_other (foreign name loyal)]
        exact disciplined.durable name loyal
      · intro name loyal
        rw [record_other (foreign name loyal)]
        exact disciplined.steady name loyal
    next => exact disciplined

theorem Disciplined.initial (committee : Committee N) (storage : N → D) : Disciplined committee (initial storage : Cluster B D H N) where
  durable name _ := .stopped (storage name)
  steady _ _ := .nil

variable [DecidableEq H]

instance (committee : Committee N) (current : ClusterEvent B QC T D H N) : Decidable (Guarded committee current) :=
  match current with
  | ⟨before, .act name input, _, _⟩ =>
    inferInstanceAs (Decidable (Network.Honest committee name → ∀ ballot ∈ (sends name (before.validators name) input : List (Ballot N H)),
      ∀ last ∈ (record before.ballots name).getLast?, last.slot.2 = ballot.slot.2 → last.value = ballot.value))
  | ⟨_, .cast _, _, _⟩ => .isTrue trivial

/-- Whatever crashes, failed saves and restarts there are among the honest validators and
whatever the Byzantine ones cast, no two blocks are certified in one epoch and round. -/
theorem crashes_fork_nothing (profile : Profile) (committee : Committee N) (storage : N → D) (actions : List (Action B QC T D H N))
    (guarded : ∀ current ∈ trace (step profile committee) (initial storage : Cluster B D H N) actions, Guarded committee current)
    {slot : U64 × U64} {first second : H}
    (left : Quorum.Certified committee.power committee.members
      (exec (step profile committee) (initial storage : Cluster B D H N) actions).ballots slot first)
    (right : Quorum.Certified committee.power committee.members
      (exec (step profile committee) (initial storage : Cluster B D H N) actions).ballots slot second) : first = second := by
  have disciplined : Disciplined committee (exec (step profile committee) (initial storage : Cluster B D H N) actions) :=
    exec_of_trace guarded (Disciplined.initial committee storage)
      fun cluster action kept guard => kept.step action guard
  generalize exec (step profile committee) (initial storage : Cluster B D H N) actions = final at left right disciplined
  refine left.unique committee.power ?_ committee.minority right
  intro member _ honest one other here there
  have mine : ∀ {id : H}, ⟨member, slot, id⟩ ∈ final.ballots → ⟨member, slot, id⟩ ∈ record final.ballots member := by
    intro id cast
    exact List.mem_filter.mpr ⟨cast, decide_eq_true rfl⟩
  exact Quorum.steady_agree (disciplined.steady member honest) (mine here) (mine there) rfl

section Fork
open Agreement

abbrev ForkCrash := Action Fork ForkCert Unit MockStorage Fork (Fin 4)

def voteLeft (name : Fin 4) : List ForkCrash :=
  [.act name (.check .left none), .act name .record, .act name .persist, .act name .send]

/-- Three validators vote for a block, the second one twice with a crash in between, while
the Byzantine one votes for the other block. -/
def crashingVotes (first second third byzantine : Fin 4) : List ForkCrash :=
  [.act first (.restart 0), .act second (.restart 0), .act third (.restart 0)] ++ voteLeft first ++ voteLeft second ++
    [.act second .crash, .cast ⟨byzantine, (0, 1), .right⟩, .act second (.restart 0)] ++ voteLeft second ++ voteLeft third

theorem crashing_voters_certify_once :
    Quorum.Certified fork.power fork.members
      (exec (step .dev fork) (initial (fun _ => ⟨none, false⟩) : Cluster Fork MockStorage Fork (Fin 4)) (crashingVotes 0 1 2 3)).ballots (0, 1) .left ∧
    ∀ other, Quorum.Certified fork.power fork.members
      (exec (step .dev fork) (initial (fun _ => ⟨none, false⟩) : Cluster Fork MockStorage Fork (Fin 4)) (crashingVotes 0 1 2 3)).ballots (0, 1) other →
        other = .left := by
  have guarded : ∀ current ∈ trace (step .dev fork) (initial (fun _ => ⟨none, false⟩) : Cluster Fork MockStorage Fork (Fin 4)) (crashingVotes 0 1 2 3),
      Guarded fork current := by decide +kernel
  have certified : Quorum.Certified fork.power fork.members
      (exec (step .dev fork) (initial (fun _ => ⟨none, false⟩) : Cluster Fork MockStorage Fork (Fin 4)) (crashingVotes 0 1 2 3)).ballots (0, 1) .left := by
    decide +kernel
  refine ⟨certified, ?_⟩
  intro other also
  exact crashes_fork_nothing (D := MockStorage) .dev fork (fun _ => ⟨none, false⟩) (crashingVotes 0 1 2 3) guarded also certified

end Fork

end AptosBft.Proofs.CrashAgreement
