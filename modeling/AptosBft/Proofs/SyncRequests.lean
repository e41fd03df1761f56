import AptosBft.Proofs.SyncTarget
import Mathlib.Order.Interval.Finset.Fin

/-! The requests of the state sync. They are made in two places, outlive the sync
they were made for, and are not looked at again when blocks are handed out. -/

namespace AptosBft.Proofs.SyncRequests
open Rust Mealy AptosBft.StateSync AptosBft.Proofs.StateSync AptosBft.Proofs.SyncTarget

variable {B H : Type}

/-- What the pending requests and the status promise, given the run so far. -/
structure Sound (profile : Profile) (past : List (SyncEvent B)) (sync : StateSync B) : Prop where
  ordered : ∀ request ∈ sync.pendingRequests,
    sync.currentRound < request.startRound ∧ request.startRound ≤ request.targetRound
  counted : ∀ request ∈ sync.pendingRequests, ∃ count, request.roundCount profile = .ok count ∧
    count ≤ sync.config.maxBatchSize ∧ count.val = (Finset.univ.filter fun round => request.coversRound round = true).card
  directed : ∀ request ∈ sync.pendingRequests, ∀ target ∈ sync.status.targetRound,
    request.targetRound ≤ target ∧ lastBegun past = some (target, request.epoch)
  ahead : ∀ reached ∈ sync.status.currentRound, sync.currentRound ≤ reached

/-- The invariant behind it, with the size of a request as plain arithmetic. -/
structure Valid (past : List (SyncEvent B)) (sync : StateSync B) : Prop where
  ordered : ∀ request ∈ sync.pendingRequests,
    sync.currentRound < request.startRound ∧ request.startRound ≤ request.targetRound
  small : ∀ request ∈ sync.pendingRequests,
    request.targetRound.val < request.startRound.val + sync.config.maxBatchSize.val
  directed : ∀ request ∈ sync.pendingRequests, ∀ target ∈ sync.status.targetRound,
    request.targetRound ≤ target ∧ lastBegun past = some (target, request.epoch)
  ahead : ∀ reached ∈ sync.status.currentRound, sync.currentRound ≤ reached

theorem card_covered (request : SyncRequest) :
    (Finset.univ.filter fun round => request.coversRound round = true).card =
      request.targetRound.val + 1 - request.startRound.val := by
  have range : (Finset.univ.filter fun round => request.coversRound round = true) =
      Finset.Icc request.startRound request.targetRound := by
    ext round
    simp [SyncRequest.coversRound]
  rw [range, Fin.card_Icc]

/-- A request that starts after some round counts the rounds it covers. -/
theorem roundCount_covered (profile : Profile) {request : SyncRequest} {round : U64} (above : round < request.startRound)
    (ordered : request.startRound ≤ request.targetRound) :
    ∃ count, request.roundCount profile = .ok count ∧
      count.val = request.targetRound.val + 1 - request.startRound.val := by
  have bound := request.targetRound.isLt
  rw [Fin.lt_def] at above
  rw [Fin.le_def] at ordered
  have span : (request.targetRound.saturatingSub request.startRound).val =
      request.targetRound.val - request.startRound.val := rfl
  have below : request.targetRound.saturatingSub request.startRound < request.targetRound := by
    rw [Fin.lt_def, span]
    omega
  obtain ⟨count, sum, value⟩ := U64.plus_one_of_lt profile below
  exact ⟨count, sum, by rw [value, span]; omega⟩

theorem Valid.sound {past : List (SyncEvent B)} {sync : StateSync B} (valid : Valid past sync) (profile : Profile) :
    Sound profile past sync where
  ordered := valid.ordered
  counted request member := by
    obtain ⟨above, ordered⟩ := valid.ordered request member
    obtain ⟨count, sum, value⟩ := roundCount_covered profile above ordered
    have small := valid.small request member
    refine ⟨count, sum, ?_, by rw [card_covered, value]⟩
    rw [Fin.le_def, value]
    omega
  directed := valid.directed
  ahead := valid.ahead

theorem Valid.shrink {past later : List (SyncEvent B)} {sync after : StateSync B} (valid : Valid past sync)
    (same : lastBegun later = lastBegun past) (config : after.config = sync.config)
    (round : after.currentRound = sync.currentRound)
    (requests : ∀ request ∈ after.pendingRequests, request ∈ sync.pendingRequests)
    (target : ∀ target ∈ after.status.targetRound, target ∈ sync.status.targetRound)
    (ahead : ∀ reached ∈ after.status.currentRound, sync.currentRound ≤ reached) : Valid later after where
  ordered request member := by
    rw [round]
    exact valid.ordered request (requests request member)
  small request member := by
    rw [config]
    exact valid.small request (requests request member)
  directed request member goal inProgress := by
    rw [same]
    exact valid.directed request (requests request member) goal (target goal inProgress)
  ahead reached member := by
    rw [round]
    exact ahead reached member

theorem Valid.quiet {past later : List (SyncEvent B)} {sync after : StateSync B} (valid : Valid past sync)
    (same : lastBegun later = lastBegun past) (config : after.config = sync.config)
    (round : after.currentRound = sync.currentRound) (requests : after.pendingRequests = sync.pendingRequests)
    (status : after.status = sync.status) : Valid later after := by
  refine valid.shrink same config round ?_ ?_ ?_
  · rw [requests]
    exact fun _ member => member
  · rw [status]
    exact fun _ inProgress => inProgress
  · rw [status]
    exact valid.ahead

/-- Without a sync in progress only the requests themselves count. -/
theorem Valid.ended {past : List (SyncEvent B)} {sync after : StateSync B} (valid : Valid past sync)
    (later : List (SyncEvent B)) (config : after.config = sync.config) (round : after.currentRound = sync.currentRound)
    (requests : ∀ request ∈ after.pendingRequests, request ∈ sync.pendingRequests)
    (status : after.status.isInProgress = false) : Valid later after := by
  obtain ⟨target, reached⟩ := rounds_of_ended status
  refine ⟨?_, ?_, ?_, ?_⟩
  · rw [round]
    exact fun request member => valid.ordered request (requests request member)
  · rw [config]
    exact fun request member => valid.small request (requests request member)
  · rw [target]
    intro _ _ _ none
    cases none
  · rw [reached]
    intro _ none
    cases none

theorem Valid.push {past : List (SyncEvent B)} {sync : StateSync B} (valid : Valid past sync) {request : SyncRequest}
    (ordered : sync.currentRound < request.startRound ∧ request.startRound ≤ request.targetRound)
    (small : request.targetRound.val < request.startRound.val + sync.config.maxBatchSize.val)
    (directed : ∀ target ∈ sync.status.targetRound,
      request.targetRound ≤ target ∧ lastBegun past = some (target, request.epoch)) :
    Valid past { sync with pendingRequests := sync.pendingRequests ++ [request] } where
  ordered := List.forall_mem_append.mpr ⟨valid.ordered, by simpa using ordered⟩
  small := List.forall_mem_append.mpr ⟨valid.small, by simpa using small⟩
  directed := List.forall_mem_append.mpr ⟨valid.directed, by simpa using directed⟩
  ahead := valid.ahead

/-- Handing out blocks keeps to the rounds before the requests and the status. -/
theorem Valid.advance {past later : List (SyncEvent B)} {sync after : StateSync B} (valid : Valid past sync)
    (same : lastBegun later = lastBegun past)
    (frame : after = { sync with receivedBlocks := after.receivedBlocks, currentRound := after.currentRound })
    (before : ∀ request ∈ sync.pendingRequests, after.currentRound < request.startRound)
    (within : ∀ reached ∈ sync.status.currentRound, after.currentRound ≤ reached) : Valid later after := by
  obtain ⟨ordered, small, directed, _⟩ := valid
  rw [frame]
  refine ⟨fun request member => ⟨before request member, (ordered request member).2⟩, small, ?_, within⟩
  rw [same]
  exact directed

variable [Block B H]

/-- The state and the arguments for which each call keeps its requests in order. A
sync is begun with room for a block and only with pending requests that suit it; a
response that leaves the sync in progress comes with something not below the current
round, and the last one with the epoch of the sync; blocks are handed out while a
round is missing before every request and before the end of what was received. -/
def Careful (profile : Profile) (past : List (SyncEvent B)) (current : SyncEvent B) : Prop :=
  match current.input with
  | .startSync target epoch => current.before.status.isInProgress = false → current.before.currentRound < target →
    0 < current.before.config.maxBatchSize.val ∧
      ∀ request ∈ current.before.pendingRequests, request.targetRound ≤ target ∧ request.epoch = epoch
  | .addSyncResponse response => ∀ target ∈ current.before.status.targetRound,
    response.verifySequential profile = .ok () → (∃ round, Supplied current.before response round) →
      (∀ round, Supplied current.before response round → round < target) →
      (∃ round, Supplied current.before response round ∧ current.before.currentRound ≤ round) ∧
      (response.isFinal = true → 0 < current.before.config.maxBatchSize.val ∧
        lastBegun past = some (target, response.epoch) ∧
        (profile = .dev ∨ ∀ round, Supplied current.before response round →
          round.val + current.before.config.maxBatchSize.val ≤ u64Max.val))
  | .readyBlocks =>
    (∀ request ∈ current.before.pendingRequests, ∃ gap, current.before.currentRound < gap ∧ gap ≤ request.startRound ∧
      current.before.hasBlock gap = false) ∧
    ∀ reached ∈ current.before.status.currentRound, ∃ gap : U64, current.before.currentRound < gap ∧
      gap.val ≤ reached.val + 1 ∧ current.before.hasBlock gap = false
  | _ => True

section Steps
variable {profile : Profile} {past : List (SyncEvent B)} {sync : StateSync B}

theorem Valid.start (valid : Valid past sync) {target epoch : U64}
    (careful : Careful profile past (event (call profile) sync (.startSync target epoch))) :
    Valid (past ++ [event (call profile) sync (.startSync target epoch)]) (call profile sync (.startSync target epoch)).2 := by
  obtain ⟨busy, error, answer⟩ | ⟨idle, behind, answer⟩ | ⟨idle, ahead, requestTarget, startRound, last, first, answer⟩ :=
    startSync_cases profile sync target epoch
  · have quiet : begun (event (call profile) sync (.startSync target epoch)) = none := by simp [begun, busy]
    have same := lastBegun_quiet past quiet
    simp only [call, answer] at same ⊢
    exact valid.quiet same rfl rfl rfl rfl
  · simp only [call, answer]
    exact valid.ended _ rfl rfl (fun _ member => member) rfl
  · have latest : lastBegun (past ++ [event (call profile) sync (.startSync target epoch)]) = some (target, epoch) := by
      rw [lastBegun_snoc]
      simp [begun, idle, ahead]
    obtain ⟨room, suitable⟩ := careful idle ahead
    have started : Valid (past ++ [event (call profile) sync (.startSync target epoch)])
        { sync with status := .inProgress target sync.currentRound 0 } := by
      refine ⟨valid.ordered, valid.small, ?_, ?_⟩
      · intro request member goal same
        cases same
        obtain ⟨below, rfl⟩ := suitable request member
        exact ⟨below, latest⟩
      · intro reached same
        cases same
        exact le_rfl
    have limit := Fin.lt_def.mp ahead
    simp only [event_before] at room
    simp only [call, answer]
    refine started.push ⟨?_, ?_⟩ ?_ ?_
    · rw [Fin.lt_def]
      change sync.currentRound.val < startRound.val
      omega
    · rw [Fin.le_def]
      change startRound.val ≤ requestTarget.val
      omega
    · change requestTarget.val < startRound.val + sync.config.maxBatchSize.val
      omega
    · intro goal same
      cases same
      refine ⟨?_, latest⟩
      rw [Fin.le_def]
      change requestTarget.val ≤ target.val
      omega

theorem Valid.received (valid : Valid past sync) {later : List (SyncEvent B)} (same : lastBegun later = lastBegun past)
    {target highest : U64} (goal : sync.status.targetRound = some target) (low : sync.currentRound ≤ highest)
    (receivedBlocks : HashMap U64 B) (count : Nat) :
    Valid later { sync with receivedBlocks, status := .inProgress target highest count } := by
  refine valid.shrink same rfl rfl (fun _ member => member) ?_ ?_
  · intro _ kept
    cases kept
    exact goal
  · intro _ kept
    cases kept
    exact low

theorem Valid.respond (valid : Valid past sync) {response : SyncResponse B}
    (careful : Careful profile past (event (call profile) sync (.addSyncResponse response))) :
    Valid (past ++ [event (call profile) sync (.addSyncResponse response)]) (call profile sync (.addSyncResponse response)).2 := by
  have same : lastBegun (past ++ [event (call profile) sync (.addSyncResponse response)]) = lastBegun past :=
    lastBegun_quiet past rfl
  have receives := addSyncResponse_receives profile sync response
  change Valid _ (sync.addSyncResponse profile response).2
  generalize sync.addSyncResponse profile response = answer at receives ⊢
  obtain ⟨result, after⟩ := answer
  cases receives with
  | refused => exact valid.quiet same rfl rfl rfl rfl
  | empty => exact valid.quiet same rfl rfl rfl rfl
  | complete => exact valid.ended _ rfl rfl (fun _ member => member) rfl
  | partly goal verified top short =>
    obtain ⟨supplied, bound⟩ := highest_supplied top
    obtain ⟨⟨round, inside, low⟩, _⟩ :=
      careful _ goal verified ⟨_, supplied⟩ fun round held => (bound round held).trans_lt short
    exact valid.received same goal (low.trans (bound round inside)) _ _
  | @continued target highest nextStart batchEnd goal verified top short last start sum =>
    obtain ⟨supplied, bound⟩ := highest_supplied top
    obtain ⟨⟨round, inside, low⟩, final⟩ :=
      careful _ goal verified ⟨_, supplied⟩ fun round held => (bound round held).trans_lt short
    obtain ⟨room, latest, fits⟩ := final last
    have reached : sync.currentRound ≤ highest := low.trans (bound round inside)
    -- the wrap-around of a release build is what the last clause excludes
    have exactly : batchEnd.val = highest.val + sync.config.maxBatchSize.val := by
      rcases fits with rfl | fits
      · exact U64.plus_dev_ok sum
      · obtain ⟨value, same, total⟩ | ⟨overflows, _⟩ := U64.plus_cases profile highest sync.config.maxBatchSize
        · cases sum.symm.trans same
          exact total
        · exact absurd overflows (not_lt.mpr (fits highest supplied))
    have limit : (min target batchEnd).val = min target.val batchEnd.val := Fin.coe_min _ _
    rw [Fin.lt_def] at short
    rw [Fin.le_def] at reached
    simp only [event_before] at room
    refine (valid.received same goal reached _ _).push ⟨?_, ?_⟩ ?_ ?_
    · change sync.currentRound.val < nextStart.val
      omega
    · change nextStart.val ≤ (min target batchEnd).val
      omega
    · change (min target batchEnd).val < nextStart.val + sync.config.maxBatchSize.val
      omega
    · intro _ kept
      cases kept
      exact ⟨min_le_left _ _, same.trans latest⟩

theorem Valid.deliver (valid : Valid past sync) (careful : Careful profile past (event (call profile) sync .readyBlocks)) :
    Valid (past ++ [event (call profile) sync .readyBlocks]) (call profile sync .readyBlocks).2 := by
  obtain ⟨requests, status⟩ := careful
  refine valid.advance (lastBegun_quiet past rfl) (readyBlocks_frame profile sync) ?_ ?_
  · intro request member
    obtain ⟨gap, above, below, absent⟩ := requests request member
    exact (readyBlocks_before profile above absent).trans_le below
  · intro reached member
    obtain ⟨gap, above, below, absent⟩ := status reached member
    have before : (sync.readyBlocks profile).2.currentRound.val < gap.val := readyBlocks_before profile above absent
    rw [Fin.le_def]
    change (sync.readyBlocks profile).2.currentRound.val ≤ reached.val
    omega

theorem Valid.call (valid : Valid past sync) {input : Call B} (careful : Careful profile past (event (call profile) sync input)) :
    Valid (past ++ [event (call profile) sync input]) (call profile sync input).2 := by
  cases input with
  | startSync target epoch => exact valid.start careful
  | addSyncResponse response => exact valid.respond careful
  | readyBlocks => exact valid.deliver careful
  | takeNextRequest =>
    refine valid.shrink (lastBegun_quiet past rfl) rfl rfl ?_ (fun _ kept => kept) valid.ahead
    intro request member
    exact List.dropLast_subset _ member
  | updateHighestKnownRound known =>
    have same : lastBegun (past ++ [event (AptosBft.StateSync.call profile) sync (.updateHighestKnownRound known)]) =
        lastBegun past := lastBegun_quiet past rfl
    obtain ⟨highest, answer⟩ := updateHighestKnownRound_frame sync known
    simp only [AptosBft.StateSync.call, answer]
    exact valid.quiet same rfl rfl rfl rfl
  | cancel => exact valid.ended _ rfl rfl (fun _ member => by cases member) rfl
  | reset => exact valid.ended _ rfl rfl (fun _ member => by cases member) rfl

end Steps

theorem Valid.new (config : StateSyncConfig) (start : U64) : Valid [] (.new config start : StateSync B) where
  ordered _ none := by cases none
  small _ none := by cases none
  directed _ none := by cases none
  ahead _ none := by cases none

/-- In a run of careful calls the requests and the status stay sound. -/
theorem requests_sound (profile : Profile) (config : StateSyncConfig) (start : U64) {calls : List (Call B)}
    (careful : Meets (call profile) (Careful profile) (.new config start) calls) :
    Meets (call profile) (fun past current => Sound profile (past ++ [current]) current.after) (.new config start) calls := by
  refine careful.derive (Valid.new config start) ?_ ?_
  · intro past sync input valid here
    exact valid.call here
  · intro past sync input valid here
    exact (valid.call here).sound profile

theorem batched_sync_sound :
    let calls : List (Call MockBlock) := [.startSync 53 1, .takeNextRequest,
      .addSyncResponse ⟨[makeBlock 51 1 1 ⟨0⟩, makeBlock 52 1 1 ⟨0⟩], 1, true⟩, .readyBlocks]
    (exec (call .dev) (.new ⟨2⟩ 50) calls).pendingRequests = [⟨53, 53, 1⟩] ∧
      (exec (call .dev) (.new ⟨2⟩ 50) calls).currentRound = 52 ∧
      Meets (call .dev) (fun past current => Sound .dev (past ++ [current]) current.after) (.new ⟨2⟩ 50) calls := by
  intro calls
  refine ⟨by decide, by decide, requests_sound .dev ⟨2⟩ 50 ?_⟩
  change Meets (call .dev) (Careful .dev) _ ([] ++ [_] ++ [_] ++ [_] ++ [_])
  simp only [meets_snoc]
  refine ⟨⟨⟨⟨meets_nil _ _, ?_⟩, trivial⟩, ?_⟩, ?_, ?_⟩
  · intro _ _
    exact ⟨by decide, fun _ none => by cases none⟩
  · intro target goal _ _ _
    cases goal
    exact ⟨⟨51, Or.inr ⟨_, List.mem_cons_self, rfl⟩, by decide⟩, fun _ => ⟨by decide, by decide, Or.inl rfl⟩⟩
  · intro request member
    cases List.mem_singleton.mp member
    exact ⟨53, by decide, by decide, by decide⟩
  · intro reached same
    cases same
    exact ⟨53, by decide, by decide, by decide⟩

/-- With a batch size of zero the first request ends before it starts; a response
from below takes the status back; and the last response of another epoch sets the
epoch of the next request. -/
theorem requests_unsound :
    let empty : List (Call MockBlock) := [.startSync 53 1]
    let below : List (Call MockBlock) := [.startSync 60 1, .addSyncResponse ⟨[makeBlock 10 1 1 ⟨0⟩], 1, false⟩]
    let foreign : List (Call MockBlock) := [.startSync 60 1, .takeNextRequest,
      .addSyncResponse ⟨[makeBlock 51 9 1 ⟨0⟩], 9, true⟩]
    ((exec (call .dev) (.new ⟨0⟩ 50) empty).pendingRequests = [⟨50, 51, 1⟩] ∧
      ¬ Sound .dev (trace (call .dev) (.new ⟨0⟩ 50) empty) (exec (call .dev) (.new ⟨0⟩ 50) empty)) ∧
    ((exec (call .dev) (.new .default 50) below).status = .inProgress 60 10 1 ∧
      ¬ Sound .dev (trace (call .dev) (.new .default 50) below) (exec (call .dev) (.new .default 50) below)) ∧
    ((exec (call .dev) (.new .default 50) foreign).pendingRequests = [⟨60, 52, 9⟩] ∧
      ¬ Sound .dev (trace (call .dev) (.new .default 50) foreign) (exec (call .dev) (.new .default 50) foreign)) := by
  intro empty below foreign
  refine ⟨⟨by decide, ?_⟩, ⟨by decide, ?_⟩, by decide, ?_⟩
  · intro sound
    exact absurd (sound.ordered ⟨50, 51, 1⟩ List.mem_cons_self).2 (by decide)
  · intro sound
    exact absurd (sound.ahead 10 rfl) (by decide)
  · intro sound
    exact absurd (sound.directed ⟨60, 52, 9⟩ List.mem_cons_self 60 rfl).2 (by decide)

end AptosBft.Proofs.SyncRequests
