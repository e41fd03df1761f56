import AptosBft.Proofs.SyncTarget

/-! The epoch of a sync. It goes into the first request and nowhere else, so that no
response is ever compared with it. -/

namespace AptosBft.Proofs.SyncEpoch
open Rust Mealy AptosBft.StateSync AptosBft.Proofs.StateSync AptosBft.Proofs.SyncTarget

variable {B H : Type} [Block B H]

/-- The response, or one of its blocks, is of another epoch. -/
def Foreign (response : SyncResponse B) (epoch : U64) : Prop :=
  response.epoch ≠ epoch ∨ ∃ block ∈ response.blocks, Block.epoch block ≠ epoch

/-- A response of the sync in progress, begun in the epoch, brings the block in. -/
def Brings (profile : Profile) (block : B) (epoch : U64) (past : List (SyncEvent B)) (current : SyncEvent B) : Prop :=
  ∃ response target, current.input = .addSyncResponse response ∧ current.before.status.isInProgress = true ∧
    response.verifySequential profile = .ok () ∧ block ∈ response.blocks ∧ lastBegun past = some (target, epoch)

def ReceivedIn (profile : Profile) (past : List (SyncEvent B)) (block : B) (epoch : U64) : Prop :=
  ∃ first given later, past = first ++ given :: later ∧ Brings profile block epoch first given

/-- What the epoch of a sync is for: responses of another epoch are answered with an
error and change nothing, and a block that is handed out is of the epoch of the sync
it was received in. -/
structure EpochKept (profile : Profile) (past : List (SyncEvent B)) (current : SyncEvent B) : Prop where
  refused : ∀ response target epoch, current.input = .addSyncResponse response →
    current.before.status.isInProgress = true → lastBegun past = some (target, epoch) → Foreign response epoch →
      (∃ error, current.output = .done (.error (.err error))) ∧ current.after.status = current.before.status ∧
        current.after.pendingRequests = current.before.pendingRequests ∧
        current.after.receivedBlocks = current.before.receivedBlocks
  handed : ∀ ready, current.output = .ready (.ok ready) → ∀ block ∈ ready,
    (∃ epoch, ReceivedIn profile past block epoch) ∧
      ∀ epoch, ReceivedIn profile past block epoch → Block.epoch block = epoch

/-- A response of another epoch is not sequential either, which is checked. -/
def Native (profile : Profile) (past : List (SyncEvent B)) (current : SyncEvent B) : Prop :=
  match current.input with
  | .addSyncResponse response => ∀ target epoch, current.before.status.isInProgress = true →
    lastBegun past = some (target, epoch) → Foreign response epoch →
      ∃ error, response.verifySequential profile = .error (.err error)
  | _ => True

variable {profile : Profile} {past : List (SyncEvent B)} {sync : StateSync B}

theorem target_of_inProgress {status : SyncStatus} (busy : status.isInProgress = true) :
    ∃ target, status.targetRound = some target := by
  cases status with
  | inProgress target => exact ⟨target, rfl⟩
  | _ => cases busy

theorem native_of_refused {input : Call B} (kept : EpochKept profile past (event (call profile) sync input)) :
    Native profile past (event (call profile) sync input) := by
  cases input with
  | addSyncResponse response =>
    intro target epoch busy latest foreign
    obtain ⟨goal, inProgress⟩ := target_of_inProgress busy
    obtain ⟨⟨error, answered⟩, _⟩ := kept.refused response target epoch rfl busy latest foreign
    exact (addSyncResponse_err_iff profile sync inProgress response).mp ⟨error, Reply.done.inj answered⟩
  | _ => trivial

/-- Every held block came in with a response, and all that came in are of the epoch
of their sync. -/
structure Sourced (profile : Profile) (past : List (SyncEvent B)) (sync : StateSync B) : Prop where
  tracked : Tracked past sync
  received : ∀ round block, sync.receivedBlocks.lookup round = some block → ∃ epoch, ReceivedIn profile past block epoch
  native : ∀ block epoch, ReceivedIn profile past block epoch → Block.epoch block = epoch

theorem receivedIn_snoc {current : SyncEvent B} {block : B} {epoch : U64} :
    ReceivedIn profile (past ++ [current]) block epoch ↔
      ReceivedIn profile past block epoch ∨ Brings profile block epoch past current := exists_split_snoc

theorem brings_native {input : Call B} (native : Native profile past (event (call profile) sync input)) {block : B}
    {epoch : U64} (brings : Brings profile block epoch past (event (call profile) sync input)) : Block.epoch block = epoch := by
  obtain ⟨response, target, rfl, busy, verified, member, latest⟩ := brings
  by_contra other
  obtain ⟨error, failed⟩ := native target epoch busy latest (Or.inr ⟨block, member, other⟩)
  cases verified.symm.trans failed

theorem held_brings (tracked : Tracked past sync) {input : Call B} {round : U64} {block : B}
    (found : (call profile sync input).2.receivedBlocks.lookup round = some block) :
    sync.receivedBlocks.lookup round = some block ∨
      ∃ epoch, Brings profile block epoch past (event (call profile) sync input) := by
  obtain before | ⟨response, rfl, _⟩ := call_held found
  · exact Or.inl before
  · change (sync.addSyncResponse profile response).2.receivedBlocks.lookup round = some block at found
    obtain same | ⟨busy, verified, merged⟩ := addSyncResponse_blocks profile sync response
    · rw [same] at found
      exact Or.inl found
    · rw [merged] at found
      obtain before | ⟨member, _⟩ := lookup_insertBlocks found
      · exact Or.inl before
      · obtain ⟨target, goal⟩ := target_of_inProgress busy
        obtain ⟨epoch, latest⟩ := tracked target goal
        exact Or.inr ⟨epoch, response, target, rfl, busy, verified, member, latest⟩

theorem Sourced.call (sourced : Sourced profile past sync) {input : Call B}
    (native : Native profile past (event (call profile) sync input)) :
    Sourced profile (past ++ [event (call profile) sync input]) (call profile sync input).2 where
  tracked := sourced.tracked.call profile input
  received round block found := by
    obtain before | ⟨epoch, brings⟩ := held_brings sourced.tracked found
    · obtain ⟨epoch, received⟩ := sourced.received round block before
      exact ⟨epoch, receivedIn_snoc.mpr (Or.inl received)⟩
    · exact ⟨epoch, receivedIn_snoc.mpr (Or.inr brings)⟩
  native block epoch received := by
    obtain before | brings := receivedIn_snoc.mp received
    · exact sourced.native block epoch before
    · exact brings_native native brings

theorem epochKept_step (sourced : Sourced profile past sync) {input : Call B}
    (native : Native profile past (event (call profile) sync input)) :
    EpochKept profile past (event (call profile) sync input) := by
  refine ⟨?_, ?_⟩
  · rintro response target epoch (rfl : input = _) busy latest foreign
    obtain ⟨goal, inProgress⟩ := target_of_inProgress busy
    have failed := native target epoch busy latest foreign
    obtain ⟨error, answered⟩ := (addSyncResponse_err_iff profile sync inProgress response).mpr failed
    refine ⟨⟨error, congrArg Reply.done answered⟩, ?_⟩
    have receives := addSyncResponse_receives profile sync response
    simp only [event, call]
    generalize sync.addSyncResponse profile response = answer at receives ⊢
    obtain ⟨result, after⟩ := answer
    obtain ⟨reason, unsequential⟩ := failed
    cases receives with
    | refused => exact ⟨rfl, rfl, rfl⟩
    | empty _ verified => cases verified.symm.trans unsequential
    | complete _ verified => cases verified.symm.trans unsequential
    | partly _ verified => cases verified.symm.trans unsequential
    | continued _ verified => cases verified.symm.trans unsequential
  · intro ready returned block member
    refine ⟨?_, fun epoch received => sourced.native block epoch received⟩
    cases input with
    | readyBlocks =>
      have answered : (sync.readyBlocks profile).1 = .ok ready := Reply.ready.inj returned
      obtain ⟨reason, _, answer⟩ | ⟨next, _, drains⟩ := readyBlocks_cases profile sync
      · rw [answer] at answered
        cases answered
      · obtain ⟨round, held⟩ := drains.handed answered member
        exact sourced.received round block held
    | _ => cases returned

/-- The epoch of a sync is kept to exactly in the runs whose responses of other
epochs are all turned away for their rounds. -/
theorem epoch_kept_iff (profile : Profile) (config : StateSyncConfig) (start : U64) (calls : List (Call B)) :
    Meets (call profile) (EpochKept profile) (.new config start) calls ↔
      Meets (call profile) (Native profile) (.new config start) calls := by
  constructor
  · intro kept
    refine kept.derive (motive := fun _ _ => True) trivial (fun _ _ _ _ _ => trivial) ?_
    intro past sync input _ here
    exact native_of_refused here
  · intro native
    refine native.derive (motive := Sourced profile) ?_ ?_ ?_
    · refine ⟨?_, ?_, ?_⟩
      · intro _ none
        cases none
      · intro _ _ none
        cases none
      · rintro _ _ ⟨_, _, _, cut, _⟩
        simp at cut
    · intro past sync input sourced here
      exact sourced.call here
    · intro past sync input sourced here
      exact epochKept_step sourced here

/-- In a sync begun in epoch 1, a response of epoch 9 with a block of epoch 9 is let
in, and the block is handed out. -/
theorem foreign_response_accepted :
    let calls : List (Call MockBlock) := [.startSync 60 1, .addSyncResponse ⟨[makeBlock 51 9 1 ⟨0⟩], 9, false⟩, .readyBlocks]
    let run := trace (call .dev) (.new .default 50) calls
    run.map Event.output = [.done (.ok ()), .done (.ok ()), .ready (.ok [makeBlock 51 9 1 ⟨0⟩])] ∧
      ¬ Meets (call .dev) (EpochKept .dev) (.new .default 50) calls := by
  intro calls run
  refine ⟨by decide, ?_⟩
  intro kept
  have second := kept [event (call .dev) (.new .default 50) (.startSync 60 1)] _ _ rfl
  obtain ⟨⟨error, answered⟩, _⟩ := second.refused _ 60 1 rfl rfl rfl (Or.inl (by decide))
  cases answered

end AptosBft.Proofs.SyncEpoch
