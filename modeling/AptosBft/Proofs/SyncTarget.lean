import AptosBft.Proofs.StateSync
import AptosBft.Proofs.SyncSequence
import Mathlib.Data.List.MinMax

/-! The target of a sync and when it is reported complete. That is decided by the
highest round held, whatever is missing below it. -/

namespace AptosBft.Proofs.SyncTarget
open Rust Mealy AptosBft.StateSync AptosBft.Proofs.StateSync

variable {B H : Type}

/-- The target and the epoch of the sync that a call begins. -/
def begun (current : SyncEvent B) : Option (U64 × U64) :=
  match current.input with
  | .startSync targetRound epoch =>
    if current.before.status.isInProgress = false ∧ current.before.currentRound < targetRound then some (targetRound, epoch)
    else none
  | _ => none

/-- The sync begun last. -/
def lastBegun (past : List (SyncEvent B)) : Option (U64 × U64) := (past.filterMap begun).getLast?

theorem lastBegun_snoc (past : List (SyncEvent B)) (current : SyncEvent B) :
    lastBegun (past ++ [current]) = (begun current).or (lastBegun past) :=
  getLast?_filterMap_snoc begun past current

theorem lastBegun_quiet (past : List (SyncEvent B)) {current : SyncEvent B} (quiet : begun current = none) :
    lastBegun (past ++ [current]) = lastBegun past := by
  rw [lastBegun_snoc, quiet, Option.none_or]

variable [Block B H]

/-- A call begins a sync, or it leaves its target or drops it. -/
theorem call_target (profile : Profile) (sync : StateSync B) (input : Call B) :
    (begun (event (call profile) sync input) = none ∧
      ∀ target ∈ (call profile sync input).2.status.targetRound, target ∈ sync.status.targetRound) ∨
    ∃ target epoch, begun (event (call profile) sync input) = some (target, epoch) ∧
      (call profile sync input).2.status.targetRound = some target := by
  cases input with
  | startSync targetRound epoch =>
    obtain ⟨busy, error, answer⟩ | ⟨idle, behind, answer⟩ | ⟨idle, ahead, _, _, _, _, answer⟩ :=
      startSync_cases profile sync targetRound epoch
    · refine Or.inl ⟨by simp [begun, busy], ?_⟩
      simp only [call, answer]
      exact fun _ same => same
    · refine Or.inl ⟨by simp [begun, not_lt.mpr behind], ?_⟩
      simp only [call, answer]
      intro _ none
      cases none
    · refine Or.inr ⟨targetRound, epoch, by simp [begun, idle, ahead], ?_⟩
      simp only [call, answer]
      rfl
  | addSyncResponse response =>
    refine Or.inl ⟨rfl, ?_⟩
    have receives := addSyncResponse_receives profile sync response
    simp only [call]
    generalize sync.addSyncResponse profile response = answer at receives ⊢
    obtain ⟨result, after⟩ := answer
    intro reached kept
    cases receives with
    | refused => exact kept
    | empty => exact kept
    | complete => cases kept
    | partly target =>
      cases kept
      exact target
    | continued target =>
      cases kept
      exact target
  | takeNextRequest => exact Or.inl ⟨rfl, fun _ same => same⟩
  | readyBlocks =>
    refine Or.inl ⟨rfl, ?_⟩
    simp only [call]
    obtain ⟨reason, _, answer⟩ | ⟨next, _, drains⟩ := readyBlocks_cases profile sync
    · rw [answer]
      exact fun _ same => same
    · rw [drains.frame]
      exact fun _ same => same
  | updateHighestKnownRound known =>
    obtain ⟨highest, answer⟩ := updateHighestKnownRound_frame sync known
    simp only [call, answer]
    exact Or.inl ⟨rfl, fun _ same => same⟩
  | cancel =>
    refine Or.inl ⟨rfl, ?_⟩
    intro _ none
    cases none
  | reset =>
    refine Or.inl ⟨rfl, ?_⟩
    intro _ none
    cases none

/-- The sync in progress is the one begun last. -/
def Tracked (past : List (SyncEvent B)) (sync : StateSync B) : Prop :=
  ∀ target ∈ sync.status.targetRound, ∃ epoch, lastBegun past = some (target, epoch)

theorem Tracked.call {past : List (SyncEvent B)} {sync : StateSync B} (tracked : Tracked past sync) (profile : Profile)
    (input : Call B) : Tracked (past ++ [event (call profile) sync input]) (call profile sync input).2 := by
  intro target inProgress
  rw [lastBegun_snoc]
  obtain ⟨quiet, kept⟩ | ⟨_, epoch, starts, same⟩ := call_target profile sync input
  · rw [quiet]
    exact tracked target (kept target inProgress)
  · cases same.symm.trans inProgress
    exact ⟨epoch, by rw [starts]; rfl⟩

/-- The rounds held once a response is added. -/
def Supplied (sync : StateSync B) (response : SyncResponse B) (round : U64) : Prop :=
  round ∈ sync.receivedBlocks ∨ ∃ block ∈ response.blocks, Block.round block = round

theorem highest_supplied {sync : StateSync B} {response : SyncResponse B} {highest : U64}
    (top : (insertBlocks sync.receivedBlocks response.blocks).keys.max? = some highest) :
    Supplied sync response highest ∧ ∀ round, Supplied sync response round → round ≤ highest := by
  obtain ⟨member, bound⟩ := List.max?_eq_some_iff.mp top
  refine ⟨mem_insertBlocks.mp member, ?_⟩
  intro round supplied
  exact bound round (mem_insertBlocks.mpr supplied)

section Sequence
variable {profile : Profile}

/-- What `verify_sequential` accepts, block by block. -/
theorem verifyWindows_cons {first second : B} {rest : List B}
    (verified : verifyWindows profile (first :: second :: rest) = .ok ()) :
    U64.plus profile (Block.round first) 1 = .ok (Block.round second) ∧ verifyWindows profile (second :: rest) = .ok () := by
  simp only [verifyWindows] at verified
  cases sum : U64.plus profile (Block.round first) 1 with
  | error reason =>
    rw [sum] at verified
    cases verified
  | ok following =>
    simp only [sum] at verified
    by_cases follows : Block.round second = following
    · rw [if_pos follows] at verified
      exact ⟨by rw [follows], verified⟩
    · rw [if_neg follows] at verified
      cases verified

/-- Sequential blocks leave no round out between the first and the last. -/
theorem sequential_between {first : B} {rest : List B} (verified : verifyWindows profile (first :: rest) = .ok ())
    {round : U64} (above : Block.round first ≤ round)
    (below : ∀ last ∈ (first :: rest).getLast?, round ≤ Block.round last) :
    ∃ block ∈ first :: rest, Block.round block = round := by
  induction rest generalizing first with
  | nil => exact ⟨first, List.mem_cons_self, le_antisymm above (below first rfl)⟩
  | cons second rest ih =>
    obtain ⟨sum, later⟩ := verifyWindows_cons verified
    rcases above.eq_or_lt with same | higher
    · exact ⟨first, List.mem_cons_self, same⟩
    · obtain ⟨next, successor, following⟩ := U64.plus_one_of_lt profile higher
      cases sum.symm.trans successor
      have onward : Block.round second ≤ round := by
        rw [Fin.lt_def] at higher
        rw [Fin.le_def]
        omega
      obtain ⟨block, member, same⟩ := ih later onward (by rwa [List.getLast?_cons_cons] at below)
      exact ⟨block, List.mem_cons_of_mem _ member, same⟩

/-- The rounds from the lowest to the highest of a response. -/
def Spans (response : SyncResponse B) (round : U64) : Prop :=
  ∃ low ∈ response.lowestRound, ∃ high ∈ response.highestRound, low ≤ round ∧ round ≤ high

theorem carried_of_spans {response : SyncResponse B} (verified : response.verifySequential profile = .ok ()) {round : U64}
    (spans : Spans response round) : ∃ block ∈ response.blocks, Block.round block = round := by
  obtain ⟨low, first, high, last, above, below⟩ := spans
  obtain ⟨blocks, epoch, isFinal⟩ := response
  cases blocks with
  | nil => cases first
  | cons head rest =>
    cases first
    refine sequential_between verified above ?_
    intro final found
    simp only [SyncResponse.highestRound, Option.mem_def, Option.map_eq_some_iff] at last
    obtain ⟨other, same, rfl⟩ := last
    cases same.symm.trans found
    exact below

/-- A development build accepts no wrap-around. -/
theorem spans_of_carried {response : SyncResponse B} (verified : response.verifySequential .dev = .ok ()) {block : B}
    (member : block ∈ response.blocks) : Spans response (Block.round block) := by
  have consecutive : Consecutive (SyncSequence.rounds response) := SyncSequence.consecutive_of_verified verified
  have inside : Block.round block ∈ SyncSequence.rounds response := List.mem_map_of_mem member
  obtain ⟨lowest, highest, _⟩ := SyncSequence.bounds_of_consecutive consecutive
  obtain ⟨low, least⟩ := Option.isSome_iff_exists.mp (List.isSome_min?_of_mem inside)
  obtain ⟨high, greatest⟩ := Option.isSome_iff_exists.mp (List.isSome_max?_of_mem inside)
  refine ⟨low, lowest.trans least, high, highest.trans greatest, ?_, ?_⟩
  · exact (List.min?_eq_some_iff.mp least).2 _ inside
  · exact (List.max?_eq_some_iff.mp greatest).2 _ inside

end Sequence

section Completion

/-- A response that makes a sync complete leaves no round up to its target missing,
so that the next `ready_blocks` gets there. -/
def CompletesTarget (profile : Profile) (past : List (SyncEvent B)) (current : SyncEvent B) : Prop :=
  match current.input with
  | .addSyncResponse _ => current.before.status.isInProgress = true → current.after.status.isCompleted = true →
    ∀ target epoch, lastBegun past = some (target, epoch) →
      (∀ round, current.after.currentRound < round → round ≤ target → current.after.hasBlock round = true) ∧
      target ≤ (current.after.readyBlocks profile).2.currentRound
  | _ => True

/-- When the target is reached with a response, the rounds still missing up to it are
among those the response spans, and the held rounds do not run through the last one
to round 0. -/
def Gapless (profile : Profile) (current : SyncEvent B) : Prop :=
  match current.input with
  | .addSyncResponse response => ∀ target ∈ current.before.status.targetRound,
    response.verifySequential profile = .ok () → (∃ round, target ≤ round ∧ Supplied current.before response round) →
      (∀ round, current.before.currentRound < round → round ≤ target → current.before.hasBlock round = false →
        Spans response round) ∧
      ¬ Wraps profile current.before.currentRound (Supplied current.before response)
  | _ => True

/-- The one way a response completes a sync. -/
theorem completes_cases {profile : Profile} {sync : StateSync B} {response : SyncResponse B}
    (busy : sync.status.isInProgress = true)
    (completed : (sync.addSyncResponse profile response).2.status.isCompleted = true) :
    ∃ target, sync.status.targetRound = some target ∧ response.verifySequential profile = .ok () ∧
      (∃ round, target ≤ round ∧ Supplied sync response round) ∧
      (sync.addSyncResponse profile response).2.currentRound = sync.currentRound ∧
      (sync.addSyncResponse profile response).2.receivedBlocks = insertBlocks sync.receivedBlocks response.blocks := by
  have incomplete : sync.status.isCompleted ≠ true := by
    intro closed
    cases found : sync.status with
    | completed =>
      rw [found] at busy
      cases busy
    | _ =>
      rw [found] at closed
      cases closed
  have receives := addSyncResponse_receives profile sync response
  generalize sync.addSyncResponse profile response = answer at receives completed ⊢
  obtain ⟨result, after⟩ := answer
  cases receives with
  | refused => exact absurd completed incomplete
  | empty => exact absurd completed incomplete
  | partly => cases completed
  | continued => cases completed
  | complete goal verified top reached =>
    exact ⟨_, goal, verified, ⟨_, reached, (highest_supplied top).1⟩, rfl, rfl⟩

theorem filled_supplies {profile : Profile} {sync : StateSync B} {response : SyncResponse B} {target : U64}
    (verified : response.verifySequential profile = .ok ())
    (filled : ∀ round, sync.currentRound < round → round ≤ target → sync.hasBlock round = false → Spans response round)
    (round : U64) (above : sync.currentRound < round) (below : round ≤ target) :
    round ∈ insertBlocks sync.receivedBlocks response.blocks := by
  rw [mem_insertBlocks]
  by_cases present : sync.hasBlock round = true
  · exact Or.inl (of_decide_eq_true present)
  · exact Or.inr (carried_of_spans verified (filled round above below (Bool.eq_false_of_not_eq_true present)))

theorem completes_of_gapless {profile : Profile} {past : List (SyncEvent B)} {sync : StateSync B} (tracked : Tracked past sync)
    {input : Call B} (gapless : Gapless profile (event (call profile) sync input)) :
    CompletesTarget profile past (event (call profile) sync input) := by
  cases input with
  | addSyncResponse response =>
    intro (busy : sync.status.isInProgress = true)
      (completed : (sync.addSyncResponse profile response).2.status.isCompleted = true) target epoch latest
    obtain ⟨goal, inProgress, verified, reached, unmoved, held⟩ := completes_cases busy completed
    obtain ⟨_, same⟩ := tracked goal inProgress
    cases latest.symm.trans same
    obtain ⟨filled, flat⟩ := gapless target inProgress verified reached
    have supplied := filled_supplies verified filled
    simp only [event, call]
    generalize (sync.addSyncResponse profile response).2 = after at unmoved held ⊢
    refine ⟨?_, ?_⟩
    · intro round above below
      rw [hasBlock, held]
      exact decide_eq_true (supplied round (unmoved ▸ above) below)
    · refine readyBlocks_reaches profile ?_ ?_
      · intro round above below
        rw [held, AList.lookup_isSome]
        exact supplied round (unmoved ▸ above) below
      · rw [held, unmoved]
        intro wraps
        obtain ⟨release, zero, rest⟩ := wraps
        refine flat ⟨release, mem_insertBlocks.mp (AList.lookup_isSome.mp zero), ?_⟩
        intro round above
        exact mem_insertBlocks.mp (AList.lookup_isSome.mp (rest round above))
  | _ => trivial

theorem completed_of_reached {profile : Profile} {sync : StateSync B} {response : SyncResponse B} {target : U64}
    (goal : sync.status.targetRound = some target) (verified : response.verifySequential profile = .ok ())
    (reached : ∃ round, target ≤ round ∧ Supplied sync response round) :
    (sync.addSyncResponse profile response).2.status.isCompleted = true := by
  obtain ⟨round, above, supplied⟩ := reached
  have receives := addSyncResponse_receives profile sync response
  generalize sync.addSyncResponse profile response = answer at receives ⊢
  obtain ⟨result, after⟩ := answer
  have far : ∀ {highest : U64}, (insertBlocks sync.receivedBlocks response.blocks).keys.max? = some highest → target ≤ highest :=
    fun top => above.trans ((highest_supplied top).2 round supplied)
  cases receives with
  | complete => rfl
  | refused reason =>
    rcases reason with idle | unverified
    · cases goal.symm.trans idle
    · exact absurd verified unverified
  | empty _ _ noRounds =>
    have present : round ∈ (insertBlocks sync.receivedBlocks response.blocks).keys := mem_insertBlocks.mpr supplied
    rw [List.max?_eq_none_iff.mp noRounds] at present
    cases present
  | partly other _ top short =>
    cases goal.symm.trans other
    exact absurd (far top) (not_le.mpr short)
  | continued other _ top short =>
    cases goal.symm.trans other
    exact absurd (far top) (not_le.mpr short)

/-- A response of a development build is one rising range, so what it supplies it
also spans. -/
theorem gapless_of_completes {past : List (SyncEvent B)} {sync : StateSync B} (tracked : Tracked past sync) {input : Call B}
    (completes : CompletesTarget .dev past (event (call .dev) sync input)) : Gapless .dev (event (call .dev) sync input) := by
  cases input with
  | addSyncResponse response =>
    intro target (goal : sync.status.targetRound = some target) verified reached
    have busy := inProgress_of_target goal
    have completed := completed_of_reached goal verified reached
    obtain ⟨_, _, _, _, unmoved, held⟩ := completes_cases busy completed
    obtain ⟨epoch, latest⟩ := tracked target goal
    obtain ⟨full, _⟩ := completes busy completed target epoch latest
    refine ⟨?_, fun wraps => by cases wraps.1⟩
    intro round above below absent
    have present : (sync.addSyncResponse .dev response).2.hasBlock round = true := full round (unmoved.symm ▸ above) below
    rw [hasBlock, held, decide_eq_true_eq, mem_insertBlocks] at present
    rcases present with before | ⟨block, member, rfl⟩
    · exact absurd before (of_decide_eq_false absent)
    · exact spans_of_carried verified member
  | _ => trivial

/-- In a run whose completing responses leave no hole, a sync reported complete is
complete. In a development build only these runs have the property. -/
theorem completed_syncs_complete (profile : Profile) (config : StateSyncConfig) (start : U64) (calls : List (Call B)) :
    ((∀ current ∈ trace (call profile) (.new config start) calls, Gapless profile current) →
      Meets (call profile) (CompletesTarget profile) (.new config start) calls) ∧
    (profile = .dev → Meets (call profile) (CompletesTarget profile) (.new config start) calls →
      ∀ current ∈ trace (call profile) (.new config start) calls, Gapless profile current) := by
  have initial : Tracked ([] : List (SyncEvent B)) (.new config start) := by
    intro _ none
    cases none
  have next (past : List (SyncEvent B)) (sync : StateSync B) (input : Call B) (tracked : Tracked past sync) :
      Tracked (past ++ [event (call profile) sync input]) (call profile sync input).2 := tracked.call profile input
  refine ⟨?_, ?_⟩
  · intro gapless
    refine (meets_iff_trace.mpr gapless).derive initial (fun past sync input tracked _ => next past sync input tracked) ?_
    intro past sync input tracked here
    exact completes_of_gapless tracked here
  · rintro rfl complete
    refine meets_iff_trace.mp (complete.derive initial (fun past sync input tracked _ => next past sync input tracked) ?_)
    intro past sync input tracked here
    exact gapless_of_completes tracked here

end Completion

theorem full_answer_completes :
    let calls : List (Call MockBlock) := [.startSync 52 1, .addSyncResponse ⟨[makeBlock 51 1 1 ⟨0⟩, makeBlock 52 1 1 ⟨0⟩], 1, true⟩]
    (exec (call .dev) (.new .default 50) calls).status = .completed 2 ∧
      Meets (call .dev) (CompletesTarget .dev) (.new .default 50) calls := by
  intro calls
  refine ⟨by decide, (completed_syncs_complete .dev .default 50 calls).1 ?_⟩
  simp only [calls, forall_trace_cons, forall_trace_nil, and_true]
  refine ⟨trivial, ?_⟩
  rintro target goal _ _
  cases goal
  refine ⟨?_, fun wraps => by cases wraps.1⟩
  intro round above below _
  exact ⟨51, rfl, 52, rfl, Nat.succ_le_of_lt above, below⟩

/-- The block of the target round alone completes the sync, and nothing can be
handed out. -/
theorem target_block_completes_alone :
    let calls : List (Call MockBlock) := [.startSync 53 1, .addSyncResponse ⟨[makeBlock 53 1 1 ⟨0⟩], 1, true⟩]
    let final := exec (call .dev) (.new .default 50) calls
    final.status = .completed 1 ∧ final.hasBlock 51 = false ∧ final.hasBlock 52 = false ∧
      (final.readyBlocks .dev).1 = .ok [] ∧ (final.readyBlocks .dev).2.currentRound = 50 ∧
      ¬ Meets (call .dev) (CompletesTarget .dev) (.new .default 50) calls := by
  intro calls final
  refine ⟨by decide, by decide, by decide, by decide, by decide, ?_⟩
  intro complete
  have last := complete [event (call .dev) (.new .default 50) (.startSync 53 1)] _ [] rfl
  obtain ⟨_, reached⟩ := last rfl rfl 53 1 rfl
  exact absurd reached (by decide)

end AptosBft.Proofs.SyncTarget
