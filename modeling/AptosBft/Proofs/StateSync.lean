import AptosBft.Lib.Mealy
import AptosBft.Testing
import Mathlib.Data.List.Chain

/-! What each call of the state sync can do. The loop of `ready_blocks` is described
once, by the turns it takes, for both build profiles. -/

namespace AptosBft.Proofs.StateSync
open Rust Mealy AptosBft.StateSync

variable {B H : Type}

section Loop

/-- The turns of the loop of `ready_blocks` without its counter: what it returns
and what it leaves behind. A panic loses the blocks collected so far. -/
inductive Drains (profile : Profile) : StateSync B → U64 → Except Panic (List B) → StateSync B → Prop where
  | stop {sync : StateSync B} {next : U64} (absent : sync.receivedBlocks.lookup next = none) :
      Drains profile sync next (.ok []) sync
  | take {sync final : StateSync B} {next following : U64} {block : B} {result : Except Panic (List B)}
      (held : sync.receivedBlocks.lookup next = some block) (sum : U64.plus profile next 1 = .ok following)
      (rest : Drains profile (sync.advance next) following result final) :
      Drains profile sync next (result.map (block :: ·)) final
  | overflow {sync : StateSync B} {next : U64} {block : B} {reason : Panic}
      (held : sync.receivedBlocks.lookup next = some block) (sum : U64.plus profile next 1 = .error reason) :
      Drains profile sync next (.error reason) (sync.advance next)

/-- As many turns as there are blocks are enough: the loop ends by its own
condition. -/
theorem readyLoop_drains (profile : Profile) {turns : Nat} {sync : StateSync B} (next : U64) (ready : List B)
    (enough : sync.receivedBlocks.len ≤ turns) :
    ∃ result, Drains profile sync next result (readyLoop profile turns sync next ready).2 ∧
      (readyLoop profile turns sync next ready).1 = result.map (ready ++ ·) := by
  induction turns generalizing sync next ready with
  | zero =>
    have absent := HashMap.lookup_of_len_zero (Nat.le_zero.mp enough) next
    exact ⟨.ok [], .stop absent, by simp [readyLoop, Except.map]⟩
  | succ turns ih =>
    simp only [readyLoop]
    cases held : sync.receivedBlocks.lookup next with
    | none => exact ⟨.ok [], .stop held, by simp [Except.map]⟩
    | some block =>
      simp only
      cases sum : U64.plus profile next 1 with
      | error reason => exact ⟨.error reason, .overflow held sum, rfl⟩
      | ok following =>
        have fewer : (sync.advance next).receivedBlocks.len + 1 = sync.receivedBlocks.len := HashMap.len_erase held
        have room : (sync.advance next).receivedBlocks.len ≤ turns := by omega
        obtain ⟨result, drains, answer⟩ := ih following (ready ++ [block]) room
        refine ⟨_, .take held sum drains, answer.trans ?_⟩
        cases result <;> simp [Except.map]

/-- More turns than there are blocks change nothing. -/
theorem readyLoop_enough (profile : Profile) {turns : Nat} {sync : StateSync B} (next : U64) (ready : List B)
    (enough : sync.receivedBlocks.len ≤ turns) :
    readyLoop profile (turns + 1) sync next ready = readyLoop profile turns sync next ready := by
  induction turns generalizing sync next ready with
  | zero =>
    have absent := HashMap.lookup_of_len_zero (Nat.le_zero.mp enough) next
    simp only [readyLoop, absent]
  | succ turns ih =>
    rw [readyLoop, readyLoop]
    cases held : sync.receivedBlocks.lookup next with
    | none => rfl
    | some block =>
      cases U64.plus profile next 1 with
      | error reason => rfl
      | ok following =>
        have fewer : (sync.advance next).receivedBlocks.len + 1 = sync.receivedBlocks.len := HashMap.len_erase held
        exact ih following (ready ++ [block]) (by omega)

theorem readyLoop_stable (profile : Profile) {turns : Nat} {sync : StateSync B} (next : U64) (ready : List B)
    (enough : sync.receivedBlocks.len ≤ turns) :
    readyLoop profile turns sync next ready = readyLoop profile sync.receivedBlocks.len sync next ready := by
  induction turns, enough using Nat.le_induction with
  | base => rfl
  | succ turns enough ih => exact (readyLoop_enough profile next ready enough).trans ih

theorem readyBlocks_cases (profile : Profile) (sync : StateSync B) :
    (∃ reason, U64.plus profile sync.currentRound 1 = .error reason ∧ sync.readyBlocks profile = (.error reason, sync)) ∨
    ∃ next, U64.plus profile sync.currentRound 1 = .ok next ∧
      Drains profile sync next (sync.readyBlocks profile).1 (sync.readyBlocks profile).2 := by
  simp only [readyBlocks]
  cases sum : U64.plus profile sync.currentRound 1 with
  | error reason => exact Or.inl ⟨reason, rfl, rfl⟩
  | ok next =>
    obtain ⟨result, drains, answer⟩ := readyLoop_drains profile next [] (le_refl sync.receivedBlocks.len)
    refine Or.inr ⟨next, rfl, ?_⟩
    have same : result.map ([] ++ ·) = result := by cases result <;> rfl
    rw [same] at answer
    rw [answer]
    exact drains

variable {profile : Profile} {sync final : StateSync B} {next : U64} {result : Except Panic (List B)}

theorem lookup_advance (sync : StateSync B) (round other : U64) :
    (sync.advance round).receivedBlocks.lookup other =
      if other = round then none else sync.receivedBlocks.lookup other := by
  simp only [advance]
  split
  next same => rw [same, AList.lookup_erase]
  next apart => rw [AList.lookup_erase_ne apart]

theorem lookup_advance_some {round other : U64} {block : B}
    (held : (sync.advance round).receivedBlocks.lookup other = some block) :
    other ≠ round ∧ sync.receivedBlocks.lookup other = some block := by
  rw [lookup_advance] at held
  split at held
  · cases held
  next apart => exact ⟨apart, held⟩

/-- Only the blocks and the current round change. -/
theorem Drains.frame (drains : Drains profile sync next result final) :
    final = { sync with receivedBlocks := final.receivedBlocks, currentRound := final.currentRound } := by
  induction drains with
  | stop absent => rfl
  | take held sum rest ih => exact ih
  | overflow held sum => rfl

theorem Drains.held (drains : Drains profile sync next result final) {round : U64} {block : B}
    (kept : final.receivedBlocks.lookup round = some block) : sync.receivedBlocks.lookup round = some block := by
  induction drains with
  | stop absent => exact kept
  | take held sum rest ih => exact (lookup_advance_some (ih kept)).2
  | overflow held sum => exact (lookup_advance_some kept).2

theorem Drains.lands (drains : Drains profile sync next result final) :
    final.currentRound = sync.currentRound ∨ ∃ block, sync.receivedBlocks.lookup final.currentRound = some block := by
  induction drains with
  | stop absent => exact Or.inl rfl
  | @take sync final next _ block _ held sum rest ih =>
    rcases ih with same | ⟨other, found⟩
    · refine Or.inr ⟨block, ?_⟩
      rw [same]
      exact held
    · exact Or.inr ⟨other, (lookup_advance_some found).2⟩
  | overflow held sum => exact Or.inr ⟨_, held⟩

theorem next_below_gap {gap : U64} {block : B} (following : next.val = sync.currentRound.val + 1)
    (above : sync.currentRound < gap) (absent : sync.receivedBlocks.lookup gap = none)
    (held : sync.receivedBlocks.lookup next = some block) : next < gap := by
  have apart : gap ≠ next := by
    intro same
    rw [same, held] at absent
    cases absent
  rw [ne_eq, Fin.ext_iff] at apart
  rw [Fin.lt_def] at above ⊢
  omega

/-- The loop stops before a round that is not held. -/
theorem Drains.before {gap : U64} (drains : Drains profile sync next result final)
    (following : next.val = sync.currentRound.val + 1) (above : sync.currentRound < gap)
    (absent : sync.receivedBlocks.lookup gap = none) : sync.currentRound ≤ final.currentRound ∧ final.currentRound < gap := by
  induction drains with
  | stop _ => exact ⟨le_rfl, above⟩
  | @take sync _ next _ block _ held sum rest ih =>
    have higher := next_below_gap following above absent held
    obtain ⟨successor, same, value⟩ := U64.plus_one_of_lt profile higher
    cases sum.symm.trans same
    obtain ⟨lower, upper⟩ := ih value higher (by rw [lookup_advance, if_neg higher.ne']; exact absent)
    refine ⟨le_trans ?_ lower, upper⟩
    change sync.currentRound.val ≤ next.val
    omega
  | @overflow sync next block _ held sum =>
    obtain ⟨successor, same, _⟩ := U64.plus_one_of_lt profile (next_below_gap following above absent held)
    cases sum.symm.trans same

theorem Drains.stopped (drains : Drains profile sync next result final) (absent : sync.receivedBlocks.lookup next = none) :
    final = sync := by
  cases drains with
  | stop _ => rfl
  | take held _ _ => cases absent.symm.trans held
  | overflow held _ => cases absent.symm.trans held

/-- A wrap-around of a release build, which goes on with round 0 after the last
round. -/
def Wraps (profile : Profile) (currentRound : U64) (holds : U64 → Prop) : Prop :=
  profile = .release ∧ holds 0 ∧ ∀ round, currentRound < round → holds round

theorem Wraps.last {current : U64} {holds : U64 → Prop} (release : profile = .release) (last : current = u64Max)
    (zero : holds 0) : Wraps profile current holds := by
  refine ⟨release, zero, ?_⟩
  intro round above
  rw [last] at above
  exact absurd above (not_lt.mpr (Fin.le_last round))

theorem held_of_advance {round other : U64} (held : ((sync.advance round).receivedBlocks.lookup other).isSome) :
    (sync.receivedBlocks.lookup other).isSome := by
  obtain ⟨block, found⟩ := Option.isSome_iff_exists.mp held
  exact Option.isSome_iff_exists.mpr ⟨block, (lookup_advance_some found).2⟩

/-- A turn of the loop cannot bring a wrap-around about. -/
theorem Wraps.of_advance {block : B} (held : sync.receivedBlocks.lookup next = some block)
    (following : next.val = sync.currentRound.val + 1)
    (wraps : Wraps profile next fun round => ((sync.advance next).receivedBlocks.lookup round).isSome) :
    Wraps profile sync.currentRound fun round => (sync.receivedBlocks.lookup round).isSome := by
  obtain ⟨release, zero, rest⟩ := wraps
  refine ⟨release, held_of_advance zero, ?_⟩
  intro round above
  by_cases here : round = next
  · rw [here, held]
    rfl
  · apply held_of_advance
    apply rest
    rw [Fin.ext_iff] at here
    rw [Fin.lt_def] at above ⊢
    omega

/-- The loop gets through all rounds that are held. -/
theorem Drains.reaches {target : U64} (drains : Drains profile sync next result final)
    (following : next.val = sync.currentRound.val + 1)
    (held : ∀ round, sync.currentRound < round → round ≤ target → (sync.receivedBlocks.lookup round).isSome)
    (flat : ¬ Wraps profile sync.currentRound fun round => (sync.receivedBlocks.lookup round).isSome) :
    target ≤ final.currentRound := by
  induction drains with
  | @stop sync next absent =>
    by_contra below
    have inside : next ≤ target := by
      rw [not_le, Fin.lt_def] at below
      rw [Fin.le_def]
      omega
    have present := held next (by rw [Fin.lt_def]; omega) inside
    rw [absent] at present
    cases present
  | @take sync final next after block _ here sum rest ih =>
    have flatter := fun wraps => flat (Wraps.of_advance here following wraps)
    obtain ⟨successor, same, value⟩ | ⟨last, ⟨_, panics⟩ | ⟨release, wraps⟩⟩ := U64.plus_one_cases profile next
    · cases sum.symm.trans same
      refine ih value ?_ flatter
      intro round (above : next < round) below
      have lower : sync.currentRound < round := lt_trans (by rw [Fin.lt_def]; omega) above
      rw [lookup_advance, if_neg above.ne']
      exact held round lower below
    · cases sum.symm.trans panics
    · cases sum.symm.trans wraps
      have zero : (sync.advance next).receivedBlocks.lookup 0 = none := by
        by_contra present
        exact flatter (.last release last (Option.ne_none_iff_isSome.mp present))
      rw [rest.stopped zero]
      change target ≤ next
      rw [last]
      exact Fin.le_last target
  | @overflow sync next block _ here sum =>
    obtain ⟨successor, same, _⟩ | ⟨last, _⟩ := U64.plus_one_cases profile next
    · cases sum.symm.trans same
    · change target ≤ next
      rw [last]
      exact Fin.le_last target

/-- Below the last round the loop hands out the rounds one by one, and what stops it
is a round that is not held. -/
theorem Drains.counts [Block B H] (drains : Drains profile sync next result final)
    (following : next.val = sync.currentRound.val + 1)
    (keyed : ∀ round block, sync.receivedBlocks.lookup round = some block → Block.round block = round)
    (room : ∀ round block, sync.receivedBlocks.lookup round = some block → round < u64Max) :
    ∃ ready, result = .ok ready ∧ ready.map (fun block => (Block.round block).val) = List.range' next.val ready.length ∧
      final.currentRound.val = sync.currentRound.val + ready.length ∧
      ∀ round, round.val = final.currentRound.val + 1 → final.receivedBlocks.lookup round = none := by
  induction drains with
  | @stop sync next absent =>
    refine ⟨[], rfl, rfl, rfl, ?_⟩
    intro round value
    obtain rfl : round = next := Fin.ext (value.trans following.symm)
    exact absent
  | @take sync final next after block _ held sum rest ih =>
    obtain ⟨successor, same, value⟩ := U64.plus_one_of_lt profile (room next block held)
    cases sum.symm.trans same
    obtain ⟨ready, rfl, rounds, moved, ended⟩ := ih value
      (fun round other found => keyed round other (lookup_advance_some found).2)
      (fun round other found => room round other (lookup_advance_some found).2)
    refine ⟨block :: ready, rfl, ?_, ?_, ended⟩
    · rw [List.map_cons, List.length_cons, List.range'_succ, keyed next block held, rounds, value]
    · rw [moved, List.length_cons]
      change next.val + ready.length = _
      omega
  | @overflow sync next block _ held sum =>
    obtain ⟨successor, same, _⟩ := U64.plus_one_of_lt profile (room next block held)
    cases sum.symm.trans same

def Link [Block B H] (parent child : B) : Prop := Block.parentId child = Block.id parent

/-- Held blocks of consecutive rounds are linked. -/
def Linked [Block B H] (profile : Profile) (held : HashMap U64 B) : Prop :=
  ∀ round following parent child, U64.plus profile round 1 = .ok following → held.lookup round = some parent →
    held.lookup following = some child → Link parent child

theorem Linked.fewer [Block B H] {held kept : HashMap U64 B} (linked : Linked profile held)
    (subset : ∀ round block, kept.lookup round = some block → held.lookup round = some block) : Linked profile kept := by
  intro round following parent child sum first second
  exact linked round following parent child sum (subset _ _ first) (subset _ _ second)

theorem Drains.chain [Block B H] (drains : Drains profile sync next result final)
    (linked : Linked profile sync.receivedBlocks) {ready : List B} (returned : result = .ok ready) :
    ready.IsChain Link ∧ ∀ first ∈ ready.head?, sync.receivedBlocks.lookup next = some first := by
  induction drains generalizing ready with
  | stop absent =>
    cases returned
    exact ⟨.nil, by simp⟩
  | @take sync final next after block result held sum rest ih =>
    cases result with
    | error reason => cases returned
    | ok later =>
      cases returned
      obtain ⟨chain, starts⟩ := ih (linked.fewer fun _ _ found => (lookup_advance_some found).2) rfl
      refine ⟨List.isChain_cons.mpr ⟨?_, chain⟩, ?_⟩
      · intro first here
        exact linked next after block first sum held (lookup_advance_some (starts first here)).2
      · intro first here
        cases here
        exact held
  | overflow held sum => cases returned

theorem Drains.handed (drains : Drains profile sync next result final) {ready : List B} (returned : result = .ok ready)
    {block : B} (member : block ∈ ready) : ∃ round, sync.receivedBlocks.lookup round = some block := by
  induction drains generalizing ready with
  | stop absent =>
    cases returned
    cases member
  | @take _ _ next _ first result held sum rest ih =>
    cases result with
    | error reason => cases returned
    | ok later =>
      cases returned
      rcases List.mem_cons.mp member with rfl | inside
      · exact ⟨next, held⟩
      · obtain ⟨round, found⟩ := ih rfl inside
        exact ⟨round, (lookup_advance_some found).2⟩
  | overflow held sum => cases returned

theorem readyBlocks_frame (profile : Profile) (sync : StateSync B) :
    (sync.readyBlocks profile).2 = { sync with
      receivedBlocks := (sync.readyBlocks profile).2.receivedBlocks
      currentRound := (sync.readyBlocks profile).2.currentRound } := by
  obtain ⟨reason, _, answer⟩ | ⟨next, _, drains⟩ := readyBlocks_cases profile sync
  · rw [answer]
  · exact drains.frame

theorem readyBlocks_before (profile : Profile) {sync : StateSync B} {gap : U64} (above : sync.currentRound < gap)
    (absent : sync.hasBlock gap = false) : (sync.readyBlocks profile).2.currentRound < gap := by
  obtain ⟨successor, sum, following⟩ := U64.plus_one_of_lt profile above
  obtain ⟨reason, panics, _⟩ | ⟨next, same, drains⟩ := readyBlocks_cases profile sync
  · cases sum.symm.trans panics
  · cases sum.symm.trans same
    exact (drains.before following above (AList.lookup_eq_none.mpr (of_decide_eq_false absent))).2

theorem readyBlocks_reaches (profile : Profile) {sync : StateSync B} {target : U64}
    (held : ∀ round, sync.currentRound < round → round ≤ target → (sync.receivedBlocks.lookup round).isSome)
    (flat : ¬ Wraps profile sync.currentRound fun round => (sync.receivedBlocks.lookup round).isSome) :
    target ≤ (sync.readyBlocks profile).2.currentRound := by
  have top : ∀ after : StateSync B, after = sync → sync.currentRound = u64Max → target ≤ after.currentRound := by
    rintro after rfl last
    rw [last]
    exact Fin.le_last target
  obtain ⟨reason, panics, answer⟩ | ⟨next, sum, drains⟩ := readyBlocks_cases profile sync
  · obtain ⟨successor, same, _⟩ | ⟨last, _⟩ := U64.plus_one_cases profile sync.currentRound
    · cases panics.symm.trans same
    · exact top _ (by rw [answer]) last
  · obtain ⟨successor, same, following⟩ | ⟨last, ⟨_, panics⟩ | ⟨release, wraps⟩⟩ :=
      U64.plus_one_cases profile sync.currentRound
    · cases sum.symm.trans same
      exact drains.reaches following held flat
    · cases sum.symm.trans panics
    · cases sum.symm.trans wraps
      refine top _ (drains.stopped ?_) last
      by_contra present
      exact flat (.last release last (Option.ne_none_iff_isSome.mp present))

end Loop

section Calls

theorem inProgress_of_target {status : SyncStatus} {targetRound : U64} (target : status.targetRound = some targetRound) :
    status.isInProgress = true := by
  cases status with
  | inProgress => rfl
  | _ => cases target

theorem rounds_of_ended {status : SyncStatus} (ended : status.isInProgress = false) :
    status.targetRound = none ∧ status.currentRound = none := by
  cases status with
  | inProgress => cases ended
  | _ => exact ⟨rfl, rfl⟩

variable [Block B H] (profile : Profile) (sync : StateSync B)

omit [Block B H] in
/-- A sync is begun only when none is in progress and the target is ahead. Neither
sum can overflow below the target. -/
theorem startSync_cases (targetRound epoch : U64) :
    (sync.status.isInProgress = true ∧ ∃ error, sync.startSync profile targetRound epoch = (.error (.err error), sync)) ∨
    (sync.status.isInProgress = false ∧ targetRound ≤ sync.currentRound ∧
      sync.startSync profile targetRound epoch = (.ok (), { sync with status := .completed 0 })) ∨
    (sync.status.isInProgress = false ∧ sync.currentRound < targetRound ∧ ∃ requestTarget startRound : U64,
      requestTarget.val = sync.currentRound.val +
        min (targetRound.val - sync.currentRound.val) sync.config.maxBatchSize.val ∧
      startRound.val = sync.currentRound.val + 1 ∧
      sync.startSync profile targetRound epoch = (.ok (), { sync with
        status := .inProgress targetRound sync.currentRound 0
        pendingRequests := sync.pendingRequests ++ [⟨requestTarget, startRound, epoch⟩] })) := by
  simp only [startSync]
  cases busy : sync.status.isInProgress with
  | true => exact Or.inl ⟨rfl, _, rfl⟩
  | false =>
    by_cases behind : targetRound ≤ sync.currentRound
    · exact Or.inr (Or.inl ⟨rfl, behind, by simp [behind]⟩)
    · have ahead := not_le.mp behind
      have size : (min (targetRound.saturatingSub sync.currentRound) sync.config.maxBatchSize).val =
          min (targetRound.val - sync.currentRound.val) sync.config.maxBatchSize.val := Fin.coe_min _ _
      obtain ⟨startRound, next, start⟩ := U64.plus_one_of_lt profile ahead
      obtain ⟨requestTarget, sum, value⟩ | ⟨overflows, _⟩ := U64.plus_cases profile sync.currentRound
        (min (targetRound.saturatingSub sync.currentRound) sync.config.maxBatchSize)
      · refine Or.inr (Or.inr ⟨rfl, ahead, requestTarget, startRound, by rw [value, size], start, ?_⟩)
        simp [behind, sum, next]
      · have bound := targetRound.isLt
        change 18446744073709551615 < _ at overflows
        rw [size] at overflows
        rw [Fin.lt_def] at ahead
        omega

/-- All outcomes of a response. One that is not turned away is stored whole; the
status then follows the highest round held. -/
inductive Receives (response : SyncResponse B) : Outcome Error Unit → StateSync B → Prop where
  | refused {failure : Failure Error}
      (reason : sync.status.targetRound = none ∨ response.verifySequential profile ≠ .ok ()) :
      Receives response (.error failure) sync
  | empty {targetRound : U64} (target : sync.status.targetRound = some targetRound)
      (verified : response.verifySequential profile = .ok ())
      (noRounds : (insertBlocks sync.receivedBlocks response.blocks).keys.max? = none) :
      Receives response (.ok ()) { sync with receivedBlocks := insertBlocks sync.receivedBlocks response.blocks }
  | complete {targetRound highest : U64} (target : sync.status.targetRound = some targetRound)
      (verified : response.verifySequential profile = .ok ())
      (top : (insertBlocks sync.receivedBlocks response.blocks).keys.max? = some highest) (reached : targetRound ≤ highest) :
      Receives response (.ok ()) { sync with
        receivedBlocks := insertBlocks sync.receivedBlocks response.blocks
        status := .completed (insertBlocks sync.receivedBlocks response.blocks).len }
  | partly {targetRound highest : U64} {result : Outcome Error Unit} (target : sync.status.targetRound = some targetRound)
      (verified : response.verifySequential profile = .ok ())
      (top : (insertBlocks sync.receivedBlocks response.blocks).keys.max? = some highest) (short : highest < targetRound) :
      Receives response result { sync with
        receivedBlocks := insertBlocks sync.receivedBlocks response.blocks
        status := .inProgress targetRound highest (insertBlocks sync.receivedBlocks response.blocks).len }
  | continued {targetRound highest nextStart batchEnd : U64} (target : sync.status.targetRound = some targetRound)
      (verified : response.verifySequential profile = .ok ())
      (top : (insertBlocks sync.receivedBlocks response.blocks).keys.max? = some highest) (short : highest < targetRound)
      (last : response.isFinal = true) (start : nextStart.val = highest.val + 1)
      (sum : U64.plus profile highest sync.config.maxBatchSize = .ok batchEnd) :
      Receives response (.ok ()) { sync with
        receivedBlocks := insertBlocks sync.receivedBlocks response.blocks
        status := .inProgress targetRound highest (insertBlocks sync.receivedBlocks response.blocks).len
        pendingRequests := sync.pendingRequests ++ [⟨min targetRound batchEnd, nextStart, response.epoch⟩] }

theorem addSyncResponse_receives (response : SyncResponse B) :
    Receives profile sync response (sync.addSyncResponse profile response).1 (sync.addSyncResponse profile response).2 := by
  simp only [addSyncResponse]
  cases target : sync.status.targetRound with
  | none => exact .refused (Or.inl target)
  | some targetRound =>
    simp only
    cases verified : response.verifySequential profile with
    | error failure => exact .refused (Or.inr (by rw [verified]; simp))
    | ok =>
      simp only
      cases top : (insertBlocks sync.receivedBlocks response.blocks).keys.max? with
      | none => exact .empty target verified top
      | some highest =>
        simp only [updateStatus]
        by_cases reached : targetRound ≤ highest
        · simp only [ge_iff_le, reached, ite_true]
          exact .complete target verified top reached
        · have short := not_le.mp reached
          simp only [ge_iff_le, reached, ite_false, short, decide_true, Bool.and_true]
          cases last : response.isFinal with
          | false => exact .partly target verified top short
          | true =>
            obtain ⟨nextStart, next, start⟩ := U64.plus_one_of_lt profile short
            simp only [next, ite_true]
            cases sum : U64.plus profile highest sync.config.maxBatchSize with
            | error reason => exact .partly target verified top short
            | ok batchEnd => exact .continued target verified top short last start sum

/-- Adding a response leaves the blocks alone or merges them with its own. -/
theorem addSyncResponse_blocks (response : SyncResponse B) :
    (sync.addSyncResponse profile response).2.receivedBlocks = sync.receivedBlocks ∨
    (sync.status.isInProgress = true ∧ response.verifySequential profile = .ok () ∧
      (sync.addSyncResponse profile response).2.receivedBlocks = insertBlocks sync.receivedBlocks response.blocks) := by
  have receives := addSyncResponse_receives profile sync response
  generalize sync.addSyncResponse profile response = answer at receives ⊢
  obtain ⟨result, after⟩ := answer
  cases receives with
  | refused => exact Or.inl rfl
  | empty target verified => exact Or.inr ⟨inProgress_of_target target, verified, rfl⟩
  | complete target verified => exact Or.inr ⟨inProgress_of_target target, verified, rfl⟩
  | partly target verified => exact Or.inr ⟨inProgress_of_target target, verified, rfl⟩
  | continued target verified => exact Or.inr ⟨inProgress_of_target target, verified, rfl⟩

/-- What a response can be answered with an error for, once a sync is in progress. -/
theorem addSyncResponse_err_iff {target : U64} (goal : sync.status.targetRound = some target) (response : SyncResponse B) :
    (∃ error, (sync.addSyncResponse profile response).1 = .error (.err error)) ↔
      ∃ error, response.verifySequential profile = .error (.err error) := by
  simp only [addSyncResponse, goal]
  cases verified : response.verifySequential profile with
  | error failure => simp
  | ok =>
    simp only [reduceCtorEq, exists_false, iff_false, not_exists]
    intro error
    split
    · simp
    next highest _ =>
      simp only [updateStatus]
      split
      · simp
      split
      · split
        · simp
        · split <;> simp
      · simp

end Calls

section Blocks
variable [Block B H]

/-- What is held after blocks were added was held before or came with them. -/
theorem lookup_insertBlocks {held : HashMap U64 B} {blocks : List B} {round : U64} {block : B}
    (found : (insertBlocks held blocks).lookup round = some block) :
    held.lookup round = some block ∨ block ∈ blocks ∧ Block.round block = round := by
  induction blocks generalizing held with
  | nil => exact Or.inl found
  | cons first rest ih =>
    obtain here | ⟨inside, same⟩ := ih found
    · by_cases own : round = Block.round first
      · subst own
        rw [AList.lookup_insert] at here
        cases here
        exact Or.inr ⟨List.mem_cons_self, rfl⟩
      · rw [AList.lookup_insert_ne own] at here
        exact Or.inl here
    · exact Or.inr ⟨List.mem_cons_of_mem _ inside, same⟩

theorem mem_insertBlocks {held : HashMap U64 B} {blocks : List B} {round : U64} :
    round ∈ insertBlocks held blocks ↔ round ∈ held ∨ ∃ block ∈ blocks, Block.round block = round := by
  induction blocks generalizing held with
  | nil => simp [insertBlocks]
  | cons first rest ih =>
    have step : insertBlocks held (first :: rest) = insertBlocks (held.insert (Block.round first) first) rest := rfl
    rw [step, ih, AList.mem_insert]
    simp only [List.mem_cons, exists_eq_or_imp]
    rw [or_comm (a := round = _), or_assoc, eq_comm (a := round)]

theorem updateHighestKnownRound_frame (sync : StateSync B) (round : U64) :
    ∃ highestKnownRound, sync.updateHighestKnownRound round = { sync with highestKnownRound } := by
  simp only [updateHighestKnownRound]
  split
  · exact ⟨_, rfl⟩
  · exact ⟨_, rfl⟩

variable {profile : Profile} {sync : StateSync B}

/-- Blocks come in with responses only. -/
theorem call_held {input : Call B} {round : U64} {block : B}
    (found : (call profile sync input).2.receivedBlocks.lookup round = some block) :
    sync.receivedBlocks.lookup round = some block ∨
      ∃ response, input = .addSyncResponse response ∧ block ∈ response.blocks ∧ Block.round block = round := by
  cases input with
  | startSync targetRound epoch =>
    obtain ⟨_, error, answer⟩ | ⟨_, _, answer⟩ | ⟨_, _, _, _, _, _, answer⟩ := startSync_cases profile sync targetRound epoch
    all_goals
      simp only [call, answer] at found
      exact Or.inl found
  | addSyncResponse response =>
    have stored : (insertBlocks sync.receivedBlocks response.blocks).lookup round = some block →
        sync.receivedBlocks.lookup round = some block ∨ ∃ given, Call.addSyncResponse response = .addSyncResponse given ∧
          block ∈ given.blocks ∧ Block.round block = round := by
      intro inside
      obtain before | ⟨member, same⟩ := lookup_insertBlocks inside
      · exact Or.inl before
      · exact Or.inr ⟨response, rfl, member, same⟩
    have receives := addSyncResponse_receives profile sync response
    simp only [call] at found
    generalize sync.addSyncResponse profile response = answer at receives found
    obtain ⟨result, after⟩ := answer
    cases receives with
    | refused => exact Or.inl found
    | _ => exact stored found
  | takeNextRequest => exact Or.inl found
  | readyBlocks =>
    left
    obtain ⟨reason, _, answer⟩ | ⟨next, _, drains⟩ := readyBlocks_cases profile sync
    · simp only [call, answer] at found
      exact found
    · exact drains.held found
  | updateHighestKnownRound known =>
    obtain ⟨highest, answer⟩ := updateHighestKnownRound_frame sync known
    simp only [call, answer] at found
    exact Or.inl found
  | cancel => cases found
  | reset => cases found

theorem call_currentRound {input : Call B} (other : input ≠ .readyBlocks) :
    (call profile sync input).2.currentRound = sync.currentRound := by
  cases input with
  | startSync targetRound epoch =>
    obtain ⟨_, error, answer⟩ | ⟨_, _, answer⟩ | ⟨_, _, _, _, _, _, answer⟩ := startSync_cases profile sync targetRound epoch
    all_goals simp only [call, answer]
  | addSyncResponse response =>
    have receives := addSyncResponse_receives profile sync response
    simp only [call]
    generalize sync.addSyncResponse profile response = answer at receives ⊢
    obtain ⟨result, after⟩ := answer
    cases receives <;> rfl
  | updateHighestKnownRound known =>
    obtain ⟨highest, answer⟩ := updateHighestKnownRound_frame sync known
    simp only [call, answer]
  | readyBlocks => exact absurd rfl other
  | takeNextRequest => rfl
  | cancel => rfl
  | reset => rfl

def Keyed (held : HashMap U64 B) : Prop := ∀ round block, held.lookup round = some block → Block.round block = round

theorem Keyed.call (keyed : Keyed sync.receivedBlocks) (profile : Profile) (input : Call B) :
    Keyed (call profile sync input).2.receivedBlocks := by
  intro round block found
  obtain before | ⟨_, _, _, same⟩ := call_held found
  · exact keyed round block before
  · exact same

end Blocks

abbrev SyncEvent (B : Type) := Event (StateSync B) (Call B) (Reply B)

end AptosBft.Proofs.StateSync
