import AptosBft.Proofs.SyncSequence
import AptosBft.Proofs.StateSync

/-! Catching up from a peer that has the whole chain. Requests and answers are in flight
while blocks are handed out, in any order the two sides find. -/

namespace AptosBft.Proofs.SyncPeer
open Rust Mealy AptosBft.StateSync AptosBft.Proofs.StateSync

variable {B H : Type}

/-- The blocks of the rounds after `low` up to `high`. -/
def stretch (chain : U64 → B) (low high : Nat) : List B := (wordsFrom (low + 1) (high - low)).map chain

/-- What the peer answers: the blocks it was asked for, as a batch that is complete. -/
def answer (chain : U64 → B) (request : SyncRequest) : SyncResponse B where
  blocks := (wordsFrom request.startRound.val (request.targetRound.val + 1 - request.startRound.val)).map chain
  epoch := request.epoch
  isFinal := true

/-- The syncing side and the requests on their way to the peer. -/
structure Fetch (B : Type) where
  sync : StateSync B
  asked : List SyncRequest

inductive Move where
  | ask
  | respond
  | deliver
  | hear (round : U64)
  deriving DecidableEq

section Moves
variable [Block B H]

/-- `ask` sends the next request, `respond` brings the answer to one that was sent. A move
that finds nothing to do does nothing. -/
def move (profile : Profile) (chain : U64 → B) (fetch : Fetch B) : Move → Outcome Error (List B) × Fetch B
  | .ask =>
    match fetch.sync.takeNextRequest with
    | (none, sync) => (.ok [], { fetch with sync })
    | (some request, sync) => (.ok [], ⟨sync, fetch.asked ++ [request]⟩)
  | .respond =>
    match fetch.asked with
    | [] => (.ok [], fetch)
    | request :: asked =>
      let (result, sync) := fetch.sync.addSyncResponse profile (answer chain request)
      (result.map fun _ => [], ⟨sync, asked⟩)
  | .deliver =>
    let (blocks, sync) := fetch.sync.readyBlocks profile
    (blocks.mapError .panic, { fetch with sync })
  | .hear round => (.ok [], { fetch with sync := fetch.sync.updateHighestKnownRound round })

abbrev FetchEvent (B : Type) := Event (Fetch B) Move (Outcome Error (List B))

omit [Block B H] in
/-- The blocks a move hands out. -/
def handed (current : FetchEvent B) : List B :=
  match current.output with
  | .ok blocks => blocks
  | .error _ => []

omit [Block B H] in
/-- The answers that came in. -/
def answers (run : List (FetchEvent B)) : Nat :=
  run.countP fun current => decide (current.input = .respond) && !current.before.asked.isEmpty

end Moves

section Blocks
variable {chain : U64 → B} {low middle high : Nat}

theorem stretch_append (lower : low ≤ middle) (upper : middle ≤ high) :
    stretch chain low middle ++ stretch chain middle high = stretch chain low high := by
  have joint : middle + 1 = low + 1 + (middle - low) := by omega
  have total : high - low = middle - low + (high - middle) := by omega
  rw [stretch, stretch, stretch, ← List.map_append, joint, wordsFrom_append, total]

/-- The held blocks are those of the chain after `low` up to `high`. -/
def Holds (chain : U64 → B) (held : HashMap U64 B) (low high : Nat) : Prop :=
  ∀ round, held.lookup round = if low < round.val ∧ round.val ≤ high then some (chain round) else none

variable {held : HashMap U64 B}

theorem Holds.mem (holds : Holds chain held low high) {round : U64} : round ∈ held ↔ low < round.val ∧ round.val ≤ high := by
  rw [← AList.lookup_isSome, holds]
  split
  next inside => exact iff_of_true rfl inside
  next outside => exact iff_of_false Bool.false_ne_true outside

theorem Holds.top (holds : Holds chain held low high) (filled : low < high) (highest : U64) (last : highest.val = high) :
    held.keys.max? = some highest := by
  rw [List.max?_eq_some_iff]
  refine ⟨AList.mem_keys.mp (holds.mem.mpr ?_), ?_⟩
  · omega
  · intro round member
    have inside := holds.mem.mp (AList.mem_keys.mpr member)
    rw [Fin.le_def]
    omega

theorem round_mem_stretch (ordered : low ≤ high) (fits : high < 18446744073709551616) {block : B}
    (member : block ∈ stretch chain low high) :
    ∃ round, block = chain round ∧ low < round.val ∧ round.val ≤ high := by
  obtain ⟨round, inside, rfl⟩ := List.mem_map.mp member
  have between := (mem_wordsFrom (by omega)).mp inside
  exact ⟨round, rfl, by omega, by omega⟩

/-- More of the chain, right after what is held. -/
theorem Holds.insert [Block B H] (own : ∀ round, Block.round (chain round) = round) (holds : Holds chain held low middle)
    (lower : low ≤ middle) (upper : middle ≤ high) (fits : high < 18446744073709551616) :
    Holds chain (insertBlocks held (stretch chain middle high)) low high := by
  have inside : ∀ round, round ∈ insertBlocks held (stretch chain middle high) ↔ low < round.val ∧ round.val ≤ high := by
    intro round
    rw [mem_insertBlocks, holds.mem]
    constructor
    · intro either
      obtain before | ⟨block, member, same⟩ := either
      · omega
      · obtain ⟨other, rfl, between⟩ := round_mem_stretch upper fits member
        rw [own] at same
        subst same
        omega
    · intro between
      by_cases before : round.val ≤ middle
      · exact Or.inl ⟨between.1, before⟩
      · refine Or.inr ⟨chain round, List.mem_map_of_mem ?_, own round⟩
        rw [mem_wordsFrom (by omega)]
        omega
  intro round
  cases found : (insertBlocks held (stretch chain middle high)).lookup round with
  | none =>
    have absent := mt (inside round).mpr (AList.lookup_eq_none.mp found)
    rw [if_neg absent]
  | some block =>
    have present : round ∈ insertBlocks held (stretch chain middle high) := AList.lookup_isSome.mp (by rw [found]; rfl)
    rw [if_pos ((inside round).mp present)]
    obtain before | ⟨member, same⟩ := lookup_insertBlocks found
    · rw [holds] at before
      split at before
      · exact before.symm
      · cases before
    · obtain ⟨other, rfl, _⟩ := round_mem_stretch upper fits member
      rw [own] at same
      rw [same]

/-- The loop of `ready_blocks` hands out all that is held. -/
theorem drains_stretch {profile : Profile} {sync final : StateSync B} {next : U64} {result : Except Panic (List B)}
    (drains : Drains profile sync next result final) (following : next.val = sync.currentRound.val + 1)
    (holds : Holds chain sync.receivedBlocks sync.currentRound.val high) (lower : sync.currentRound.val ≤ high)
    (fits : high < u64Max.val) :
    result = .ok (stretch chain sync.currentRound.val high) ∧ final.currentRound.val = high ∧
      Holds chain final.receivedBlocks high high := by
  induction drains with
  | @stop sync next absent =>
    rw [holds, following] at absent
    have all : sync.currentRound.val = high := by
      by_contra other
      rw [if_pos (by omega)] at absent
      cases absent
    rw [all] at holds
    refine ⟨?_, all, holds⟩
    rw [all, stretch, Nat.sub_self]
    rfl
  | @take sync final next after block result found sum rest ih =>
    have inside : sync.currentRound.val < next.val ∧ next.val ≤ high := by
      by_contra outside
      rw [holds, if_neg outside] at found
      cases found
    rw [holds, if_pos inside] at found
    cases found
    obtain ⟨successor, same, value⟩ := U64.plus_one_of_lt profile (Fin.lt_def.mpr (inside.2.trans_lt fits))
    cases sum.symm.trans same
    have later : Holds chain (sync.advance next).receivedBlocks next.val high := by
      intro round
      rw [lookup_advance, holds]
      by_cases here : round = next
      · subst here
        rw [if_pos rfl, if_neg (by omega)]
      · have apart := Fin.val_ne_of_ne here
        rw [if_neg here]
        congr 1
        rw [eq_iff_iff]
        omega
    obtain ⟨rfl, reached, left⟩ := ih value later inside.2
    refine ⟨?_, reached, left⟩
    have count : high - sync.currentRound.val = high - next.val + 1 := by omega
    change Except.ok (chain next :: stretch chain next.val high) = _
    rw [stretch, stretch, count, ← following, wordsFrom_cons, List.map_cons]
  | @overflow sync next block _ found sum =>
    have inside : next.val ≤ high := by
      by_contra outside
      rw [holds, if_neg (by omega)] at found
      cases found
    obtain ⟨successor, same, _⟩ := U64.plus_one_of_lt profile (Fin.lt_def.mpr (inside.trans_lt fits))
    cases sum.symm.trans same

theorem readyBlocks_stretch (profile : Profile) {sync : StateSync B}
    (holds : Holds chain sync.receivedBlocks sync.currentRound.val high) (lower : sync.currentRound.val ≤ high)
    (fits : high < u64Max.val) :
    (sync.readyBlocks profile).1 = .ok (stretch chain sync.currentRound.val high) ∧
      (sync.readyBlocks profile).2.currentRound.val = high ∧
      Holds chain (sync.readyBlocks profile).2.receivedBlocks high high := by
  obtain ⟨successor, sum, following⟩ := U64.plus_one_of_lt profile (Fin.lt_def.mpr (lower.trans_lt fits))
  obtain ⟨reason, panics, _⟩ | ⟨next, same, drains⟩ := readyBlocks_cases profile sync
  · cases sum.symm.trans panics
  · cases sum.symm.trans same
    exact drains_stretch drains following holds lower fits

end Blocks

section Answers
variable [Block B H] {chain : U64 → B}

/-- A request that goes on where the rounds fetched so far end. -/
structure Continues (batch target epoch : U64) (reached : Nat) (request : SyncRequest) : Prop where
  first : request.startRound.val = reached + 1
  last : request.targetRound.val = min target.val (reached + batch.val)
  within : request.epoch = epoch

omit [Block B H] in
theorem answer_blocks {batch target epoch : U64} {reached : Nat} {request : SyncRequest}
    (continues : Continues batch target epoch reached request) :
    (answer chain request).blocks = stretch chain reached (min target.val (reached + batch.val)) := by
  rw [answer, continues.first, continues.last, stretch, Nat.add_sub_add_right]

theorem verifyWindows_of_consecutive (profile : Profile) {blocks : List B} (consecutive : Consecutive (blocks.map Block.round)) :
    verifyWindows profile blocks = .ok () := by
  induction blocks with
  | nil => rfl
  | cons first rest ih =>
    cases rest with
    | nil => rfl
    | cons second rest =>
      obtain ⟨counted, later⟩ := consecutive_cons_cons.mp consecutive
      obtain ⟨next, sum, following⟩ := U64.plus_one_of_lt profile (U64.lt_max_of_successor counted)
      simp only [verifyWindows, sum]
      rw [if_pos (Fin.ext (counted.trans following.symm))]
      exact ih later

theorem verify_stretch (profile : Profile) (own : ∀ round, Block.round (chain round) = round) {low high : Nat}
    (ordered : low ≤ high) (fits : high < 18446744073709551616) : verifyWindows profile (stretch chain low high) = .ok () := by
  apply verifyWindows_of_consecutive
  have rounds : (stretch chain low high).map Block.round = wordsFrom (low + 1) (high - low) := by
    rw [stretch, List.map_map]
    exact List.map_id'' own _
  rw [rounds]
  exact ⟨low + 1, countsFrom_wordsFrom (by omega)⟩

/-- The answer to the request that is due brings the sync to the end of its range, and the
next request is due there. -/
theorem addSyncResponse_answer (profile : Profile) (own : ∀ round, Block.round (chain round) = round) {sync : StateSync B}
    {target epoch : U64} {reached : Nat} {request : SyncRequest} (goal : sync.status.targetRound = some target)
    (holds : Holds chain sync.receivedBlocks sync.currentRound.val reached) (lower : sync.currentRound.val ≤ reached)
    (continues : Continues sync.config.maxBatchSize target epoch reached request) (short : reached < target.val)
    (batch : 0 < sync.config.maxBatchSize.val) (room : target.val + sync.config.maxBatchSize.val ≤ u64Max.val) :
    ∃ after, sync.addSyncResponse profile (answer chain request) = (.ok (), after) ∧
      after.config = sync.config ∧ after.currentRound = sync.currentRound ∧
      Holds chain after.receivedBlocks sync.currentRound.val (min target.val (reached + sync.config.maxBatchSize.val)) ∧
      (reached + sync.config.maxBatchSize.val < target.val → after.status.targetRound = some target ∧
        ∃ following, after.pendingRequests = sync.pendingRequests ++ [following] ∧
          Continues sync.config.maxBatchSize target epoch (reached + sync.config.maxBatchSize.val) following) ∧
      (target.val ≤ reached + sync.config.maxBatchSize.val →
        after.status.isCompleted = true ∧ after.pendingRequests = sync.pendingRequests) := by
  have last : u64Max.val = 18446744073709551615 := rfl
  obtain ⟨size, named⟩ : ∃ size, size = sync.config.maxBatchSize.val := ⟨_, rfl⟩
  rw [← named] at batch room ⊢
  have fits : min target.val (reached + size) < 18446744073709551616 := by omega
  have further : reached ≤ min target.val (reached + size) := by omega
  have verified := verify_stretch profile own further fits
  have merged := holds.insert own lower further fits
  obtain ⟨highest, value⟩ : ∃ highest : U64, highest.val = min target.val (reached + size) := ⟨⟨_, fits⟩, rfl⟩
  have top := merged.top (by omega) highest value
  simp only [addSyncResponse, goal, SyncResponse.verifySequential, answer_blocks continues, ← named, verified, top, updateStatus]
  by_cases done : target.val ≤ reached + size
  · have ended : target ≤ highest := by
      rw [Fin.le_def]
      omega
    simp only [ge_iff_le, ended, if_true]
    refine ⟨_, rfl, rfl, rfl, merged, ?_, ?_⟩
    · intro more
      omega
    · intro _
      exact ⟨rfl, rfl⟩
  · have whole : highest.val = reached + size := by omega
    have below : highest < target := by
      rw [Fin.lt_def]
      omega
    obtain ⟨start, next, first⟩ := U64.plus_one_of_lt profile below
    obtain ⟨batchEnd, sum, ending⟩ | ⟨overflows, _⟩ := U64.plus_cases profile highest sync.config.maxBatchSize
    · simp only [ge_iff_le, not_le.mpr below, if_false, answer, below, decide_true, Bool.and_true, if_true, next, sum]
      refine ⟨_, rfl, rfl, rfl, merged, ?_, ?_⟩
      · intro _
        refine ⟨rfl, _, rfl, first.trans (congrArg (· + 1) whole), ?_, continues.within⟩
        rw [Fin.coe_min, ending, ← named, whole]
      · intro beyond
        exact absurd beyond done
    · omega

end Answers

/-- How far the answers so far reach. -/
def reached (batch start target : U64) (run : List (FetchEvent B)) : Nat := min target.val (start.val + answers run * batch.val)

section Runs
variable {batch start target epoch : U64} {past : List (FetchEvent B)} {fetch : Fetch B} {chain : U64 → B}

/-- A sync on its way to the target. Until it is there, one request is waiting or in
flight. -/
structure Fetching (chain : U64 → B) (batch start target epoch : U64) (past : List (FetchEvent B)) (fetch : Fetch B) :
    Prop where
  size : fetch.sync.config.maxBatchSize = batch
  low : start.val ≤ fetch.sync.currentRound.val
  high : fetch.sync.currentRound.val ≤ reached batch start target past
  held : Holds chain fetch.sync.receivedBlocks fetch.sync.currentRound.val (reached batch start target past)
  given : past.flatMap handed = stretch chain start.val fetch.sync.currentRound.val
  short : reached batch start target past < target.val → fetch.sync.status.targetRound = some target ∧
    ∃ request, fetch.sync.pendingRequests ++ fetch.asked = [request] ∧
      Continues batch target epoch (reached batch start target past) request
  done : reached batch start target past = target.val → fetch.sync.status.isCompleted = true ∧
    fetch.sync.pendingRequests ++ fetch.asked = []

theorem answers_snoc (past : List (FetchEvent B)) (last : FetchEvent B) :
    answers (past ++ [last]) =
      answers past + if last.input = .respond ∧ last.before.asked ≠ [] then 1 else 0 := by
  rw [answers, List.countP_append, List.countP_singleton]
  congr 2
  simp

theorem reached_quiet {last : FetchEvent B} (quiet : ¬ (last.input = .respond ∧ last.before.asked ≠ [])) :
    reached batch start target (past ++ [last]) = reached batch start target past := by
  rw [reached, answers_snoc, if_neg quiet, Nat.add_zero, reached]

theorem reached_answered {last : FetchEvent B} (responds : last.input = .respond) (waiting : last.before.asked ≠ []) :
    reached batch start target (past ++ [last]) = min target.val (reached batch start target past + batch.val) := by
  rw [reached, answers_snoc, if_pos ⟨responds, waiting⟩, reached, Nat.add_mul, Nat.one_mul]
  omega

theorem reached_le (batch start target : U64) (past : List (FetchEvent B)) : reached batch start target past ≤ target.val :=
  Nat.min_le_left _ _

theorem Fetching.waiting (fetching : Fetching chain batch start target epoch past fetch) :
    fetch.sync.pendingRequests ++ fetch.asked = [] ∨ ∃ request, fetch.sync.pendingRequests ++ fetch.asked = [request] := by
  obtain below | there := (reached_le batch start target past).lt_or_eq
  · obtain ⟨_, request, one, _⟩ := fetching.short below
    exact Or.inr ⟨request, one⟩
  · exact Or.inl (fetching.done there).2

/-- A move that brings no answer and hands out nothing. -/
theorem Fetching.quiet (fetching : Fetching chain batch start target epoch past fetch) {last : FetchEvent B} {after : Fetch B}
    (unanswered : ¬ (last.input = .respond ∧ last.before.asked ≠ [])) (nothing : handed last = [])
    (frame : after.sync = { fetch.sync with
      pendingRequests := after.sync.pendingRequests, highestKnownRound := after.sync.highestKnownRound })
    (requests : after.sync.pendingRequests ++ after.asked = fetch.sync.pendingRequests ++ fetch.asked) :
    Fetching chain batch start target epoch (past ++ [last]) after := by
  obtain ⟨size, low, high, held, given, short, done⟩ := fetching
  rw [← requests] at short done
  rw [← reached_quiet unanswered] at high held short done
  refine ⟨?_, ?_, ?_, ?_, ?_, ?_, ?_⟩
  · rw [frame]
    exact size
  · rw [frame]
    exact low
  · rw [frame]
    exact high
  · rw [frame]
    exact held
  · rw [frame, List.flatMap_append, given, List.flatMap_singleton, nothing, List.append_nil]
  · intro below
    obtain ⟨goal, due⟩ := short below
    refine ⟨?_, due⟩
    rw [frame]
    exact goal
  · intro there
    obtain ⟨completed, noRequests⟩ := done there
    refine ⟨?_, noRequests⟩
    rw [frame]
    exact completed

variable [Block B H]

theorem Fetching.ask (fetching : Fetching chain batch start target epoch past fetch) (profile : Profile) :
    Fetching chain batch start target epoch (past ++ [event (move profile chain) fetch .ask]) (move profile chain fetch .ask).2 := by
  have unanswered : ¬ ((Move.ask : Move) = .respond ∧ fetch.asked ≠ []) := fun both => Move.noConfusion both.1
  obtain noRequests | ⟨request, one⟩ := fetching.waiting
  · obtain ⟨pending, asked⟩ := List.append_eq_nil_iff.mp noRequests
    refine fetching.quiet unanswered ?_ ?_ ?_
    · simp [handed, event, move, takeNextRequest, pending]
    · simp [move, takeNextRequest, pending]
    · simp [move, takeNextRequest, pending]
  · obtain ⟨pending, asked⟩ | ⟨pending, asked⟩ := List.append_eq_singleton_iff.mp one
    · refine fetching.quiet unanswered ?_ ?_ ?_
      · simp [handed, event, move, takeNextRequest, pending]
      · simp [move, takeNextRequest, pending]
      · simp [move, takeNextRequest, pending]
    · refine fetching.quiet unanswered ?_ ?_ ?_
      · simp [handed, event, move, takeNextRequest, pending]
      · simp [move, takeNextRequest, pending]
      · simp [move, takeNextRequest, pending, asked]

theorem Fetching.hear (fetching : Fetching chain batch start target epoch past fetch) (profile : Profile) (round : U64) :
    Fetching chain batch start target epoch (past ++ [event (move profile chain) fetch (.hear round)])
      (move profile chain fetch (.hear round)).2 := by
  obtain ⟨highestKnownRound, heard⟩ := updateHighestKnownRound_frame fetch.sync round
  refine fetching.quiet (fun both => Move.noConfusion both.1) rfl ?_ ?_
  · simp only [move, heard]
  · simp only [move, heard]

theorem Fetching.deliver (fetching : Fetching chain batch start target epoch past fetch) (profile : Profile)
    (room : target.val + batch.val ≤ u64Max.val) (positive : 0 < batch.val) :
    (∃ blocks, (move profile chain fetch .deliver).1 = .ok blocks) ∧
    Fetching chain batch start target epoch (past ++ [event (move profile chain) fetch .deliver])
      (move profile chain fetch .deliver).2 := by
  obtain ⟨size, low, high, held, given, short, done⟩ := fetching
  have top := reached_le batch start target past
  obtain ⟨ready, reaches, left⟩ := readyBlocks_stretch profile held high (by omega)
  have frame := readyBlocks_frame profile fetch.sync
  have same : reached batch start target (past ++ [event (move profile chain) fetch .deliver]) =
      reached batch start target past := reached_quiet fun both => Move.noConfusion both.1
  have blocks : (move profile chain fetch .deliver).1 =
      .ok (stretch chain fetch.sync.currentRound.val (reached batch start target past)) := by
    simp only [move, ready]
    rfl
  refine ⟨⟨_, blocks⟩, ?_, ?_, ?_, ?_, ?_, ?_, ?_⟩
  · change (fetch.sync.readyBlocks profile).2.config.maxBatchSize = batch
    rw [frame]
    exact size
  · change start.val ≤ (fetch.sync.readyBlocks profile).2.currentRound.val
    omega
  · change (fetch.sync.readyBlocks profile).2.currentRound.val ≤ _
    rw [reaches, same]
  · change Holds chain (fetch.sync.readyBlocks profile).2.receivedBlocks (fetch.sync.readyBlocks profile).2.currentRound.val _
    rw [reaches, same]
    exact left
  · have handsOut : handed (event (move profile chain) fetch .deliver) =
        stretch chain fetch.sync.currentRound.val (reached batch start target past) := by
      simp only [handed, event_output, blocks]
    change _ = stretch chain start.val (fetch.sync.readyBlocks profile).2.currentRound.val
    rw [List.flatMap_append, given, List.flatMap_singleton, handsOut, reaches, stretch_append low high]
  · change _ → (fetch.sync.readyBlocks profile).2.status.targetRound = _ ∧
      ∃ request, (fetch.sync.readyBlocks profile).2.pendingRequests ++ _ = _ ∧ _
    rw [same, frame]
    exact short
  · change _ → (fetch.sync.readyBlocks profile).2.status.isCompleted = _ ∧
      (fetch.sync.readyBlocks profile).2.pendingRequests ++ _ = _
    rw [same, frame]
    exact done

/-- The answer to the request in flight. -/
theorem Fetching.respond (fetching : Fetching chain batch start target epoch past fetch) (profile : Profile)
    (own : ∀ round, Block.round (chain round) = round) (room : target.val + batch.val ≤ u64Max.val) (positive : 0 < batch.val) :
    (move profile chain fetch .respond).1 = .ok [] ∧
    Fetching chain batch start target epoch (past ++ [event (move profile chain) fetch .respond])
      (move profile chain fetch .respond).2 := by
  cases waiting : fetch.asked with
  | nil =>
    have still : move profile chain fetch .respond = (.ok [], fetch) := by simp only [move, waiting]
    rw [still]
    refine ⟨rfl, fetching.quiet ?_ ?_ rfl rfl⟩
    · intro both
      exact both.2 waiting
    · simp only [handed, event_output, still]
  | cons request rest =>
    have below : reached batch start target past < target.val := by
      apply (reached_le batch start target past).lt_of_ne
      intro there
      have noRequests := (fetching.done there).2
      rw [waiting] at noRequests
      exact List.cons_ne_nil _ _ (List.append_eq_nil_iff.mp noRequests).2
    obtain ⟨size, low, high, held, given, short, done⟩ := fetching
    subst size
    obtain ⟨goal, due, one, continues⟩ := short below
    have single : fetch.sync.pendingRequests = [] ∧ request = due ∧ rest = [] := by
      rw [waiting] at one
      obtain ⟨pending, same⟩ | ⟨_, noRest⟩ := List.append_eq_singleton_iff.mp one
      · exact ⟨pending, List.cons.inj same⟩
      · cases noRest
    obtain ⟨pending, rfl, rfl⟩ := single
    obtain ⟨after, answered, config, round, merged, continuing, closed⟩ :=
      addSyncResponse_answer profile own goal held high continues below positive room
    have brought : move profile chain fetch .respond = (.ok [], ⟨after, []⟩) := by
      simp only [move, waiting, answered]
      rfl
    have further : reached fetch.sync.config.maxBatchSize start target (past ++ [event (move profile chain) fetch .respond]) =
        min target.val (reached fetch.sync.config.maxBatchSize start target past + fetch.sync.config.maxBatchSize.val) :=
      reached_answered rfl (by rw [event_before, waiting]; exact List.cons_ne_nil _ _)
    rw [brought]
    refine ⟨rfl, congrArg _ config, ?_, ?_, ?_, ?_, ?_, ?_⟩
    · change start.val ≤ after.currentRound.val
      rw [round]
      exact low
    · change after.currentRound.val ≤ _
      rw [round, further]
      omega
    · change Holds chain after.receivedBlocks after.currentRound.val _
      rw [round, further]
      exact merged
    · have nothing : handed (event (move profile chain) fetch .respond) = [] := by simp only [handed, event_output, brought]
      change _ = stretch chain start.val after.currentRound.val
      rw [List.flatMap_append, given, List.flatMap_singleton, nothing, List.append_nil, round]
    · intro short
      rw [further] at short ⊢
      obtain ⟨target, following, pushed, next⟩ := continuing (by omega)
      refine ⟨target, following, ?_, ?_⟩
      · change after.pendingRequests ++ [] = _
        rw [pushed, pending, List.append_nil, List.nil_append]
      · rwa [Nat.min_eq_right (by omega)]
    · intro there
      rw [further] at there
      obtain ⟨completed, kept⟩ := closed (by omega)
      refine ⟨completed, ?_⟩
      change after.pendingRequests ++ [] = []
      rw [kept, pending, List.append_nil]

theorem Fetching.step (fetching : Fetching chain batch start target epoch past fetch) (profile : Profile)
    (own : ∀ round, Block.round (chain round) = round) (room : target.val + batch.val ≤ u64Max.val) (positive : 0 < batch.val)
    (input : Move) :
    (∃ blocks, (move profile chain fetch input).1 = .ok blocks) ∧
    Fetching chain batch start target epoch (past ++ [event (move profile chain) fetch input])
      (move profile chain fetch input).2 := by
  cases input with
  | ask =>
    refine ⟨⟨[], ?_⟩, fetching.ask profile⟩
    simp only [move]
    split <;> rfl
  | respond =>
    obtain ⟨returned, after⟩ := fetching.respond profile own room positive
    exact ⟨⟨[], returned⟩, after⟩
  | deliver => exact fetching.deliver profile room positive
  | hear round => exact ⟨⟨[], rfl⟩, fetching.hear profile round⟩

theorem Fetching.run (fetching : Fetching chain batch start target epoch [] fetch) (profile : Profile)
    (own : ∀ round, Block.round (chain round) = round) (room : target.val + batch.val ≤ u64Max.val) (positive : 0 < batch.val)
    (moves : List Move) :
    (∀ current ∈ trace (move profile chain) fetch moves, ∃ blocks, current.output = .ok blocks) ∧
    Fetching chain batch start target epoch (trace (move profile chain) fetch moves) (exec (move profile chain) fetch moves) := by
  have always : Meets (move profile chain) (fun _ _ => True) fetch moves := fun _ _ _ _ => trivial
  rw [← meets_iff_trace]
  constructor
  · refine always.derive fetching ?_ ?_
    · intro past fetch input here _
      exact (here.step profile own room positive input).2
    · intro past fetch input here _
      exact (here.step profile own room positive input).1
  · refine always.history fetching ?_
    intro past fetch input here _
    exact (here.step profile own room positive input).2

/-- A sync that has just been started, with nothing left over from before. -/
theorem Fetching.begun (profile : Profile) (chain : U64 → B) (epoch : U64) {sync : StateSync B}
    (idle : sync.status.isInProgress = false) (noRequests : sync.pendingRequests = []) (empty : sync.receivedBlocks = ∅)
    (behind : sync.currentRound < target) :
    (sync.startSync profile target epoch).1 = .ok () ∧
    Fetching chain sync.config.maxBatchSize sync.currentRound target epoch [] ⟨(sync.startSync profile target epoch).2, []⟩ := by
  rw [Fin.lt_def] at behind
  have here : reached sync.config.maxBatchSize sync.currentRound target ([] : List (FetchEvent B)) = sync.currentRound.val := by
    simp only [reached, answers, List.countP_nil]
    omega
  obtain ⟨busy, _⟩ | ⟨_, ahead, _⟩ | ⟨_, _, requestTarget, startRound, last, first, answer⟩ :=
    startSync_cases profile sync target epoch
  · cases idle.symm.trans busy
  · rw [Fin.le_def] at ahead
    omega
  · rw [answer]
    refine ⟨rfl, rfl, le_rfl, here.ge, ?_, ?_, ?_, ?_⟩
    · intro round
      rw [here, if_neg (by change ¬ (sync.currentRound.val < _ ∧ _); omega)]
      change AList.lookup round sync.receivedBlocks = none
      rw [empty]
      exact AList.lookup_empty round
    · change [] = stretch chain sync.currentRound.val sync.currentRound.val
      rw [stretch, Nat.sub_self]
      rfl
    · intro _
      refine ⟨rfl, ⟨requestTarget, startRound, epoch⟩, ?_, ?_, ?_, rfl⟩
      · change (sync.pendingRequests ++ [_]) ++ [] = [_]
        rw [noRequests]
        rfl
      · rw [here]
        exact first
      · rw [here]
        change requestTarget.val = _
        omega
    · intro there
      omega

/-- Catching up ends. Whatever order requests, answers and deliveries come in, no call
fails, a request is waiting or in flight until the target is reached, it is reached with as
many answers as there are batches, and the blocks handed out are those of the chain. -/
theorem sync_catches_up (profile : Profile) {chain : U64 → B} (own : ∀ round, Block.round (chain round) = round)
    (sync : StateSync B) (target epoch : U64) (idle : sync.status.isInProgress = false)
    (noRequests : sync.pendingRequests = []) (empty : sync.receivedBlocks = ∅) (behind : sync.currentRound < target)
    (positive : 0 < sync.config.maxBatchSize.val) (room : target.val + sync.config.maxBatchSize.val ≤ u64Max.val) (moves : List Move) :
    let started := sync.startSync profile target epoch
    let run := trace (move profile chain) ⟨started.2, []⟩ moves
    let final := exec (move profile chain) ⟨started.2, []⟩ moves
    let reached := min target.val (sync.currentRound.val + answers run * sync.config.maxBatchSize.val)
    started.1 = .ok () ∧ (∀ current ∈ run, ∃ blocks, current.output = .ok blocks) ∧
    (final.sync.status.isCompleted = true ↔ reached = target.val) ∧
    (reached < target.val → ∃ request, final.sync.pendingRequests ++ final.asked = [request] ∧
      request.startRound.val = reached + 1 ∧ request.targetRound.val = min target.val (reached + sync.config.maxBatchSize.val) ∧
      request.epoch = epoch) ∧
    ∃ ready, (final.sync.readyBlocks profile).1 = .ok ready ∧
      run.flatMap handed ++ ready = stretch chain sync.currentRound.val reached := by
  intro started run final
  obtain ⟨accepted, initial⟩ := Fetching.begun profile chain epoch idle noRequests empty behind
  obtain ⟨returned, ended⟩ := initial.run profile own room positive moves
  have top := reached_le sync.config.maxBatchSize sync.currentRound target run
  obtain ⟨ready, _, _⟩ := readyBlocks_stretch profile ended.held ended.high (top.trans_lt (by omega))
  refine ⟨accepted, returned, ?_, ?_, _, ready, ?_⟩
  · constructor
    · intro completed
      refine top.eq_of_not_lt ?_
      intro below
      have goal := (ended.short below).1
      cases status : final.sync.status with
      | inProgress => rw [status] at completed; cases completed
      | _ => rw [status] at goal; cases goal
    · intro there
      exact (ended.done there).1
  · intro below
    obtain ⟨_, request, one, continues⟩ := ended.short below
    exact ⟨request, one, continues.first, continues.last, continues.within⟩
  · rw [ended.given]
    exact stretch_append ended.low ended.high

/-- Three rounds in batches of two: an answer, a delivery in between, and another answer. -/
theorem two_answers_catch_up :
    let chain : U64 → MockBlock := fun round => makeBlock round 1 1 ⟨0⟩
    let sync : StateSync MockBlock := .new ⟨2⟩ 50
    let started := sync.startSync .dev 53 1
    let moves := [.ask, .hear 60, .respond, .deliver, .ask, .respond]
    let run := trace (move .dev chain) ⟨started.2, []⟩ moves
    let final := exec (move .dev chain) ⟨started.2, []⟩ moves
    answers run = 2 ∧ final.sync.currentRound = 52 ∧ final.sync.status.isCompleted = true ∧
      ∃ ready, (final.sync.readyBlocks .dev).1 = .ok ready ∧ run.flatMap handed ++ ready = stretch chain 50 53 := by
  intro chain sync started moves run final
  have two : answers run = 2 := by decide
  have here : final.sync.currentRound = 52 := by decide
  have own : ∀ round, Block.round (chain round) = round := fun _ => rfl
  have all : min (53 : U64).val ((50 : U64).val + answers run * (2 : U64).val) = (53 : U64).val := by
    rw [two]
    rfl
  have caught := sync_catches_up .dev own sync 53 1 rfl rfl rfl (by decide) (by decide) (by decide) moves
  obtain ⟨ready, rest, whole⟩ := caught.2.2.2.2
  exact ⟨two, here, by decide, ready, rest, whole.trans (congrArg (stretch chain 50) all)⟩

end Runs

end AptosBft.Proofs.SyncPeer
