import AptosBft.Proofs.StateSync

/-! What the blocks handed out by `ready_blocks` add up to over a whole run: the
rounds without a gap, and, as long as the responses fit together, one chain. -/

namespace AptosBft.Proofs.SyncDelivery
open Rust Mealy AptosBft.StateSync AptosBft.Proofs.StateSync

variable {B H : Type}

section Delivery
variable [Block B H] {profile : Profile} {sync : StateSync B}

/-- Blocks are kept under their own rounds, all below the last one. -/
structure Stocked (sync : StateSync B) : Prop where
  keyed : Keyed sync.receivedBlocks
  room : ∀ round block, sync.receivedBlocks.lookup round = some block → round < u64Max
  behind : sync.currentRound < u64Max

theorem Stocked.new (config : StateSyncConfig) {currentRound : U64} (behind : currentRound < u64Max) :
    Stocked (.new config currentRound : StateSync B) where
  keyed _ _ found := by cases found
  room _ _ found := by cases found
  behind := behind

/-- Responses carry no block of the last round. -/
def InRange : Call B → Prop
  | .addSyncResponse response => ∀ block ∈ response.blocks, Block.round block < u64Max
  | _ => True

/-- What `ready_blocks` does where the rounds do not run out. -/
theorem Stocked.ready (stocked : Stocked sync) (profile : Profile) :
    ∃ ready, (sync.readyBlocks profile).1 = .ok ready ∧
      ready.map (fun block => (Block.round block).val) = List.range' (sync.currentRound.val + 1) ready.length ∧
      (sync.readyBlocks profile).2.currentRound.val = sync.currentRound.val + ready.length ∧
      ∀ round, round.val = (sync.readyBlocks profile).2.currentRound.val + 1 →
        (sync.readyBlocks profile).2.receivedBlocks.lookup round = none := by
  obtain ⟨successor, sum, following⟩ := U64.plus_one_of_lt profile stocked.behind
  obtain ⟨reason, panics, _⟩ | ⟨next, same, drains⟩ := readyBlocks_cases profile sync
  · cases sum.symm.trans panics
  · cases sum.symm.trans same
    rw [← following]
    exact drains.counts following stocked.keyed stocked.room

theorem Stocked.call (stocked : Stocked sync) {input : Call B} (inRange : InRange input) (profile : Profile) :
    Stocked (call profile sync input).2 where
  keyed := stocked.keyed.call profile input
  room round block found := by
    obtain before | ⟨response, rfl, member, same⟩ := call_held found
    · exact stocked.room round block before
    · exact same ▸ inRange block member
  behind := by
    by_cases ready : input = .readyBlocks
    · subst ready
      change (sync.readyBlocks profile).2.currentRound < u64Max
      obtain ⟨reason, _, answer⟩ | ⟨next, _, drains⟩ := readyBlocks_cases profile sync
      · rw [answer]
        exact stocked.behind
      · rcases drains.lands with same | ⟨block, held⟩
        · rw [same]
          exact stocked.behind
        · exact stocked.room _ block held
    · rw [call_currentRound ready]
      exact stocked.behind

/-- The blocks a call hands out. -/
def delivered (current : SyncEvent B) : List B :=
  match current.output with
  | .ready (.ok blocks) => blocks
  | _ => []

def deliveredRounds (run : List (SyncEvent B)) : List Nat := (run.flatMap delivered).map fun block => (Block.round block).val

/-- The state of a run that has delivered the rounds up to the current one. -/
structure Delivered (start : U64) (past : List (SyncEvent B)) (sync : StateSync B) : Prop where
  stocked : Stocked sync
  forward : start ≤ sync.currentRound
  rounds : deliveredRounds past = List.range' (start.val + 1) (sync.currentRound.val - start.val)

theorem delivered_other (profile : Profile) (sync : StateSync B) {input : Call B} (other : input ≠ .readyBlocks) :
    delivered (event (call profile) sync input) = [] := by
  cases input with
  | readyBlocks => exact absurd rfl other
  | _ => rfl

theorem Delivered.call {start : U64} {past : List (SyncEvent B)} {sync : StateSync B} (before : Delivered start past sync)
    {input : Call B} (inRange : InRange input) (profile : Profile) :
    Delivered start (past ++ [event (call profile) sync input]) (call profile sync input).2 := by
  have grown : deliveredRounds (past ++ [event (AptosBft.StateSync.call profile) sync input]) = deliveredRounds past ++
      (delivered (event (AptosBft.StateSync.call profile) sync input)).map fun block => (Block.round block).val := by
    simp only [deliveredRounds, List.flatMap_append, List.map_append, List.flatMap_singleton]
  by_cases ready : input = .readyBlocks
  · subst ready
    obtain ⟨blocks, returned, rounds, moved, _⟩ := before.stocked.ready profile
    have forward := Fin.le_def.mp before.forward
    refine ⟨before.stocked.call inRange profile, ?_, ?_⟩
    · change start.val ≤ (sync.readyBlocks profile).2.currentRound.val
      omega
    · have handed : delivered (event (AptosBft.StateSync.call profile) sync .readyBlocks) = blocks := by
        simp only [delivered, event, AptosBft.StateSync.call, returned]
      rw [grown, handed, before.rounds, rounds]
      change _ = List.range' (start.val + 1) ((sync.readyBlocks profile).2.currentRound.val - start.val)
      have joint : start.val + 1 + (sync.currentRound.val - start.val) = sync.currentRound.val + 1 := by omega
      have total : sync.currentRound.val + blocks.length - start.val =
          sync.currentRound.val - start.val + blocks.length := by omega
      rw [moved, total, ← List.range'_append_1, joint]
  · have same : (AptosBft.StateSync.call profile sync input).2.currentRound = sync.currentRound := call_currentRound ready
    refine ⟨before.stocked.call inRange profile, ?_, ?_⟩
    · rw [same]
      exact before.forward
    · rw [grown, delivered_other profile sync ready, List.map_nil, List.append_nil, same]
      exact before.rounds

/-- Whatever is requested, answered, overlapping, repeated or cancelled in between,
the blocks handed out are those of the rounds after the first one, in order and
without a gap. -/
theorem delivers_gap_free (profile : Profile) (config : StateSyncConfig) {start : U64} (below : start < u64Max)
    {calls : List (Call B)} (inRange : ∀ call ∈ calls, InRange call) :
    let run := trace (call profile) (.new config start) calls
    let final := exec (call profile) (.new config start) calls
    deliveredRounds run = List.range' (start.val + 1) (final.currentRound.val - start.val) ∧ start ≤ final.currentRound ∧
    ∀ current ∈ run,
      (current.input ≠ .readyBlocks → current.after.currentRound = current.before.currentRound) ∧
      (current.input = .readyBlocks →
        (∃ ready, current.output = .ready (.ok ready)) ∧
        (∀ round, round.val = current.after.currentRound.val + 1 → current.after.hasBlock round = false) ∧
        ∀ next turns, U64.plus profile current.before.currentRound 1 = .ok next →
          current.before.receivedBlocks.len ≤ turns →
            readyLoop profile turns current.before next [] = current.before.readyBlocks profile) := by
  intro run final
  have meets : Meets (call profile) (fun _ current => InRange current.input) (.new config start) calls := meets_of_forall inRange
  have whole : Delivered start run final := by
    refine meets.history ?_ ?_
    · exact ⟨.new config below, le_rfl, by simp [deliveredRounds, AptosBft.StateSync.new]⟩
    · intro _ _ _ before here
      exact before.call here profile
  refine ⟨whole.rounds, whole.forward, ?_⟩
  refine forall_trace_derive (meets_iff_trace.mp meets) (Stocked.new config below) ?_ ?_
  · intro _ _ stocked here
    exact stocked.call here profile
  · intro sync input stocked _
    refine ⟨call_currentRound, ?_⟩
    rintro (rfl : input = .readyBlocks)
    obtain ⟨ready, returned, _, _, ended⟩ := stocked.ready profile
    refine ⟨⟨ready, congrArg Reply.ready returned⟩, ?_, ?_⟩
    · intro round following
      exact decide_eq_false (AList.lookup_eq_none.mp (ended round following))
    · intro next turns sum enough
      simp only [event_before] at sum enough ⊢
      simp only [readyBlocks, sum]
      exact readyLoop_stable profile next [] enough

end Delivery

abbrev MockSync := StateSync MockBlock

def MockBlock.answer (blocks : List MockBlock) : Call MockBlock := .addSyncResponse ⟨blocks, 1, false⟩

theorem overlapping_answers_delivered :
    let calls := [.startSync 53 1, MockBlock.answer [makeBlock 52 1 1 ⟨0⟩], .readyBlocks,
      MockBlock.answer [makeBlock 51 1 1 ⟨0⟩, makeBlock 52 1 1 ⟨0⟩], .readyBlocks]
    let run := trace (call .dev) (.new .default 50 : MockSync) calls
    deliveredRounds run = [51, 52] ∧ (exec (call .dev) (.new .default 50 : MockSync) calls).currentRound = 52 ∧
      ∀ current ∈ run, current.input = .readyBlocks → ∃ ready, current.output = .ready (.ok ready) := by
  intro calls run
  have inRange : ∀ call ∈ calls, InRange call := by
    simp only [calls, MockBlock.answer, List.forall_mem_cons, InRange, true_and, List.not_mem_nil, false_implies,
      implies_true, and_true]
    decide
  have below : (50 : U64) < u64Max := by decide
  obtain ⟨rounds, _, steps⟩ := delivers_gap_free .dev .default below inRange
  refine ⟨rounds, by decide, ?_⟩
  intro current member ready
  exact ((steps current member).2 ready).1

section Chain
variable [Block B H]

/-- Every batch handed out is a chain, and a response takes no held block's place. -/
structure OneChain (current : SyncEvent B) : Prop where
  batches : ∀ ready, current.output = .ready (.ok ready) → ready.IsChain Link
  kept : ∀ response, current.input = .addSyncResponse response → ∀ round block,
    current.before.receivedBlocks.lookup round = some block → current.after.receivedBlocks.lookup round = some block

/-- A response that is let in repeats the held blocks of its rounds, and the blocks
of consecutive rounds, held or in the response, are linked. -/
def Extends (profile : Profile) (current : SyncEvent B) : Prop :=
  match current.input with
  | .addSyncResponse response =>
    current.before.status.isInProgress = true → response.verifySequential profile = .ok () →
      (∀ block ∈ response.blocks, ∀ held, current.before.receivedBlocks.lookup (Block.round block) = some held → held = block) ∧
      ∀ parent child,
        (parent ∈ response.blocks ∨ current.before.receivedBlocks.lookup (Block.round parent) = some parent) →
        (child ∈ response.blocks ∨ current.before.receivedBlocks.lookup (Block.round child) = some child) →
        U64.plus profile (Block.round parent) 1 = .ok (Block.round child) → Link parent child
  | _ => True

variable {profile : Profile} {sync : StateSync B}

theorem insertBlocks_keeps {held : HashMap U64 B} {blocks : List B}
    (repeats : ∀ block ∈ blocks, ∀ other, held.lookup (Block.round block) = some other → other = block)
    {round : U64} {block : B} (found : held.lookup round = some block) :
    (insertBlocks held blocks).lookup round = some block := by
  have present : round ∈ insertBlocks held blocks :=
    mem_insertBlocks.mpr (Or.inl (AList.lookup_isSome.mp (by rw [found]; rfl)))
  obtain ⟨stored, inside⟩ := Option.isSome_iff_exists.mp (AList.lookup_isSome.mpr present)
  rw [inside]
  obtain before | ⟨member, rfl⟩ := lookup_insertBlocks inside
  · exact before.symm.trans found
  · rw [repeats stored member block found]

theorem linked_call (linked : Linked profile sync.receivedBlocks) (keyed : Keyed sync.receivedBlocks) {input : Call B}
    (extending : Extends profile (event (call profile) sync input)) :
    Linked profile (call profile sync input).2.receivedBlocks := by
  by_cases response : ∃ given, input = .addSyncResponse given
  · obtain ⟨response, rfl⟩ := response
    change Linked profile (sync.addSyncResponse profile response).2.receivedBlocks
    obtain same | ⟨busy, verified, merged⟩ := addSyncResponse_blocks profile sync response
    · rw [same]
      exact linked
    · obtain ⟨_, joined⟩ := extending busy verified
      have origin : ∀ round block, (insertBlocks sync.receivedBlocks response.blocks).lookup round = some block →
          Block.round block = round ∧
            (block ∈ response.blocks ∨ sync.receivedBlocks.lookup (Block.round block) = some block) := by
        intro round block found
        obtain before | ⟨member, same⟩ := lookup_insertBlocks found
        · have own := keyed round block before
          exact ⟨own, Or.inr (by rw [own]; exact before)⟩
        · exact ⟨same, Or.inl member⟩
      rw [merged]
      intro round following parent child sum first second
      obtain ⟨rfl, parental⟩ := origin round parent first
      obtain ⟨rfl, filial⟩ := origin following child second
      exact joined parent child parental filial sum
  · refine linked.fewer ?_
    intro round block found
    obtain before | ⟨given, same, _⟩ := call_held found
    · exact before
    · exact absurd ⟨given, same⟩ response

theorem oneChain_step (linked : Linked profile sync.receivedBlocks) {input : Call B}
    (extending : Extends profile (event (call profile) sync input)) : OneChain (event (call profile) sync input) := by
  refine ⟨?_, ?_⟩
  · intro ready returned
    cases input with
    | readyBlocks =>
      have answered : (sync.readyBlocks profile).1 = .ok ready := Reply.ready.inj returned
      obtain ⟨reason, _, answer⟩ | ⟨next, _, drains⟩ := readyBlocks_cases profile sync
      · rw [answer] at answered
        cases answered
      · exact (drains.chain linked answered).1
    | _ => cases returned
  · rintro response (rfl : input = _) round block found
    change (sync.addSyncResponse profile response).2.receivedBlocks.lookup round = some block
    obtain same | ⟨busy, verified, merged⟩ := addSyncResponse_blocks profile sync response
    · rw [same]
      exact found
    · rw [merged]
      exact insertBlocks_keeps (extending busy verified).1 found

/-- Where every response that is let in extends what is held, all batches are chains
and no held block is replaced. -/
theorem synced_blocks_form_chain (profile : Profile) (config : StateSyncConfig) (start : U64) {calls : List (Call B)}
    (extending : ∀ current ∈ trace (call profile) (.new config start) calls, Extends profile current) :
    ∀ current ∈ trace (call profile) (.new config start) calls, OneChain current := by
  have initial : Keyed (∅ : HashMap U64 B) ∧ Linked profile (∅ : HashMap U64 B) := by
    refine ⟨?_, ?_⟩
    · intro _ _ found
      cases found
    · intro _ _ _ _ _ found
      cases found
  refine forall_trace_derive (motive := fun sync => Keyed sync.receivedBlocks ∧ Linked profile sync.receivedBlocks) extending initial
    ?_ ?_
  · intro sync input valid here
    exact ⟨valid.1.call profile input, linked_call valid.2 valid.1 here⟩
  · intro sync input valid here
    exact oneChain_step valid.2 here

end Chain

theorem linked_answers_delivered :
    let calls := [.startSync 53 1, MockBlock.answer [makeBlock 51 1 1 ⟨9⟩, makeBlock 52 1 1 ⟨50⟩], .readyBlocks]
    let run := trace (call .dev) (.new .default 50 : MockSync) calls
    deliveredRounds run = [51, 52] ∧ ∀ current ∈ run, OneChain current := by
  intro calls run
  refine ⟨by decide, synced_blocks_form_chain .dev .default 50 ?_⟩
  simp only [calls, forall_trace_cons, forall_trace_nil, and_true]
  refine ⟨trivial, ?_, trivial⟩
  intro _ _
  refine ⟨?_, ?_⟩
  · intro _ _ _ found
    cases found
  · have given : ∀ block : MockBlock, block ∈ [makeBlock 51 1 1 ⟨9⟩, makeBlock 52 1 1 ⟨50⟩] ∨
        (∅ : HashMap U64 MockBlock).lookup (Block.round block) = some block →
        block = makeBlock 51 1 1 ⟨9⟩ ∨ block = makeBlock 52 1 1 ⟨50⟩ := by
      intro block stored
      simpa using stored
    intro parent child first second sum
    rcases given parent first with rfl | rfl <;> rcases given child second with rfl | rfl
    · exact absurd sum (by decide)
    · rfl
    · exact absurd sum (by decide)
    · exact absurd sum (by decide)

/-- Two blocks of one response that are not linked are handed out together, and a
later response replaces the block of round 51. -/
theorem unlinked_answers_accepted :
    let broken := [.startSync 53 1, MockBlock.answer [makeBlock 51 1 1 ⟨9⟩, makeBlock 52 1 1 ⟨8⟩], .readyBlocks]
    let replaced := [.startSync 53 1, MockBlock.answer [makeBlock 51 1 1 ⟨9⟩], MockBlock.answer [makeBlock 51 1 2 ⟨9⟩]]
    let first := trace (call .dev) (.new .default 50 : MockSync) broken
    let second := trace (call .dev) (.new .default 50 : MockSync) replaced
    first.map Event.output =
        [.done (.ok ()), .done (.ok ()), .ready (.ok [makeBlock 51 1 1 ⟨9⟩, makeBlock 52 1 1 ⟨8⟩])] ∧
      (¬ ∀ current ∈ first, OneChain current) ∧
      second.map Event.output = [.done (.ok ()), .done (.ok ()), .done (.ok ())] ∧
      ¬ ∀ current ∈ second, OneChain current := by
  intro broken replaced first second
  refine ⟨by decide, ?_, by decide, ?_⟩
  · intro chain
    have last := chain (event (call .dev) (exec (call .dev) (.new .default 50) (broken.take 2)) .readyBlocks)
      (List.mem_cons_of_mem _ (List.mem_cons_of_mem _ List.mem_cons_self))
    have linked := last.batches [makeBlock 51 1 1 ⟨9⟩, makeBlock 52 1 1 ⟨8⟩] (by decide)
    exact absurd (List.isChain_cons_cons.mp linked).1 (by simp only [Link]; decide)
  · intro chain
    have last := chain (event (call .dev) (exec (call .dev) (.new .default 50) (replaced.take 2))
      (MockBlock.answer [makeBlock 51 1 2 ⟨9⟩])) (List.mem_cons_of_mem _ (List.mem_cons_of_mem _ List.mem_cons_self))
    exact absurd (last.kept _ rfl 51 (makeBlock 51 1 1 ⟨9⟩) (by decide)) (by decide)

end AptosBft.Proofs.SyncDelivery
